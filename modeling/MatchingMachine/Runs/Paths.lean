import MatchingMachine.Runs.Ownership

/-!
# The two entry paths agree

One stream of objects served through the allocation-free path and again through the path that
returns vectors.  Both runs refine the run of the same priority book (`Served.represents`), so
trades, final orders and the books they end in correspond; the trade buffer has received the
trades of the run (`Served.buf_eq`).

The second run reads another clock.  A limit order with a preset timestamp does not notice, and
of a cancel request only the request object does.
-/

namespace MatchingMachine

variable {k : Nat}

/-- A deallocator that does not change the orders. -/
def Deallocator.KeepsOrders (D : Deallocator k) : Prop := D.WritesOnly fun _ => True

/-- The same objects, submitted under another clock. -/
def SameObjects (xs ys : List Submission) : Prop :=
  List.Forall₂ (fun x y => x.ptr = y.ptr ∧ x.order = y.order) xs ys

/-- The book after a stream. -/
def PriorityBook.submitAll (F : PriorityBook) : List Submission → PriorityBook
  | [] => F
  | x :: xs => (F.submit x.ptr (x.order.stamp x.now)).book.submitAll xs

/-! ## The clock -/

theorem Order.stamp_of_ne_zero {o : Order} (h : o.timestampNs ≠ 0) (now : UInt64) :
    o.stamp now = o := if_neg h

/-- A request's effect on the book does not depend on the clock, but for the request itself. -/
theorem submit_clock (F : PriorityBook) (p : OrderPtr) {o : Order}
    (hClock : o.type = .LIMIT → o.timestampNs ≠ 0) (now now' : UInt64) :
    (F.submit p (o.stamp now)).book = (F.submit p (o.stamp now')).book ∧
      (F.submit p (o.stamp now)).trades = (F.submit p (o.stamp now')).trades ∧
      ∀ r ∈ (F.submit p (o.stamp now)).returned, r.order.type = .LIMIT →
        r ∈ (F.submit p (o.stamp now')).returned := by
  cases hType : o.type with
  | LIMIT =>
      rw [Order.stamp_of_ne_zero (hClock hType), Order.stamp_of_ne_zero (hClock hType)]
      exact ⟨rfl, rfl, fun r hr _ => hr⟩
  | CANCEL =>
      obtain ⟨t, ht⟩ := o.stamp_eq now
      obtain ⟨t', ht'⟩ := o.stamp_eq now'
      rw [ht, ht']
      unfold PriorityBook.submit PriorityBook.cancelRequest
      dsimp only
      rw [hType]
      refine ⟨rfl, rfl, fun r hr hLimit => ?_⟩
      rcases List.mem_append.mp hr with hr | hr
      · exact List.mem_append_left _ hr
      · have hCancel : r.order.type = .CANCEL := by
          rw [List.mem_singleton] at hr
          rw [hr]
        rw [hCancel] at hLimit
        exact nomatch hLimit

theorem admits_clock {F : PriorityBook} {x y : Submission} (hPtr : x.ptr = y.ptr)
    (hOrder : x.order = y.order) (h : F.Admits x) : F.Admits y := by
  obtain ⟨t, ht⟩ := x.order.stamp_eq x.now
  obtain ⟨t', ht'⟩ := x.order.stamp_eq y.now
  unfold PriorityBook.Admits at h ⊢
  rw [← hPtr, ← hOrder, ht']
  rw [ht] at h
  refine ⟨h.ptr_fresh, fun hType => ?_⟩
  obtain ⟨hFresh, hId⟩ := h.limit hType
  exact ⟨⟨hFresh.type_eq, hFresh.status_eq, hFresh.filled_eq⟩, hId⟩

/-- Every limit order of the stream has a timestamp of its own. -/
def PresetClock (xs : List Submission) : Prop :=
  ∀ x ∈ xs, x.order.type = .LIMIT → x.order.timestampNs ≠ 0

theorem admitsAll_clock {F : PriorityBook} {xs ys : List Submission} (hSame : SameObjects xs ys)
    (hClock : PresetClock xs) (h : F.AdmitsAll xs) : F.AdmitsAll ys := by
  induction hSame generalizing F with
  | nil => trivial
  | @cons x y xs ys hxy hRest ih =>
      obtain ⟨hPtr, hOrder⟩ := hxy
      have hBook := (submit_clock F x.ptr (hClock x (List.mem_cons_self ..)) x.now y.now).1
      refine ⟨admits_clock hPtr hOrder h.1, ?_⟩
      rw [← hPtr, ← hOrder, ← hBook]
      exact ih (fun x hx => hClock x (List.mem_cons_of_mem _ hx)) h.2

theorem submitAll_clock (F : PriorityBook) {xs ys : List Submission} (hSame : SameObjects xs ys)
    (hClock : PresetClock xs) : F.submitAll xs = F.submitAll ys := by
  induction hSame generalizing F with
  | nil => rfl
  | @cons x y xs ys hxy hRest ih =>
      obtain ⟨hPtr, hOrder⟩ := hxy
      have hBook := (submit_clock F x.ptr (hClock x (List.mem_cons_self ..)) x.now y.now).1
      rw [PriorityBook.submitAll, PriorityBook.submitAll, ← hPtr, ← hOrder, ← hBook]
      exact ih _ fun x hx => hClock x (List.mem_cons_of_mem _ hx)

/-! ## One run -/

namespace Served

variable {stable : OrderPtr → Prop} {F : PriorityBook} {entries entries' : Nat → Entry k}
  {s s' final final' : BookState k} {xs ys : List Submission} {calls calls' : List (Call k)}

theorem represents (h : Served stable F entries s xs calls final) :
    Represents final.heap final.book (F.submitAll xs) := by
  induction h with
  | nil hR => exact hR
  | cons _ _ _ _ ih => exact ih

/-- The trade buffer receives the trades of the run. -/
theorem buf_eq (h : Served stable F entries s xs calls final) (hNoalloc : AllNoalloc entries) :
    final.buf = s.buf.pushAll (Call.allTrades calls) := by
  induction h with
  | nil hR => rfl
  | @cons F entries s final x xs reply calls hR hAdm hPost hRest ih =>
      rw [ih fun n => hNoalloc (n + 1), hPost.buf_eq (hNoalloc 0), ← hPost.trades_eq]
      simp [TradeRingBuffer.pushAll, Call.allTrades, BookState.callOf]

/-! ## Two runs -/

/-- Both runs make the same trades, call by call. -/
theorem trades_eq (h : Served stable F entries s xs calls final)
    (h' : Served stable F entries' s' ys calls' final') (hSame : SameObjects xs ys)
    (hClock : PresetClock xs) : calls.map Call.trades = calls'.map Call.trades := by
  induction h generalizing ys entries' s' calls' with
  | nil hR =>
      cases hSame
      cases h'
      rfl
  | @cons F entries s final x xs reply calls hR hAdm hPost hRest ih =>
      cases hSame with
      | @cons _ y _ ys hxy hTail =>
          obtain ⟨hPtr, hOrder⟩ := hxy
          have hClock' : PresetClock xs := fun x hx => hClock x (List.mem_cons_of_mem _ hx)
          obtain ⟨hBook, hTrades, -⟩ :=
            submit_clock F x.ptr (hClock x (List.mem_cons_self ..)) x.now y.now
          cases h' with
          | @cons _ _ _ _ _ _ reply' calls' hR' hAdm' hPost' hRest' =>
              rw [← hPtr, ← hOrder, ← hBook] at hRest'
              have hHead : reply.state.trades = reply'.state.trades := by
                rw [hPost.trades_eq, hPost'.trades_eq, hTrades, hPtr, hOrder]
              simp only [List.map_cons, BookState.callOf, hHead, ih hRest' hTail hClock']

end Served

/-- What a call returns of limit orders, and what it leaves in the book, are the order it was
given and those that rested. -/
theorem mem_returned_or_rests {F : PriorityBook} (hF : F.WellFormed) {p : OrderPtr} {o : Order}
    {q : OrderPtr} (hq : q ∈ F.ptrs ∨ q = p ∧ o.type = .LIMIT) (hp : p ∉ F.ptrs) :
    q ∈ (F.submit p o).book.ptrs ∨
      ∃ r ∈ (F.submit p o).returned, r.ptr = q ∧ r.order.type = .LIMIT := by
  have hConserves := PriorityBook.submit_conserves hF p o
    (f := fun r => (r.ptr, r.order.type)) fun _ _ h => by rw [h.ptr_eq, h.type_eq]
  have hMem : (q, OrderType.LIMIT) ∈ (p, o.type) :: F.all.map fun r => (r.ptr, r.order.type) := by
    rcases hq with hq | ⟨rfl, hType⟩
    · obtain ⟨r, hr, rfl⟩ := List.mem_map.mp hq
      obtain ⟨side, hSide⟩ := PriorityBook.mem_all_iff.mp hr
      refine List.mem_cons_of_mem _ (List.mem_map.mpr ⟨r, hr, ?_⟩)
      rw [(hF.openOrder side r hSide).type_eq]
    · rw [hType]
      exact List.mem_cons_self ..
  obtain ⟨r, hr, hEq⟩ := List.mem_map.mp (hConserves.mem_iff.mpr hMem)
  obtain ⟨rfl, hType⟩ : r.ptr = q ∧ r.order.type = .LIMIT := by simpa using hEq
  rcases List.mem_append.mp hr with hr | hr
  · exact Or.inr ⟨r, hr, rfl, hType⟩
  · exact Or.inl (List.mem_map_of_mem hr)

/-- Both runs leave every order that rested, every limit order of the stream, and everything
else they had in common and did not submit, with the same contents. -/
theorem Served.heap_eq {F : PriorityBook} {entries entries' : Nat → Entry k}
    {s s' final final' : BookState k} {xs ys : List Submission} {calls calls' : List (Call k)}
    (h : Served (fun _ => True) F entries s xs calls final)
    (h' : Served (fun _ => True) F entries' s' ys calls' final') (hSame : SameObjects xs ys)
    (hClock : PresetClock xs) (hObjects : (xs.map Submission.ptr).Nodup)
    (hFresh : ∀ x ∈ xs, x.ptr ∉ F.ptrs) {q : OrderPtr}
    (hq : q ∈ F.ptrs ∨ (∃ x ∈ xs, x.order.type = .LIMIT ∧ x.ptr = q) ∨
      s.heap q = s'.heap q ∧ ∀ x ∈ xs, x.ptr ≠ q) :
    final.heap q = final'.heap q := by
  induction h generalizing ys entries' s' calls' with
  | @nil F entries s hR =>
      cases hSame
      cases h' with
      | nil hR' =>
          rcases hq with hq | ⟨x, hx, -⟩ | ⟨hq, -⟩
          · obtain ⟨r, hr, rfl⟩ := List.mem_map.mp hq
            rw [hR.contents hr, hR'.contents hr]
          · exact absurd hx List.not_mem_nil
          · exact hq
  | @cons F entries s final x xs reply calls hR hAdm hPost hRest ih =>
      cases hSame with
      | @cons _ y _ ys hxy hTail =>
          obtain ⟨hPtr, hOrder⟩ := hxy
          rw [List.map_cons, List.nodup_cons] at hObjects
          have hClock' : PresetClock xs := fun x hx => hClock x (List.mem_cons_of_mem _ hx)
          obtain ⟨hBook, -, hReturned⟩ :=
            submit_clock F x.ptr (hClock x (List.mem_cons_self ..)) x.now y.now
          have hp : x.ptr ∉ F.ptrs := hFresh x (List.mem_cons_self ..)
          have hFresh' : ∀ z ∈ xs, z.ptr ∉ (F.submit x.ptr (x.order.stamp x.now)).book.ptrs := by
            intro z hz hMem
            rcases PriorityBook.mem_ptrs_submit hR.wellFormed hMem with hEq | hOld
            · exact hObjects.1 (hEq ▸ List.mem_map_of_mem hz)
            · exact hFresh z (List.mem_cons_of_mem _ hz) hOld
          cases h' with
          | @cons _ _ _ _ _ _ reply' calls' hR' hAdm' hPost' hRest' =>
              rw [← hPtr, ← hOrder, ← hBook] at hRest'
              refine ih hRest' hTail hClock' hObjects.2 hFresh' ?_
              have hType : (x.order.stamp x.now).type = x.order.type := by
                obtain ⟨t, ht⟩ := x.order.stamp_eq x.now
                rw [ht]
              -- an order of the book or of this call rests again or has been handed back
              have hOwn : q ∈ F.ptrs ∨ q = x.ptr ∧ x.order.type = .LIMIT →
                  q ∈ (F.submit x.ptr (x.order.stamp x.now)).book.ptrs ∨
                    (∃ z ∈ xs, z.order.type = .LIMIT ∧ z.ptr = q) ∨
                    reply.state.heap q = reply'.state.heap q ∧ ∀ z ∈ xs, z.ptr ≠ q := by
                intro hq
                have hSplit := mem_returned_or_rests hR.wellFormed
                  (hq.imp id (And.imp id hType.trans)) hp
                refine hSplit.imp id fun hBack => Or.inr ?_
                obtain ⟨r, hr, rfl, hLimit⟩ := hBack
                have hr' := hReturned r hr hLimit
                rw [hPtr, hOrder] at hr'
                refine ⟨(hPost.contents r hr hLimit trivial).trans
                  (hPost'.contents r hr' hLimit trivial).symm, fun z hz hEq => ?_⟩
                rcases hq with hq | ⟨hq, -⟩
                · exact hFresh z (List.mem_cons_of_mem _ hz) (hEq ▸ hq)
                · exact hObjects.1 (hq ▸ hEq ▸ List.mem_map_of_mem hz)
              rcases hq with hq | ⟨z, hz, hLimit, rfl⟩ | ⟨hq, hNe⟩
              · exact hOwn (Or.inl hq)
              · rcases List.mem_cons.mp hz with rfl | hz
                · exact hOwn (Or.inr ⟨rfl, hLimit⟩)
                · exact Or.inr (Or.inl ⟨z, hz, hLimit, rfl⟩)
              · by_cases hMem : q ∈ F.ptrs
                · exact hOwn (Or.inl hMem)
                · have hqx : q ≠ x.ptr := (hNe x (List.mem_cons_self ..)).symm
                  refine Or.inr (Or.inr ⟨?_, fun z hz => hNe z (List.mem_cons_of_mem _ hz)⟩)
                  rw [hPost.frame q trivial hqx hMem, hPost'.frame q trivial (hPtr ▸ hqx) hMem, hq]

/-! ## The two paths -/

/-- The allocation-free path and the path that returns vectors agree.  For every stream of
distinct objects that may be entered on a new book, in which limit orders have a timestamp of
their own, and every deallocator that does not change the orders: both runs make the same
trades, leave every limit order with the same contents, and end in books that any further
stream, on any path, sees as the same; the trade buffer has counted the trades and holds the
most recent of them, oldest first. -/
theorem entryPathsAgree (hk : k < 64) (heap : Heap) {buf : TradeRingBuffer k} {old : List Trade}
    (hBuf : buf.Holds old) {D : Nat → Deallocator k} (hD : ∀ n, (D n).KeepsOrders)
    {xs ys : List Submission} (hSame : SameObjects xs ys) (hClock : PresetClock xs)
    (hObjects : (xs.map Submission.ptr).Nodup)
    (hAdmits : ({ heap := heap, book := {}, buf := buf } : BookState k).AdmitsAll
      (fun n => .noalloc (D n)) xs) :
    ∃ calls final calls' final',
      ({ heap := heap, book := {}, buf := buf } : BookState k).serveAll
          (fun n => .noalloc (D n)) xs = some (calls, final) ∧
        ({ heap := heap, book := {}, buf := buf } : BookState k).serveAll
          (fun _ => .vector) ys = some (calls', final') ∧
        calls.map Call.trades = calls'.map Call.trades ∧
        (∀ x ∈ xs, x.order.type = .LIMIT → final.heap x.ptr = final'.heap x.ptr) ∧
        wrap64 final.buf.totalWritten = wrap64 (buf.totalWritten + (Call.allTrades calls).length) ∧
        final.buf.held = (old ++ Call.allTrades calls).drop
          ((old ++ Call.allTrades calls).length - 2 ^ k) ∧
        ∀ (entries : Nat → Entry k) (more : List Submission),
          (∀ n, (entries n).WritesOnly fun _ => False) → (more.map Submission.ptr).Nodup →
          (∀ x ∈ more, x.ptr ∉ final.book.livePtrs) → final.AdmitsAll entries more →
          ∃ next end₁ next' end₂, final.serveAll entries more = some (next, end₁) ∧
            final'.serveAll entries more = some (next', end₂) ∧
            next.map Call.seen = next'.map Call.seen := by
  have hR : Represents heap {} {} := represents_empty heap
  have hWrites : ∀ n, (Entry.noalloc (D n)).WritesOnly fun _ => True := hD
  have hVector : ∀ _ : Nat, (Entry.vector : Entry k).WritesOnly fun _ => True := fun _ => trivial
  have hFresh : ∀ x ∈ xs, x.ptr ∉ ({} : PriorityBook).ptrs := fun _ _ => List.not_mem_nil
  have hAdm : ({} : PriorityBook).AdmitsAll xs :=
    Represents.admitsAll (s := { heap := heap, book := {}, buf := buf }) hR hWrites hObjects
      hFresh hAdmits
  -- both runs are compared with the one priority book
  obtain ⟨calls, final, hRun, hServed⟩ :=
    serveAll_served (s := { heap := heap, book := {}, buf := buf }) hR hWrites hAdm
  obtain ⟨calls', final', hRun', hServed'⟩ :=
    serveAll_served (s := { heap := heap, book := {}, buf := buf }) hR hVector
      (admitsAll_clock hSame hClock hAdm)
  have hBufEq := hServed.buf_eq fun _ => rfl
  refine ⟨calls, final, calls', final', hRun, hRun', hServed.trades_eq hServed' hSame hClock,
    ?_, ?_, ?_, ?_⟩
  · exact fun x hx hLimit => hServed.heap_eq hServed' hSame hClock hObjects hFresh
      (Or.inr (Or.inl ⟨x, hx, hLimit, rfl⟩))
  · rw [hBufEq, TradeRingBuffer.totalWritten_pushAll]
  · rw [hBufEq]
    exact (hBuf.pushAll hk _).held_eq hk
  · intro entries more hEntries hMore hNot hAdmits'
    have hFinal := hServed.represents
    have hFinal' := hServed'.represents
    -- the books agree from here on, whichever paths the later orders take
    rw [← submitAll_clock _ hSame hClock] at hFinal'
    rw [hFinal.livePtrs_eq] at hNot
    have hAdm' := hFinal.admitsAll hEntries hMore hNot hAdmits'
    obtain ⟨next, end₁, hNext, hSeen⟩ := serveAll_served hFinal hEntries hAdm'
    obtain ⟨next', end₂, hNext', hSeen'⟩ := serveAll_served hFinal' hEntries hAdm'
    exact ⟨next, end₁, next', end₂, hNext, hNext', hSeen.seen_eq.trans hSeen'.seen_eq.symm⟩

/-- A sell order, a buy order that takes part of it, and a cancel of what is left. -/
theorem entryPathsAgree_short_stream :
    ∃ calls calls' : List (Call 4), calls.map Call.found = [false, false, true] ∧
      (Call.allTrades calls).map Trade.quantity = [3] ∧
      calls.map Call.trades = calls'.map Call.trades := by
  let stream : UInt64 → List Submission := fun now =>
    [⟨0, { orderId := 1, timestampNs := 1, price := 100, quantity := 5, side := .SELL }, now⟩,
      ⟨1, { orderId := 2, timestampNs := 2, price := 101, quantity := 3 }, now⟩,
      ⟨2, { orderId := 1, type := .CANCEL }, now⟩]
  have hSeen : (({ heap := fun _ => {}, book := {}, buf := {} } : BookState 4).serveAll
      (fun _ => .noalloc (.inert 4)) (stream 7)).map (fun r =>
        (r.1.map Call.found, (Call.allTrades r.1).map Trade.quantity)) =
      some ([false, false, true], [3]) := by decide +kernel
  obtain ⟨calls, final, calls', final', hRun, -, hTrades, -⟩ :=
    entryPathsAgree (k := 4) (by decide) (fun _ => {}) TradeRingBuffer.holds_empty
      (D := fun _ => .inert 4) (fun _ => Deallocator.inert_writesOnly _)
      (show SameObjects (stream 7) (stream 8) from
        .cons ⟨rfl, rfl⟩ (.cons ⟨rfl, rfl⟩ (.cons ⟨rfl, rfl⟩ .nil)))
      (by unfold PresetClock; decide) (by decide) (by decide +kernel)
  rw [hRun] at hSeen
  obtain ⟨hFound, hQuantity⟩ := Prod.mk.inj (Option.some.inj hSeen)
  exact ⟨calls, calls', hFound, hQuantity, hTrades⟩

end MatchingMachine
