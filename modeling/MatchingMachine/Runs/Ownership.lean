import MatchingMachine.Priority.Trades
import MatchingMachine.Refinement.Runs

/-!
# Orders are handed back exactly once

The conservation law of the allocation-free path: at every moment each object that was
submitted has been handed to the deallocator or stands at a live position of the book, and the
two together are the submitted objects, each once.  Within a call the deallocator receives the
filled resting orders in the order of the trades and then the incoming order, or the cancelled
order and then the request.

What a caller sees of a run is a function of the abstract run (`Served.seen_eq`).  Contents of
returned objects do not occur in it, so a deallocator that overwrites them changes nothing.
-/

namespace MatchingMachine

variable {k : Nat}

/-- What a caller sees of a call. -/
structure Seen where
  found : Bool
  trades : List Trade
  returned : List OrderPtr
  bestBid : Int
  bestAsk : Int
  orderCount : Nat
  deriving DecidableEq

def Call.seen (c : Call k) : Seen where
  found := c.found
  trades := c.trades
  returned := c.returned
  bestBid := c.after.book.bestBid
  bestAsk := c.after.book.bestAsk
  orderCount := c.after.book.orderCount

/-- The resting orders a call has filled, in the order of its trades: those whose trade is for
all that remained of them before the call. -/
def Call.filledResting (c : Call k) : List OrderPtr :=
  c.trades.filterMap fun t =>
    (c.before.book.orderIndex.find? (t.idOn c.request.order.side.opposite)).filter fun p =>
      (c.before.heap p).remainingQty = t.quantity

/-- The orders the deallocator is to receive in a call, in order. -/
def Call.dueBack (c : Call k) : List OrderPtr :=
  match c.request.order.type with
  | .LIMIT =>
      c.filledResting ++
        if c.request.order.quantity ≤ (c.trades.map Trade.quantity).sum then [c.request.ptr]
        else []
  | .CANCEL =>
      (c.before.book.orderIndex.find? c.request.order.orderId).toList ++ [c.request.ptr]

/-- All orders handed back during a run. -/
def Call.allReturned (calls : List (Call k)) : List OrderPtr := calls.flatMap Call.returned

/-! ## One call -/

/-- The deallocator calls of a limit order, read off its trades. -/
theorem returned_eq_of_limit {F : PriorityBook} (hF : F.WellFormed) {p : OrderPtr} {o : Order}
    (hFilled : o.filledQty = 0) {look : UInt64 → Option OrderPtr} {remaining : OrderPtr → Int}
    (hLook : ∀ r ∈ F.all, look r.order.orderId = some r.ptr)
    (hRemaining : ∀ r ∈ F.all, remaining r.ptr = r.order.remainingQty) :
    (F.addLimit p o).returned.map Resting.ptr =
      ((F.addLimit p o).trades.filterMap fun t =>
          (look (t.idOn o.side.opposite)).filter fun q => remaining q = t.quantity) ++
        if o.quantity ≤ ((F.addLimit p o).trades.map Trade.quantity).sum then [p] else [] := by
  have hMem : ∀ r ∈ F.side o.side.opposite, r ∈ F.all := fun r hr =>
    PriorityBook.mem_all_iff.mpr ⟨_, hr⟩
  have hPtrs : (F.sweepOf o).filled.map Resting.ptr = _ :=
    sweep_filled_ptrs o F.lastTradeId
      (fun r hr => hLook r (hMem r hr)) fun r hr => hRemaining r (hMem r hr)
  have hSum : (F.sweepOf o).incoming.filledQty = _ := sweep_sum o F.lastTradeId _
  obtain ⟨qty, -, hIncoming, -⟩ :=
    sweep_incoming o F.lastTradeId (hF.openOrder o.side.opposite)
  have hQuantity : (F.sweepOf o).incoming.quantity = o.quantity := by
    rw [PriorityBook.sweepOf, hIncoming]
    rfl
  have hFull : (F.sweepOf o).incoming.isFilled = true ↔
      o.quantity ≤ ((F.sweepOf o).trades.map Trade.quantity).sum := by
    rw [Order.isFilled_iff, hQuantity, hSum, hFilled, zero_add]
    rfl
  cases hFill : (F.sweepOf o).incoming.isFilled with
  | true =>
      rw [PriorityBook.addLimit_of_filled p hFill]
      dsimp only
      rw [if_pos (hFull.mp hFill), List.map_append]
      exact congrArg (· ++ [p]) hPtrs
  | false =>
      rw [PriorityBook.addLimit_of_open p hFill]
      dsimp only
      rw [if_neg (fun h => by simp [hFull.mpr h] at hFill), List.append_nil]
      exact hPtrs

/-- In a call the deallocator receives what is due back, in order. -/
theorem ServePost.returned_eq_dueBack {stable : OrderPtr → Prop} {F : PriorityBook}
    {entry : Entry k} (hEntry : entry.isNoalloc = true) {x : Submission} {s : BookState k}
    {reply : Reply k} (hR : Represents s.heap s.book F) (hAdm : F.Admits x)
    (hPost : ServePost stable F entry x s reply) :
    reply.returned = (s.callOf x reply).dueBack := by
  obtain ⟨t, ht⟩ := x.order.stamp_eq x.now
  have hPlace := hR.place hAdm.ptr_fresh x.order
  have hLook : ∀ r ∈ F.all,
      (s.place x.ptr x.order).book.orderIndex.find? r.order.orderId = some r.ptr := fun r hr =>
    hPlace.find?_eq_some_iff.mpr ⟨r, hr, rfl, rfl⟩
  have hRead : ∀ r ∈ F.all,
      ((s.place x.ptr x.order).heap r.ptr).remainingQty = r.order.remainingQty := fun r hr =>
    congrArg Order.remainingQty (hPlace.contents hr)
  rw [hPost.returned_eq, if_pos hEntry]
  unfold Call.dueBack Call.filledResting BookState.callOf
  dsimp only
  rw [hPost.trades_eq, PriorityBook.submit]
  cases hType : x.order.type with
  | LIMIT =>
      have hType' : (x.order.stamp x.now).type = .LIMIT := by rw [ht, hType]
      have hFresh := (hAdm.limit hType').1
      rw [hType']
      dsimp only
      have hSide : x.order.side = (x.order.stamp x.now).side := by rw [ht]
      have hQuantity : x.order.quantity = (x.order.stamp x.now).quantity := by rw [ht]
      rw [hSide, hQuantity]
      exact returned_eq_of_limit hR.wellFormed hFresh.filled_eq hLook hRead
  | CANCEL =>
      have hType' : (x.order.stamp x.now).type = .CANCEL := by rw [ht, hType]
      have hId : (x.order.stamp x.now).orderId = x.order.orderId := by rw [ht]
      rw [hType']
      dsimp only
      rw [hPlace.find?_eq_lookup, PriorityBook.cancelRequest, hId]
      cases F.lookup x.order.orderId <;> rfl

/-! ## Runs -/

/-- What a caller sees of an abstract request. -/
def PriorityBook.seen (F : PriorityBook) (isNoalloc : Bool) (x : Submission) : Seen :=
  let out := F.submit x.ptr (x.order.stamp x.now)
  { found := decide (x.order.type = .CANCEL) && (F.lookup x.order.orderId).isSome
    trades := out.trades
    returned := if isNoalloc then out.returned.map Resting.ptr else []
    bestBid := (out.book.bids.head?.map fun r => r.order.price).getD 0
    bestAsk := (out.book.asks.head?.map fun r => r.order.price).getD 0
    orderCount := out.book.all.length }

/-- What a caller sees of an abstract run. -/
def PriorityBook.seenAll (F : PriorityBook) (paths : Nat → Bool) : List Submission → List Seen
  | [] => []
  | x :: xs =>
      F.seen (paths 0) x ::
        (F.submit x.ptr (x.order.stamp x.now)).book.seenAll (fun n => paths (n + 1)) xs

/-- The entry path is the allocation-free one throughout. -/
def AllNoalloc (entries : Nat → Entry k) : Prop := ∀ n, (entries n).isNoalloc = true

namespace Served

variable {stable : OrderPtr → Prop} {F : PriorityBook} {entries : Nat → Entry k}
  {s final : BookState k} {xs : List Submission} {calls : List (Call k)}

/-- What a caller sees does not depend on the contents of returned orders. -/
theorem seen_eq (h : Served stable F entries s xs calls final) :
    calls.map Call.seen = F.seenAll (fun n => (entries n).isNoalloc) xs := by
  induction h with
  | nil hR => rfl
  | @cons F entries s final x xs reply calls hR hAdm hPost hRest ih =>
      rw [List.map_cons, PriorityBook.seenAll, ih]
      refine congrArg (· :: _) ?_
      simp only [Call.seen, BookState.callOf, PriorityBook.seen, hPost.found_eq,
        hPost.trades_eq, hPost.returned_eq, hPost.represents.bestBid_eq,
        hPost.represents.bestAsk_eq, hPost.represents.orderCount_eq]

/-- Every call hands back what is due. -/
theorem dueBack (h : Served stable F entries s xs calls final) (hNoalloc : AllNoalloc entries) :
    ∀ c ∈ calls, c.returned = c.dueBack := by
  induction h with
  | nil hR => simp
  | @cons F entries s final x xs reply calls hR hAdm hPost hRest ih =>
      intro c hc
      rcases List.mem_cons.mp hc with rfl | hc
      · exact hPost.returned_eq_dueBack (hNoalloc 0) hR hAdm
      · exact ih (fun n => hNoalloc (n + 1)) c hc

/-- After every call, what has been handed back and what rests in the book is what rested at
the start and what has been submitted, each once. -/
theorem conserves (h : Served stable F entries s xs calls final)
    (hNoalloc : AllNoalloc entries) {front back : List (Call k)} {c : Call k}
    (hCalls : calls = front ++ c :: back) :
    (Call.allReturned (front ++ [c]) ++ c.after.book.livePtrs).Perm
      ((front ++ [c]).map (fun c => c.request.ptr) ++ F.ptrs) := by
  induction h generalizing front with
  | nil hR => simp at hCalls
  | @cons F entries s final x xs reply calls hR hAdm hPost hRest ih =>
      have hStep := PriorityBook.submit_ptrs_perm hR.wellFormed x.ptr (x.order.stamp x.now)
      rw [← hPost.returned_eq.trans (if_pos (hNoalloc 0))] at hStep
      cases front with
      | nil =>
          obtain ⟨rfl, -⟩ := List.cons.inj hCalls
          simpa [Call.allReturned, BookState.callOf, hPost.represents.livePtrs_eq] using hStep
      | cons d front =>
          obtain ⟨rfl, hCalls'⟩ := List.cons.inj hCalls
          have hTail := ih (fun n => hNoalloc (n + 1)) hCalls'
          have hSwap := hTail.append_left reply.returned
          simp only [Call.allReturned, BookState.callOf, List.cons_append, List.flatMap_cons, List.map_cons,
            List.append_assoc] at hSwap ⊢
          refine hSwap.trans ?_
          refine (List.perm_append_comm_assoc _ _ _).trans ?_
          refine (hStep.append_left _).trans ?_
          exact List.perm_middle

end Served

/-- `add_order_noalloc` hands every order back exactly once and never looks at it again.  For
every stream of distinct objects that may be entered on a new book, and a deallocator that
overwrites what it is handed: after every call each submitted object has been handed back or
rests, exactly once; every call hands back what is due, in order; and the caller sees what it
would see with a deallocator that leaves the orders alone. -/
theorem returnedExactlyOnce (heap : Heap) (buf : TradeRingBuffer k)
    (junk : Nat → List OrderPtr → OrderPtr → Order) (xs : List Submission)
    (hObjects : (xs.map Submission.ptr).Nodup)
    (hAdmits : ({ heap := heap, book := {}, buf := buf } : BookState k).AdmitsAll
      (fun n => .noalloc (.overwriting (junk n))) xs) :
    ∃ calls final calls' final',
      ({ heap := heap, book := {}, buf := buf } : BookState k).serveAll
          (fun n => .noalloc (.overwriting (junk n))) xs = some (calls, final) ∧
        (∀ front c back, calls = front ++ c :: back →
          (Call.allReturned (front ++ [c]) ++ c.after.book.livePtrs).Perm
            ((front ++ [c]).map fun c => c.request.ptr)) ∧
        (∀ c ∈ calls, c.returned = c.dueBack) ∧
        ({ heap := heap, book := {}, buf := buf } : BookState k).serveAll
          (fun _ => .noalloc (.inert k)) xs = some (calls', final') ∧
        calls.map Call.seen = calls'.map Call.seen := by
  have hR : Represents heap {} {} := represents_empty heap
  have hWrites : ∀ n, (Entry.noalloc (.overwriting (junk n)) : Entry k).WritesOnly fun _ => False :=
    fun n => Deallocator.overwriting_writesOnly (junk n)
  have hInert : ∀ _ : Nat, (Entry.noalloc (.inert k) : Entry k).WritesOnly fun _ => True :=
    fun _ => Deallocator.inert_writesOnly _
  have hAdm : ({} : PriorityBook).AdmitsAll xs :=
    Represents.admitsAll (s := { heap := heap, book := {}, buf := buf }) hR hWrites hObjects
      (fun _ _ => List.not_mem_nil) hAdmits
  obtain ⟨calls, final, hRun, hServed⟩ :=
    serveAll_served (s := { heap := heap, book := {}, buf := buf }) hR hWrites hAdm
  obtain ⟨calls', final', hRun', hServed'⟩ :=
    serveAll_served (s := { heap := heap, book := {}, buf := buf }) hR hInert hAdm
  refine ⟨calls, final, calls', final', hRun, fun front c back hCalls => ?_,
    hServed.dueBack fun _ => rfl, hRun', ?_⟩
  · have hPerm := hServed.conserves (fun _ => rfl) hCalls
    have hPtrs : ({} : PriorityBook).ptrs = [] := rfl
    rwa [hPtrs, List.append_nil] at hPerm
  · rw [hServed.seen_eq, hServed'.seen_eq]
    rfl

/-- A buy order that fills a resting sell order, and a cancel of an unknown ID, with a
deallocator that resets the objects. -/
theorem returnedExactlyOnce_short_stream :
    ∃ calls : List (Call 4), calls.map Call.returned = [[], [0, 1], [2]] ∧
      ∀ c ∈ calls, c.returned = c.dueBack := by
  let xs : List Submission :=
    [⟨0, { orderId := 1, timestampNs := 1, price := 100, quantity := 5, side := .SELL }, 7⟩,
      ⟨1, { orderId := 2, timestampNs := 2, price := 101, quantity := 5 }, 7⟩,
      ⟨2, { orderId := 9, type := .CANCEL }, 7⟩]
  have hSeen : (({ heap := fun _ => {}, book := {}, buf := {} } : BookState 4).serveAll
      (fun _ => .noalloc (.overwriting fun _ _ => {})) xs).map
        (fun r => r.1.map Call.returned) = some [[], [0, 1], [2]] := by decide +kernel
  obtain ⟨calls, final, -, -, hRun, -, hDue, -⟩ :=
    returnedExactlyOnce (k := 4) (fun _ => {}) {} (fun _ _ _ => {}) xs (by decide)
      (by decide +kernel)
  rw [hRun] at hSeen
  exact ⟨calls, Option.some.inj hSeen, hDue⟩

end MatchingMachine
