import MatchingMachine.Refinement.Lockstep

/-!
# The representation invariant

`Reachable` is every state a book gets into: calls of both entry paths, cancels and `clear` in
any order, with the caller writing to order objects that do not rest in the book in between.
`Consistent` is the invariant of the three structures of a book, stated on the index, the
level maps and the vectors themselves.

Every reachable book represents a priority book (`Reachable.represents`), and a book that
represents one is consistent (`Represents.consistent`).
-/

namespace MatchingMachine

open Interaction

variable {k : Nat}

/-! ## The invariant -/

/-- `p` stands at position `i`, at or behind the cursor, of the level for `price`. -/
def OrderBook.At (b : OrderBook) (s : Side) (price : Int) (i : Nat) (p : OrderPtr) : Prop :=
  ∃ level, (price, level) ∈ (b.levels s).entries ∧ level.head ≤ i ∧
    level.orders[i]? = some (some p)

/-- The index, the levels and the orders agree. -/
structure OrderBook.Consistent (h : Heap) (b : OrderBook) : Prop where
  indexed : ∀ id p, (id, p) ∈ b.orderIndex.entries →
    (h p).orderId = id ∧ ∃ i, b.At (h p).side (h p).price i p ∧
      ∀ s price j, b.At s price j p → s = (h p).side ∧ price = (h p).price ∧ j = i
  resting : ∀ s price i p, b.At s price i p →
    b.orderIndex.find? (h p).orderId = some p ∧ (h p).side = s ∧ (h p).price = price ∧
      0 ≤ (h p).filledQty ∧ (h p).filledQty < (h p).quantity ∧
      (h p).status = if 0 < (h p).filledQty then .PARTIAL else .NEW
  liveFront : ∀ s, ∀ e ∈ (b.levels s).entries, ∃ p, e.2.orders[e.2.head]? = some (some p)
  uncrossed : b.bidLevels.entries ≠ [] → b.askLevels.entries ≠ [] → b.bestBid < b.bestAsk

/-! ## Positions -/

/-- An entry stands at one position of a list whose entries, holes apart, are distinct. -/
theorem getElem?_some_inj {es : List (Option OrderPtr)} (h : es.reduceOption.Nodup)
    {i j : Nat} {p : OrderPtr} (hi : es[i]? = some (some p)) (hj : es[j]? = some (some p)) :
    i = j := by
  induction es generalizing i j with
  | nil => simp at hi
  | cons e es ih =>
      have hMem : ∀ n : Nat, es[n]? = some (some p) → p ∈ es.reduceOption := fun n hn =>
        List.reduceOption_mem_iff.mpr (List.mem_of_getElem? hn)
      cases e with
      | none =>
          cases i with
          | zero => simp at hi
          | succ i =>
              cases j with
              | zero => simp at hj
              | succ j => exact congrArg _ (ih (by simpa using h) (by simpa using hi) (by simpa using hj))
      | some q =>
          rw [List.reduceOption_cons_of_some, List.nodup_cons] at h
          cases i with
          | zero =>
              obtain rfl : q = p := by simpa using hi
              cases j with
              | zero => rfl
              | succ j => exact absurd (hMem j (by simpa using hj)) h.1
          | succ i =>
              cases j with
              | zero =>
                  obtain rfl : q = p := by simpa using hj
                  exact absurd (hMem i (by simpa using hi)) h.1
              | succ j => exact congrArg _ (ih h.2 (by simpa using hi) (by simpa using hj))

theorem getElem?_eq_pending {level : PriceLevel} {i : Nat} (h : level.head ≤ i) :
    level.orders[i]? = level.pending[i - level.head]? := by
  rw [PriceLevel.pending, List.getElem?_drop, Nat.add_sub_cancel' h]

theorem mem_queueOf {s : Side} {ls : Levels s} {price : Int} {p : OrderPtr} :
    (price, p) ∈ queueOf ls ↔ ∃ level, (price, level) ∈ ls.entries ∧ p ∈ level.live := by
  simp only [queueOf, List.mem_flatMap, List.mem_map, Prod.mk.injEq, Prod.exists]
  constructor
  · rintro ⟨_, level, hEntry, _, hp, rfl, rfl⟩
    exact ⟨level, hEntry, hp⟩
  · rintro ⟨level, hEntry, hp⟩
    exact ⟨price, level, hEntry, p, hp, rfl, rfl⟩

namespace OrderBook

variable {b : OrderBook} {s : Side} {price : Int} {p : OrderPtr}

/-- Standing at some position of a level is being in its queue. -/
theorem exists_at_iff : (∃ i, b.At s price i p) ↔ (price, p) ∈ queueOf (b.levels s) := by
  rw [mem_queueOf]
  constructor
  · rintro ⟨i, level, hEntry, hLe, hi⟩
    rw [getElem?_eq_pending hLe] at hi
    exact ⟨level, hEntry, List.reduceOption_mem_iff.mpr (List.mem_of_getElem? hi)⟩
  · rintro ⟨level, hEntry, hp⟩
    obtain ⟨n, hn⟩ := List.getElem?_of_mem (List.reduceOption_mem_iff.mp hp)
    refine ⟨level.head + n, level, hEntry, Nat.le_add_right _ _, ?_⟩
    rwa [getElem?_eq_pending (Nat.le_add_right _ _), Nat.add_sub_cancel_left]

/-- In a level whose queue has no repetition, an order stands at one position. -/
theorem At.inj {i j : Nat} (hi : b.At s price i p) (hj : b.At s price j p)
    (hNodup : ((queueOf (b.levels s)).map Prod.snd).Nodup) : j = i := by
  obtain ⟨level, hEntry, hLe, hGet⟩ := hi
  obtain ⟨level', hEntry', hLe', hGet'⟩ := hj
  obtain rfl : level' = level := by
    have hFind := ((b.levels s).mem_entries_iff price level).mp hEntry
    rw [((b.levels s).mem_entries_iff price level').mp hEntry'] at hFind
    exact Option.some.inj hFind
  have hLive : level'.live.Nodup := by
    obtain ⟨front, back, hSplit⟩ := List.append_of_mem hEntry
    rw [queueOf, hSplit, List.flatMap_append, List.flatMap_cons, List.map_append,
      List.map_append, List.map_map] at hNodup
    have hLevel := hNodup.of_append_right.of_append_left
    simpa [Function.comp_def] using hLevel
  rw [getElem?_eq_pending hLe] at hGet
  rw [getElem?_eq_pending hLe'] at hGet'
  have hSame := getElem?_some_inj hLive hGet' hGet
  omega

end OrderBook

/-! ## From the priority book -/

namespace Represents

variable {h : Heap} {b : OrderBook} {F : PriorityBook}

theorem exists_at_iff (hR : Represents h b F) {s : Side} {price : Int} {p : OrderPtr} :
    (∃ i, b.At s price i p) ↔ ∃ r ∈ F.side s, r.order.price = price ∧ r.ptr = p := by
  rw [OrderBook.exists_at_iff, (hR.sideRep s).queue_eq]
  simp [Resting.key]

/-- A book that represents a priority book is consistent. -/
theorem consistent (hR : Represents h b F) : b.Consistent h where
  indexed id p hEntry := by
    rw [hR.index.mem_iff] at hEntry
    obtain ⟨r, hr, hEq⟩ := List.mem_map.mp hEntry
    obtain ⟨rfl, rfl⟩ : r.order.orderId = id ∧ r.ptr = p := by simpa [Resting.indexEntry] using hEq
    obtain ⟨t, ht⟩ := PriorityBook.mem_all_iff.mp hr
    have hOpen := hR.wellFormed.openOrder t r ht
    rw [hR.contents hr]
    obtain ⟨i, hi⟩ := hR.exists_at_iff.mpr ⟨r, ht, rfl, rfl⟩
    refine ⟨rfl, i, hOpen.side_eq ▸ hi, fun s price j hj => ?_⟩
    obtain ⟨x, hx, hPrice, hPtr⟩ := hR.exists_at_iff.mp ⟨j, hj⟩
    -- no other open order is at this address
    obtain rfl : x = r := List.inj_on_of_nodup_map hR.wellFormed.ptrs_nodup
      (PriorityBook.mem_all_iff.mpr ⟨s, hx⟩) hr hPtr
    obtain rfl : s = t := by rw [← hOpen.side_eq, (hR.wellFormed.openOrder s x hx).side_eq]
    subst hPrice
    refine ⟨hOpen.side_eq.symm, rfl, hi.inj hj ?_⟩
    have hNodup := hR.wellFormed.ptrs_nodup
    rw [← hR.livePtrs_eq, (b.livePtrs_perm s).nodup_iff, List.map_append] at hNodup
    exact hNodup.of_append_left
  resting s price i p hAt := by
    obtain ⟨r, hr, rfl, rfl⟩ := hR.exists_at_iff.mp ⟨i, hAt⟩
    have hAll := PriorityBook.mem_all_iff.mpr ⟨s, hr⟩
    have hOpen := hR.wellFormed.openOrder s r hr
    rw [hR.contents hAll]
    exact ⟨hR.find?_eq_some_iff.mpr ⟨r, hAll, rfl, rfl⟩, hOpen.side_eq, rfl, hOpen.filled_nonneg,
      hOpen.filled_lt, hOpen.status_eq⟩
  liveFront s e he := by
    obtain ⟨p, es, hPending⟩ := (hR.sideRep s).live e he
    refine ⟨p, ?_⟩
    rw [getElem?_eq_pending le_rfl, hPending]
    simp
  uncrossed hBids hAsks := by
    have hNonempty : ∀ s, (b.levels s).entries ≠ [] → ∃ r rs, F.side s = r :: rs := by
      intro s hNe
      obtain ⟨e, es, hEntries⟩ := List.exists_cons_of_ne_nil hNe
      have hLive := (hR.sideRep s).live e (hEntries ▸ List.mem_cons_self ..)
      obtain ⟨p, ps, hps⟩ := List.exists_cons_of_ne_nil hLive.live_ne_nil
      have hQueue := (hR.sideRep s).queue_eq
      rw [queueOf, hEntries, List.flatMap_cons, hps] at hQueue
      obtain ⟨r, rs, hSide, -⟩ := List.map_eq_cons_iff.mp hQueue.symm
      exact ⟨r, rs, hSide⟩
    obtain ⟨bid, bids, hBid⟩ := hNonempty .BUY hBids
    obtain ⟨ask, asks, hAsk⟩ := hNonempty .SELL hAsks
    simp only [PriorityBook.side] at hBid hAsk
    have hLt := hR.wellFormed.uncrossed bid (hBid ▸ List.mem_cons_self ..) ask
      (hAsk ▸ List.mem_cons_self ..)
    rw [hR.bestBid_eq, hR.bestAsk_eq, hBid, hAsk]
    exact hLt

end Represents

/-! ## Reachable states -/

/-- A deallocator that spares what the book still needs during a call with `inc`. -/
def Spares (inc : OrderPtr) (handler : List OrderPtr → OrderPtr → BookState k → BookState k) :
    Prop :=
  ∀ log p s, ∃ h, handler log p s = { s with heap := h } ∧ ∀ q, Held inc p s q → h q = s.heap q

/-- A limit order that may be entered: new, not filled, its ID not live. -/
structure Enters (s : BookState k) (p : OrderPtr) : Prop where
  fresh : FreshLimit (s.heap p)
  notLive : s.book.orderIndex.find? (s.heap p).orderId = none

/-- The states a book gets into. -/
inductive Reachable : BookState k → Prop
  | new (heap : Heap) (buf : TradeRingBuffer k) :
      Reachable { heap := heap, book := {}, buf := buf }
  | outside {s : BookState k} (heap : Heap) (buf : TradeRingBuffer k) (hs : Reachable s)
      (hResting : ∀ q ∈ s.book.livePtrs, heap q = s.heap q) :
      Reachable { s with heap := heap, buf := buf }
  | addOrder {s s' : BookState k} {p : OrderPtr} {now : UInt64} (hs : Reachable s)
      (hEnters : Enters s p) (hCall : s.addOrder (some p) now = some s') : Reachable s'
  | addOrderNoalloc {s s' : BookState k} {p : OrderPtr} {now : UInt64}
      {handler : List OrderPtr → OrderPtr → BookState k → BookState k} {log : List OrderPtr}
      (hs : Reachable s) (hEnters : (s.heap p).type = .LIMIT → Enters s p)
      (hSpares : Spares p handler)
      (hCall : run handler [] (s.addOrderNoalloc (some p) now) = some (log, s')) : Reachable s'
  | cancelOrder {s : BookState k} (id : UInt64) (hs : Reachable s) :
      Reachable (s.cancelOrder id).2
  | clear {s : BookState k} (hs : Reachable s) : Reachable s.clear

/-- An object that rests in the book is neither a cancel request nor a limit order whose ID is
not live. -/
theorem Represents.ptr_fresh {s : BookState k} {F : PriorityBook}
    (hR : Represents s.heap s.book F) {p : OrderPtr}
    (hNotLive : (s.heap p).type = .LIMIT →
      s.book.orderIndex.find? (s.heap p).orderId = none) : p ∉ F.ptrs := by
  intro hp
  obtain ⟨r, hr, rfl⟩ := List.mem_map.mp hp
  obtain ⟨side, hSide⟩ := PriorityBook.mem_all_iff.mp hr
  have hFind := hNotLive (by rw [hR.contents hr, (hR.wellFormed.openOrder side r hSide).type_eq])
  rw [hR.contents hr, hR.find?_eq_some_iff.mpr ⟨r, hr, rfl, rfl⟩] at hFind
  cases hFind

/-- An ID that is not in the index is not in the priority book. -/
theorem Represents.id_fresh {h : Heap} {b : OrderBook} {F : PriorityBook}
    (hR : Represents h b F) {id : UInt64} (hFind : b.orderIndex.find? id = none) : id ∉ F.ids := by
  rw [hR.find?_eq_lookup, Option.map_eq_none_iff] at hFind
  exact PriorityBook.lookup_eq_none_iff.mp hFind

/-- A request whose limit order may be entered is admissible. -/
theorem Represents.admissible {s : BookState k} {F : PriorityBook}
    (hR : Represents s.heap s.book F) {p : OrderPtr} (now : UInt64)
    (hEnters : (s.heap p).type = .LIMIT → Enters s p) :
    F.Admissible p ((s.heap p).stamp now) := by
  obtain ⟨t, ht⟩ := (s.heap p).stamp_eq now
  rw [ht]
  refine
    { ptr_fresh := hR.ptr_fresh fun hType => (hEnters hType).notLive
      limit := fun hType => ?_ }
  have hFresh := (hEnters hType).fresh
  exact ⟨⟨hType, hFresh.status_eq, hFresh.filled_eq⟩, hR.id_fresh (hEnters hType).notLive⟩

/-- Every reachable book represents a priority book. -/
theorem Reachable.represents {s : BookState k} (hs : Reachable s) :
    ∃ F, Represents s.heap s.book F := by
  induction hs with
  | new heap buf => exact ⟨{}, represents_empty heap⟩
  | outside heap buf _ hResting ih =>
      obtain ⟨F, hR⟩ := ih
      exact ⟨F, hR.congr_heap fun q hq => hResting q (hR.livePtrs_eq ▸ hq)⟩
  | @addOrder s s' p now _ hEnters hCall ih =>
      obtain ⟨F, hR⟩ := ih
      have hAdm := hR.admissible now fun _ => hEnters
      obtain ⟨s', hCall', hPost⟩ := addOrder_post hR hEnters.fresh.type_eq hAdm.accepts
      obtain rfl := Option.some.inj (hCall'.symm.trans hCall)
      exact ⟨_, hPost.represents⟩
  | @addOrderNoalloc s s' p now handler log _ hEnters hSpares hCall ih =>
      obtain ⟨F, hR⟩ := ih
      have hAdm := hR.admissible now hEnters
      have hRely : ∀ log a (s : BookState k), (ownership p F.ptrs fun _ => False).guar log a s →
          (ownership p F.ptrs fun _ => False).rely log a s (handler log a s) := by
        intro log a s _
        obtain ⟨h, hEq, hHeld⟩ := hSpares log a s
        exact ⟨h, hEq, fun q hq => hHeld q (hq.resolve_right not_false)⟩
      obtain ⟨log', s'', hCall', hPost⟩ := run_of_wp hRely (addOrderNoalloc_wp hR hAdm.accepts _)
      obtain ⟨rfl, rfl⟩ : log' = log ∧ s'' = s' := by simpa [hCall'] using hCall
      exact ⟨_, hPost.represents⟩
  | cancelOrder id _ ih =>
      obtain ⟨F, hR⟩ := ih
      exact ⟨_, (cancelOrder_post hR id).2.1⟩
  | clear _ _ => exact ⟨{}, represents_empty _⟩

/-- In every reachable state the index and the levels describe the same open orders, every
level has a live order at its cursor and the book is not crossed. -/
theorem representationInvariant {s : BookState k} (hs : Reachable s) :
    s.book.Consistent s.heap := by
  obtain ⟨F, hR⟩ := hs.represents
  exact hR.consistent

/-- Three sell orders at one price.  A buy order fills a part of the first, the second is cancelled,
and another buy order rests below: the level has a hole, and both sides have orders. -/
theorem representationInvariant_both_sides :
    ∃ s : BookState 4, s.book.bestBid = 99 ∧ s.book.bestAsk = 101 ∧ (s.heap 0).filledQty = 2 ∧
      (s.book.askLevels.find? 101).map PriceLevel.orders = some [some 0, none, some 2] ∧
      s.book.Consistent s.heap := by
  let sell (id : UInt64) : Order :=
    { orderId := id, timestampNs := 1, price := 101, quantity := 5, side := .SELL }
  let heap : Heap := fun p => match p with
    | 0 => sell 1
    | 1 => sell 2
    | 2 => sell 3
    | 3 => { orderId := 4, timestampNs := 1, price := 101, quantity := 2, side := .BUY }
    | _ => { orderId := 5, timestampNs := 1, price := 99, quantity := 3, side := .BUY }
  let add (p : OrderPtr) (s : BookState 4) : BookState 4 := (s.addOrder (some p) 7).getD s
  have hAdd : ∀ {s : BookState 4} {p : OrderPtr}, Reachable s →
      ((s.addOrder (some p) 7).isSome = true ∧ (s.heap p).type = .LIMIT ∧
        (s.heap p).status = .NEW ∧ (s.heap p).filledQty = 0 ∧
        s.book.orderIndex.find? (s.heap p).orderId = none) → Reachable (add p s) := by
    rintro s p hs ⟨hCall, hType, hStatus, hFilled, hNew⟩
    obtain ⟨s', hCall⟩ := Option.isSome_iff_exists.mp hCall
    have hNext := hs.addOrder ⟨⟨hType, hStatus, hFilled⟩, hNew⟩ hCall
    rwa [show add p s = s' by simp only [add, hCall, Option.getD_some]]
  let s₀ : BookState 4 := { heap := heap, book := {} }
  let asks : BookState 4 := add 2 (add 1 (add 0 s₀))
  let traded : BookState 4 := add 3 asks
  have hAsks : Reachable asks :=
    hAdd (hAdd (hAdd (.new _ _) (by decide +kernel)) (by decide +kernel)) (by decide +kernel)
  have hTraded : Reachable traded := hAdd hAsks (by decide +kernel)
  have hBids : Reachable (add 4 (traded.cancelOrder 2).2) :=
    hAdd (hTraded.cancelOrder 2) (by decide +kernel)
  exact ⟨add 4 (traded.cancelOrder 2).2, by decide +kernel, by decide +kernel, by decide +kernel,
    by decide +kernel, representationInvariant hBids⟩

end MatchingMachine
