import MatchingMachine.Refinement.Represents

/-!
# The relation in the middle of a match

`Matching` relates a book state inside the matching loops to what is left of the sweep: the
incoming order as it is now, the rest of the opposite queue and the untouched own queue.
The lemmas follow the statements of the loops: a fill, dropping a filled order, keeping a
partly filled one, erasing an exhausted level, and the end of the loop.
-/

namespace MatchingMachine

/-- A book state in the middle of matching `inc`, now with contents `o`, against `rs`. -/
structure Matching (h : Heap) (b : OrderBook) (opp : Side) (inc : OrderPtr) (o : Order)
    (tradeId : UInt64) (rs own : List Resting) : Prop where
  queue_eq : queueOf (b.levels opp) = rs.map Resting.key
  frontClean : ∀ e ∈ (b.levels opp).entries.head?, e.2.Clean
  tailLive : ∀ e ∈ (b.levels opp).entries.tail, e.2.Live
  contents : ∀ r ∈ rs, h r.ptr = r.order
  ownRep : SideRep h (b.levels opp.opposite) own
  incoming : h inc = o
  index : b.orderIndex.entries.Perm ((o.orderId, inc) :: (rs ++ own).map Resting.indexEntry)
  counter : b.tradeIdCounter = tradeId
  openOrder : ∀ r ∈ rs, OpenOrder opp r.order
  nodup : (inc :: (rs ++ own).map Resting.ptr).Nodup

namespace Matching

variable {h : Heap} {b : OrderBook} {opp : Side} {inc : OrderPtr} {o : Order}
  {tradeId : UInt64} {rs own : List Resting}

theorem livePtrs_perm (hM : Matching h b opp inc o tradeId rs own) :
    b.livePtrs.Perm ((rs ++ own).map Resting.ptr) := by
  refine (b.livePtrs_perm opp).trans (List.Perm.of_eq ?_)
  rw [hM.queue_eq, hM.ownRep.queue_eq, ← List.map_append, map_snd_key]

/-- What the environment may change outside the orders of the match does not matter. -/
theorem congr_heap (hM : Matching h b opp inc o tradeId rs own) {h' : Heap}
    (hInc : h' inc = h inc) (hAgree : ∀ q ∈ (rs ++ own).map Resting.ptr, h' q = h q) :
    Matching h' b opp inc o tradeId rs own where
  queue_eq := hM.queue_eq
  frontClean := hM.frontClean
  tailLive := hM.tailLive
  contents r hr := by
    rw [hAgree r.ptr (List.mem_map_of_mem (List.mem_append_left _ hr)), hM.contents r hr]
  ownRep :=
    { queue_eq := hM.ownRep.queue_eq
      live := hM.ownRep.live
      contents := fun r hr => by
        rw [hAgree r.ptr (List.mem_map_of_mem (List.mem_append_right _ hr)),
          hM.ownRep.contents r hr] }
  incoming := hInc.trans hM.incoming
  index := hM.index
  counter := hM.counter
  openOrder := hM.openOrder
  nodup := hM.nodup

/-- The front of the first level is the front of the queue. -/
theorem front_eq (hM : Matching h b opp inc o tradeId rs own) {price : Int}
    {level : PriceLevel} {es : List (Int × PriceLevel)} {q : OrderPtr}
    (hEntries : (b.levels opp).entries = (price, level) :: es) (hFront : level.front = some q) :
    ∃ r rs', rs = r :: rs' ∧ r.ptr = q ∧ r.order.price = price := by
  have hQueue := hM.queue_eq
  rw [queueOf, hEntries, List.flatMap_cons, PriceLevel.live_popFront hFront, List.map_cons,
    List.cons_append] at hQueue
  obtain ⟨r, rs', hrs, hKey, -⟩ := List.map_eq_cons_iff.mp hQueue.symm
  exact ⟨r, rs', hrs, congrArg Prod.snd hKey, congrArg Prod.fst hKey⟩

/-- Writing to the incoming and to the front order leaves the rest of the memory. -/
theorem agree_of_modify {r : Resting} {rs' : List Resting}
    (hM : Matching h b opp inc o tradeId (r :: rs') own) {q : OrderPtr}
    (hq : q ∈ (rs' ++ own).map Resting.ptr) : q ≠ inc ∧ q ≠ r.ptr := by
  have hNodup := hM.nodup
  simp only [List.cons_append, List.map_cons, List.nodup_cons] at hNodup
  constructor
  · rintro rfl
    exact hNodup.1 (List.mem_cons_of_mem _ hq)
  · rintro rfl
    exact hNodup.2.1 hq

theorem front_ne {r : Resting} {rs' : List Resting}
    (hM : Matching h b opp inc o tradeId (r :: rs') own) : r.ptr ≠ inc := by
  have hNodup := hM.nodup
  simp only [List.cons_append, List.map_cons, List.nodup_cons, List.mem_cons, not_or] at hNodup
  exact fun hEq => hNodup.1.1 hEq.symm

/-- The front order is full: it leaves the level and the index. -/
theorem drop_front {r : Resting} {rs' : List Resting}
    (hM : Matching h b opp inc o tradeId (r :: rs') own) {price : Int} {level : PriceLevel}
    {es : List (Int × PriceLevel)} (hEntries : (b.levels opp).entries = (price, level) :: es)
    (hFront : level.front = some r.ptr) {h' : Heap} {o' : Order} {tradeId' : UInt64}
    (hId : o'.orderId = o.orderId) (hInc : h' inc = o')
    (hAgree : ∀ q, q ≠ inc → q ≠ r.ptr → h' q = h q) {b' : OrderBook}
    (hLevels : b'.levels opp = (b.levels opp).modifyBegin PriceLevel.popFront)
    (hOwn : b'.levels opp.opposite = b.levels opp.opposite)
    (hIndex : b'.orderIndex = b.orderIndex.erase r.order.orderId)
    (hCounter : b'.tradeIdCounter = tradeId') :
    Matching h' b' opp inc o' tradeId' rs' own := by
  have hEntries' := OrderedMap.entries_modifyBegin hEntries PriceLevel.popFront
  have hQueue := hM.queue_eq
  rw [queueOf, hEntries, List.flatMap_cons, PriceLevel.live_popFront hFront, List.map_cons,
    List.cons_append, List.map_cons, List.cons.injEq] at hQueue
  have hKeep : ∀ q ∈ (rs' ++ own).map Resting.ptr, h' q = h q := fun q hq =>
    hAgree q (hM.agree_of_modify hq).1 (hM.agree_of_modify hq).2
  have hNodup := hM.nodup
  simp only [List.cons_append, List.map_cons] at hNodup
  refine
    { queue_eq := ?_, frontClean := ?_, tailLive := ?_, contents := ?_, ownRep := ?_
      incoming := hInc, index := ?_, counter := hCounter, openOrder := ?_, nodup := ?_ }
  · rw [hLevels, queueOf, hEntries', List.flatMap_cons, hQueue.2]
  · rw [hLevels, hEntries']
    intro e he
    obtain rfl : e = (price, level.popFront) := by simpa using he.symm
    exact level.clean_popFront
  · rw [hLevels, hEntries']
    have hTail := hM.tailLive
    rwa [hEntries] at hTail
  · intro r' hr'
    rw [hKeep r'.ptr (List.mem_map_of_mem (List.mem_append_left _ hr')),
      hM.contents r' (List.mem_cons_of_mem _ hr')]
  · rw [hOwn]
    exact
      { queue_eq := hM.ownRep.queue_eq
        live := hM.ownRep.live
        contents := fun r' hr' => by
          rw [hKeep r'.ptr (List.mem_map_of_mem (List.mem_append_right _ hr')),
            hM.ownRep.contents r' hr'] }
  · rw [hIndex, hId]
    refine OrderedMap.erase_perm_of_cons _ (v := r.ptr) (hM.index.trans ?_)
    exact List.Perm.swap _ _ _
  · exact fun r' hr' => hM.openOrder r' (List.mem_cons_of_mem _ hr')
  · exact List.Nodup.sublist (List.Sublist.cons_cons _ (List.sublist_cons_self _ _)) hNodup

/-- The front order is partly filled and stays. -/
theorem keep_front {r : Resting} {rs' : List Resting}
    (hM : Matching h b opp inc o tradeId (r :: rs') own) {h' : Heap} {o' : Order}
    {tradeId' : UInt64} {r' : Resting} (hSame : SameOrder r' r) (hOpen : OpenOrder opp r'.order)
    (hId : o'.orderId = o.orderId) (hInc : h' inc = o') (hFront : h' r.ptr = r'.order)
    (hAgree : ∀ q, q ≠ inc → q ≠ r.ptr → h' q = h q) {b' : OrderBook}
    (hLevels : ∀ s, b'.levels s = b.levels s) (hIndex : b'.orderIndex = b.orderIndex)
    (hCounter : b'.tradeIdCounter = tradeId') :
    Matching h' b' opp inc o' tradeId' (r' :: rs') own := by
  have hKeep : ∀ q ∈ (rs' ++ own).map Resting.ptr, h' q = h q := fun q hq =>
    hAgree q (hM.agree_of_modify hq).1 (hM.agree_of_modify hq).2
  refine
    { queue_eq := ?_, frontClean := ?_, tailLive := ?_, contents := ?_, ownRep := ?_
      incoming := hInc, index := ?_, counter := hCounter, openOrder := ?_, nodup := ?_ }
  · rw [hLevels, hM.queue_eq, List.map_cons, List.map_cons, Resting.key, Resting.key,
      hSame.price_eq, hSame.ptr_eq]
  · rw [hLevels]
    exact hM.frontClean
  · rw [hLevels]
    exact hM.tailLive
  · intro x hx
    rcases List.mem_cons.mp hx with rfl | hx
    · rw [hSame.ptr_eq, hFront]
    · rw [hKeep x.ptr (List.mem_map_of_mem (List.mem_append_left _ hx)),
        hM.contents x (List.mem_cons_of_mem _ hx)]
  · rw [hLevels]
    exact
      { queue_eq := hM.ownRep.queue_eq
        live := hM.ownRep.live
        contents := fun x hx => by
          rw [hKeep x.ptr (List.mem_map_of_mem (List.mem_append_right _ hx)),
            hM.ownRep.contents x hx] }
  · rw [hIndex, hId, List.cons_append, List.map_cons, indexEntry_of_sameOrder r' r hSame]
    exact hM.index
  · intro x hx
    rcases List.mem_cons.mp hx with rfl | hx
    · exact hOpen
    · exact hM.openOrder x (List.mem_cons_of_mem _ hx)
  · have hNodup := hM.nodup
    rwa [List.cons_append, List.map_cons, ← hSame.ptr_eq] at hNodup

/-- An exhausted level is erased. -/
theorem erase_front (hM : Matching h b opp inc o tradeId rs own) {price : Int}
    {level : PriceLevel} {es : List (Int × PriceLevel)}
    (hEntries : (b.levels opp).entries = (price, level) :: es) (hEmpty : level.live = []) :
    Matching h (b.setLevels opp (b.levels opp).eraseBegin) opp inc o tradeId rs own := by
  have hEntries' := OrderedMap.entries_eraseBegin hEntries
  have hTail := hM.tailLive
  rw [hEntries, List.tail_cons] at hTail
  have hQueue := hM.queue_eq
  rw [queueOf, hEntries, List.flatMap_cons, hEmpty, List.map_nil, List.nil_append] at hQueue
  refine
    { queue_eq := ?_, frontClean := ?_, tailLive := ?_, contents := hM.contents, ownRep := ?_
      incoming := hM.incoming, index := ?_, counter := ?_, openOrder := hM.openOrder
      nodup := hM.nodup }
  · rw [OrderBook.levels_setLevels, queueOf, hEntries', hQueue]
  · rw [OrderBook.levels_setLevels, hEntries']
    exact fun e he => (hTail e (List.mem_of_mem_head? he)).clean
  · rw [OrderBook.levels_setLevels, hEntries']
    exact fun e he => hTail e (List.mem_of_mem_tail he)
  · rw [OrderBook.levels_setLevels_of_ne b (Side.opposite_ne opp)]
    exact hM.ownRep
  · rw [OrderBook.orderIndex_setLevels]
    exact hM.index
  · rw [OrderBook.tradeIdCounter_setLevels]
    exact hM.counter

end Matching

end MatchingMachine
