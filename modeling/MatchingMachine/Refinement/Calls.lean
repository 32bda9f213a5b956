import MatchingMachine.Refinement.Noalloc
import MatchingMachine.Refinement.Queues

/-!
# Calls of the allocation-free path

`addOrderNoalloc_wp`: under the deallocator protocol a call terminates, makes exactly the
deallocator calls, trades and buffer writes of the abstract request, and ends in a book that
represents the abstract result.  The proof follows the call: the loop (`matchLoop_wp`), the
status of the incoming order, resting what is left, the last deallocator call; a cancel
request is `cancelResting_represents` and two deallocator calls.
-/

namespace MatchingMachine

open Interaction

variable {k : Nat}

/-- An order as it enters the book: a zero timestamp is replaced. -/
def Order.stamp (o : Order) (now : UInt64) : Order :=
  if o.timestampNs = 0 then { o with timestampNs := now } else o

/-- Stamping changes the timestamp only. -/
theorem Order.stamp_eq (o : Order) (now : UInt64) :
    ∃ t, o.stamp now = { o with timestampNs := t } := by
  unfold Order.stamp
  split
  · exact ⟨now, rfl⟩
  · exact ⟨o.timestampNs, rfl⟩

/-- Both sides of a book, in whichever order they are given. -/
theorem Represents.of_sides (s : Side) {h : Heap} {b : OrderBook} {F : PriorityBook}
    (hSide : SideRep h (b.levels s) (F.side s))
    (hOther : SideRep h (b.levels s.opposite) (F.side s.opposite))
    (hIndex : b.orderIndex.entries.Perm
      ((F.side s ++ F.side s.opposite).map Resting.indexEntry))
    (hCounter : b.tradeIdCounter = F.lastTradeId) (hF : F.WellFormed) : Represents h b F where
  sideRep t := by
    cases s <;> cases t <;> assumption
  index := hIndex.trans ((F.all_perm s).symm.map _)
  counter := hCounter
  wellFormed := hF

/-! ## The matching loop -/

/-- The state after the matching loop of an incoming order `o` at `p`: everything is as the
sweep says, and the incoming order still is in the index. -/
structure Swept (stable : OrderPtr → Prop) (F : PriorityBook) (p : OrderPtr) (o : Order)
    (s₀ : BookState k) (log : List OrderPtr) (s : BookState k) : Prop where
  matching : Matching s.heap s.book o.side.opposite p (F.sweepOf o).incoming
    (F.sweepOf o).tradeId (F.sweepOf o).rest (F.side o.side)
  live : ∀ e ∈ (s.book.levels o.side.opposite).entries, e.2.Live
  log_eq : log = (F.sweepOf o).filled.map Resting.ptr
  trades_eq : s.trades = (F.sweepOf o).trades
  buf_eq : s.buf = s₀.buf.pushAll (F.sweepOf o).trades
  overflow_eq : s.overflow = (s₀.overflow || (F.sweepOf o).overflow)
  filled_stable : ∀ r ∈ (F.sweepOf o).filled, stable r.ptr → s.heap r.ptr = r.order
  frame : ∀ q, stable q → q ≠ p → q ∉ F.ptrs → s.heap q = s₀.heap q

/-- The state in which an incoming order meets the book is the start of its match. -/
theorem Represents.matching {s : BookState k} {F : PriorityBook}
    (hR : Represents s.heap s.book F) {p : OrderPtr} (hp : p ∉ F.ptrs)
    (hId : (s.heap p).orderId ∉ F.ids) :
    Matching (s.insertIndex (s.heap p).orderId p).heap
      (s.insertIndex (s.heap p).orderId p).book (s.heap p).side.opposite p (s.heap p)
      F.lastTradeId (F.side (s.heap p).side.opposite) (F.side (s.heap p).side) := by
  have hOpp := hR.sideRep (s.heap p).side.opposite
  have hOwn := hR.sideRep (s.heap p).side.opposite.opposite
  have hSide : F.side (s.heap p).side.opposite.opposite = F.side (s.heap p).side := by
    rw [Side.opposite_opposite]
  rw [hSide] at hOwn
  have hPerm := PriorityBook.all_perm_opposite F (s.heap p).side
  have hFind : s.book.orderIndex.find? (s.heap p).orderId = none := by
    rw [hR.find?_eq_lookup, PriorityBook.lookup_eq_none_iff.mpr hId, Option.map_none]
  simp only [BookState.insertIndex]
  exact
    { queue_eq := by rw [OrderBook.levels_mk, hOpp.queue_eq]
      frontClean := by
        rw [OrderBook.levels_mk]
        exact fun e he => (hOpp.live e (List.mem_of_mem_head? he)).clean
      tailLive := by
        rw [OrderBook.levels_mk]
        exact fun e he => hOpp.live e (List.mem_of_mem_tail he)
      contents := hOpp.contents
      ownRep := by
        rw [OrderBook.levels_mk]
        exact hOwn
      incoming := rfl
      index := (OrderedMap.entries_upsert_perm _ _ hFind).trans
        ((hR.index.trans (hPerm.map _)).cons _)
      counter := hR.counter
      openOrder := hR.wellFormed.openOrder _
      nodup := by
        have hNodup : (p :: F.ptrs).Nodup := List.nodup_cons.mpr ⟨hp, hR.wellFormed.ptrs_nodup⟩
        exact (List.Perm.cons p (hPerm.map Resting.ptr)).nodup_iff.mp hNodup }

/-- The matching loop carries out the sweep. -/
theorem matchLoop_wp {s : BookState k} {F : PriorityBook} (hR : Represents s.heap s.book F)
    {p : OrderPtr} (hp : p ∉ F.ptrs) (hId : (s.heap p).orderId ∉ F.ids) (hTrades : s.trades = [])
    (stable : OrderPtr → Prop) :
    wp (ownership p F.ptrs stable) (Swept stable F p (s.heap p) s) []
      (loop .stuck (BookState.matchRoundNoalloc (s.heap p).side.opposite p)
        ((s.book.levels (s.heap p).side.opposite).size + 2)
        (s.insertIndex (s.heap p).orderId p)) := by
  have hPerm := PriorityBook.all_perm_opposite F (s.heap p).side
  have hM := hR.matching hp hId
  have hOpp := hR.sideRep (s.heap p).side.opposite
  let c : MatchContext k :=
    { opp := (s.heap p).side.opposite, inc := p, order := s.heap p
      queue := F.side (s.heap p).side.opposite, own := F.side (s.heap p).side
      heap := s.heap, buf := s.buf, stable := stable
      result := (F.sweepOf (s.heap p)).prepend [] [] s.overflow, ptrs := F.ptrs }
  have hc : c.Valid := { nodup := hM.nodup, ptrs_perm := (hPerm.map Resting.ptr).symm }
  have hStart : c.Inv [] (s.insertIndex (s.heap p).orderId p) (s.heap p) F.lastTradeId
      (F.side (s.heap p).side.opposite) [] :=
    { matching := hM
      result_eq := by
        simp only [BookState.insertIndex, hTrades]
        rfl
      log_eq := rfl
      queue_eq := rfl
      buf_eq := by
        simp only [BookState.insertIndex, hTrades]
        rfl
      done_stable := by simp
      frame := fun _ _ _ _ => rfl
      price_eq := rfl
      id_eq := rfl }
  have hLive : c.AllLive (s.insertIndex (s.heap p).orderId p) := by
    simp only [MatchContext.AllLive, BookState.insertIndex, OrderBook.levels_mk]
    exact hOpp.live
  have hMeasure : c.matchMeasure (s.insertIndex (s.heap p).orderId p) <
      (s.book.levels (s.heap p).side.opposite).size + 2 := by
    have hLt := c.matchMeasure_lt (s.insertIndex (s.heap p).orderId p)
    rwa [BookState.insertIndex, OrderBook.levels_mk] at hLt
  have hLoop : wp (ownership c.inc c.ptrs c.stable) c.MatchDone []
      (loop .stuck (BookState.matchRoundNoalloc c.opp c.inc)
        ((s.book.levels (s.heap p).side.opposite).size + 2)
        (s.insertIndex (s.heap p).orderId p)) :=
    wp_loop c.InMatch c.matchMeasure (c.matchRoundNoalloc_wp hc) hMeasure
      ⟨hLive, _, _, _, _, hStart⟩
  refine wp_mono (fun log s' hDone => ?_) hLoop
  obtain ⟨hLive', o, tradeId, rs, done, hI, hStop⟩ := hDone
  -- nothing is left to sweep, so what has been done so far is the whole sweep
  have hResult := hI.result_eq
  rw [sweep_stop hStop] at hResult
  have hSweep : (F.sweepOf (s.heap p)).prepend [] [] s.overflow =
      { incoming := o, tradeId := tradeId, rest := rs, trades := s'.trades, filled := done,
        overflow := s'.overflow } := by
    change c.result = _
    rw [hResult]
    simp [SweepResult.prepend]
  simp only [SweepResult.prepend, List.nil_append, SweepResult.mk.injEq] at hSweep
  obtain ⟨rfl, rfl, rfl, hTrades', rfl, hOverflow⟩ := hSweep
  exact
    { matching := hI.matching
      live := hLive'
      log_eq := hI.log_eq
      trades_eq := hTrades'.symm
      buf_eq := by rw [hTrades', hI.buf_eq]
      overflow_eq := hOverflow.symm
      filled_stable := hI.done_stable
      frame := fun q hst hq hMem => hI.frame q hst hq fun hQueue =>
        hMem ((hPerm.map Resting.ptr).mem_iff.mpr (by
          rw [List.map_append]
          exact List.mem_append_left _ hQueue)) }

/-! ## The status of the incoming order, and resting it -/

namespace BookState

variable (s : BookState k) (p : OrderPtr)

theorem settleIncoming_heap_self : (s.settleIncoming p).heap p = (s.heap p).settle := by
  unfold settleIncoming Order.settle
  split
  · simp [setStatus, modifyOrder, eraseIndex]
  · split
    · simp [setStatus, modifyOrder]
    · rfl

theorem settleIncoming_heap_of_ne {q : OrderPtr} (hNe : q ≠ p) :
    (s.settleIncoming p).heap q = s.heap q := by
  unfold settleIncoming
  split
  · simp [setStatus, modifyOrder, eraseIndex, Heap.modify_of_ne hNe]
  · split
    · simp [setStatus, modifyOrder, Heap.modify_of_ne hNe]
    · rfl

variable {s p}

theorem settleIncoming_of_filled (h : (s.heap p).isFilled = true) :
    s.settleIncoming p = (s.setStatus p .FILLED).eraseIndex (s.heap p).orderId := by
  rw [settleIncoming, if_pos h]

theorem settleIncoming_book_of_open (h : (s.heap p).isFilled = false) :
    (s.settleIncoming p).book = s.book := by
  rw [settleIncoming, if_neg (by simp [h])]
  split <;> rfl

theorem settleIncoming_trades : (s.settleIncoming p).trades = s.trades := by
  unfold settleIncoming
  split
  · rfl
  · split <;> rfl

theorem settleIncoming_buf : (s.settleIncoming p).buf = s.buf := by
  unfold settleIncoming
  split
  · rfl
  · split <;> rfl

theorem settleIncoming_overflow : (s.settleIncoming p).overflow = s.overflow := by
  unfold settleIncoming
  split
  · rfl
  · split <;> rfl

/-- A full order does not rest. -/
theorem restOrder_of_filled (h : (s.heap p).isFilled = true) : s.restOrder p = s := by
  simp [restOrder, h]

theorem restOrder_of_open {o : Order} (ho : s.heap p = o) (h : o.isFilled = false)
    (hType : o.type = .LIMIT) :
    s.restOrder p =
      { s with
        book := s.book.setLevels o.side
          ((s.book.levels o.side).upsert o.price fun level => (level.getD {}).push p) } := by
  subst ho
  simp [restOrder, h, hType]

end BookState

/-- Everything a call owes: what the abstract request says, and nothing else changed. -/
structure CallPost (stable : OrderPtr → Prop) (F : PriorityBook) (p : OrderPtr) (out : Outcome)
    (s₀ : BookState k) (log : List OrderPtr) (s : BookState k) : Prop where
  represents : Represents s.heap s.book out.book
  log_eq : log = out.returned.map Resting.ptr
  trades_eq : s.trades = out.trades
  buf_eq : s.buf = s₀.buf.pushAll out.trades
  overflow_eq : s.overflow = (s₀.overflow || out.overflow)
  returned_stable : ∀ r ∈ out.returned, stable r.ptr → s.heap r.ptr = r.order
  frame : ∀ q, stable q → q ≠ p → q ∉ F.ptrs → s.heap q = s₀.heap q

namespace Swept

variable {stable : OrderPtr → Prop} {F : PriorityBook} {p : OrderPtr} {o : Order}
  {s₀ s : BookState k} {log : List OrderPtr}

theorem rest_ptr_ne (hS : Swept stable F p o s₀ log s) {r : Resting}
    (hr : r ∈ (F.sweepOf o).rest ++ F.side o.side) : r.ptr ≠ p := by
  rintro rfl
  exact (List.nodup_cons.mp hS.matching.nodup).1 (List.mem_map_of_mem hr)

/-- The own queue, as a queue of the side the incoming order is on. -/
theorem ownRep (hS : Swept stable F p o s₀ log s) :
    SideRep s.heap (s.book.levels o.side) (F.side o.side) := by
  have hOwn := hS.matching.ownRep
  rwa [Side.opposite_opposite] at hOwn

/-- A queue that does not contain the incoming order does not see its status change. -/
theorem sideRep_settle {t : Side} {ls : Levels t} {rs : List Resting}
    (hRep : SideRep s.heap ls rs) (hNe : ∀ r ∈ rs, r.ptr ≠ p) :
    SideRep (s.settleIncoming p).heap ls rs where
  queue_eq := hRep.queue_eq
  live := hRep.live
  contents r hr := by
    rw [s.settleIncoming_heap_of_ne p (hNe r hr)]
    exact hRep.contents r hr

theorem oppositeRep (hS : Swept stable F p o s₀ log s) :
    SideRep s.heap (s.book.levels o.side.opposite) (F.sweepOf o).rest where
  queue_eq := hS.matching.queue_eq
  live := hS.live
  contents := hS.matching.contents

/-- The incoming order is full. -/
theorem represents_of_filled (hS : Swept stable F p o s₀ log s)
    (hF : (F.addLimit p o).book.WellFormed)
    (hFill : (F.sweepOf o).incoming.isFilled = true) :
    Represents (s.settleIncoming p).heap (s.settleIncoming p).book (F.addLimit p o).book := by
  have hNe : o.side ≠ o.side.opposite := (Side.opposite_ne _).symm
  have hIncoming := hS.matching.incoming
  have hHeap : (s.heap p).isFilled = true := by rw [hIncoming, hFill]
  have hOpp := sideRep_settle hS.oppositeRep fun r hr =>
    hS.rest_ptr_ne (List.mem_append_left _ hr)
  have hOwn := sideRep_settle hS.ownRep fun r hr =>
    hS.rest_ptr_ne (List.mem_append_right _ hr)
  have hIndex := OrderedMap.erase_perm_of_cons _ hS.matching.index
  rw [PriorityBook.addLimit_of_filled p hFill] at hF ⊢
  rw [BookState.settleIncoming_of_filled hHeap] at hOpp hOwn ⊢
  refine Represents.of_sides o.side ?_ ?_ ?_ hS.matching.counter hF
  · rw [PriorityBook.side_withId, PriorityBook.side_setSide_of_ne _ hNe]
    rwa [BookState.eraseIndex, OrderBook.levels_mk]
  · rw [PriorityBook.side_withId, PriorityBook.side_setSide]
    rwa [BookState.eraseIndex, OrderBook.levels_mk]
  · simp only [PriorityBook.side_withId, PriorityBook.side_setSide,
      PriorityBook.side_setSide_of_ne _ hNe]
    rw [hIncoming]
    exact hIndex.trans (List.perm_append_comm.map _)

/-- What is left of the incoming order rests. -/
theorem represents_of_open (hS : Swept stable F p o s₀ log s)
    (hF : (F.addLimit p o).book.WellFormed)
    (hDone : OpenOrder o.side (F.doneOf p o).order)
    (hFill : (F.sweepOf o).incoming.isFilled = false) :
    Represents ((s.settleIncoming p).restOrder p).heap ((s.settleIncoming p).restOrder p).book
      (F.addLimit p o).book := by
  have hNe : o.side ≠ o.side.opposite := (Side.opposite_ne _).symm
  have hIncoming := hS.matching.incoming
  have hHeap : (s.heap p).isFilled = false := by rw [hIncoming, hFill]
  have hSelf : (s.settleIncoming p).heap p = (F.doneOf p o).order := by
    rw [s.settleIncoming_heap_self, hIncoming]
    rfl
  have hBook := BookState.settleIncoming_book_of_open hHeap
  have hOpp := sideRep_settle hS.oppositeRep fun r hr =>
    hS.rest_ptr_ne (List.mem_append_left _ hr)
  have hOwn := sideRep_settle hS.ownRep fun r hr =>
    hS.rest_ptr_ne (List.mem_append_right _ hr)
  have hJoin := hOwn.enqueue (r := F.doneOf p o) hSelf
  rw [PriorityBook.addLimit_of_open p hFill] at hF ⊢
  rw [BookState.restOrder_of_open hSelf hDone.not_isFilled hDone.type_eq, hDone.side_eq, hBook]
  refine Represents.of_sides o.side ?_ ?_ ?_ ?_ hF
  · rw [PriorityBook.side_setSide, OrderBook.levels_setLevels]
    exact hJoin
  · rw [PriorityBook.side_setSide_of_ne _ hNe.symm, PriorityBook.side_withId,
      PriorityBook.side_setSide, OrderBook.levels_setLevels_of_ne _ hNe.symm]
    exact hOpp
  · have hEntry : (F.doneOf p o).indexEntry = ((F.sweepOf o).incoming.orderId, p) := by
      obtain ⟨status, hStatus⟩ := (F.sweepOf o).incoming.settle_eq
      rw [Resting.indexEntry, PriorityBook.doneOf, hStatus]
    simp only [OrderBook.orderIndex_setLevels, PriorityBook.side_setSide,
      PriorityBook.side_setSide_of_ne _ hNe.symm, PriorityBook.side_withId]
    refine hS.matching.index.trans ?_
    rw [← hEntry, ← List.map_cons]
    refine List.Perm.map _ ?_
    exact (List.perm_append_comm.cons _).trans ((enqueue_perm _ _ _).symm.append_right _)
  · rw [OrderBook.tradeIdCounter_setLevels, PriorityBook.lastTradeId_setSide]
    exact hS.matching.counter

end Swept

/-! ## Limit orders -/

/-- Orders filled by a sweep rested in the book. -/
theorem PriorityBook.filled_ptr_mem {F : PriorityBook} {o : Order} {r : Resting}
    (hr : r ∈ (F.sweepOf o).filled) : r.ptr ∈ F.ptrs := by
  obtain ⟨x, hx, hSame⟩ := PriorityBook.exists_of_mem_filled hr
  exact hSame.ptr_eq ▸ List.mem_map_of_mem (PriorityBook.mem_all_iff.mpr ⟨_, hx⟩)

namespace Swept

variable {stable : OrderPtr → Prop} {F : PriorityBook} {p : OrderPtr} {o : Order}
  {s₀ s : BookState k} {log : List OrderPtr}

/-- The call of an order that rests ends without another deallocator call. -/
theorem callPost_of_open (hS : Swept stable F p o s₀ log s) (hp : p ∉ F.ptrs)
    (hF : (F.addLimit p o).book.WellFormed) (hDone : OpenOrder o.side (F.doneOf p o).order)
    (hFill : (F.sweepOf o).incoming.isFilled = false) :
    CallPost stable F p (F.addLimit p o) s₀ log ((s.settleIncoming p).restOrder p) := by
  have hRep := hS.represents_of_open hF hDone hFill
  have hSelf : (s.settleIncoming p).heap p = (F.doneOf p o).order := by
    rw [s.settleIncoming_heap_self, hS.matching.incoming]
    rfl
  rw [BookState.restOrder_of_open hSelf hDone.not_isFilled hDone.type_eq] at hRep ⊢
  rw [PriorityBook.addLimit_of_open p hFill] at hRep ⊢
  exact
    { represents := hRep
      log_eq := hS.log_eq
      trades_eq := BookState.settleIncoming_trades.trans hS.trades_eq
      buf_eq := BookState.settleIncoming_buf.trans hS.buf_eq
      overflow_eq := BookState.settleIncoming_overflow.trans hS.overflow_eq
      returned_stable := fun r hr hst => by
        have hNe : r.ptr ≠ p := fun hEq => hp (hEq ▸ PriorityBook.filled_ptr_mem hr)
        exact (s.settleIncoming_heap_of_ne p hNe).trans (hS.filled_stable r hr hst)
      frame := fun q hst hq hMem =>
        (s.settleIncoming_heap_of_ne p hq).trans (hS.frame q hst hq hMem) }

/-- A full incoming order is handed back last. -/
theorem deallocator_wp (hS : Swept stable F p o s₀ log s) (hp : p ∉ F.ptrs)
    (hOpen : ∀ t, ∀ r ∈ F.side t, OpenOrder t r.order)
    (hF : (F.addLimit p o).book.WellFormed)
    (hFill : (F.sweepOf o).incoming.isFilled = true) :
    wp (ownership p F.ptrs stable) (CallPost stable F p (F.addLimit p o) s₀) log
      (BookState.deallocator p (s.settleIncoming p)) := by
  have hRep := hS.represents_of_filled hF hFill
  have hConserves := PriorityBook.addLimit_conserves (p := p) (o := o) hOpen
    (f := Resting.ptr) fun _ _ h => h.ptr_eq
  have hSelf : (s.settleIncoming p).heap p = (F.doneOf p o).order := by
    rw [s.settleIncoming_heap_self, hS.matching.incoming]
    rfl
  have hReturned : (F.addLimit p o).returned.map Resting.ptr = log ++ [p] := by
    rw [PriorityBook.addLimit_of_filled p hFill, List.map_append, hS.log_eq]
    rfl
  have hLive := hRep.livePtrs_eq
  refine ⟨?_, ?_⟩
  -- guarantee: what was handed back and what rests are the objects there were
  · simp only [ownership, inHand, if_true]
    rw [← hReturned, hLive, PriorityBook.ptrs, ← List.map_append]
    exact hConserves
  -- rely: the deallocator leaves the resting orders as they are
  · rintro s' ⟨h, rfl, hAgree⟩
    have hKeep : ∀ q ∈ (F.addLimit p o).book.ptrs, h q = (s.settleIncoming p).heap q :=
      fun q hq => hAgree q (Or.inl (Or.inl (hLive ▸ hq)))
    have hRep' := hRep.congr_heap hKeep
    refine
      { represents := hRep', log_eq := hReturned.symm, trades_eq := ?_, buf_eq := ?_
        overflow_eq := ?_, returned_stable := ?_, frame := ?_ }
    · rw [PriorityBook.addLimit_of_filled p hFill]
      exact BookState.settleIncoming_trades.trans hS.trades_eq
    · rw [PriorityBook.addLimit_of_filled p hFill]
      exact BookState.settleIncoming_buf.trans hS.buf_eq
    · rw [PriorityBook.addLimit_of_filled p hFill]
      exact BookState.settleIncoming_overflow.trans hS.overflow_eq
    · rw [PriorityBook.addLimit_of_filled p hFill]
      intro r hr hst
      have hRead := hAgree r.ptr (Or.inr hst)
      rcases List.mem_append.mp hr with hr | hr
      · have hNe : r.ptr ≠ p := fun hEq => hp (hEq ▸ PriorityBook.filled_ptr_mem hr)
        exact hRead.trans ((s.settleIncoming_heap_of_ne p hNe).trans (hS.filled_stable r hr hst))
      · obtain rfl : r = F.doneOf p o := by simpa using hr
        exact hRead.trans hSelf
    · intro q hst hq hMem
      exact (hAgree q (Or.inr hst)).trans
        ((s.settleIncoming_heap_of_ne p hq).trans (hS.frame q hst hq hMem))

end Swept

/-- The part of a limit order's call after it has been stamped. -/
theorem addLimit_wp {s : BookState k} {F : PriorityBook} (hR : Represents s.heap s.book F)
    {p : OrderPtr} (hp : p ∉ F.ptrs) (hMay : F.MayRest (s.heap p))
    (hId : (s.heap p).orderId ∉ F.ids) (hTrades : s.trades = []) (stable : OrderPtr → Prop) :
    wp (ownership p F.ptrs stable) (CallPost stable F p (F.addLimit p (s.heap p)) s) []
      (do
        let s' ← (s.insertIndex (s.heap p).orderId p).matchNoalloc p
        let s' := s'.restOrder p
        if (s'.heap p).isFilled then BookState.deallocator p s' else .ret s') := by
  have hF := PriorityBook.addLimit_wellFormed hR.wellFormed hp hMay hId
  have hLoop := matchLoop_wp hR hp hId hTrades stable
  have hOpen := hR.wellFormed.openOrder
  unfold BookState.matchNoalloc
  simp only [BookState.insertIndex, OrderBook.levels_mk] at hLoop ⊢
  refine wp_bind (wp_bind (wp_mono (fun log s' hS => ?_) hLoop))
  rw [Interaction.pure_eq, wp_ret]
  have hSelf : (s'.settleIncoming p).heap p = (F.doneOf p (s.heap p)).order := by
    rw [s'.settleIncoming_heap_self, hS.matching.incoming]
    rfl
  have hFilled : ((s'.settleIncoming p).heap p).isFilled =
      (F.sweepOf (s.heap p)).incoming.isFilled := by
    rw [s'.settleIncoming_heap_self, Order.isFilled_settle, hS.matching.incoming]
  cases hFill : (F.sweepOf (s.heap p)).incoming.isFilled with
  | true =>
      rw [hFill] at hFilled
      rw [BookState.restOrder_of_filled hFilled, if_pos hFilled]
      exact hS.deallocator_wp hp hOpen hF hFill
  | false =>
      rw [hFill] at hFilled
      have hDone : OpenOrder (s.heap p).side (F.doneOf p (s.heap p)).order :=
        openOrder_settle hMay.type_eq hMay.filled_nonneg hMay.status_eq (hOpen _) hFill
      have hPost := hS.callPost_of_open hp hF hDone hFill
      have hHeap : ((s'.settleIncoming p).restOrder p).heap p = (s'.settleIncoming p).heap p := by
        rw [BookState.restOrder_of_open hSelf hDone.not_isFilled hDone.type_eq]
      rw [hHeap, hFilled]
      exact hPost

/-! ## Cancel requests -/

section Cancel

variable {s : BookState k} {F : PriorityBook} {id : UInt64}

/-- Cancelling an ID that is not live does nothing. -/
theorem cancelResting_of_none (hR : Represents s.heap s.book F) (h : F.lookup id = none) :
    s.cancelResting id = (none, s) := by
  simp [BookState.cancelResting, hR.find?_eq_lookup, h]

theorem removeFromLevel_of_find? {t : Side} {price : Int} {level : PriceLevel}
    (h : (s.book.levels t).find? price = some level) (id : UInt64) :
    s.removeFromLevel t price id =
      { s with
        book := s.book.setLevels t
          (if (level.removeId s.heap id).empty then (s.book.levels t).erase price
            else (s.book.levels t).upsert price fun _ => level.removeId s.heap id) } := by
  simp [BookState.removeFromLevel, h]

/-- An open order is taken out of its level and the index, and marked. -/
theorem cancelResting_of_some (hR : Represents s.heap s.book F) {r : Resting}
    (h : F.lookup id = some r) :
    ∃ b, s.cancelResting id = (some r.ptr,
        { s with
          heap := s.heap.modify r.ptr fun o => { o with status := .CANCELLED }, book := b }) ∧
      Represents (s.heap.modify r.ptr fun o => { o with status := .CANCELLED }) b
        (F.remove id) := by
  obtain ⟨hr, rfl⟩ := PriorityBook.lookup_eq_some h
  obtain ⟨t, ht⟩ := PriorityBook.mem_all_iff.mp hr
  have hOpen := hR.wellFormed.openOrder t r ht
  have hRead : s.heap r.ptr = r.order := hR.contents hr
  have hIds := hR.wellFormed.ids_nodup
  have hPtrs := hR.wellFormed.ptrs_nodup
  -- the new status is seen through no other resting order
  have hOther : ∀ x ∈ F.all, x.order.orderId ≠ r.order.orderId → x.ptr ≠ r.ptr := by
    intro x hx hNe hEq
    exact hNe (by rw [List.inj_on_of_nodup_map hPtrs hx hr hEq])
  have hSideIds : ((F.side t).map fun x => x.order.orderId).Nodup := by
    have hNodup : ((F.side t ++ F.side t.opposite).map fun x => x.order.orderId).Nodup :=
      ((F.all_perm t).map _).nodup_iff.mp hIds
    rw [List.map_append] at hNodup
    exact hNodup.of_append_left
  obtain ⟨level, hLevel, hRep⟩ := (hR.sideRep t).remove hSideIds ht
    (s.heap.modify r.ptr fun o => { o with status := .CANCELLED })
    (by rw [Heap.modify_same, hRead])
    (fun x hx hNe => by
      have hAll := PriorityBook.mem_all_iff.mpr ⟨t, hx⟩
      rw [Heap.modify_of_ne (hOther x hAll hNe), hR.contents hAll])
  -- an open order passes the guard on its status, so the call does cancel
  have hStatus : ¬ (r.order.status = .FILLED ∨ r.order.status = .CANCELLED) := by
    rw [hOpen.status_eq]
    split <;> simp
  have hCall : s.cancelResting r.order.orderId =
      (some r.ptr, (({ (s.setStatus r.ptr .CANCELLED) with
        book := s.book.setLevels t
          (if (level.removeId (s.setStatus r.ptr .CANCELLED).heap r.order.orderId).empty
            then (s.book.levels t).erase r.order.price
            else (s.book.levels t).upsert r.order.price fun _ =>
              level.removeId (s.setStatus r.ptr .CANCELLED).heap r.order.orderId) } :
        BookState k).eraseIndex r.order.orderId)) := by
    have hSide : ((s.setStatus r.ptr .CANCELLED).heap r.ptr).side = t := by
      simp [BookState.setStatus, BookState.modifyOrder, hRead, hOpen.side_eq]
    have hPrice : ((s.setStatus r.ptr .CANCELLED).heap r.ptr).price = r.order.price := by
      simp [BookState.setStatus, BookState.modifyOrder, hRead]
    simp only [BookState.cancelResting, hR.find?_eq_lookup, h, Option.map_some, hRead,
      if_neg hStatus, hSide, hPrice]
    rw [removeFromLevel_of_find? (s := s.setStatus r.ptr .CANCELLED) hLevel]
    rfl
  refine ⟨_, hCall, ?_⟩
  refine Represents.of_sides t ?_ ?_ ?_ ?_ (PriorityBook.wellFormed_remove hR.wellFormed _)
  · rw [OrderBook.levels_mk, OrderBook.levels_setLevels, PriorityBook.side_remove]
    exact hRep
  · rw [OrderBook.levels_mk, OrderBook.levels_setLevels_of_ne _ (Side.opposite_ne t),
      PriorityBook.side_remove]
    have hRep' := hR.sideRep t.opposite
    have hNe : ∀ x ∈ F.side t.opposite, x.order.orderId ≠ r.order.orderId := by
      intro x hx hEq
      have hxr := List.inj_on_of_nodup_map hIds (PriorityBook.mem_all_iff.mpr ⟨_, hx⟩) hr hEq
      have hSide := (hR.wellFormed.openOrder _ x hx).side_eq
      rw [hxr, hOpen.side_eq] at hSide
      exact Side.opposite_ne t hSide.symm
    have hKeep : (F.side t.opposite).filter (fun x => x.order.orderId ≠ r.order.orderId) =
        F.side t.opposite := by
      rw [List.filter_eq_self]
      intro x hx
      simpa using hNe x hx
    rw [hKeep]
    exact
      { queue_eq := hRep'.queue_eq
        live := hRep'.live
        contents := fun x hx => by
          have hAll := PriorityBook.mem_all_iff.mpr ⟨_, hx⟩
          exact (Heap.modify_of_ne (hOther x hAll (hNe x hx)) _ _).trans (hR.contents hAll) }
  · have hPerm := hR.index.trans ((PriorityBook.all_perm_remove hIds h).map Resting.indexEntry)
    rw [List.map_cons] at hPerm
    rw [OrderBook.orderIndex_setLevels]
    refine (OrderedMap.erase_perm_of_cons _ hPerm).trans ?_
    exact ((F.remove r.order.orderId).all_perm t).map _
  · rw [OrderBook.tradeIdCounter_setLevels]
    exact hR.counter

/-- The request itself is handed back last. -/
theorem deallocator_request_wp {p : OrderPtr} {o : Order} {s₀ : BookState k}
    {G : PriorityBook} (done : List Resting) {stable : OrderPtr → Prop}
    (hR : Represents s.heap s.book G)
    (hPerm : (done.map Resting.ptr ++ p :: G.ptrs).Perm (p :: F.ptrs))
    (hp : stable p → s.heap p = o) (hTrades : s.trades = []) (hBuf : s.buf = s₀.buf)
    (hOverflow : s.overflow = s₀.overflow)
    (hDone : ∀ r ∈ done, stable r.ptr → s.heap r.ptr = r.order)
    (hFrame : ∀ q, stable q → q ≠ p → q ∉ F.ptrs → s.heap q = s₀.heap q) :
    wp (ownership p F.ptrs stable)
      (CallPost stable F p { book := G, returned := done ++ [⟨p, o⟩] } s₀)
      (done.map Resting.ptr) (BookState.deallocator p s) := by
  have hLive := hR.livePtrs_eq
  refine ⟨?_, ?_⟩
  · simp only [ownership, inHand, if_true]
    rwa [hLive, List.append_assoc, List.singleton_append]
  · rintro s' ⟨h, rfl, hAgree⟩
    have hRead : ∀ q, stable q → h q = s.heap q := fun q hq => hAgree q (Or.inr hq)
    have hRep : Represents h s.book G :=
      hR.congr_heap fun q hq => hAgree q (Or.inl (Or.inl (hLive ▸ hq)))
    refine
      { represents := hRep
        log_eq := by simp
        trades_eq := hTrades
        buf_eq := hBuf
        overflow_eq := by simp [hOverflow]
        returned_stable := ?_
        frame := fun q hst hq hMem => (hRead q hst).trans (hFrame q hst hq hMem) }
    intro r hr hst
    rcases List.mem_append.mp hr with hr | hr
    · exact (hRead _ hst).trans (hDone r hr hst)
    · obtain rfl : r = ⟨p, o⟩ := by simpa using hr
      exact (hRead _ hst).trans (hp hst)

/-- A cancel request's call after it has been stamped. -/
theorem cancelRequest_wp (hR : Represents s.heap s.book F) {p : OrderPtr} (hp : p ∉ F.ptrs)
    (hTrades : s.trades = []) (stable : OrderPtr → Prop) :
    wp (ownership p F.ptrs stable) (CallPost stable F p (F.cancelRequest p (s.heap p)) s) []
      (do
        let (cancelled, s') := s.cancelResting (s.heap p).orderId
        let s' ← match cancelled with
          | none => .ret s'
          | some c => BookState.deallocator c s'
        BookState.deallocator p s') := by
  unfold PriorityBook.cancelRequest
  cases hLook : F.lookup (s.heap p).orderId with
  | none =>
      rw [cancelResting_of_none hR hLook, PriorityBook.remove_of_lookup_none hLook]
      exact deallocator_request_wp [] hR (List.Perm.refl _) (fun _ => rfl) hTrades rfl
        rfl (by simp) fun _ _ _ _ => rfl
  | some r =>
      -- two objects are handed back: the cancelled order, then the request itself
      obtain ⟨b, hCall, hRep⟩ := cancelResting_of_some hR hLook
      have hMem : r.ptr ∈ F.ptrs := List.mem_map_of_mem (PriorityBook.lookup_eq_some hLook).1
      have hNe : r.ptr ≠ p := fun hEq => hp (hEq ▸ hMem)
      have hPerm : (r.ptr :: (F.remove (s.heap p).orderId).ptrs).Perm F.ptrs :=
        ((PriorityBook.all_perm_remove hR.wellFormed.ids_nodup hLook).map Resting.ptr).symm
      have hSwap : (r.ptr :: p :: (F.remove (s.heap p).orderId).ptrs).Perm (p :: F.ptrs) :=
        (List.Perm.swap _ _ _).trans (hPerm.cons _)
      have hRead := hR.contents (PriorityBook.lookup_eq_some hLook).1
      have hOther : ∀ q, q ≠ r.ptr →
          (s.heap.modify r.ptr fun o => { o with status := .CANCELLED }) q = s.heap q :=
        fun q hq => Heap.modify_of_ne hq _ _
      have hMark : (s.heap.modify r.ptr fun o => { o with status := .CANCELLED }) r.ptr =
          (PriorityBook.cancelled r).order := by
        rw [Heap.modify_same, hRead]
        rfl
      rw [hCall]
      refine ⟨?_, ?_⟩
      · simp only [ownership, inHand, if_neg hNe]
        rw [hRep.livePtrs_eq]
        exact hSwap
      · rintro s' ⟨h, rfl, hAgree⟩
        have hRep' : Represents h b (F.remove (s.heap p).orderId) := hRep.congr_heap fun q hq =>
          hAgree q (Or.inl (Or.inl (hRep.livePtrs_eq ▸ hq)))
        have hSelf : h p = s.heap p :=
          (hAgree p (Or.inl (Or.inr ⟨rfl, hNe⟩))).trans (hOther p hNe.symm)
        refine deallocator_request_wp [PriorityBook.cancelled r] hRep' hSwap
          (fun _ => hSelf) hTrades rfl rfl ?_ ?_
        · intro x hx hst
          obtain rfl : x = PriorityBook.cancelled r := by simpa using hx
          exact (hAgree r.ptr (Or.inr hst)).trans hMark
        · intro q hst hq hMem'
          have hqr : q ≠ r.ptr := fun hEq => hMem' (hEq ▸ hMem)
          exact (hAgree q (Or.inr hst)).trans (hOther q hqr)

end Cancel

/-! ## Whole calls -/

section Call

variable (s : BookState k) (p : OrderPtr) (now : UInt64)

/-- The state of a call once its order has been stamped. -/
def BookState.stamped : BookState k := ({ s with trades := [] } : BookState k).stampIncoming p now

theorem stamped_heap_self : (s.stamped p now).heap p = (s.heap p).stamp now := by
  unfold BookState.stamped BookState.stampIncoming Order.stamp
  dsimp only
  split
  · simp [BookState.modifyOrder]
  · rfl

theorem stamped_heap_of_ne {q : OrderPtr} (hNe : q ≠ p) :
    (s.stamped p now).heap q = s.heap q := by
  unfold BookState.stamped BookState.stampIncoming
  dsimp only
  split
  · simp [BookState.modifyOrder, Heap.modify_of_ne hNe]
  · rfl

/-- Stamping writes to the order only. -/
theorem stamped_eq : s.stamped p now =
    { s with heap := (s.stamped p now).heap, trades := [] } := by
  unfold BookState.stamped BookState.stampIncoming
  dsimp only
  split <;> rfl

end Call

/-- `add_order_noalloc` carries out the abstract request, whatever the deallocator does to
the orders it is handed. -/
theorem addOrderNoalloc_wp {s : BookState k} {F : PriorityBook} (hR : Represents s.heap s.book F)
    {p : OrderPtr} {now : UInt64} (hAdm : F.Accepts p ((s.heap p).stamp now))
    (stable : OrderPtr → Prop) :
    wp (ownership p F.ptrs stable)
      (CallPost stable F p (F.submit p ((s.heap p).stamp now)) s) []
      (BookState.addOrderNoalloc (some p) now s) := by
  have hp := hAdm.ptr_fresh
  have hSelf := stamped_heap_self s p now
  have hOther := fun q hq => stamped_heap_of_ne s p now (q := q) hq
  have hEq := stamped_eq s p now
  have hBook : (s.stamped p now).book = s.book := by rw [hEq]
  have hTrades : (s.stamped p now).trades = [] := by rw [hEq]
  have hR' : Represents (s.stamped p now).heap (s.stamped p now).book F := by
    rw [hBook]
    exact hR.congr_heap fun q hq => hOther q fun hqp => hp (hqp ▸ hq)
  -- the postcondition does not see the stamp
  have hPost : ∀ out log s', CallPost stable F p out (s.stamped p now) log s' →
      CallPost stable F p out s log s' := by
    intro out log s' h
    exact
      { represents := h.represents
        log_eq := h.log_eq
        trades_eq := h.trades_eq
        buf_eq := h.buf_eq.trans (by rw [hEq])
        overflow_eq := h.overflow_eq.trans (by rw [hEq])
        returned_stable := h.returned_stable
        frame := fun q hst hq hMem => (h.frame q hst hq hMem).trans (hOther q hq) }
  refine wp_mono (hPost _) ?_
  unfold BookState.addOrderNoalloc PriorityBook.submit
  simp only [← BookState.stamped.eq_def, ← hSelf] at hAdm ⊢
  cases hType : ((s.stamped p now).heap p).type with
  | LIMIT =>
      rw [if_neg (by simp)]
      exact addLimit_wp hR' hp (hAdm.limit hType).1 (hAdm.limit hType).2 hTrades stable
  | CANCEL =>
      rw [if_pos rfl]
      exact cancelRequest_wp hR' hp hTrades stable

end MatchingMachine
