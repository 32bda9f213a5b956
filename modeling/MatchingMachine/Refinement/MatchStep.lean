import MatchingMachine.Refinement.Matching

/-!
# One match under the deallocator protocol

`ownership` is the protocol between a call of the book and the deallocator.  At a call with
`p`, the orders returned so far, `p`, the incoming order while the book still needs it and
the orders resting in the book are the orders the call started with, each once; the
environment may then change every order except those the book still holds.  A set `stable`
of addresses that the environment never writes to is a parameter: empty for a deallocator
that recycles slots at once, everything for one that leaves the orders alone.

`MatchContext.Inv` is the invariant of both matching loops.  `fill_full` and `fill_part` are
its two steps, `guar` and `of_rely` what it gives and takes at a deallocator call.
-/

namespace MatchingMachine

open Interaction

variable {k : Nat}

/-- The orders the book still needs when it hands back `p`. -/
def Held (inc p : OrderPtr) (s : BookState k) (q : OrderPtr) : Prop :=
  q ∈ s.book.livePtrs ∨ (q = inc ∧ p ≠ inc)

/-- The orders of the call that are not in the book when it hands back `p`. -/
def inHand (inc p : OrderPtr) : List OrderPtr := if p = inc then [p] else [p, inc]

def ownership (inc : OrderPtr) (ptrs : List OrderPtr) (stable : OrderPtr → Prop) :
    Protocol OrderPtr (BookState k) where
  guar log p s := (log ++ inHand inc p ++ s.book.livePtrs).Perm (inc :: ptrs)
  rely _ p s s' :=
    ∃ h, s' = { s with heap := h } ∧ ∀ q, Held inc p s q ∨ stable q → h q = s.heap q

/-! ## One fill -/

/-- What the statements of one match do to everything but the level map and the index. -/
structure FillStep (s s' : BookState k) (opp : Side) (inc res : OrderPtr) (price : Int)
    (status : OrderStatus) (t : Trade) : Prop where
  trade_eq : t =
    makeTrade opp ((s.heap inc).addFilled (matchQty (s.heap inc) (s.heap res)))
      ((s.heap res).addFilled (matchQty (s.heap inc) (s.heap res))) price
      (matchQty (s.heap inc) (s.heap res)) (s.book.tradeIdCounter + 1)
  heap_inc : s'.heap inc = (s.heap inc).addFilled (matchQty (s.heap inc) (s.heap res))
  heap_res : s'.heap res =
    { (s.heap res).addFilled (matchQty (s.heap inc) (s.heap res)) with status := status }
  heap_other : ∀ q, q ≠ inc → q ≠ res → s'.heap q = s.heap q
  trades_eq : s'.trades = s.trades ++ [t]
  buf_eq : s'.buf = s.buf.pushTrade t
  overflow_eq : s'.overflow = (s.overflow || fillOverflows (s.heap inc) (s.heap res))
  counter_eq : s'.book.tradeIdCounter = s.book.tradeIdCounter + 1

namespace BookState

/-- The state after a match that fills the resting order, at the deallocator call. -/
def fullState (s : BookState k) (opp : Side) (inc res : OrderPtr) (price : Int) : BookState k :=
  let (s, t) := s.fill opp inc res price
  let s := s.writeTrade t
  let s := s.setStatus res .FILLED
  let s := s.eraseIndex (s.heap res).orderId
  s.modifyFront opp PriceLevel.popFront

/-- The state after a match that leaves the resting order open. -/
def partState (s : BookState k) (opp : Side) (inc res : OrderPtr) (price : Int) : BookState k :=
  let (s, t) := s.fill opp inc res price
  let s := s.writeTrade t
  s.setStatus res .PARTIAL

section Fill

variable (s : BookState k) (opp : Side) {inc res : OrderPtr} (price : Int)

theorem partState_fillStep (hNe : res ≠ inc) :
    FillStep s (s.partState opp inc res price) opp inc res price .PARTIAL
      (s.fill opp inc res price).2 where
  trade_eq := by simp [fill, Heap.modify_of_ne hNe, Heap.modify_of_ne hNe.symm]
  heap_inc := by
    simp [partState, setStatus, modifyOrder, writeTrade, fill, Heap.modify_of_ne hNe.symm]
  heap_res := by
    simp [partState, setStatus, modifyOrder, writeTrade, fill, Heap.modify_of_ne hNe]
  heap_other q hInc hRes := by
    simp [partState, setStatus, modifyOrder, writeTrade, fill, Heap.modify_of_ne hRes,
      Heap.modify_of_ne hInc]
  trades_eq := rfl
  buf_eq := rfl
  overflow_eq := rfl
  counter_eq := rfl

theorem fullState_fillStep (hNe : res ≠ inc) :
    FillStep s (s.fullState opp inc res price) opp inc res price .FILLED
      (s.fill opp inc res price).2 where
  trade_eq := (partState_fillStep s opp price hNe).trade_eq
  heap_inc := by
    simp [fullState, modifyFront, eraseIndex, setStatus, modifyOrder, writeTrade, fill,
      Heap.modify_of_ne hNe.symm]
  heap_res := by
    simp [fullState, modifyFront, eraseIndex, setStatus, modifyOrder, writeTrade, fill,
      Heap.modify_of_ne hNe]
  heap_other q hInc hRes := by
    simp [fullState, modifyFront, eraseIndex, setStatus, modifyOrder, writeTrade, fill,
      Heap.modify_of_ne hRes, Heap.modify_of_ne hInc]
  trades_eq := rfl
  buf_eq := rfl
  overflow_eq := rfl
  counter_eq := OrderBook.tradeIdCounter_setLevels _ _ _

theorem levels_partState (t : Side) :
    (s.partState opp inc res price).book.levels t = s.book.levels t :=
  OrderBook.levels_mk _ _ _ _

theorem levels_fullState :
    (s.fullState opp inc res price).book.levels opp =
      (s.book.levels opp).modifyBegin PriceLevel.popFront := by
  simp [fullState, modifyFront, eraseIndex, setStatus, modifyOrder, writeTrade, fill]

theorem levels_fullState_opposite :
    (s.fullState opp inc res price).book.levels opp.opposite = s.book.levels opp.opposite := by
  simp [fullState, modifyFront, eraseIndex, setStatus, modifyOrder, writeTrade, fill,
    OrderBook.levels_setLevels_of_ne _ (Side.opposite_ne opp)]

theorem orderIndex_fullState (hNe : res ≠ inc) :
    (s.fullState opp inc res price).book.orderIndex =
      s.book.orderIndex.erase (s.heap res).orderId := by
  simp [fullState, modifyFront, eraseIndex, setStatus, modifyOrder, writeTrade, fill,
    Heap.modify_of_ne hNe, Order.addFilled]

end Fill

/-- Updating the first level by a function that leaves it alone. -/
theorem modifyFront_of_eq {s : BookState k} {opp : Side} {f : PriceLevel → PriceLevel}
    {price : Int} {level : PriceLevel} {es : List (Int × PriceLevel)}
    (hEntries : (s.book.levels opp).entries = (price, level) :: es) (hf : f level = level) :
    s.modifyFront opp f = s := by
  have hSame : (s.book.levels opp).modifyBegin f = s.book.levels opp := by
    apply OrderedMap.ext
    rw [OrderedMap.entries_modifyBegin hEntries, hf, hEntries]
  rw [modifyFront, hSame, OrderBook.setLevels_levels]

theorem frontEmpty_eq {s : BookState k} {opp : Side} {price : Int} {level : PriceLevel}
    {es : List (Int × PriceLevel)}
    (hEntries : (s.book.levels opp).entries = (price, level) :: es) :
    s.frontEmpty opp = level.empty := by
  simp [frontEmpty, OrderedMap.begin?, hEntries]

theorem frontSize_eq {s : BookState k} {opp : Side} {price : Int} {level : PriceLevel}
    {es : List (Int × PriceLevel)}
    (hEntries : (s.book.levels opp).entries = (price, level) :: es) :
    s.frontSize opp = level.size := by
  simp [frontSize, OrderedMap.begin?, hEntries]

end BookState

/-! ## The matching loops -/

/-- What does not change during a match. -/
structure MatchContext (k : Nat) where
  opp : Side
  inc : OrderPtr
  order : Order
  queue : List Resting
  own : List Resting
  heap : Heap
  buf : TradeRingBuffer k
  stable : OrderPtr → Prop
  result : SweepResult
  ptrs : List OrderPtr

namespace MatchContext

/-- The invariant of both loops: the trades and returned orders so far, followed by the
sweep of what is left, are the result of the whole sweep. -/
structure Inv (c : MatchContext k) (log : List OrderPtr) (s : BookState k) (o : Order)
    (tradeId : UInt64) (rs done : List Resting) : Prop where
  matching : Matching s.heap s.book c.opp c.inc o tradeId rs c.own
  result_eq : c.result = (sweep c.opp o tradeId rs).prepend s.trades done s.overflow
  log_eq : log = done.map Resting.ptr
  queue_eq : done.map Resting.ptr ++ rs.map Resting.ptr = c.queue.map Resting.ptr
  buf_eq : s.buf = c.buf.pushAll s.trades
  done_stable : ∀ r ∈ done, c.stable r.ptr → s.heap r.ptr = r.order
  frame : ∀ q, c.stable q → q ≠ c.inc → q ∉ c.queue.map Resting.ptr → s.heap q = c.heap q
  price_eq : o.price = c.order.price
  id_eq : o.orderId = c.order.orderId

/-- The addresses of a match are distinct, and they are the call's. -/
structure Valid (c : MatchContext k) : Prop where
  nodup : (c.inc :: (c.queue ++ c.own).map Resting.ptr).Nodup
  ptrs_perm : ((c.queue ++ c.own).map Resting.ptr).Perm c.ptrs

variable {c : MatchContext k} {log : List OrderPtr} {s : BookState k} {o : Order}
  {tradeId : UInt64} {rs done : List Resting}

namespace Inv

/-- An order that was returned is neither the incoming one nor one still in the queue. -/
theorem done_ne (hc : c.Valid) (hI : c.Inv log s o tradeId rs done) {r : Resting}
    (hr : r ∈ done) : r.ptr ≠ c.inc ∧ r.ptr ∉ rs.map Resting.ptr := by
  have hNodup := hc.nodup
  rw [List.map_append, ← hI.queue_eq, List.nodup_cons] at hNodup
  obtain ⟨hInc, hAll⟩ := hNodup
  have hMem : r.ptr ∈ done.map Resting.ptr := List.mem_map_of_mem hr
  constructor
  · intro hEq
    exact hInc (hEq ▸ List.mem_append_left _ (List.mem_append_left _ hMem))
  · intro hRest
    have hDisj := List.disjoint_of_nodup_append (List.Nodup.of_append_left hAll)
    exact hDisj hMem hRest

theorem queue_ptr_mem (hI : c.Inv log s o tradeId rs done) {q : OrderPtr}
    (h : q ∈ rs.map Resting.ptr) : q ∈ c.queue.map Resting.ptr := by
  rw [← hI.queue_eq]
  exact List.mem_append_right _ h

/-- The guarantee at a deallocator call of the loop. -/
theorem guar {r : Resting} (hc : c.Valid)
    (hI : c.Inv (log ++ [r.ptr]) s o tradeId rs done) (hNe : r.ptr ≠ c.inc) :
    (ownership c.inc c.ptrs c.stable).guar log r.ptr s := by
  have hLive := hI.matching.livePtrs_perm
  simp only [ownership, inHand, if_neg hNe]
  have hSplit : (log ++ [r.ptr, c.inc] ++ s.book.livePtrs).Perm
      (c.inc :: ((log ++ [r.ptr]) ++ s.book.livePtrs)) := by
    rw [show log ++ [r.ptr, c.inc] = (log ++ [r.ptr]) ++ [c.inc] by simp, List.append_assoc]
    exact List.perm_middle
  refine hSplit.trans (List.Perm.cons _ ?_)
  rw [hI.log_eq]
  refine (hLive.append_left _).trans (List.Perm.trans (List.Perm.of_eq ?_) hc.ptrs_perm)
  rw [List.map_append, List.map_append, ← List.append_assoc, hI.queue_eq]

/-- The invariant survives whatever the environment does during a call. -/
theorem of_rely (hI : c.Inv log s o tradeId rs done) {p : OrderPtr} {s' : BookState k}
    {log' : List OrderPtr} (hNe : p ≠ c.inc)
    (hRely : (ownership c.inc c.ptrs c.stable).rely log' p s s') :
    c.Inv log s' o tradeId rs done := by
  obtain ⟨h, rfl, hAgree⟩ := hRely
  have hHeld : ∀ q ∈ (rs ++ c.own).map Resting.ptr, h q = s.heap q := fun q hq =>
    hAgree q (Or.inl (Or.inl (hI.matching.livePtrs_perm.mem_iff.mpr hq)))
  have hInc : h c.inc = s.heap c.inc := hAgree c.inc (Or.inl (Or.inr ⟨rfl, hNe⟩))
  exact
    { matching := hI.matching.congr_heap hInc hHeld
      result_eq := hI.result_eq
      log_eq := hI.log_eq
      queue_eq := hI.queue_eq
      buf_eq := hI.buf_eq
      done_stable := fun r hr hst => (hAgree r.ptr (Or.inr hst)).trans (hI.done_stable r hr hst)
      frame := fun q hst hq hMem => (hAgree q (Or.inr hst)).trans (hI.frame q hst hq hMem)
      price_eq := hI.price_eq
      id_eq := hI.id_eq }

/-- A match that fills the front order moves it from the queue to the returned orders. -/
theorem fill_full (hc : c.Valid) {r : Resting} {rs' : List Resting} {price : Int}
    {level : PriceLevel} {es : List (Int × PriceLevel)}
    (hI : c.Inv log s o tradeId (r :: rs') done)
    (hEntries : (s.book.levels c.opp).entries = (price, level) :: es)
    (hFront : level.front = some r.ptr) (hPrice : r.order.price = price)
    (hOpen : o.isFilled = false) (hCross : ¬ c.opp.before o.price price)
    (hFull : (r.order.addFilled (matchQty o r.order)).isFilled = true) :
    c.Inv (log ++ [r.ptr]) (s.fullState c.opp c.inc r.ptr price)
      (o.addFilled (matchQty o r.order)) (tradeId + 1) rs'
      (done ++ [r.trade (matchQty o r.order)]) := by
  have hM := hI.matching
  have hNe : r.ptr ≠ c.inc := hM.front_ne
  have hInc : s.heap c.inc = o := hM.incoming
  have hRes : s.heap r.ptr = r.order := hM.contents r (List.mem_cons_self ..)
  have hStep := s.fullState_fillStep c.opp price hNe
  have hIndex := s.orderIndex_fullState c.opp price hNe
  rw [hRes] at hIndex
  obtain ⟨hTrade, hHeapInc, hHeapRes, hOther, hTrades, hBuf, hOverflow, hCounter⟩ := hStep
  rw [hInc, hRes, hM.counter] at hTrade
  rw [hInc, hRes] at hHeapInc hHeapRes hOverflow
  rw [hM.counter] at hCounter
  have hId : (o.addFilled (matchQty o r.order)).orderId = o.orderId := rfl
  -- the round does one step of the sweep
  have hSweep := sweep_step tradeId rs' hOpen (hPrice ▸ hCross)
  rw [if_pos hFull, hPrice, ← hTrade] at hSweep
  refine
    { matching := hM.drop_front hEntries hFront hId hHeapInc hOther (s.levels_fullState ..)
        (s.levels_fullState_opposite ..) hIndex hCounter
      result_eq := ?_, log_eq := ?_, queue_eq := ?_, buf_eq := ?_, done_stable := ?_
      frame := ?_, price_eq := hI.price_eq, id_eq := hI.id_eq }
  · rw [hI.result_eq, hSweep, SweepResult.prepend_prepend, hTrades, hOverflow]
  · rw [hI.log_eq, List.map_append]
    rfl
  · rw [← hI.queue_eq, List.map_append, List.append_assoc]
    rfl
  · rw [hBuf, hTrades, hI.buf_eq, TradeRingBuffer.pushAll_append]
  · intro x hx hst
    rcases List.mem_append.mp hx with hx | hx
    · obtain ⟨hxi, hxr⟩ := hI.done_ne hc hx
      have hxNe : x.ptr ≠ r.ptr := fun hEq => hxr (hEq ▸ List.mem_cons_self ..)
      rw [hOther x.ptr hxi hxNe]
      exact hI.done_stable x hx hst
    · obtain rfl : x = r.trade (matchQty o r.order) := by simpa using hx
      rw [Resting.trade, if_pos hFull]
      exact hHeapRes
  · intro q hst hq hMem
    have hqr : q ≠ r.ptr := fun hEq => hMem (hEq ▸ hI.queue_ptr_mem (List.mem_cons_self ..))
    rw [hOther q hq hqr]
    exact hI.frame q hst hq hMem

/-- A match that leaves the front order open fills the incoming one. -/
theorem fill_part (hc : c.Valid) {r : Resting} {rs' : List Resting} {price : Int}
    (hI : c.Inv log s o tradeId (r :: rs') done) (hPrice : r.order.price = price)
    (hOpen : o.isFilled = false) (hCross : ¬ c.opp.before o.price price)
    (hPart : (r.order.addFilled (matchQty o r.order)).isFilled = false) :
    c.Inv log (s.partState c.opp c.inc r.ptr price) (o.addFilled (matchQty o r.order))
      (tradeId + 1) (r.trade (matchQty o r.order) :: rs') done := by
  have hM := hI.matching
  have hNe : r.ptr ≠ c.inc := hM.front_ne
  have hInc : s.heap c.inc = o := hM.incoming
  have hRes : s.heap r.ptr = r.order := hM.contents r (List.mem_cons_self ..)
  have hStep := s.partState_fillStep c.opp price hNe
  obtain ⟨hTrade, hHeapInc, hHeapRes, hOther, hTrades, hBuf, hOverflow, hCounter⟩ := hStep
  rw [hInc, hRes, hM.counter] at hTrade
  rw [hInc, hRes] at hHeapInc hHeapRes hOverflow
  rw [hM.counter] at hCounter
  have hId : (o.addFilled (matchQty o r.order)).orderId = o.orderId := rfl
  have hr : OpenOrder c.opp r.order := hM.openOrder r (List.mem_cons_self ..)
  have hrOpen : OpenOrder c.opp (r.trade (matchQty o r.order)).order :=
    hr.trade (matchQty_pos hOpen hr.not_isFilled) hPart
  have hrHeap : (s.partState c.opp c.inc r.ptr price).heap r.ptr =
      (r.trade (matchQty o r.order)).order := by
    rw [hHeapRes, Resting.trade, hPart]
    rfl
  have hSweep := sweep_step tradeId rs' hOpen (hPrice ▸ hCross)
  rw [if_neg (by simp [hPart]), hPrice, ← hTrade] at hSweep
  refine
    { matching := hM.keep_front (SameOrder.trade r _) hrOpen hId hHeapInc hrHeap hOther
        (s.levels_partState _ _) rfl hCounter
      result_eq := ?_, log_eq := hI.log_eq, queue_eq := hI.queue_eq, buf_eq := ?_
      done_stable := ?_, frame := ?_, price_eq := hI.price_eq, id_eq := hI.id_eq }
  · rw [hI.result_eq, hSweep, SweepResult.prepend_prepend, hTrades, hOverflow, List.append_nil]
  · rw [hBuf, hTrades, hI.buf_eq, TradeRingBuffer.pushAll_append]
  · intro x hx hst
    obtain ⟨hxi, hxr⟩ := hI.done_ne hc hx
    have hxNe : x.ptr ≠ r.ptr := fun hEq => hxr (hEq ▸ List.mem_cons_self ..)
    rw [hOther x.ptr hxi hxNe]
    exact hI.done_stable x hx hst
  · intro q hst hq hMem
    have hqr : q ≠ r.ptr := fun hEq => hMem (hEq ▸ hI.queue_ptr_mem (List.mem_cons_self ..))
    rw [hOther q hq hqr]
    exact hI.frame q hst hq hMem

end Inv

end MatchContext

end MatchingMachine
