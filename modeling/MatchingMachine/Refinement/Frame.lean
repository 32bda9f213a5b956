import MatchingMachine.Refinement.Levels

/-!
# What a call of the book reads and writes

`Confined` says which orders a call may write to.  Here a call also reads nothing else: replacing
the memory outside a set of orders before the call (`overlay`) is the same as replacing it
afterwards, if the set contains the order of the call and the live orders of the book.

`Indexed` is all that is needed of the orders: the live ones are distinct and not filled, and the
index leads to live orders.  It does not mention statuses or whether an ID is used twice, and
calls with any limit order keep it.  Under it the matching loops end within their bounds.
-/

namespace MatchingMachine

open Interaction

variable {k : Nat}

/-! ## The live orders, level by level -/

/-- The live orders of some levels. -/
def liveOf (es : List (Int × PriceLevel)) : List OrderPtr := es.flatMap fun e => e.2.live

namespace OrderBook

variable {b : OrderBook} {side : Side}

theorem livePtrs_perm_liveOf (b : OrderBook) (side : Side) :
    b.livePtrs.Perm
      (liveOf (b.levels side).entries ++ liveOf (b.levels side.opposite).entries) := by
  have hQueue : ∀ {s : Side} (ls : Levels s), (queueOf ls).map Prod.snd = liveOf ls.entries := by
    intro s ls
    simp [queueOf, liveOf, List.map_flatMap, Function.comp_def]
  have hPerm := b.livePtrs_perm side
  rwa [List.map_append, hQueue, hQueue] at hPerm

theorem livePtrs_congr_eq {b' : OrderBook} (h : ∀ s, b'.levels s = b.levels s) :
    b'.livePtrs = b.livePtrs := by
  have hBids : b'.bidLevels = b.bidLevels := h .BUY
  have hAsks : b'.askLevels = b.askLevels := h .SELL
  rw [livePtrs, livePtrs, hBids, hAsks]

/-- The live orders once the levels of one side are replaced. -/
theorem livePtrs_setLevels_perm (b : OrderBook) (side : Side) (ls : Levels side) :
    (b.setLevels side ls).livePtrs.Perm
      (liveOf ls.entries ++ liveOf (b.levels side.opposite).entries) := by
  have hPerm := (b.setLevels side ls).livePtrs_perm_liveOf side
  rwa [levels_setLevels, levels_setLevels_of_ne _ (Side.opposite_ne side)] at hPerm

/-- The live orders, those of one level first. -/
theorem livePtrs_split {price : Int} {level : PriceLevel} {es : List (Int × PriceLevel)}
    (hEntries : (b.levels side).entries.Perm ((price, level) :: es)) :
    b.livePtrs.Perm (level.live ++ (liveOf es ++ liveOf (b.levels side.opposite).entries)) := by
  refine (b.livePtrs_perm_liveOf side).trans ?_
  rw [← List.append_assoc]
  exact (hEntries.flatMap_right _).append_right _

theorem livePtrs_setLevels_split (b : OrderBook) (side : Side) {ls : Levels side} {price : Int} {level : PriceLevel}
    {es : List (Int × PriceLevel)} (hEntries : ls.entries.Perm ((price, level) :: es)) :
    (b.setLevels side ls).livePtrs.Perm
      (level.live ++ (liveOf es ++ liveOf (b.levels side.opposite).entries)) := by
  refine (b.livePtrs_setLevels_perm side ls).trans ?_
  rw [← List.append_assoc]
  exact (hEntries.flatMap_right _).append_right _

end OrderBook

namespace PriceLevel

variable {l : PriceLevel}

theorem live_popFront_hole (h : l.front = none) : l.popFront.live = l.live := by
  rw [PriceLevel.front_eq] at h
  rw [live, live, pending_popFront, reduceOption_dropWhile]
  cases hp : l.pending with
  | nil => rfl
  | cons e es =>
      cases e with
      | none => rfl
      | some q => simp [hp] at h

theorem live_dropHoles (l : PriceLevel) : l.dropHoles.live = l.live := by
  fun_induction dropHoles l with
  | case1 l hFront ih => exact ih.trans (live_popFront_hole hFront.2)
  | case2 l hFront => rfl

end PriceLevel

/-! ## The index and the live orders -/

/-- The live orders are distinct and not filled, and the index leads to live orders or to the
order that is being entered. -/
structure Indexed (entered : OrderPtr → Prop) (h : Heap) (b : OrderBook) : Prop where
  nodup : b.livePtrs.Nodup
  live : ∀ q ∈ b.livePtrs, ¬ entered q ∧ (h q).isFilled = false
  index : ∀ e ∈ b.orderIndex.entries,
    (h e.2).orderId = e.1 ∧ (entered e.2 ∨ e.2 ∈ b.livePtrs)

theorem indexed_new (h : Heap) : Indexed (fun _ => False) h {} where
  nodup := List.nodup_nil
  live _ hq := absurd hq List.not_mem_nil
  index _ he := absurd he List.not_mem_nil

namespace Indexed

variable {entered : OrderPtr → Prop} {h h' : Heap} {b b' : OrderBook}

/-- Statements that do not change what is live, add to the index, or fill or rename an order. -/
theorem of_perm (hI : Indexed entered h b) (hPerm : b'.livePtrs.Perm b.livePtrs)
    (hIndex : b'.orderIndex.entries ⊆ b.orderIndex.entries)
    (hIds : ∀ e ∈ b.orderIndex.entries, (h' e.2).orderId = (h e.2).orderId)
    (hOpen : ∀ q ∈ b.livePtrs, (h' q).isFilled = false) : Indexed entered h' b' where
  nodup := hPerm.nodup_iff.mpr hI.nodup
  live q hq := ⟨(hI.live q (hPerm.mem_iff.mp hq)).1, hOpen q (hPerm.mem_iff.mp hq)⟩
  index e he := by
    obtain ⟨hId, hOr⟩ := hI.index e (hIndex he)
    exact ⟨(hIds e (hIndex he)).trans hId, hOr.imp_right hPerm.mem_iff.mpr⟩

/-- An order leaves the levels and its ID the index. -/
theorem remove (hI : Indexed entered h b) {p : OrderPtr} {id : UInt64}
    (hPerm : b.livePtrs.Perm (p :: b'.livePtrs)) (hp : (h p).orderId = id)
    (hIndex : b'.orderIndex = b.orderIndex.erase id)
    (hIds : ∀ q, (h' q).orderId = (h q).orderId)
    (hOpen : ∀ q ∈ b'.livePtrs, q ≠ p → (h' q).isFilled = false) : Indexed entered h' b' := by
  have hNodup := hPerm.nodup_iff.mp hI.nodup
  obtain ⟨hNot, hRest⟩ := List.nodup_cons.mp hNodup
  refine ⟨hRest, fun q hq => ?_, fun e he => ?_⟩
  · have hOld := hPerm.mem_iff.mpr (List.mem_cons_of_mem p hq)
    exact ⟨(hI.live q hOld).1, hOpen q hq (ne_of_mem_of_not_mem hq hNot)⟩
  · rw [hIndex] at he
    obtain ⟨hMem, hKey⟩ := List.mem_filter.mp he
    obtain ⟨hId, hOr⟩ := hI.index e hMem
    refine ⟨(hIds _).trans hId, hOr.imp_right fun hLive => ?_⟩
    -- another ID belongs to another order
    have hNe : e.2 ≠ p := by
      intro hEq
      rw [hEq, hp] at hId
      exact absurd hId.symm (by simpa using hKey)
    exact (List.mem_cons.mp (hPerm.mem_iff.mp hLive)).resolve_left hNe

end Indexed

/-! ## Replacing memory -/

namespace BookState

/-- The memory outside `S` is that of `g`. -/
def overlay (S : Finset OrderPtr) (g : Heap) (s : BookState k) : BookState k :=
  { s with heap := S.piecewise s.heap g }

section Overlay

variable {S : Finset OrderPtr} {g : Heap} {s : BookState k} {p : OrderPtr}

theorem overlay_heap (hp : p ∈ S) : (s.overlay S g).heap p = s.heap p :=
  Finset.piecewise_eq_of_mem _ _ _ hp

@[simp] theorem overlay_book : (s.overlay S g).book = s.book := rfl

/-- Memory that is replaced by itself. -/
theorem overlay_self (S : Finset OrderPtr) (s : BookState k) : s.overlay S s.heap = s := by
  unfold overlay
  rw [Finset.piecewise_same]

@[simp] theorem overlay_modifyFront (opp : Side) (f : PriceLevel → PriceLevel) :
    (s.overlay S g).modifyFront opp f = (s.modifyFront opp f).overlay S g := rfl

@[simp] theorem overlay_eraseFront (opp : Side) :
    (s.overlay S g).eraseFront opp = (s.eraseFront opp).overlay S g := rfl

@[simp] theorem overlay_frontEmpty (opp : Side) :
    (s.overlay S g).frontEmpty opp = s.frontEmpty opp := rfl

@[simp] theorem overlay_frontSize (opp : Side) :
    (s.overlay S g).frontSize opp = s.frontSize opp := rfl

@[simp] theorem overlay_eraseIndex (id : UInt64) :
    (s.overlay S g).eraseIndex id = (s.eraseIndex id).overlay S g := rfl

@[simp] theorem overlay_insertIndex (id : UInt64) (q : OrderPtr) :
    (s.overlay S g).insertIndex id q = (s.insertIndex id q).overlay S g := rfl

theorem overlay_ite (c : Prop) [Decidable c] (t : BookState k) :
    (if c then s.overlay S g else t.overlay S g) = (if c then s else t).overlay S g := by
  split <;> rfl

theorem modify_piecewise {h : Heap} (hp : p ∈ S) (f : Order → Order) :
    Heap.modify (S.piecewise h g) p f = S.piecewise (h.modify p f) g := by
  unfold Heap.modify
  rw [Finset.piecewise_eq_of_mem _ _ _ hp, Finset.update_piecewise_of_mem _ _ _ hp]

theorem overlay_modifyOrder (hp : p ∈ S) (f : Order → Order) :
    (s.overlay S g).modifyOrder p f = (s.modifyOrder p f).overlay S g := by
  unfold modifyOrder overlay
  rw [modify_piecewise hp]

theorem overlay_setStatus (hp : p ∈ S) (status : OrderStatus) :
    (s.overlay S g).setStatus p status = (s.setStatus p status).overlay S g :=
  overlay_modifyOrder hp _

theorem overlay_fill (opp : Side) {inc res : OrderPtr} (hInc : inc ∈ S) (hRes : res ∈ S)
    (price : Int) :
    ((s.overlay S g).fill opp inc res price).1 = (s.fill opp inc res price).1.overlay S g := by
  have hRead : ∀ (h : Heap) {p : OrderPtr}, p ∈ S → S.piecewise h g p = h p :=
    fun _ _ hp => Finset.piecewise_eq_of_mem _ _ _ hp
  unfold fill overlay
  dsimp only
  simp only [hRead _ hInc, hRead _ hRes, modify_piecewise hInc, modify_piecewise hRes]

theorem overlay_settleIncoming (hp : p ∈ S) :
    (s.overlay S g).settleIncoming p = (s.settleIncoming p).overlay S g := by
  unfold settleIncoming
  rw [overlay_heap hp, overlay_setStatus hp, overlay_setStatus hp, overlay_eraseIndex,
    overlay_ite, overlay_ite]

theorem overlay_restOrder (hp : p ∈ S) :
    (s.overlay S g).restOrder p = (s.restOrder p).overlay S g := by
  have hRead : (s.overlay S g).heap p = s.heap p := overlay_heap hp
  by_cases hCond : (s.heap p).isFilled = false ∧ (s.heap p).type = .LIMIT
  · rw [restOrder_of_open hRead hCond.1 hCond.2, restOrder_of_open rfl hCond.1 hCond.2]
    rfl
  · have hStay : ∀ t : BookState k, t.heap p = s.heap p → t.restOrder p = t := by
      intro t ht
      unfold restOrder
      dsimp only
      rw [if_neg]
      rw [ht]
      simpa using hCond
    rw [hStay s rfl, hStay _ hRead]

theorem overlay_stamped (hp : p ∈ S) (now : UInt64) :
    (s.overlay S g).stamped p now = (s.stamped p now).overlay S g := by
  have hClear : ({ s.overlay S g with trades := [] } : BookState k) =
      ({ s with trades := [] } : BookState k).overlay S g := rfl
  unfold stamped stampIncoming
  rw [hClear, overlay_modifyOrder hp, overlay_heap hp, overlay_ite]

end Overlay

end BookState

/-! ## Matching -/

/-- A limit order `inc` is being matched; `S` contains it and the live orders. -/
structure Serving (S : Finset OrderPtr) (inc : OrderPtr) (h : Heap) (b : OrderBook) : Prop where
  indexed : Indexed (· = inc) h b
  inc_mem : inc ∈ S
  subset : ∀ q ∈ b.livePtrs, q ∈ S
  limit : (h inc).type = .LIMIT

/-- Work on the levels that changes neither the index nor what is live. -/
theorem Serving.of_perm {S : Finset OrderPtr} {inc : OrderPtr} {h : Heap} {b b' : OrderBook}
    (hs : Serving S inc h b) (hPerm : b'.livePtrs.Perm b.livePtrs)
    (hIndex : b'.orderIndex = b.orderIndex) : Serving S inc h b' where
  indexed := hs.indexed.of_perm hPerm (by rw [hIndex]; exact List.Subset.refl _)
    (fun _ _ => rfl) fun q hq => (hs.indexed.live q hq).2
  inc_mem := hs.inc_mem
  subset q hq := hs.subset q (hPerm.mem_iff.mp hq)
  limit := hs.limit

/-- One match changes neither the IDs nor the types. -/
theorem FillStep.fields {s s' : BookState k} {opp : Side} {inc res : OrderPtr} {price : Int}
    {status : OrderStatus} {t : Trade} (h : FillStep s s' opp inc res price status t)
    (q : OrderPtr) :
    (s'.heap q).orderId = (s.heap q).orderId ∧ (s'.heap q).type = (s.heap q).type := by
  by_cases hInc : q = inc
  · subst hInc
    rw [h.heap_inc]
    exact ⟨rfl, rfl⟩
  by_cases hRes : q = res
  · subst hRes
    rw [h.heap_res]
    exact ⟨rfl, rfl⟩
  · rw [h.heap_other q hInc hRes]
    exact ⟨rfl, rfl⟩

namespace BookState

variable {S : Finset OrderPtr} {inc res : OrderPtr} {s : BookState k} {opp : Side}

/-- The orders at the front of a side and all others. -/
theorem livePtrs_modifyFront {price : Int} {level : PriceLevel} {es : List (Int × PriceLevel)}
    (hEntries : (s.book.levels opp).entries = (price, level) :: es)
    (f : PriceLevel → PriceLevel) :
    (s.modifyFront opp f).book.livePtrs.Perm
      ((f level).live ++ (liveOf es ++ liveOf (s.book.levels opp.opposite).entries)) :=
  s.book.livePtrs_setLevels_split opp (List.Perm.of_eq (OrderedMap.entries_modifyBegin hEntries f))

theorem livePtrs_eraseFront {price : Int} {level : PriceLevel} {es : List (Int × PriceLevel)}
    (hEntries : (s.book.levels opp).entries = (price, level) :: es) :
    (s.eraseFront opp).book.livePtrs.Perm
      (liveOf es ++ liveOf (s.book.levels opp.opposite).entries) := by
  have hPerm := s.book.livePtrs_setLevels_perm opp (s.book.levels opp).eraseBegin
  rwa [OrderedMap.entries_eraseBegin hEntries] at hPerm

/-- Work on the first level that keeps its live orders. -/
theorem serving_modifyFront (hs : Serving S inc s.heap s.book) {price : Int} {level : PriceLevel}
    {es : List (Int × PriceLevel)} (hEntries : (s.book.levels opp).entries = (price, level) :: es)
    {f : PriceLevel → PriceLevel} (hf : (f level).live = level.live) :
    Serving S inc (s.modifyFront opp f).heap (s.modifyFront opp f).book := by
  have hPerm : (s.modifyFront opp f).book.livePtrs.Perm s.book.livePtrs := by
    refine (livePtrs_modifyFront hEntries f).trans ?_
    rw [hf]
    exact (OrderBook.livePtrs_split (List.Perm.of_eq hEntries)).symm
  exact hs.of_perm hPerm (OrderBook.orderIndex_setLevels _ _ _)

/-- An exhausted level is erased. -/
theorem serving_eraseFront (hs : Serving S inc s.heap s.book)
    (hEmpty : s.frontEmpty opp = true) :
    Serving S inc (s.eraseFront opp).heap (s.eraseFront opp).book := by
  have hPerm : (s.eraseFront opp).book.livePtrs.Perm s.book.livePtrs := by
    cases hEntries : (s.book.levels opp).entries with
    | nil =>
        have hSame : (s.book.levels opp).eraseBegin = s.book.levels opp := by
          apply OrderedMap.ext
          show (s.book.levels opp).entries.tail = _
          rw [hEntries]
          rfl
        rw [eraseFront, hSame, OrderBook.setLevels_levels]
    | cons e es =>
        obtain ⟨price, level⟩ := e
        rw [frontEmpty_eq hEntries, PriceLevel.empty_iff] at hEmpty
        have hNil : level.live = [] := by rw [PriceLevel.live, hEmpty]; rfl
        refine (livePtrs_eraseFront hEntries).trans ?_
        have hSplit := OrderBook.livePtrs_split (List.Perm.of_eq hEntries)
        rw [hNil, List.nil_append] at hSplit
        exact hSplit.symm
  exact hs.of_perm hPerm (OrderBook.orderIndex_setLevels _ _ _)

/-- A match that leaves the resting order open. -/
theorem serving_partState (hs : Serving S inc s.heap s.book) (hRes : res ∈ s.book.livePtrs)
    (opp : Side) (price : Int) (hOpen : ((s.partState opp inc res price).heap res).isFilled = false) :
    Serving S inc (s.partState opp inc res price).heap (s.partState opp inc res price).book := by
  have hNe : res ≠ inc := (hs.indexed.live res hRes).1
  have hFill := s.partState_fillStep opp price hNe
  have hLive : (s.partState opp inc res price).book.livePtrs = s.book.livePtrs := rfl
  refine
    { indexed := hs.indexed.of_perm (List.Perm.of_eq hLive) (List.Subset.refl _)
        (fun e _ => (hFill.fields e.2).1) fun q hq => ?_
      inc_mem := hs.inc_mem
      subset := hs.subset
      limit := (hFill.fields inc).2.trans hs.limit }
  obtain ⟨hInc, hq'⟩ := hs.indexed.live q hq
  by_cases hEq : q = res
  · subst hEq
    exact hOpen
  · rwa [hFill.heap_other q hInc hEq]

/-- A match that fills the resting order. -/
theorem serving_fullState (hs : Serving S inc s.heap s.book) {price : Int} {level : PriceLevel}
    {es : List (Int × PriceLevel)} (hEntries : (s.book.levels opp).entries = (price, level) :: es)
    (hFront : level.front = some res) :
    Serving S inc (s.fullState opp inc res price).heap (s.fullState opp inc res price).book := by
  have hSplit := OrderBook.livePtrs_split (List.Perm.of_eq hEntries)
  rw [PriceLevel.live_popFront hFront] at hSplit
  have hPerm : s.book.livePtrs.Perm (res :: (s.fullState opp inc res price).book.livePtrs) := by
    rw [OrderBook.livePtrs_congr_eq (s.levels_fullState_eq opp inc res price)]
    exact hSplit.trans ((livePtrs_modifyFront hEntries PriceLevel.popFront).symm.cons res)
  have hNe : res ≠ inc :=
    (hs.indexed.live res (hPerm.mem_iff.mpr (List.mem_cons_self ..))).1
  have hFill := s.fullState_fillStep opp price hNe
  refine
    { indexed := hs.indexed.remove hPerm rfl (s.orderIndex_fullState opp price hNe)
        (fun q => (hFill.fields q).1) fun q hq hqRes => ?_
      inc_mem := hs.inc_mem
      subset := fun q hq => hs.subset q (hPerm.mem_iff.mpr (List.mem_cons_of_mem _ hq))
      limit := (hFill.fields inc).2.trans hs.limit }
  obtain ⟨hInc, hq'⟩ := hs.indexed.live q (hPerm.mem_iff.mpr (List.mem_cons_of_mem _ hq))
  rwa [hFill.heap_other q hInc hqRes]

/-! ## The matching loops -/

/-- The matched order is open: it can be filled once more. -/
def openMeasure (inc : OrderPtr) (s : BookState k) : Nat :=
  if (s.heap inc).isFilled then 0 else 1

/-- A match with what is in front either fills the incoming order or the resting one. -/
theorem openMeasure_partState {price : Int} (hNe : res ≠ inc)
    (hOpen : ((s.partState opp inc res price).heap res).isFilled = false) :
    openMeasure inc (s.partState opp inc res price) = 0 := by
  have hFill := s.partState_fillStep opp price hNe
  unfold openMeasure
  rw [hFill.heap_inc]
  rw [hFill.heap_res] at hOpen
  rcases isFilled_of_match (s.heap inc) (s.heap res) with hInc | hRes
  · rw [if_pos hInc]
  · have hFilled : ({ (s.heap res).addFilled (matchQty (s.heap inc) (s.heap res)) with
        status := .PARTIAL } : Order).isFilled = true := hRes
    rw [hFilled] at hOpen
    cases hOpen

/-- One round of the inner loop: it depends on the orders of the call only, keeps the invariant
and ends when the order is filled or the level is exhausted. -/
theorem matchLevelRound_serving (hs : Serving S inc s.heap s.book) {n : Nat}
    (hn : (s.book.levels opp).size = n) (g : Heap) :
    ∃ r, some (matchLevelRound opp inc s) = some r ∧
      some (matchLevelRound opp inc (s.overlay S g)) = some (mapStep (overlay S g) r) ∧
      stepPost (fun t => Serving S inc t.heap t.book ∧ (t.book.levels opp).size = n)
        (fun t => Serving S inc t.heap t.book ∧ (t.book.levels opp).size = n ∧
          ((t.heap inc).isFilled = true ∨ t.frontEmpty opp = true))
        (fun t => t.frontSize opp + openMeasure inc t) s r := by
  unfold matchLevelRound
  rw [overlay_book]
  cases hBegin : (s.book.levels opp).begin? with
  | none =>
      have hEmpty : s.frontEmpty opp = true := by simp [frontEmpty, hBegin]
      exact ⟨_, rfl, rfl, hs, hn, Or.inr hEmpty⟩
  | some e =>
      obtain ⟨price, level⟩ := e
      obtain ⟨es, hEntries⟩ := OrderedMap.begin?_eq_some hBegin
      have hSize : s.frontSize opp = level.size := frontSize_eq hEntries
      dsimp only
      rw [overlay_heap hs.inc_mem]
      by_cases hStop : ((s.heap inc).isFilled || level.empty) = true
      · rw [if_pos hStop, if_pos hStop]
        refine ⟨_, rfl, rfl, hs, hn, ?_⟩
        rw [frontEmpty_eq hEntries]
        simpa using hStop
      rw [if_neg hStop, if_neg hStop]
      obtain ⟨hOpen, hNonempty⟩ : (s.heap inc).isFilled = false ∧ level.empty = false := by
        simpa using hStop
      -- a pop lowers the size of the level, the first part of the measure
      have hPop : ∀ t : BookState k, (t.book.levels opp).entries = (price, level) :: es →
          (t.modifyFront opp PriceLevel.popFront).frontSize opp < level.size := by
        intro t ht
        have hEntries' : ((t.modifyFront opp PriceLevel.popFront).book.levels opp).entries =
            (price, level.popFront) :: es := by
          rw [modifyFront, OrderBook.levels_setLevels, OrderedMap.entries_modifyBegin ht]
        rw [frontSize_eq hEntries']
        exact PriceLevel.size_popFront_lt hNonempty
      cases hFront : level.front with
      | none =>
          -- a hole at the front: no order of the level is lost with it
          have hLive := PriceLevel.live_popFront_hole hFront
          refine ⟨_, rfl, rfl, ⟨serving_modifyFront hs hEntries hLive, ?_⟩, ?_⟩
          · rw [modifyFront, OrderBook.levels_setLevels, OrderedMap.size_modifyBegin, hn]
          · have hLess := hPop s hEntries
            show _ + openMeasure inc s < _ + openMeasure inc s
            omega
      | some res =>
          have hRes : res ∈ s.book.livePtrs :=
            (OrderBook.livePtrs_split (List.Perm.of_eq hEntries)).mem_iff.mpr
              (List.mem_append_left _ (PriceLevel.mem_live_of_front hFront))
          have hNe : res ≠ inc := (hs.indexed.live res hRes).1
          have hResS := hs.subset res hRes
          dsimp only
          rw [overlay_fill opp hs.inc_mem hResS, overlay_heap hResS]
          by_cases hFull : (((s.fill opp inc res price).1).heap res).isFilled = true
          -- the resting order is full and leaves the level
          · rw [if_pos hFull, if_pos hFull, overlay_setStatus hResS, overlay_heap hResS]
            refine ⟨_, rfl, rfl, ⟨serving_fullState hs hEntries hFront, ?_⟩, ?_⟩
            · show ((s.fullState opp inc res price).book.levels opp).size = n
              rw [levels_fullState, OrderedMap.size_modifyBegin, hn]
            · have hLevels : ((s.partState opp inc res price).book.levels opp).entries =
                  (price, level) :: es := by rw [levels_partState, hEntries]
              have hLess := hPop (s.partState opp inc res price) hLevels
              have hOne : openMeasure inc (s.fullState opp inc res price) ≤ openMeasure inc s := by
                unfold openMeasure
                rw [hOpen]
                split <;> simp
              show (s.fullState opp inc res price).frontSize opp +
                openMeasure inc (s.fullState opp inc res price) <
                  s.frontSize opp + openMeasure inc s
              have hFront' : (s.fullState opp inc res price).frontSize opp =
                  ((s.partState opp inc res price).modifyFront opp PriceLevel.popFront).frontSize
                    opp := by
                unfold frontSize
                rw [levels_fullState, modifyFront, OrderBook.levels_setLevels, levels_partState]
              omega
          -- the resting order is still open, so the incoming one is full: the second part falls
          · rw [if_neg hFull, if_neg hFull, overlay_setStatus hResS]
            have hOpen' : ((s.partState opp inc res price).heap res).isFilled = false := by
              have hRead : (s.fill opp inc res price).1.heap res =
                  (s.heap res).addFilled (matchQty (s.heap inc) (s.heap res)) := by
                simp [fill, Heap.modify_of_ne hNe]
              rw [hRead] at hFull
              rw [(s.partState_fillStep opp price hNe).heap_res]
              exact Bool.eq_false_iff.mpr hFull
            refine ⟨_, rfl, rfl, ⟨serving_partState hs hRes opp price hOpen', hn⟩, ?_⟩
            show (s.partState opp inc res price).frontSize opp +
              openMeasure inc (s.partState opp inc res price) < s.frontSize opp + openMeasure inc s
            have hFront' : (s.partState opp inc res price).frontSize opp = s.frontSize opp := rfl
            have hOne : openMeasure inc s = 1 := by
              unfold openMeasure
              rw [hOpen]
              rfl
            rw [openMeasure_partState hNe hOpen']
            omega

/-- The inner loop ends, with the order filled or the level exhausted. -/
theorem matchLevel_serving (hs : Serving S inc s.heap s.book) {n : Nat}
    (hn : (s.book.levels opp).size = n) (g : Heap) :
    ∃ t : BookState k,
      loop none (fun s => some (matchLevelRound opp inc s)) (s.frontSize opp + 2) s = some t ∧
      loop none (fun s => some (matchLevelRound opp inc s)) (s.frontSize opp + 2)
          (s.overlay S g) = some (t.overlay S g) ∧
      Serving S inc t.heap t.book ∧ (t.book.levels opp).size = n ∧
        ((t.heap inc).isFilled = true ∨ t.frontEmpty opp = true) := by
  have hMeasure : s.frontSize opp + openMeasure inc s < s.frontSize opp + 2 := by
    unfold openMeasure
    split <;> omega
  exact loop_map (overlay S g)
    (fun t => Serving S inc t.heap t.book ∧ (t.book.levels opp).size = n)
    (fun t => t.frontSize opp + openMeasure inc t)
    (fun _ h => matchLevelRound_serving h.1 h.2 g) hMeasure hMeasure ⟨hs, hn⟩

/-- One round of the outer loop. -/
theorem matchRound_serving (hs : Serving S inc s.heap s.book) (g : Heap) :
    ∃ r, matchRound opp inc s = some r ∧
      matchRound opp inc (s.overlay S g) = some (mapStep (overlay S g) r) ∧
      stepPost (fun t => Serving S inc t.heap t.book) (fun t => Serving S inc t.heap t.book)
        (fun t => (t.book.levels opp).size + openMeasure inc t) s r := by
  unfold matchRound
  rw [overlay_book]
  cases hBegin : (s.book.levels opp).begin? with
  | none => exact ⟨_, rfl, rfl, hs⟩
  | some e =>
      obtain ⟨price, level⟩ := e
      obtain ⟨es, hEntries⟩ := OrderedMap.begin?_eq_some hBegin
      dsimp only
      rw [overlay_heap hs.inc_mem, overlay_modifyFront, overlay_frontEmpty, overlay_frontSize,
        overlay_eraseFront]
      by_cases hFilled : (s.heap inc).isFilled = true
      · rw [if_pos hFilled, if_pos hFilled]
        exact ⟨_, rfl, rfl, hs⟩
      rw [if_neg hFilled, if_neg hFilled]
      by_cases hCross : opp.before (s.heap inc).price price
      · rw [if_pos hCross, if_pos hCross]
        exact ⟨_, rfl, rfl, hs⟩
      rw [if_neg hCross, if_neg hCross]
      have hDrop : Serving S inc (s.modifyFront opp PriceLevel.dropHoles).heap
          (s.modifyFront opp PriceLevel.dropHoles).book :=
        serving_modifyFront hs hEntries (PriceLevel.live_dropHoles level)
      have hSize : ((s.modifyFront opp PriceLevel.dropHoles).book.levels opp).size =
          (s.book.levels opp).size := by
        rw [modifyFront, OrderBook.levels_setLevels, OrderedMap.size_modifyBegin]
      have hPos : 0 < (s.book.levels opp).size := by
        rw [OrderedMap.size, hEntries]
        exact Nat.succ_pos _
      have hOne : openMeasure inc s = 1 := if_neg hFilled
      generalize s.modifyFront opp PriceLevel.dropHoles = u at hDrop hSize ⊢
      -- erasing the level makes progress
      have hErase : ∀ t : BookState k, (t.book.levels opp).size = (s.book.levels opp).size →
          ((t.eraseFront opp).book.levels opp).size + openMeasure inc (t.eraseFront opp) <
            (s.book.levels opp).size + openMeasure inc s := by
        intro t ht
        have hLe : openMeasure inc (t.eraseFront opp) ≤ 1 := by
          unfold openMeasure
          split <;> simp
        rw [eraseFront, OrderBook.levels_setLevels, OrderedMap.size_eraseBegin, ht, hOne]
        rw [eraseFront] at hLe
        omega
      by_cases hEmpty : u.frontEmpty opp = true
      · rw [if_pos hEmpty, if_pos hEmpty]
        exact ⟨_, rfl, rfl, serving_eraseFront hDrop hEmpty, hErase u hSize⟩
      rw [if_neg hEmpty, if_neg hEmpty]
      obtain ⟨t, hLoop, hLoop', ht, htSize, hStop⟩ := matchLevel_serving hDrop hSize g
      rw [hLoop, hLoop']
      refine ⟨_, rfl, ?_, ?_⟩
      · show some (ForInStep.yield _) = some (ForInStep.yield _)
        rw [overlay_frontEmpty, overlay_eraseFront, overlay_ite]
      · by_cases hLast : t.frontEmpty opp = true
        · rw [if_pos hLast]
          exact ⟨serving_eraseFront ht hLast, hErase t htSize⟩
        · rw [if_neg hLast]
          refine ⟨ht, ?_⟩
          have hZero : openMeasure inc t = 0 := if_pos (hStop.resolve_right hLast)
          show (t.book.levels opp).size + openMeasure inc t <
            (s.book.levels opp).size + openMeasure inc s
          omega

/-- `match` ends, within the orders of the call. -/
theorem matchOrder_serving (hs : Serving S inc s.heap s.book) (g : Heap) :
    ∃ t : BookState k, s.matchOrder inc = some (t.settleIncoming inc) ∧
      (s.overlay S g).matchOrder inc = some ((t.settleIncoming inc).overlay S g) ∧
      Serving S inc t.heap t.book := by
  have hMeasure : (s.book.levels (s.heap inc).side.opposite).size + openMeasure inc s <
      (s.book.levels (s.heap inc).side.opposite).size + 2 := by
    unfold openMeasure
    split <;> omega
  obtain ⟨t, hLoop, hLoop', ht⟩ := loop_map (overlay S g)
    (fun t => Serving S inc t.heap t.book)
    (fun t => (t.book.levels (s.heap inc).side.opposite).size + openMeasure inc t)
    (fun t h => matchRound_serving h g) hMeasure hMeasure hs
  refine ⟨t, ?_, ?_, ht⟩
  · unfold matchOrder
    dsimp only
    rw [hLoop]
    rfl
  · unfold matchOrder
    dsimp only
    rw [overlay_heap hs.inc_mem, overlay_book, hLoop', ← overlay_settleIncoming hs.inc_mem]
    rfl

end BookState

/-! ## Calls -/

/-- A book between two calls. -/
structure Quiet (h : Heap) (b : OrderBook) : Prop where
  tidy : b.All PriceLevel.Tidy
  indexed : Indexed (fun _ => False) h b

theorem quiet_new (h : Heap) : Quiet h {} where
  tidy side _ he := by cases side <;> exact absurd he List.not_mem_nil
  indexed := indexed_new h

namespace BookState

variable {S : Finset OrderPtr} {s : BookState k} {p : OrderPtr}

/-- The order is stamped and indexed. -/
theorem serving_start (hs : Quiet s.heap s.book) (hLive : ∀ q ∈ s.book.livePtrs, q ∈ S)
    (hp : p ∈ S) (hOut : p ∉ s.book.livePtrs) (hLimit : (s.heap p).type = .LIMIT)
    (now : UInt64) :
    let u := (s.stamped p now).insertIndex ((s.stamped p now).heap p).orderId p
    Serving S p u.heap u.book := by
  intro u
  have hHeap := s.stamped_heap_eq p now
  have hId : ∀ q, (u.heap q).orderId = (s.heap q).orderId := by
    intro q
    obtain ⟨_, hq⟩ := hHeap q
    show ((s.stamped p now).heap q).orderId = _
    rw [hq]
  have hBook : (s.stamped p now).book = s.book := by rw [stamped_eq]
  have hPtrs : u.book.livePtrs = s.book.livePtrs := by
    refine OrderBook.livePtrs_congr_eq fun side => ?_
    show ((s.stamped p now).insertIndex _ p).book.levels side = _
    rw [insertIndex, OrderBook.levels_mk, hBook]
  refine
    { indexed :=
        { nodup := by rw [hPtrs]; exact hs.indexed.nodup
          live := fun q hq => ?_
          index := fun e he => ?_ }
      inc_mem := hp
      subset := fun q hq => hLive q (hPtrs ▸ hq)
      limit := ?_ }
  · rw [hPtrs] at hq
    refine ⟨ne_of_mem_of_not_mem hq hOut, ?_⟩
    show ((s.stamped p now).heap q).isFilled = false
    rw [stamped_heap_of_ne s p now (ne_of_mem_of_not_mem hq hOut)]
    exact (hs.indexed.live q hq).2
  · rw [hId, hPtrs]
    have he' : e ∈ (s.book.orderIndex.upsert ((s.stamped p now).heap p).orderId
        fun _ => p).entries := by rwa [← hBook]
    -- the index entry of this ID now names p; the others named orders that rest
    by_cases hKey : e.1 = ((s.stamped p now).heap p).orderId
    · have hFound := (OrderedMap.mem_entries_iff _ e.1 e.2).mp he'
      rw [hKey, OrderedMap.find?_upsert_self] at hFound
      obtain rfl := Option.some.inj hFound
      exact ⟨(hId e.2).symm.trans hKey.symm, Or.inl rfl⟩
    · obtain ⟨hOld, hOr⟩ := hs.indexed.index e
        (OrderedMap.mem_entries_upsert_of_ne _ _ hKey he')
      exact ⟨hOld, Or.inr (hOr.resolve_left not_false)⟩
  · obtain ⟨_, hq⟩ := hHeap p
    show ((s.stamped p now).heap p).type = .LIMIT
    rw [hq, ← hLimit]

/-- Pushing an order to the level of its price makes it live. -/
theorem livePtrs_push (hs : s.book.All PriceLevel.Tidy) (side : Side) (price : Int) :
    (s.book.setLevels side ((s.book.levels side).upsert price fun level =>
      (level.getD {}).push p)).livePtrs.Perm (p :: s.book.livePtrs) := by
  cases hFind : (s.book.levels side).find? price with
  | none =>
      have hPerm := s.book.livePtrs_setLevels_split side
        ((s.book.levels side).entries_upsert_perm (fun level => (level.getD {}).push p) hFind)
      exact hPerm.trans ((s.book.livePtrs_perm_liveOf side).symm.cons p)
  | some level =>
      have hMem := (OrderedMap.mem_entries_iff _ _ _).mpr hFind
      have hPerm := s.book.livePtrs_setLevels_split side
        ((s.book.levels side).entries_upsert_perm_of_some
          (fun level => (level.getD {}).push p) hFind)
      have hOld := OrderBook.livePtrs_split ((s.book.levels side).entries_perm_erase hFind)
      refine hPerm.trans (List.Perm.trans ?_ (hOld.symm.cons p))
      show ((level.push p).live ++ _).Perm _
      rw [PriceLevel.live_push (hs side _ hMem).head_le, List.append_assoc]
      exact List.perm_middle

/-- What is left of the order rests, or the order is full and leaves the index. -/
theorem quiet_finish {t : BookState k} (ht : Serving S p t.heap t.book)
    (hTidy : t.book.All PriceLevel.Tidy) :
    let r := (t.settleIncoming p).restOrder p
    Quiet r.heap r.book ∧ ∀ q ∈ r.book.livePtrs, q ∈ S := by
  intro r
  have hLevels := t.levels_settleIncoming p
  have hPtrs := OrderBook.livePtrs_congr_eq hLevels
  have hTidy' : (t.settleIncoming p).book.All PriceLevel.Tidy := hTidy.congr hLevels
  obtain ⟨status, hSelf⟩ : ∃ status, (t.settleIncoming p).heap p =
      { t.heap p with status := status } := by
    rw [settleIncoming_heap_self]
    exact (t.heap p).settle_eq
  have hIds : ∀ q, ((t.settleIncoming p).heap q).orderId = (t.heap q).orderId := by
    intro q
    by_cases hq : q = p
    · subst hq
      rw [hSelf]
    · rw [settleIncoming_heap_of_ne _ _ hq]
  have hLive : ∀ q ∈ t.book.livePtrs, ((t.settleIncoming p).heap q).isFilled = false := by
    intro q hq
    obtain ⟨hNe, hOpen⟩ := ht.indexed.live q hq
    rwa [settleIncoming_heap_of_ne _ _ hNe]
  -- a filled order is taken out of the index, an open one is rested
  cases hFilled : (t.heap p).isFilled with
  | true =>
      have hr : r = t.settleIncoming p := by
        refine restOrder_of_filled ?_
        rw [hSelf]
        exact hFilled
      have hIndex : (t.settleIncoming p).book.orderIndex =
          t.book.orderIndex.erase (t.heap p).orderId := by
        rw [settleIncoming_of_filled hFilled]
        rfl
      rw [hr]
      refine ⟨⟨hTidy', ?_, ?_, ?_⟩, fun q hq => ht.subset q (hPtrs ▸ hq)⟩
      · rw [hPtrs]
        exact ht.indexed.nodup
      · rw [hPtrs]
        exact fun q hq => ⟨not_false, hLive q hq⟩
      · rw [hPtrs, hIndex]
        intro e he
        obtain ⟨hMem, hKey⟩ := List.mem_filter.mp he
        obtain ⟨hId, hOr⟩ := ht.indexed.index e hMem
        refine ⟨(hIds _).trans hId, Or.inr (hOr.resolve_left fun hEq => ?_)⟩
        rw [hEq] at hId
        exact absurd hId.symm (by simpa using hKey)
  | false =>
      have hBook := settleIncoming_book_of_open hFilled
      have hr : r = { t.settleIncoming p with
          book := t.book.setLevels (t.heap p).side ((t.book.levels (t.heap p).side).upsert
            (t.heap p).price fun level => (level.getD {}).push p) } := by
        have hOpen : ({ t.heap p with status := status } : Order).isFilled = false := hFilled
        have hRest := restOrder_of_open hSelf hOpen ht.limit
        rwa [hBook] at hRest
      have hPerm : r.book.livePtrs.Perm (p :: t.book.livePtrs) := by
        rw [hr]
        exact livePtrs_push hTidy _ _
      have hNew : p ∉ t.book.livePtrs := fun hp => (ht.indexed.live p hp).1 rfl
      have hHeap : r.heap = (t.settleIncoming p).heap := by rw [hr]
      have hIndex : r.book.orderIndex = t.book.orderIndex := by
        rw [hr]
        exact OrderBook.orderIndex_setLevels _ _ _
      refine ⟨⟨restOrder_keeps PriceLevel.stable_tidy p hTidy', ?_, ?_, ?_⟩, fun q hq => ?_⟩
      · exact hPerm.nodup_iff.mpr (List.nodup_cons.mpr ⟨hNew, ht.indexed.nodup⟩)
      · intro q hq
        refine ⟨not_false, ?_⟩
        rw [hHeap]
        rcases List.mem_cons.mp (hPerm.mem_iff.mp hq) with rfl | hOld
        · rw [hSelf]
          exact hFilled
        · exact hLive q hOld
      · rw [hIndex, hHeap]
        intro e he
        obtain ⟨hId, hOr⟩ := ht.indexed.index e he
        refine ⟨(hIds _).trans hId, Or.inr (hPerm.mem_iff.mpr ?_)⟩
        exact List.mem_cons.mpr hOr
      · rcases List.mem_cons.mp (hPerm.mem_iff.mp hq) with rfl | hOld
        · exact ht.inc_mem
        · exact ht.subset q hOld

/-- `add_order` with a limit order that does not rest: it returns, depends on its own and the
live orders only and writes to no other. -/
theorem addOrder_frame (hs : Quiet s.heap s.book) (hLive : ∀ q ∈ s.book.livePtrs, q ∈ S)
    (hp : p ∈ S) (hOut : p ∉ s.book.livePtrs) (hLimit : (s.heap p).type = .LIMIT)
    (now : UInt64) (g : Heap) :
    ∃ t : BookState k, s.addOrder (some p) now = some t ∧
      (s.overlay S g).addOrder (some p) now = some (t.overlay S g) ∧
      Quiet t.heap t.book ∧ ∀ q ∈ t.book.livePtrs, q ∈ S := by
  let u := (s.stamped p now).insertIndex ((s.stamped p now).heap p).orderId p
  have hStart : Serving S p u.heap u.book := serving_start hs hLive hp hOut hLimit now
  obtain ⟨t, hMatch, hMatch', ht⟩ := matchOrder_serving hStart g
  have hTidy : t.book.All PriceLevel.Tidy := by
    have hu : u.book.All PriceLevel.Tidy := hs.tidy.congr fun side => by
      show ((s.stamped p now).insertIndex _ p).book.levels side = _
      rw [insertIndex, OrderBook.levels_mk, stamped_eq]
    exact (matchOrder_keeps PriceLevel.stable_tidy hu hMatch).congr fun side =>
      (t.levels_settleIncoming p side).symm
  obtain ⟨hQuiet, hSubset⟩ := quiet_finish ht hTidy
  refine ⟨(t.settleIncoming p).restOrder p, ?_, ?_, hQuiet, hSubset⟩
  · show (u.matchOrder p >>= fun s => some (s.restOrder p)) = _
    rw [hMatch]
    rfl
  · have hu : (s.overlay S g).addOrder (some p) now =
        ((u.overlay S g).matchOrder p >>= fun s => some (s.restOrder p)) := by
      unfold addOrder
      simp only [← stamped.eq_def]
      rw [overlay_stamped hp, overlay_heap hp, overlay_insertIndex]
      rfl
    rw [hu, hMatch', ← overlay_restOrder hp]
    rfl

/-! ## Cancels -/

/-- Of the orders of a level a cancel takes out at most one, with the ID it looks for. -/
theorem livePtrs_removeFromLevel (hs : s.book.All PriceLevel.Tidy) (side : Side) (price : Int)
    (id : UInt64) :
    (s.removeFromLevel side price id).book.livePtrs.Perm s.book.livePtrs ∨
      ∃ x, (s.heap x).orderId = id ∧
        s.book.livePtrs.Perm (x :: (s.removeFromLevel side price id).book.livePtrs) := by
  unfold removeFromLevel
  cases hFind : (s.book.levels side).find? price with
  | none => exact Or.inl (List.Perm.refl _)
  | some level =>
      dsimp only
      have hMem := (OrderedMap.mem_entries_iff _ _ _).mpr hFind
      have hOld := OrderBook.livePtrs_split ((s.book.levels side).entries_perm_erase hFind)
      have hNew : (s.book.setLevels side (if (level.removeId s.heap id).empty then
          (s.book.levels side).erase price
          else (s.book.levels side).upsert price fun _ => level.removeId s.heap id)).livePtrs.Perm
          ((level.removeId s.heap id).live ++ (liveOf ((s.book.levels side).erase price).entries ++
            liveOf (s.book.levels side.opposite).entries)) := by
        split
        · rename_i hEmpty
          rw [PriceLevel.live, PriceLevel.empty_iff.mp hEmpty]
          exact s.book.livePtrs_setLevels_perm side _
        · exact s.book.livePtrs_setLevels_split side
            ((s.book.levels side).entries_upsert_perm_of_some _ hFind)
      have hLive := PriceLevel.live_removeId (hs side _ hMem).head_le s.heap id
      rcases List.exists_or_eq_self_of_eraseP (fun p => decide ((s.heap p).orderId = id))
        level.live with hSame | ⟨x, front, back, -, hx, hSplit, hErase⟩
      · rw [hLive, hSame] at hNew
        exact Or.inl (hNew.trans hOld.symm)
      · refine Or.inr ⟨x, of_decide_eq_true hx, hOld.trans ?_⟩
        rw [hLive, hErase] at hNew
        refine List.Perm.trans ?_ (hNew.symm.cons x)
        rw [hSplit, List.append_assoc, List.append_assoc, List.cons_append]
        exact List.perm_middle

/-- A cancel takes the order out of its level only; the index comes after it. -/
theorem removeFromLevel_rest (s : BookState k) (side : Side) (price : Int) (id : UInt64) :
    (s.removeFromLevel side price id).heap = s.heap ∧
      (s.removeFromLevel side price id).book.orderIndex = s.book.orderIndex := by
  unfold removeFromLevel
  cases (s.book.levels side).find? price with
  | none => exact ⟨rfl, rfl⟩
  | some level => exact ⟨rfl, OrderBook.orderIndex_setLevels _ _ _⟩

theorem overlay_removeFromLevel {g : Heap} (hLive : ∀ q ∈ s.book.livePtrs, q ∈ S) (side : Side)
    (price : Int) (id : UInt64) :
    (s.overlay S g).removeFromLevel side price id =
      (s.removeFromLevel side price id).overlay S g := by
  unfold removeFromLevel
  rw [overlay_book]
  cases hFind : (s.book.levels side).find? price with
  | none => rfl
  | some level =>
      have hSame : level.removeId (s.overlay S g).heap id = level.removeId s.heap id := by
        refine PriceLevel.removeId_congr fun q hq => ?_
        have hMem : q ∈ s.book.livePtrs := OrderBook.mem_livePtrs_iff.mpr
          ⟨side, (price, level), (OrderedMap.mem_entries_iff _ _ _).mpr hFind, hq⟩
        rw [overlay_heap (hLive q hMem)]
      dsimp only
      rw [hSame]
      rfl

theorem overlay_cancelResting {g : Heap} (hs : Quiet s.heap s.book)
    (hLive : ∀ q ∈ s.book.livePtrs, q ∈ S) (id : UInt64) :
    (s.overlay S g).cancelResting id =
      ((s.cancelResting id).1, (s.cancelResting id).2.overlay S g) := by
  unfold cancelResting
  rw [overlay_book]
  cases hFind : s.book.orderIndex.find? id with
  | none => rfl
  | some p =>
      have hIndex := (hs.indexed.index _ ((OrderedMap.mem_entries_iff _ _ _).mpr hFind)).2
      have hp : p ∈ S := hLive p (hIndex.resolve_left not_false)
      dsimp only
      rw [overlay_heap hp]
      by_cases hClosed : (s.heap p).status = .FILLED ∨ (s.heap p).status = .CANCELLED
      · rw [if_pos hClosed, if_pos hClosed]
      · rw [if_neg hClosed, if_neg hClosed, overlay_setStatus hp, overlay_heap hp,
          overlay_removeFromLevel (s := s.setStatus p .CANCELLED) hLive, overlay_eraseIndex]

/-- What a cancel leaves of a quiet book. -/
theorem quiet_cancelResting (hs : Quiet s.heap s.book) (id : UInt64) :
    Quiet (s.cancelResting id).2.heap (s.cancelResting id).2.book ∧
      ∀ q ∈ (s.cancelResting id).2.book.livePtrs, q ∈ s.book.livePtrs := by
  have hTidy := s.tidy_cancelResting hs.tidy id
  rcases s.cancelResting_cases id with ⟨hCall, -⟩ | ⟨p, -, -, hCall⟩
  · rw [hCall]
    exact ⟨hs, fun _ hq => hq⟩
  have hHeap := s.setStatus_heap_eq p .CANCELLED
  let v := s.setStatus p .CANCELLED
  let w := v.removeFromLevel (s.heap p).side (s.heap p).price id
  have hw : w.heap = v.heap ∧ w.book.orderIndex = s.book.orderIndex :=
    removeFromLevel_rest v (s.heap p).side (s.heap p).price id
  have hPtrs : (w.eraseIndex id).book.livePtrs = w.book.livePtrs :=
    OrderBook.livePtrs_congr_eq fun side => OrderBook.levels_mk _ _ _ side
  have hIndex : (w.eraseIndex id).book.orderIndex = s.book.orderIndex.erase id := by
    rw [← hw.2]
    rfl
  have hIds : ∀ q, ((w.eraseIndex id).heap q).orderId = (s.heap q).orderId := by
    intro q
    obtain ⟨_, hq⟩ := hHeap q
    show (w.heap q).orderId = _
    rw [hw.1]
    show ((s.setStatus p .CANCELLED).heap q).orderId = _
    rw [hq]
  have hOpen : ∀ q ∈ s.book.livePtrs, ((w.eraseIndex id).heap q).isFilled = false := by
    intro q hLive
    obtain ⟨_, hq⟩ := hHeap q
    show (w.heap q).isFilled = false
    rw [hw.1]
    show ((s.setStatus p .CANCELLED).heap q).isFilled = false
    rw [hq]
    exact (hs.indexed.live q hLive).2
  rw [hCall] at hTidy ⊢
  rcases livePtrs_removeFromLevel (s := v) hs.tidy (s.heap p).side (s.heap p).price id with
    hPerm | ⟨x, hx, hPerm⟩
  · have hPerm' : (w.eraseIndex id).book.livePtrs.Perm s.book.livePtrs := by rwa [hPtrs]
    refine ⟨⟨hTidy, hs.indexed.of_perm hPerm' ?_ (fun e _ => hIds e.2) hOpen⟩, fun q hq => ?_⟩
    · rw [hIndex]
      exact fun e he => List.mem_of_mem_filter he
    · exact hPerm'.mem_iff.mp hq
  · have hPerm' : s.book.livePtrs.Perm (x :: (w.eraseIndex id).book.livePtrs) := by rwa [hPtrs]
    have hx' : (s.heap x).orderId = id := by
      obtain ⟨_, hq⟩ := hHeap x
      rw [← hx]
      show _ = ((s.setStatus p .CANCELLED).heap x).orderId
      rw [hq]
    have hMem : ∀ q ∈ (w.eraseIndex id).book.livePtrs, q ∈ s.book.livePtrs := fun q hq =>
      hPerm'.mem_iff.mpr (List.mem_cons_of_mem x hq)
    exact ⟨⟨hTidy, hs.indexed.remove hPerm' hx' hIndex hIds fun q hq _ => hOpen q (hMem q hq)⟩, hMem⟩

/-- `cancel_order` depends on the live orders only, writes to no other and adds none. -/
theorem cancelOrder_frame (hs : Quiet s.heap s.book) (hLive : ∀ q ∈ s.book.livePtrs, q ∈ S)
    (id : UInt64) (g : Heap) :
    (s.overlay S g).cancelOrder id = ((s.cancelOrder id).1, (s.cancelOrder id).2.overlay S g) ∧
      Quiet (s.cancelOrder id).2.heap (s.cancelOrder id).2.book ∧
      ∀ q ∈ (s.cancelOrder id).2.book.livePtrs, q ∈ s.book.livePtrs := by
  refine ⟨?_, quiet_cancelResting hs id⟩
  unfold cancelOrder
  rw [overlay_cancelResting hs hLive]

end BookState

end MatchingMachine
