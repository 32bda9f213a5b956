import MatchingMachine.Model.OrderBookV1
import MatchingMachine.Refinement.MatchStep

/-!
# The optimised book and the original one

The original book keeps a deque where the optimised one keeps a vector with a cursor and holes.
`BookState.original` forgets the difference: it replaces every level by the queue it stands for.
Each statement, loop body and function of the original book does to `s.original` what its
counterpart does to `s`, so the two books go through corresponding states.

For this every level of the optimised book must have a live order at its cursor (`Live`), or,
while it is being matched, no hole there (`FrontClean`).  Nothing is asked of the orders: IDs may
repeat and quantities may be zero or negative.
-/

namespace MatchingMachine

open Interaction

variable {k : Nat}

/-- The levels as deques. -/
def OrderBook.original (b : OrderBook) : OrderBookV1 where
  bidLevels := b.bidLevels.map PriceLevel.live
  askLevels := b.askLevels.map PriceLevel.live
  orderIndex := b.orderIndex
  tradeIdCounter := b.tradeIdCounter

namespace BookState

/-- The state of the original book that a state stands for. -/
def original (s : BookState k) : V1State where
  heap := s.heap
  book := s.book.original
  trades := s.trades

section Statements

variable (s : BookState k)

@[simp] theorem original_heap : s.original.heap = s.heap := rfl

@[simp] theorem original_levels (side : Side) :
    s.original.book.levels side = (s.book.levels side).map PriceLevel.live := by
  cases side <;> rfl

@[simp] theorem original_setStatus (p : OrderPtr) (status : OrderStatus) :
    s.original.setStatus p status = (s.setStatus p status).original := rfl

@[simp] theorem original_eraseIndex (id : UInt64) :
    s.original.eraseIndex id = (s.eraseIndex id).original := rfl

@[simp] theorem original_insertIndex (id : UInt64) (p : OrderPtr) :
    s.original.insertIndex id p = (s.insertIndex id p).original := rfl

@[simp] theorem original_fill (opp : Side) (inc res : OrderPtr) (price : Int) :
    s.original.fill opp inc res price = (s.fill opp inc res price).1.original := rfl

theorem original_ite (c : Prop) [Decidable c] (t : BookState k) :
    (if c then s.original else t.original) = (if c then s else t).original := by
  split <;> rfl

theorem original_setLevels (side : Side) (ls : Levels side) :
    s.original.book.setLevels side (ls.map PriceLevel.live) =
      (s.book.setLevels side ls).original := by
  cases side <;> rfl

theorem original_eraseFront (opp : Side) :
    s.original.eraseFront opp = (s.eraseFront opp).original := by
  unfold V1State.eraseFront eraseFront original
  dsimp only
  have hLevels : s.book.original.levels opp = _ := s.original_levels opp
  rw [hLevels, OrderedMap.eraseBegin_map]
  exact congrArg (fun b => V1State.mk s.heap b s.trades) (s.original_setLevels opp _)

theorem original_popFront {opp : Side} {price : Int} {level : PriceLevel} {p : OrderPtr}
    (hBegin : (s.book.levels opp).begin? = some (price, level)) (hFront : level.front = some p) :
    s.original.popFront opp = (s.modifyFront opp PriceLevel.popFront).original := by
  have hTail : ∀ e ∈ (s.book.levels opp).begin?, e.2.live.tail = e.2.popFront.live := by
    rintro e he
    obtain rfl : (price, level) = e := Option.some.inj (hBegin.symm.trans he)
    rw [PriceLevel.live_popFront hFront]
    rfl
  unfold V1State.popFront modifyFront original
  dsimp only
  have hLevels : s.book.original.levels opp = _ := s.original_levels opp
  rw [hLevels, OrderedMap.modifyBegin_map PriceLevel.live hTail]
  exact congrArg (fun b => V1State.mk s.heap b s.trades) (s.original_setLevels opp _)

theorem original_settleIncoming (p : OrderPtr) :
    s.original.settleIncoming p = (s.settleIncoming p).original := by
  unfold V1State.settleIncoming settleIncoming
  rw [original_heap, original_setStatus, original_setStatus, original_eraseIndex, original_ite,
    original_ite]

theorem original_place (p : OrderPtr) (o : Order) : s.original.place p o = (s.place p o).original :=
  rfl

end Statements

/-! ## Levels -/

/-- Every level has a live order at its cursor. -/
def AllLive {side : Side} (ls : Levels side) : Prop := ∀ e ∈ ls.entries, e.2.Live

/-- So has every level behind the first, which has no hole at its cursor. -/
structure FrontClean {side : Side} (ls : Levels side) : Prop where
  front : ∀ e ∈ ls.begin?, e.2.Clean
  rest : AllLive ls.eraseBegin

theorem AllLive.frontClean {side : Side} {ls : Levels side} (h : AllLive ls) : FrontClean ls where
  front e he := (h e (List.mem_of_mem_head? he)).clean
  rest e he := h e (List.mem_of_mem_tail he)

/-- No level of a book at rest is empty or has a hole at its cursor. -/
def AtRest (s : BookState k) : Prop := ∀ side, AllLive (s.book.levels side)

/-- The state while the first of `n` levels is being matched. -/
structure InLevel (opp : Side) (n : Nat) (s : BookState k) : Prop where
  front : FrontClean (s.book.levels opp)
  other : ∀ side, side ≠ opp → AllLive (s.book.levels side)
  size_eq : (s.book.levels opp).size = n

theorem InLevel.congr_levels {opp : Side} {n : Nat} {s t : BookState k} (h : InLevel opp n s)
    (hLevels : ∀ side, t.book.levels side = s.book.levels side) : InLevel opp n t where
  front := hLevels opp ▸ h.front
  other side hNe := hLevels side ▸ h.other side hNe
  size_eq := hLevels opp ▸ h.size_eq

/-- Popping the first level keeps it clean. -/
theorem InLevel.popFront {opp : Side} {n : Nat} {s : BookState k} (h : InLevel opp n s) :
    InLevel opp n (s.modifyFront opp PriceLevel.popFront) := by
  have hLevels : (s.modifyFront opp PriceLevel.popFront).book.levels opp =
      (s.book.levels opp).modifyBegin PriceLevel.popFront := OrderBook.levels_setLevels ..
  refine ⟨⟨?_, ?_⟩, fun side hNe => ?_, ?_⟩
  · rw [hLevels, OrderedMap.begin?_modifyBegin]
    intro e he
    obtain ⟨x, -, rfl⟩ := Option.map_eq_some_iff.mp he
    exact PriceLevel.clean_popFront x.2
  · rw [hLevels, OrderedMap.eraseBegin_modifyBegin]
    exact h.front.rest
  · rw [modifyFront, OrderBook.levels_setLevels_of_ne _ hNe]
    exact h.other side hNe
  · rw [hLevels, OrderedMap.size_modifyBegin]
    exact h.size_eq

/-! ## The inner loop -/

/-- The state of `match` after it has filled a resting order, which is still in its level. -/
def afterFull (s : BookState k) (opp : Side) (inc res : OrderPtr) (price : Int) : BookState k :=
  let s := (s.fill opp inc res price).1
  let s := s.setStatus res .FILLED
  s.eraseIndex (s.heap res).orderId

/-- The state of `match` after it has filled a resting order in part. -/
def afterPart (s : BookState k) (opp : Side) (inc res : OrderPtr) (price : Int) : BookState k :=
  (s.fill opp inc res price).1.setStatus res .PARTIAL

section Fill

variable (s : BookState k) (opp : Side) (inc res : OrderPtr) (price : Int)

theorem levels_afterFull (side : Side) :
    (s.afterFull opp inc res price).book.levels side = s.book.levels side := by
  cases side <;> rfl

theorem levels_afterPart (side : Side) :
    (s.afterPart opp inc res price).book.levels side = s.book.levels side := by
  cases side <;> rfl

theorem isFilled_setStatus (status : OrderStatus) (p q : OrderPtr) :
    ((s.setStatus p status).heap q).isFilled = (s.heap q).isFilled := by
  show ((s.heap.modify p _) q).isFilled = _
  by_cases hq : q = p
  · subst hq
    rw [Heap.modify_same]
    rfl
  · rw [Heap.modify_of_ne hq]

/-- The resting order is full after the match. -/
def Fills : Prop := ((s.fill opp inc res price).1.heap res).isFilled = true

instance : Decidable (s.Fills opp inc res price) := inferInstanceAs (Decidable (_ = true))

/-- A match that does not fill the resting order fills the incoming one. -/
theorem isFilled_afterPart (hOpen : (s.heap inc).isFilled = false)
    (hRes : ¬ s.Fills opp inc res price) :
    ((s.afterPart opp inc res price).heap inc).isFilled = true := by
  have hHeap : (s.fill opp inc res price).1.heap =
      (s.heap.modify inc fun o => o.addFilled (matchQty (s.heap inc) (s.heap res))).modify res
        fun o => o.addFilled (matchQty (s.heap inc) (s.heap res)) := rfl
  unfold Fills at hRes
  rw [afterPart, isFilled_setStatus]
  rw [hHeap] at hRes ⊢
  by_cases hEq : inc = res
  · subst hEq
    rw [Bool.not_eq_true] at hRes
    simp only [Heap.modify_same, Order.not_isFilled_iff, Order.addFilled, matchQty,
      Order.remainingQty, min_self] at hOpen hRes
    omega
  · rw [Heap.modify_same, Heap.modify_of_ne fun h => hEq h.symm] at hRes
    rw [Heap.modify_of_ne hEq, Heap.modify_same]
    exact (isFilled_of_match (s.heap inc) (s.heap res)).resolve_right hRes

end Fill

/-- A round of the inner loop at a clean first level, in the optimised book. -/
theorem matchLevelRound_of_live {s : BookState k} {opp : Side} {inc : OrderPtr} {price : Int}
    {level : PriceLevel} (hBegin : (s.book.levels opp).begin? = some (price, level))
    (hClean : level.Clean) :
    matchLevelRound opp inc s =
      match level.live with
      | [] => .done s
      | res :: _ =>
          if (s.heap inc).isFilled then .done s
          else if s.Fills opp inc res price then
            .yield ((s.afterFull opp inc res price).modifyFront opp PriceLevel.popFront)
          else .yield (s.afterPart opp inc res price) := by
  unfold matchLevelRound
  rw [hBegin]
  dsimp only
  have hEmpty := hClean.empty_iff
  have hFront := hClean.front_eq
  cases hLive : level.live with
  | nil =>
      rw [hEmpty.mpr hLive]
      simp
  | cons res rest =>
      have hNe : level.empty = false := by simpa [hLive] using hEmpty
      rw [hLive] at hFront
      simp only [hFront, hNe, Bool.or_false, List.head?_cons]
      rfl

/-- And the same round in the original book. -/
theorem matchLevelRound_v1 {s : BookState k} {opp : Side} {inc : OrderPtr} {price : Int}
    {level : PriceLevel} (hBegin : (s.book.levels opp).begin? = some (price, level)) :
    V1State.matchLevelRound opp inc s.original =
      match level.live with
      | [] => .done s.original
      | res :: _ =>
          if (s.heap inc).isFilled then .done s.original
          else if s.Fills opp inc res price then
            .yield ((s.afterFull opp inc res price).original.popFront opp)
          else .yield (s.afterPart opp inc res price).original := by
  unfold V1State.matchLevelRound
  rw [original_levels, OrderedMap.begin?_map, hBegin]
  simp only [Option.map_some]
  cases level.live with
  | nil => rfl
  | cons res rest => rfl

/-- One if the order is still to be filled. -/
def pendingFill (s : BookState k) (inc : OrderPtr) : Nat := if (s.heap inc).isFilled then 0 else 1

theorem pendingFill_le (s : BookState k) (inc : OrderPtr) : s.pendingFill inc ≤ 1 := by
  unfold pendingFill
  split <;> omega

/-- The length of the queue at the best price. -/
def queueLength (s : BookState k) (opp : Side) : Nat :=
  ((s.book.levels opp).begin?.map fun e => e.2.live.length).getD 0

/-- The orders the inner loop can still fill. -/
def frontMeasure (opp : Side) (inc : OrderPtr) (s : BookState k) : Nat :=
  s.queueLength opp + s.pendingFill inc

/-- What the inner loop leaves. -/
structure LevelDone (opp : Side) (n : Nat) (inc : OrderPtr) (s : BookState k) : Prop where
  inLevel : InLevel opp n s
  exit : (s.heap inc).isFilled = true ∨ s.frontEmpty opp = true

/-- The books do the same in a round of their inner loops. -/
theorem matchLevelRound_original {opp : Side} {n : Nat} (inc : OrderPtr) {s : BookState k}
    (h : InLevel opp n s) :
    V1State.matchLevelRound opp inc s.original = mapStep original (matchLevelRound opp inc s) ∧
      stepPost (InLevel opp n) (LevelDone opp n inc) (frontMeasure opp inc) s
        (matchLevelRound opp inc s) := by
  cases hBegin : (s.book.levels opp).begin? with
  | none =>
      have hEmpty : s.frontEmpty opp = true := by rw [frontEmpty, hBegin]
      unfold V1State.matchLevelRound matchLevelRound
      rw [original_levels, OrderedMap.begin?_map, hBegin]
      exact ⟨rfl, h, Or.inr hEmpty⟩
  | some e =>
      obtain ⟨price, level⟩ := e
      have hClean : level.Clean := h.front.front _ hBegin
      rw [matchLevelRound_of_live hBegin hClean, matchLevelRound_v1 hBegin]
      cases hLive : level.live with
      | nil =>
          have hEmpty : s.frontEmpty opp = true := by
            rw [frontEmpty, hBegin]
            exact hClean.empty_iff.mpr hLive
          exact ⟨rfl, h, Or.inr hEmpty⟩
      | cons res rest =>
          dsimp only
          by_cases hFull : (s.heap inc).isFilled = true
          · rw [if_pos hFull, if_pos hFull]
            exact ⟨rfl, h, Or.inl hFull⟩
          rw [if_neg hFull, if_neg hFull]
          have hMeasure : frontMeasure opp inc s = rest.length + 2 := by
            rw [frontMeasure, queueLength, hBegin, pendingFill, if_neg hFull]
            simp [hLive]
          by_cases hRes : s.Fills opp inc res price
          · -- the resting order leaves the queue
            rw [if_pos hRes, if_pos hRes]
            have hLevels := s.levels_afterFull opp inc res price
            have hBegin' := hBegin
            rw [← hLevels opp] at hBegin'
            have hFront : level.front = some res := by rw [hClean.front_eq, hLive]; rfl
            refine ⟨congrArg _ (original_popFront _ hBegin' hFront),
              (h.congr_levels hLevels).popFront, ?_⟩
            have hQueue : ((s.afterFull opp inc res price).modifyFront opp
                PriceLevel.popFront).queueLength opp = rest.length := by
              have hPop := PriceLevel.live_popFront hFront
              rw [hLive] at hPop
              rw [queueLength, modifyFront, OrderBook.levels_setLevels,
                OrderedMap.begin?_modifyBegin, hBegin']
              exact congrArg List.length (List.cons.inj hPop).2.symm
            have hLe := pendingFill_le
              ((s.afterFull opp inc res price).modifyFront opp PriceLevel.popFront) inc
            rw [hMeasure, frontMeasure, hQueue]
            omega
          · -- the incoming order is full
            rw [if_neg hRes, if_neg hRes]
            have hLevels := s.levels_afterPart opp inc res price
            refine ⟨rfl, h.congr_levels hLevels, ?_⟩
            have hInc := s.isFilled_afterPart opp inc res price (by simpa using hFull) hRes
            have hQueue : (s.afterPart opp inc res price).queueLength opp = rest.length + 1 := by
              rw [queueLength, hLevels opp, hBegin]
              simp [hLive]
            rw [hMeasure, frontMeasure, hQueue, pendingFill, if_pos hInc]
            omega

/-! ## The outer loop -/

/-- The levels, and then the incoming order, that the outer loop can still finish. -/
def levelsMeasure (opp : Side) (inc : OrderPtr) (s : BookState k) : Nat :=
  (s.book.levels opp).size + s.pendingFill inc

theorem AtRest.inLevel {s : BookState k} (h : s.AtRest) (opp : Side) :
    InLevel opp (s.book.levels opp).size s where
  front := (h opp).frontClean
  other side _ := h side
  size_eq := rfl

theorem frontEmpty_original {s : BookState k} {opp : Side} (h : FrontClean (s.book.levels opp)) :
    s.original.frontEmpty opp = s.frontEmpty opp := by
  unfold V1State.frontEmpty frontEmpty
  rw [original_levels, OrderedMap.begin?_map]
  cases hBegin : (s.book.levels opp).begin? with
  | none => rfl
  | some e =>
      have hClean := (h.front e hBegin).empty_iff
      apply Bool.eq_iff_iff.mpr
      exact List.isEmpty_iff.trans hClean.symm

/-- Once the first level has been matched it is dropped if nothing is left in it. -/
theorem LevelDone.atRest {opp : Side} {n : Nat} {inc : OrderPtr} {s : BookState k}
    (h : LevelDone opp n inc s) :
    AtRest (if s.frontEmpty opp then s.eraseFront opp else s) := by
  by_cases hEmpty : s.frontEmpty opp = true
  · rw [if_pos hEmpty]
    intro side
    by_cases hSide : side = opp
    · subst hSide
      rw [eraseFront, OrderBook.levels_setLevels]
      exact h.inLevel.front.rest
    · rw [eraseFront, OrderBook.levels_setLevels_of_ne _ hSide]
      exact h.inLevel.other side hSide
  · rw [if_neg hEmpty]
    intro side
    by_cases hSide : side = opp
    · subst hSide
      intro e he
      rw [frontEmpty] at hEmpty
      cases hEntries : (s.book.levels side).entries with
      | nil =>
          rw [hEntries] at he
          exact absurd he List.not_mem_nil
      | cons x es =>
          have hBegin : (s.book.levels side).begin? = some x := by
            rw [OrderedMap.begin?, hEntries]
            rfl
          rw [hBegin] at hEmpty
          rw [hEntries] at he
          rcases List.mem_cons.mp he with rfl | he
          · have hClean := h.inLevel.front.front e hBegin
            exact hClean.live_of_ne fun hNil => hEmpty (hClean.empty_iff.mpr hNil)
          · refine h.inLevel.front.rest e ?_
            rw [OrderedMap.entries_eraseBegin hEntries]
            exact he
    · exact h.inLevel.other side hSide

/-- The books do the same in a round of their outer loops. -/
theorem matchRound_original {opp : Side} (inc : OrderPtr) {s : BookState k} (h : s.AtRest) :
    ∃ r, matchRound opp inc s = some r ∧
      V1State.matchRound opp inc s.original = some (mapStep original r) ∧
      stepPost AtRest AtRest (levelsMeasure opp inc) s r := by
  unfold matchRound V1State.matchRound
  rw [original_levels, OrderedMap.begin?_map, original_heap]
  cases hBegin : (s.book.levels opp).begin? with
  | none => exact ⟨_, rfl, rfl, h⟩
  | some e =>
      obtain ⟨price, level⟩ := e
      dsimp only [Option.map_some]
      by_cases hFull : (s.heap inc).isFilled = true
      · rw [if_pos hFull, if_pos hFull]
        exact ⟨_, rfl, rfl, h⟩
      rw [if_neg hFull, if_neg hFull]
      by_cases hCross : opp.before (s.heap inc).price price
      · rw [if_pos hCross, if_pos hCross]
        exact ⟨_, rfl, rfl, h⟩
      rw [if_neg hCross, if_neg hCross]
      obtain ⟨es, hEntries⟩ := OrderedMap.begin?_eq_some hBegin
      have hLive : level.Live := h opp (price, level) (by rw [hEntries]; exact List.mem_cons_self ..)
      -- there is no hole to drop
      have hDrop : s.modifyFront opp PriceLevel.dropHoles = s :=
        modifyFront_of_eq hEntries (PriceLevel.dropHoles_of_clean hLive.clean)
      have hNonempty : s.frontEmpty opp = false := by
        rw [frontEmpty_eq hEntries, ← Bool.not_eq_true, hLive.clean.empty_iff]
        exact hLive.live_ne_nil
      have hSize : s.frontSize opp = level.size := frontSize_eq hEntries
      have hQueue : s.original.frontSize opp = level.live.length := by
        unfold V1State.frontSize
        rw [original_levels, OrderedMap.begin?_map, hBegin]
        rfl
      have hShort : level.live.length ≤ level.size := by
        rw [PriceLevel.size_eq]
        exact List.reduceOption_length_le _
      have hMeasure : frontMeasure opp inc s = level.live.length + 1 := by
        rw [frontMeasure, queueLength, hBegin, pendingFill, if_neg hFull]
        rfl
      rw [hDrop, if_neg (by simp [hNonempty]), hSize, hQueue]
      obtain ⟨t, hLoop, hLoop', hDone⟩ :
          ∃ t, loop none (fun s => some (matchLevelRound opp inc s)) (level.size + 2) s = some t ∧
            loop none (fun s => some (V1State.matchLevelRound opp inc s))
              (level.live.length + 2) s.original = some t.original ∧
            LevelDone opp (s.book.levels opp).size inc t := by
        refine loop_map original (InLevel opp _) (frontMeasure opp inc) (fun s hs => ?_) (by omega)
          (by omega) (h.inLevel opp)
        obtain ⟨hRound, hPost⟩ := matchLevelRound_original inc hs
        exact ⟨_, rfl, congrArg some hRound, hPost⟩
      refine ⟨.yield (if t.frontEmpty opp then t.eraseFront opp else t), ?_, ?_, hDone.atRest, ?_⟩
      · rw [hLoop]
        rfl
      · rw [hLoop']
        show some (ForInStep.yield _) = _
        rw [frontEmpty_original hDone.inLevel.front, original_eraseFront, original_ite]
        rfl
      · -- a level is gone, or the incoming order is full
        have hPos : 0 < (s.book.levels opp).size := by
          rw [OrderedMap.size, hEntries]
          exact Nat.succ_pos _
        have hBefore : levelsMeasure opp inc s = (s.book.levels opp).size + 1 := by
          rw [levelsMeasure, pendingFill, if_neg hFull]
        have hCount := hDone.inLevel.size_eq
        rw [hBefore]
        by_cases hEmpty : t.frontEmpty opp = true
        · have hLe := pendingFill_le (t.eraseFront opp) inc
          rw [if_pos hEmpty, levelsMeasure, eraseFront, OrderBook.levels_setLevels,
            OrderedMap.size_eraseBegin, hCount]
          rw [eraseFront] at hLe
          omega
        · have hInc := hDone.exit.resolve_right hEmpty
          rw [if_neg hEmpty, levelsMeasure, pendingFill, if_pos hInc, hCount]
          omega

/-! ## The calls -/

theorem AtRest.congr_levels {s t : BookState k} (h : s.AtRest)
    (hLevels : ∀ side, t.book.levels side = s.book.levels side) : t.AtRest := by
  intro side
  rw [hLevels side]
  exact h side

/-- Replacing one level map by another whose levels are live. -/
theorem AtRest.setLevels {s : BookState k} (h : s.AtRest) {side : Side} {ls : Levels side}
    (hls : AllLive ls) : AtRest { s with book := s.book.setLevels side ls } := by
  intro t
  by_cases hSide : t = side
  · subst hSide
    show AllLive ((s.book.setLevels t ls).levels t)
    rw [OrderBook.levels_setLevels]
    exact hls
  · show AllLive ((s.book.setLevels side ls).levels t)
    rw [OrderBook.levels_setLevels_of_ne _ hSide]
    exact h t

theorem AllLive.upsert {side : Side} {ls : Levels side} (h : AllLive ls) {price : Int}
    {f : Option PriceLevel → PriceLevel} (hNone : (f none).Live)
    (hSome : ∀ level : PriceLevel, level.Live → (f (some level)).Live) :
    AllLive (ls.upsert price f) := by
  obtain ⟨before, after, -, -, ⟨-, hEntries, -, hUpsert⟩ | ⟨level, -, hEntries, -, hUpsert⟩⟩ :=
    ls.exists_split price
  all_goals
    intro e he
    rw [hUpsert f] at he
    rw [AllLive, hEntries] at h
    rcases List.mem_append.mp he with he | he
    · exact h e (List.mem_append_left _ he)
    rcases List.mem_cons.mp he with rfl | he
  · exact hNone
  · exact h e (List.mem_append_right _ he)
  · exact hSome level (h _ (List.mem_append_right _ (List.mem_cons_self ..)))
  · exact h e (List.mem_append_right _ (List.mem_cons_of_mem _ he))

theorem AllLive.erase {side : Side} {ls : Levels side} (h : AllLive ls) (price : Int) :
    AllLive (ls.erase price) := fun e he => h e (List.mem_filter.mp he).1

theorem atRest_settleIncoming {s : BookState k} (h : s.AtRest) (p : OrderPtr) :
    (s.settleIncoming p).AtRest := by
  unfold settleIncoming
  split
  · exact h.congr_levels fun side => OrderBook.levels_mk ..
  · split
    · exact h
    · exact h

/-- The books match an order the same way. -/
theorem matchOrder_original {s : BookState k} (h : s.AtRest) (inc : OrderPtr) :
    ∃ t, matchOrder inc s = some t ∧ V1State.matchOrder inc s.original = some t.original ∧
      t.AtRest := by
  have hMeasure : levelsMeasure (s.heap inc).side.opposite inc s <
      (s.book.levels (s.heap inc).side.opposite).size + 2 := by
    have hLe := s.pendingFill_le inc
    unfold levelsMeasure
    omega
  obtain ⟨t, hLoop, hLoop', hRest⟩ :
      ∃ t, loop none (matchRound (s.heap inc).side.opposite inc)
          ((s.book.levels (s.heap inc).side.opposite).size + 2) s = some t ∧
        loop none (V1State.matchRound (s.heap inc).side.opposite inc)
          ((s.book.levels (s.heap inc).side.opposite).size + 2) s.original = some t.original ∧
        t.AtRest :=
    loop_map original AtRest _ (fun s hs => matchRound_original inc hs) hMeasure hMeasure h
  refine ⟨t.settleIncoming inc, ?_, ?_, atRest_settleIncoming hRest inc⟩
  · unfold matchOrder
    dsimp only
    rw [hLoop]
    rfl
  · unfold V1State.matchOrder
    dsimp only
    rw [original_heap, original_levels, OrderedMap.size_map, hLoop']
    exact congrArg some (original_settleIncoming t inc)

/-- What is left of an order joins the same queue. -/
theorem restOrder_original {s : BookState k} (h : s.AtRest) (p : OrderPtr) :
    s.original.restOrder p = (s.restOrder p).original ∧ (s.restOrder p).AtRest := by
  unfold V1State.restOrder restOrder
  dsimp only [original_heap]
  split
  · constructor
    · have hPush : ((s.book.levels (s.heap p).side).map PriceLevel.live).upsert (s.heap p).price
          (fun dq => dq.getD [] ++ [p]) = ((s.book.levels (s.heap p).side).upsert (s.heap p).price
            fun level => (level.getD {}).push p).map PriceLevel.live := by
        apply OrderedMap.upsert_map
        · exact (PriceLevel.live_push_empty p).symm
        · intro e he
          exact (PriceLevel.live_push (h _ e he).head_le p).symm
      rw [original_levels, hPush, original_setLevels]
      rfl
    · exact h.setLevels ((h _).upsert (PriceLevel.liveLevel_push_empty p) fun level hLevel =>
        hLevel.push p)
  · exact ⟨rfl, h⟩

/-- The books add an order the same way, also if their clocks read differently. -/
theorem addOrder_original {s : BookState k} (h : s.AtRest) {p : OrderPtr}
    (hClock : (s.heap p).timestampNs ≠ 0) (now now' : UInt64) :
    ∃ t, addOrder (some p) now s = some t ∧
      V1State.addOrder (some p) now' s.original = some t.original ∧ t.AtRest := by
  let entered := ({ s with trades := [] } : BookState k).insertIndex (s.heap p).orderId p
  have hEntered : entered.AtRest := h.congr_levels fun side => OrderBook.levels_mk ..
  obtain ⟨t, hMatch, hMatch', hRest⟩ := matchOrder_original hEntered p
  obtain ⟨hJoin, hEnd⟩ := restOrder_original hRest p
  refine ⟨t.restOrder p, ?_, ?_, hEnd⟩
  · have hStamp : ({ s with trades := [] } : BookState k).stampIncoming p now =
        { s with trades := [] } := if_neg hClock
    unfold addOrder
    dsimp only
    rw [hStamp]
    exact congrArg (Option.bind · fun t => some (t.restOrder p)) hMatch
  · unfold V1State.addOrder V1State.stampIncoming
    dsimp only [original_heap]
    rw [if_neg hClock]
    refine (congrArg (Option.bind · fun t => some (t.restOrder p)) hMatch').trans ?_
    exact congrArg some hJoin

/-- The books take an order out of its level the same way. -/
theorem removeFromLevel_original {s : BookState k} (h : s.AtRest) (side : Side) (price : Int)
    (id : UInt64) :
    s.original.removeFromLevel side price id = (s.removeFromLevel side price id).original ∧
      (s.removeFromLevel side price id).AtRest := by
  unfold V1State.removeFromLevel removeFromLevel
  rw [original_levels, OrderedMap.find?_map]
  cases hFind : (s.book.levels side).find? price with
  | none => exact ⟨rfl, h⟩
  | some level =>
      have hLive : level.Live :=
        h side _ (((s.book.levels side).mem_entries_iff price level).mpr hFind)
      have hQueue : level.live.eraseP (fun p => (s.original.heap p).orderId = id) =
          (level.removeId s.heap id).live := (PriceLevel.live_removeId hLive.head_le s.heap id).symm
      have hClean := PriceLevel.clean_removeId hLive.head_le s.heap id
      dsimp only [Option.map_some]
      rw [hQueue]
      simp only [List.isEmpty_iff]
      by_cases hEmpty : (level.removeId s.heap id).live = []
      · rw [if_pos hEmpty, if_pos (hClean.empty_iff.mpr hEmpty), OrderedMap.erase_map,
          original_setLevels]
        exact ⟨rfl, h.setLevels ((h side).erase price)⟩
      · have hNonempty : ¬ (level.removeId s.heap id).empty = true := fun hEmp =>
          hEmpty (hClean.empty_iff.mp hEmp)
        rw [if_neg hEmpty, if_neg hNonempty,
          OrderedMap.upsert_map PriceLevel.live (f := fun _ => level.removeId s.heap id) rfl
            fun _ _ => rfl,
          original_setLevels]
        have hNext := hClean.live_of_ne hEmpty
        exact ⟨rfl, h.setLevels ((h side).upsert hNext fun _ _ => hNext)⟩

/-- The books cancel an order the same way. -/
theorem cancelOrder_original {s : BookState k} (h : s.AtRest) (id : UInt64) :
    s.original.cancelOrder id = ((s.cancelOrder id).1, (s.cancelOrder id).2.original) ∧
      (s.cancelOrder id).2.AtRest := by
  unfold V1State.cancelOrder cancelOrder cancelResting
  have hIndex : s.original.book.orderIndex = s.book.orderIndex := rfl
  rw [hIndex]
  cases s.book.orderIndex.find? id with
  | none => exact ⟨rfl, h⟩
  | some p =>
      dsimp only
      rw [original_heap]
      by_cases hDone : (s.heap p).status = .FILLED ∨ (s.heap p).status = .CANCELLED
      · rw [if_pos hDone, if_pos hDone]
        exact ⟨rfl, h⟩
      · rw [if_neg hDone, if_neg hDone]
        have hMarked : (s.setStatus p .CANCELLED).AtRest := h
        obtain ⟨hRemove, hRest⟩ := removeFromLevel_original hMarked
          ((s.setStatus p .CANCELLED).heap p).side ((s.setStatus p .CANCELLED).heap p).price id
        rw [original_setStatus, original_heap, hRemove, original_eraseIndex]
        exact ⟨rfl, hRest.congr_levels fun side => OrderBook.levels_mk ..⟩

/-! ## Sessions -/

theorem bestBid_original (s : BookState k) : s.original.book.bestBid = s.book.bestBid := by
  show OrderBookV1.bestBid s.book.original = _
  unfold OrderBookV1.bestBid OrderBook.bestBid OrderBook.original
  rw [OrderedMap.begin?_map]
  cases s.book.bidLevels.begin? <;> rfl

theorem bestAsk_original (s : BookState k) : s.original.book.bestAsk = s.book.bestAsk := by
  show OrderBookV1.bestAsk s.book.original = _
  unfold OrderBookV1.bestAsk OrderBook.bestAsk OrderBook.original
  rw [OrderedMap.begin?_map]
  cases s.book.askLevels.begin? <;> rfl

theorem atRest_clear (s : BookState k) : s.clear.AtRest := by
  intro side
  cases side <;> exact fun e he => absurd he List.not_mem_nil

end BookState

/-- The same call, perhaps at another time. -/
def Request.Same : Request → Request → Prop
  | .add p o _, .add p' o' _ => p = p' ∧ o = o'
  | .cancel id, .cancel id' => id = id'
  | .clear, .clear => True
  | _, _ => False

/-- An order that is added has a timestamp of its own. -/
def Request.Preset : Request → Prop
  | .add _ o _ => o.timestampNs ≠ 0
  | _ => True

namespace BookState

/-- The books perform a call the same way. -/
theorem perform_original {s : BookState k} (h : s.AtRest) {r r' : Request} (hSame : r.Same r')
    (hPreset : r.Preset) :
    ∃ response t, s.perform r = some (response, t) ∧
      s.original.perform r' = some (response, t.original) ∧ t.AtRest := by
  cases r with
  | add p o now =>
      cases r' with
      | add p' o' now' =>
          obtain ⟨rfl, rfl⟩ := hSame
          have hPlace : (s.place p o).AtRest := h
          have hClock : ((s.place p o).heap p).timestampNs ≠ 0 := by
            rw [place_heap_self]
            exact hPreset
          obtain ⟨t, hAdd, hAdd', hRest⟩ := addOrder_original hPlace hClock now now'
          refine ⟨.trades t.trades, t, ?_, ?_, hRest⟩
          · rw [perform, hAdd]
            rfl
          · rw [V1State.perform, original_place, hAdd']
            rfl
      | cancel id => exact hSame.elim
      | clear => exact hSame.elim
  | cancel id =>
      cases r' with
      | add p' o' now' => exact hSame.elim
      | cancel id' =>
          obtain rfl : id = id' := hSame
          obtain ⟨hCancel, hRest⟩ := cancelOrder_original h id
          refine ⟨.cancelled (s.cancelOrder id).1, (s.cancelOrder id).2, rfl, ?_, hRest⟩
          rw [V1State.perform, hCancel]
      | clear => exact hSame.elim
  | clear =>
      cases r' with
      | add p' o' now' => exact hSame.elim
      | cancel id => exact hSame.elim
      | clear => exact ⟨.cleared, _, rfl, rfl, s.atRest_clear⟩

/-- And a session. -/
theorem session_original {s : BookState k} (h : s.AtRest) {rs rs' : List Request}
    (hSame : List.Forall₂ Request.Same rs rs') (hPreset : ∀ r ∈ rs, r.Preset) :
    ∃ os t, s.session rs = some (os, t) ∧ s.original.session rs' = some (os, t.original) ∧
      t.AtRest := by
  induction hSame generalizing s with
  | nil => exact ⟨[], s, rfl, rfl, h⟩
  | @cons r r' rs rs' hr hrs ih =>
      obtain ⟨response, t, hPerform, hPerform', hRest⟩ :=
        perform_original h hr (hPreset r (List.mem_cons_self ..))
      obtain ⟨os, u, hSession, hSession', hEnd⟩ :=
        ih hRest fun x hx => hPreset x (List.mem_cons_of_mem _ hx)
      let answers : Observation Trade :=
        { response := response, bestBid := t.book.bestBid, bestAsk := t.book.bestAsk,
          orderCount := t.book.orderCount }
      refine ⟨answers :: os, u, ?_, ?_, hEnd⟩
      · rw [session, hPerform]
        simp only [Option.bind_eq_bind, Option.bind_some, hSession]
        rfl
      · rw [V1State.session, hPerform']
        simp only [Option.bind_eq_bind, Option.bind_some, hSession', bestBid_original,
          bestAsk_original]
        rfl

end BookState

/-- The optimised book and the original one are observationally equal.  For every sequence of
calls, run once on each with its own copy of the orders, where every order that is added has a
timestamp of its own: after any number `n` of calls both runs have returned the same results,
trade IDs and all other fields included, both books answer the same, and every order has the same
contents. -/
theorem originalAgrees (heap : Heap) (buf : TradeRingBuffer k) {rs rs' : List Request}
    (hSame : List.Forall₂ Request.Same rs rs') (hPreset : ∀ r ∈ rs, r.Preset) (n : Nat) :
    ∃ os final final',
      ({ heap := heap, book := {}, buf := buf } : BookState k).session (rs.take n) =
          some (os, final) ∧
        ({ heap := heap, book := {} } : V1State).session (rs'.take n) = some (os, final') ∧
        ∀ p, final.heap p = final'.heap p := by
  have hNew : ({ heap := heap, book := {}, buf := buf } : BookState k).AtRest := by
    intro side
    cases side <;> exact fun e he => absurd he List.not_mem_nil
  obtain ⟨os, t, hSession, hSession', -⟩ := BookState.session_original hNew
    (List.forall₂_take n hSame) fun r hr => hPreset r (List.mem_of_mem_take hr)
  exact ⟨os, t, t.original, hSession, hSession', fun _ => rfl⟩

/-- Two orders with one ID at one price, a cancel of that ID, and an order that meets what is
left. -/
theorem originalAgrees_repeated_id :
    ∃ (os : List (Observation Trade)) (final : BookState 4) (final' : V1State),
      os.map Observation.orderCount = [1, 1, 0, 0] ∧ ∀ p, final.heap p = final'.heap p := by
  let rs : UInt64 → List Request := fun now =>
    [.add 0 { orderId := 1, timestampNs := 1, price := 100, quantity := 5, side := .SELL } now,
      .add 1 { orderId := 1, timestampNs := 2, price := 100, quantity := 4, side := .SELL } now,
      .cancel 1,
      .add 2 { orderId := 2, timestampNs := 3, price := 100, quantity := 4 } now]
  have hSeen : (({ heap := fun _ => {}, book := {}, buf := {} } : BookState 4).session
      ((rs 7).take 4)).map (fun r => r.1.map Observation.orderCount) = some [1, 1, 0, 0] := by
    decide +kernel
  obtain ⟨os, final, final', hRun, -, hHeap⟩ :=
    originalAgrees (k := 4) (fun _ => {}) {}
      (show List.Forall₂ Request.Same (rs 7) (rs 8) from
        .cons ⟨rfl, rfl⟩ (.cons ⟨rfl, rfl⟩ (.cons rfl (.cons ⟨rfl, rfl⟩ .nil))))
      (by simp [rs, Request.Preset]) 4
  rw [hRun] at hSeen
  exact ⟨os, final, final', Option.some.inj hSeen, hHeap⟩

end MatchingMachine
