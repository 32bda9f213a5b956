import MatchingMachine.Refinement.Confined
import MatchingMachine.Refinement.Lockstep

/-!
# Properties of all levels

What every level of a book has, the matching loops keep, if `pop_front` and `push` keep it
(`PriceLevel.Stable`), whatever the orders are.  `Tidy` is such a property, and a cancel keeps it
too.  `cancelResting_cases` says once what a cancel can do.
-/

namespace MatchingMachine

open Interaction

variable {k : Nat}

/-! ## One level -/

namespace PriceLevel

/-- The cursor is in the vector and not on a hole. -/
structure Tidy (l : PriceLevel) : Prop where
  head_le : l.head ≤ l.orders.length
  clean : l.Clean

/-- A property of levels that matching and resting keep. -/
structure Stable (P : PriceLevel → Prop) : Prop where
  popFront : ∀ l, P l → P l.popFront
  push : ∀ l p, P l → P (l.push p)
  new : ∀ p, P (({} : PriceLevel).push p)

theorem stable_tidy : Stable Tidy where
  popFront l h := by
    refine ⟨?_, clean_popFront l⟩
    unfold PriceLevel.popFront
    split
    · dsimp only
      split
      · exact Nat.zero_le _
      · exact skipHoles_le (by omega)
    · exact h.head_le
  push l p h := by
    constructor
    · have hLen : (l.push p).orders.length = l.orders.length + 1 := List.length_append
      exact hLen ▸ h.head_le.trans (Nat.le_succ _)
    · have hClean := h.clean
      unfold Clean at hClean ⊢
      rw [pending_push h.head_le]
      cases hPending : l.pending with
      | nil => simp
      | cons e es => simpa [hPending] using hClean
  new p := ⟨Nat.zero_le _, (liveLevel_push_empty p).clean⟩

theorem Stable.dropHoles {P : PriceLevel → Prop} (hP : Stable P) {l : PriceLevel} (h : P l) :
    P l.dropHoles := by
  fun_induction PriceLevel.dropHoles l with
  | case1 l hFront ih => exact ih (hP.popFront l h)
  | case2 l hFront => exact h

theorem Tidy.removeId {l : PriceLevel} (hl : l.Tidy) (h : Heap) (id : UInt64) :
    (l.removeId h id).Tidy := by
  refine ⟨skipHoles_le ?_, clean_removeId hl.head_le h id⟩
  have hHead := hl.head_le
  rw [List.length_append, List.length_take]
  omega

end PriceLevel

/-! ## The levels of a book -/

namespace OrderBook

/-- Every level of the book has a property. -/
def All (P : PriceLevel → Prop) (b : OrderBook) : Prop :=
  ∀ side, ∀ e ∈ (b.levels side).entries, P e.2

variable {P : PriceLevel → Prop} {b b' : OrderBook}

theorem All.congr (h : b.All P) (hLevels : ∀ side, b'.levels side = b.levels side) :
    b'.All P := by
  intro side e he
  rw [hLevels] at he
  exact h side e he

theorem All.setLevels (h : b.All P) {side : Side} {ls : Levels side}
    (hls : ∀ e ∈ ls.entries, P e.2) : (b.setLevels side ls).All P := by
  intro t e he
  by_cases hSide : t = side
  · subst hSide
    rw [OrderBook.levels_setLevels] at he
    exact hls e he
  · rw [OrderBook.levels_setLevels_of_ne _ hSide] at he
    exact h t e he

end OrderBook

namespace BookState

variable {P : PriceLevel → Prop} {s : BookState k}

/-- Every level has a property, as an invariant of states. -/
abbrev AllLevels (P : PriceLevel → Prop) (s : BookState k) : Prop := s.book.All P

theorem modifyFront_keeps (opp : Side) {f : PriceLevel → PriceLevel} (hf : ∀ l, P l → P (f l)) :
    Keeps (AllLevels P) s (s.modifyFront opp f) := by
  intro h
  refine h.setLevels fun e he => ?_
  rcases OrderedMap.mem_modifyBegin he with hOld | ⟨e', he', hNew⟩
  · exact h opp e hOld
  · exact hNew ▸ hf e'.2 (h opp e' he')

theorem eraseFront_keeps (opp : Side) : Keeps (AllLevels P) s (s.eraseFront opp) := fun h =>
  h.setLevels fun e he => h opp e (List.mem_of_mem_tail he)

theorem partState_keeps (opp : Side) (inc res : OrderPtr) (price : Int) :
    Keeps (AllLevels P) s (s.partState opp inc res price) := fun h =>
  h.congr fun side => s.levels_partState opp price side

theorem fullState_keeps (hP : PriceLevel.Stable P) (opp : Side) (inc res : OrderPtr)
    (price : Int) : Keeps (AllLevels P) s (s.fullState opp inc res price) := fun h =>
  (modifyFront_keeps opp hP.popFront h).congr (s.levels_fullState_eq opp inc res price)

theorem settleIncoming_keeps (inc : OrderPtr) :
    Keeps (AllLevels P) s (s.settleIncoming inc) := fun h => h.congr (s.levels_settleIncoming inc)

theorem restOrder_keeps (hP : PriceLevel.Stable P) (inc : OrderPtr) :
    Keeps (AllLevels P) s (s.restOrder inc) := by
  intro h
  unfold restOrder
  dsimp only
  split
  · refine h.setLevels fun e he => ?_
    rcases OrderedMap.mem_upsertEntries he with hOld | hNew | ⟨e', he', hNew⟩
    · exact h _ e hOld
    · exact hNew ▸ hP.new inc
    · exact hNew ▸ hP.push e'.2 inc (h _ e' he')
  · exact h

/-! ## Matching -/

variable (hP : PriceLevel.Stable P)
include hP

theorem matchLevelRoundNoalloc_keeps (opp : Side) (inc : OrderPtr) (s : BookState k) :
    within (Keeps (AllLevels P)) ForInStep.value s (matchLevelRoundNoalloc opp inc s) := by
  unfold matchLevelRoundNoalloc
  cases (s.book.levels opp).begin? with
  | none => exact id
  | some e =>
      obtain ⟨price, level⟩ := e
      dsimp only
      split
      · exact id
      cases level.front with
      | none => exact modifyFront_keeps opp hP.popFront
      | some res =>
          dsimp only
          split
          · exact ⟨fullState_keeps hP opp inc res price, fun _ => id⟩
          · exact partState_keeps opp inc res price

theorem matchRoundNoalloc_keeps (opp : Side) (inc : OrderPtr) (s : BookState k) :
    within (Keeps (AllLevels P)) ForInStep.value s (matchRoundNoalloc opp inc s) := by
  unfold matchRoundNoalloc
  cases (s.book.levels opp).begin? with
  | none => exact id
  | some e =>
      dsimp only
      split
      · exact id
      split
      · exact id
      have hDrop : Keeps (AllLevels P) s (s.modifyFront opp PriceLevel.dropHoles) :=
        modifyFront_keeps opp fun _ => hP.dropHoles
      split
      · exact fun h => eraseFront_keeps opp (hDrop h)
      · refine within_bind (within_trans hDrop (within_loop (fun _ => id)
          (fun s => matchLevelRoundNoalloc_keeps hP opp inc s) _ _)) fun s' => ?_
        show Keeps (AllLevels P) s' (if s'.frontEmpty opp then s'.eraseFront opp else s')
        split
        · exact eraseFront_keeps opp
        · exact id

theorem matchNoalloc_keeps (inc : OrderPtr) (s : BookState k) :
    within (Keeps (AllLevels P)) id s (s.matchNoalloc inc) := by
  unfold matchNoalloc
  refine within_bind (within_loop (fun _ => id)
    (fun s => matchRoundNoalloc_keeps hP _ inc s) _ _) fun s' => ?_
  exact settleIncoming_keeps inc

/-- `match`, whose copy without allocation goes through the same levels. -/
theorem matchOrder_keeps {inc : OrderPtr} {s t : BookState k} (h : s.book.All P)
    (hMatch : s.matchOrder inc = some t) : t.book.All P := by
  have hExec := exec_matchNoalloc s.buf inc s
  rw [hMatch, Option.map_some] at hExec
  have ht : (t.withBuf s.buf).book.All P :=
    exec_keeps (matchNoalloc_keeps hP inc (s.withBuf s.buf)) h hExec
  exact ht

/-- `add_order` with any order. -/
theorem addOrder_keeps {order : Option OrderPtr} {now : UInt64} {s' : BookState k}
    (h : s.book.All P) (hCall : s.addOrder order now = some s') : s'.book.All P := by
  cases order with
  | none =>
      obtain rfl := Option.some.inj hCall
      exact h
  | some p =>
      let u : BookState k := (s.stamped p now).insertIndex ((s.stamped p now).heap p).orderId p
      have hu : u.book.All P := h.congr fun side => by
        show ((s.stamped p now).insertIndex _ p).book.levels side = _
        rw [insertIndex, OrderBook.levels_mk, stamped_eq]
      have hCall : (u.matchOrder p).bind (fun s => some (s.restOrder p)) = some s' := hCall
      obtain ⟨t, hMatch, hRest⟩ := Option.bind_eq_some_iff.mp hCall
      obtain rfl := Option.some.inj hRest
      have ht : AllLevels P t := matchOrder_keeps hP hu hMatch
      exact restOrder_keeps hP p ht

/-- `add_order_noalloc` with a limit order, up to and including its deallocator calls. -/
theorem addOrderNoalloc_keeps {p : OrderPtr} {now : UInt64} (s : BookState k)
    (hType : (s.heap p).type ≠ .CANCEL) :
    within (Keeps (AllLevels P)) id s (s.addOrderNoalloc (some p) now) := by
  have hStamp : Keeps (AllLevels P) s
      ((s.stamped p now).insertIndex ((s.stamped p now).heap p).orderId p) := fun h =>
    h.congr fun side => by rw [insertIndex, OrderBook.levels_mk, stamped_eq]
  have hType' : ((s.stamped p now).heap p).type ≠ .CANCEL := by
    rw [stamped_heap_self, Order.stamp]
    split <;> exact hType
  unfold addOrderNoalloc
  simp only [← stamped.eq_def]
  rw [if_neg hType']
  refine within_trans hStamp (within_bind (matchNoalloc_keeps hP p _) fun t => ?_)
  have hRest := restOrder_keeps hP p (s := t)
  split
  · exact ⟨hRest, fun _ => id⟩
  · exact hRest

end BookState

/-! ## Cancels -/

namespace BookState

variable {P : PriceLevel → Prop} {s : BookState k}

/-- Taking an order out of its level. -/
theorem all_removeFromLevel_iff (hAll : s.book.All P) {side : Side} {price : Int}
    {level : PriceLevel} (hFind : (s.book.levels side).find? price = some level) (id : UInt64) :
    (s.removeFromLevel side price id).book.All P ↔
      (level.removeId s.heap id).empty = true ∨ P (level.removeId s.heap id) := by
  unfold removeFromLevel
  rw [hFind]
  dsimp only
  constructor
  · intro h
    refine or_iff_not_imp_left.mpr fun hNe => ?_
    have hSide := h side
    rw [OrderBook.levels_setLevels, if_neg hNe] at hSide
    exact hSide (price, _) ((OrderedMap.mem_entries_iff _ _ _).mpr (OrderedMap.find?_upsert_self ..))
  · intro h
    refine hAll.setLevels fun e he => ?_
    split at he
    · exact hAll side e (List.mem_of_mem_filter he)
    · rename_i hNe
      rcases OrderedMap.mem_upsertEntries he with hOld | hNew | ⟨e', -, hNew⟩
      · exact hAll side e hOld
      · exact hNew ▸ h.resolve_left hNe
      · exact hNew ▸ h.resolve_left hNe

theorem setStatus_heap_eq (s : BookState k) (p : OrderPtr) (status : OrderStatus)
    (q : OrderPtr) : ∃ st, (s.setStatus p status).heap q = { s.heap q with status := st } := by
  by_cases hq : q = p
  · subst hq
    exact ⟨status, by simp [setStatus, modifyOrder]⟩
  · exact ⟨(s.heap q).status, by simp [setStatus, modifyOrder, Heap.modify_of_ne hq]⟩

theorem stamped_heap_eq (s : BookState k) (p : OrderPtr) (now : UInt64) (q : OrderPtr) :
    ∃ t, (s.stamped p now).heap q = { s.heap q with timestampNs := t } := by
  by_cases hq : q = p
  · subst hq
    obtain ⟨t, ht⟩ := (s.heap q).stamp_eq now
    exact ⟨t, (stamped_heap_self s q now).trans ht⟩
  · exact ⟨(s.heap q).timestampNs, stamped_heap_of_ne s p now hq⟩

theorem book_removeFromLevel_congr (s s' : BookState k) (hBook : s'.book = s.book)
    (hIds : ∀ q, (s'.heap q).orderId = (s.heap q).orderId) (side : Side) (price : Int)
    (id : UInt64) :
    (s'.removeFromLevel side price id).book = (s.removeFromLevel side price id).book := by
  unfold removeFromLevel
  rw [hBook]
  cases (s.book.levels side).find? price with
  | none => exact hBook
  | some level =>
      dsimp only
      rw [PriceLevel.removeId_congr fun q _ => hIds q]

/-- A cancel does nothing, or it takes the order it finds out of the levels and the index. -/
theorem cancelResting_cases (s : BookState k) (id : UInt64) :
    (s.cancelResting id = (none, s) ∧ ∀ p ∈ s.book.orderIndex.find? id,
      (s.heap p).status = .FILLED ∨ (s.heap p).status = .CANCELLED) ∨
    ∃ p, s.book.orderIndex.find? id = some p ∧
      ¬ ((s.heap p).status = .FILLED ∨ (s.heap p).status = .CANCELLED) ∧
      s.cancelResting id = (some p, ((s.setStatus p .CANCELLED).removeFromLevel
        (s.heap p).side (s.heap p).price id).eraseIndex id) := by
  unfold cancelResting
  cases s.book.orderIndex.find? id with
  | none => exact Or.inl ⟨rfl, by simp⟩
  | some p =>
      dsimp only
      by_cases hClosed : (s.heap p).status = .FILLED ∨ (s.heap p).status = .CANCELLED
      · rw [if_pos hClosed]
        exact Or.inl ⟨rfl, by simpa using hClosed⟩
      · rw [if_neg hClosed]
        obtain ⟨_, hp⟩ := s.setStatus_heap_eq p .CANCELLED p
        refine Or.inr ⟨p, rfl, hClosed, ?_⟩
        rw [hp]

/-- What a cancel does to the levels does not depend on the status it writes. -/
theorem book_cancelled_level (s : BookState k) (p : OrderPtr) (side : Side) (price : Int)
    (id : UInt64) :
    ((s.setStatus p .CANCELLED).removeFromLevel side price id).book =
      (s.removeFromLevel side price id).book := by
  refine book_removeFromLevel_congr s (s.setStatus p .CANCELLED) rfl (fun q => ?_) _ _ _
  obtain ⟨_, hq⟩ := s.setStatus_heap_eq p .CANCELLED q
  rw [hq]

/-- Cancels keep every level tidy. -/
theorem tidy_cancelResting (h : s.book.All PriceLevel.Tidy) (id : UInt64) :
    (s.cancelResting id).2.book.All PriceLevel.Tidy := by
  rcases s.cancelResting_cases id with ⟨hCall, -⟩ | ⟨p, -, -, hCall⟩
  · rw [hCall]
    exact h
  · rw [hCall]
    have hLevels : ∀ t, (((s.setStatus p .CANCELLED).removeFromLevel (s.heap p).side
        (s.heap p).price id).eraseIndex id).book.levels t =
          (s.removeFromLevel (s.heap p).side (s.heap p).price id).book.levels t := by
      intro t
      rw [eraseIndex, OrderBook.levels_mk, book_cancelled_level]
    refine OrderBook.All.congr ?_ hLevels
    cases hFind : (s.book.levels (s.heap p).side).find? (s.heap p).price with
    | none =>
        unfold removeFromLevel
        rw [hFind]
        exact h
    | some level =>
        have hTidy := h _ (_, level) ((OrderedMap.mem_entries_iff _ _ _).mpr hFind)
        exact (all_removeFromLevel_iff h hFind id).mpr (Or.inr (hTidy.removeId _ id))

end BookState

end MatchingMachine
