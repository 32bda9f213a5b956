import MatchingMachine.Priority.PriorityBook

/-!
# What a sweep does

One lemma per aspect of `sweep`, each by induction along the queue: the orders it visits
keep their identity (`sweep_sameOrder`), the incoming order changes in its filled quantity
only (`sweep_incoming`), what it leaves is open (`sweep_open`), what it finishes is full
(`sweep_filled`), and it stops because the incoming order is full or because no remaining
price crosses (`sweep_exit`).
-/

namespace MatchingMachine

/-! ## One match -/

theorem matchQty_le_incoming (inc res : Order) : matchQty inc res ≤ inc.remainingQty :=
  min_le_left _ _

theorem matchQty_le_resting (inc res : Order) : matchQty inc res ≤ res.remainingQty :=
  min_le_right _ _

theorem matchQty_pos {inc res : Order} (hInc : inc.isFilled = false)
    (hRes : res.isFilled = false) : 0 < matchQty inc res := by
  rw [Order.not_isFilled_iff] at hInc hRes
  simp only [matchQty, Order.remainingQty, lt_min_iff]
  omega

/-- A match fills the incoming or the resting order. -/
theorem isFilled_of_match (inc res : Order) :
    (inc.addFilled (matchQty inc res)).isFilled = true ∨
      (res.addFilled (matchQty inc res)).isFilled = true := by
  simp only [Order.isFilled_iff, Order.addFilled, matchQty, Order.remainingQty]
  omega

/-- The same order object, in another state of being filled. -/
structure SameOrder (r' r : Resting) : Prop where
  ptr_eq : r'.ptr = r.ptr
  order_eq : ∃ qty status, r'.order = { r.order with filledQty := qty, status := status }

namespace SameOrder

theorem refl (r : Resting) : SameOrder r r := ⟨rfl, _, _, rfl⟩

theorem trade (r : Resting) (qty : Int) : SameOrder (r.trade qty) r := ⟨rfl, _, _, rfl⟩

theorem orderId_eq {r' r : Resting} (h : SameOrder r' r) : r'.order.orderId = r.order.orderId := by
  obtain ⟨-, qty, status, h⟩ := h
  rw [h]

theorem price_eq {r' r : Resting} (h : SameOrder r' r) : r'.order.price = r.order.price := by
  obtain ⟨-, qty, status, h⟩ := h
  rw [h]

theorem side_eq {r' r : Resting} (h : SameOrder r' r) : r'.order.side = r.order.side := by
  obtain ⟨-, qty, status, h⟩ := h
  rw [h]

theorem type_eq {r' r : Resting} (h : SameOrder r' r) : r'.order.type = r.order.type := by
  obtain ⟨-, qty, status, h⟩ := h
  rw [h]

end SameOrder

/-- A function of an order's identity does not see that it was partly filled. -/
theorem map_eq_of_sameOrder {α : Type} {f : Resting → α}
    (hf : ∀ r' r, SameOrder r' r → f r' = f r) {rs' rs : List Resting}
    (h : List.Forall₂ SameOrder rs' rs) : rs'.map f = rs.map f := by
  induction h with
  | nil => rfl
  | cons hd _ ih => simp [hf _ _ hd, ih]

theorem sameOrder_refl (rs : List Resting) : List.Forall₂ SameOrder rs rs := by
  induction rs with
  | nil => exact .nil
  | cons r rs ih => exact .cons (SameOrder.refl r) ih

/-- In related lists every entry of the first has its counterpart in the second. -/
theorem exists_of_forall₂ {α β : Type} {R : α → β → Prop} {as : List α} {bs : List β}
    (h : List.Forall₂ R as bs) {a : α} (ha : a ∈ as) : ∃ b ∈ bs, R a b := by
  induction h with
  | nil => exact absurd ha List.not_mem_nil
  | cons hd _ ih =>
      rcases List.mem_cons.mp ha with rfl | ha
      · exact ⟨_, List.mem_cons_self .., hd⟩
      · obtain ⟨b, hb, hR⟩ := ih ha
        exact ⟨b, List.mem_cons_of_mem _ hb, hR⟩

/-- A partly filled open order is open. -/
theorem OpenOrder.trade {s : Side} {r : Resting} (h : OpenOrder s r.order) {qty : Int}
    (hPos : 0 < qty) (hOpen : (r.order.addFilled qty).isFilled = false) :
    OpenOrder s (r.trade qty).order where
  side_eq := h.side_eq
  type_eq := h.type_eq
  filled_nonneg := by
    have hNonneg := h.filled_nonneg
    simp only [Resting.trade, Order.addFilled]
    omega
  filled_lt := Order.not_isFilled_iff.mp hOpen
  status_eq := by
    have hNonneg := h.filled_nonneg
    have hLt : 0 < (r.order.addFilled qty).filledQty := by
      simp only [Order.addFilled]
      omega
    simp only [Resting.trade, hOpen, Bool.false_eq_true, if_false, if_pos hLt]

theorem OpenOrder.not_isFilled {s : Side} {o : Order} (h : OpenOrder s o) :
    o.isFilled = false := Order.not_isFilled_iff.mpr h.filled_lt

/-! ## The sweep -/

section Sweep

variable {opp : Side}

/-- A sweep by a full order, or past the last crossing price, does nothing. -/
theorem sweep_stop {inc : Order} {tradeId : UInt64} {rs : List Resting}
    (h : inc.isFilled = true ∨ ∀ r ∈ rs.head?, opp.before inc.price r.order.price) :
    sweep opp inc tradeId rs = { incoming := inc, tradeId := tradeId, rest := rs } := by
  cases rs with
  | nil => rfl
  | cons r rs =>
      have hStop : inc.isFilled = true ∨ opp.before inc.price r.order.price :=
        h.imp id fun h => h r rfl
      rw [sweep, if_pos hStop]

/-- One match of a sweep, whichever of the two orders it fills. -/
theorem sweep_step {inc : Order} (tradeId : UInt64) {r : Resting} (rs : List Resting)
    (hOpen : inc.isFilled = false) (hCross : ¬ opp.before inc.price r.order.price) :
    sweep opp inc tradeId (r :: rs) =
      if (r.order.addFilled (matchQty inc r.order)).isFilled then
        (sweep opp (inc.addFilled (matchQty inc r.order)) (tradeId + 1) rs).prepend
          [makeTrade opp (inc.addFilled (matchQty inc r.order))
            (r.order.addFilled (matchQty inc r.order)) r.order.price (matchQty inc r.order)
            (tradeId + 1)]
          [r.trade (matchQty inc r.order)] (fillOverflows inc r.order)
      else
        (sweep opp (inc.addFilled (matchQty inc r.order)) (tradeId + 1)
            (r.trade (matchQty inc r.order) :: rs)).prepend
          [makeTrade opp (inc.addFilled (matchQty inc r.order))
            (r.order.addFilled (matchQty inc r.order)) r.order.price (matchQty inc r.order)
            (tradeId + 1)]
          [] (fillOverflows inc r.order) := by
  have hGo : ¬ (inc.isFilled = true ∨ opp.before inc.price r.order.price) := by
    simp [hOpen, hCross]
  rw [sweep, if_neg hGo]
  dsimp only
  split
  · rfl
  · rename_i hRes
    have hInc := (isFilled_of_match inc r.order).resolve_right hRes
    rw [sweep_stop (Or.inl hInc)]
    simp [SweepResult.prepend]

/-- Every visited order is the order that was in the queue, in the same place. -/
theorem sweep_sameOrder (opp : Side) (inc : Order) (tradeId : UInt64) (rs : List Resting) :
    List.Forall₂ SameOrder
      ((sweep opp inc tradeId rs).filled ++ (sweep opp inc tradeId rs).rest) rs := by
  induction rs generalizing inc tradeId with
  | nil => exact .nil
  | cons r rs ih =>
      rw [sweep]
      split
      · exact sameOrder_refl _
      · dsimp only
        split
        · exact .cons (SameOrder.trade r _) (ih _ _)
        · exact .cons (SameOrder.trade r _) (sameOrder_refl rs)

/-- A sweep changes nothing of the incoming order but its filled quantity, which grows up
to the quantity at most. -/
theorem sweep_incoming (inc : Order) (tradeId : UInt64) {rs : List Resting}
    (hrs : ∀ r ∈ rs, OpenOrder opp r.order) :
    ∃ qty, 0 ≤ qty ∧ (sweep opp inc tradeId rs).incoming = inc.addFilled qty ∧
      (qty = 0 ∨ inc.filledQty + qty ≤ inc.quantity) := by
  induction rs generalizing inc tradeId with
  | nil => exact ⟨0, le_rfl, by simp [sweep], Or.inl rfl⟩
  | cons r rs ih =>
      by_cases hGo : inc.isFilled = true ∨ opp.before inc.price r.order.price
      · rw [sweep, if_pos hGo]
        exact ⟨0, le_rfl, by simp, Or.inl rfl⟩
      · push Not at hGo
        have hInc : inc.isFilled = false := by simpa using hGo.1
        have hr : OpenOrder opp r.order := hrs r (List.mem_cons_self ..)
        have hPos := matchQty_pos hInc hr.not_isFilled
        have hLe := matchQty_le_incoming inc r.order
        rw [Order.remainingQty] at hLe
        rw [sweep, if_neg (by simpa using hGo)]
        dsimp only
        split
        · obtain ⟨qty, hQty, hEq, hBound⟩ := ih (inc.addFilled (matchQty inc r.order)) (tradeId + 1)
            fun x hx => hrs x (List.mem_cons_of_mem _ hx)
          refine ⟨matchQty inc r.order + qty, by omega, ?_, Or.inr ?_⟩
          · rw [← Order.addFilled_addFilled, ← hEq, SweepResult.prepend]
          · simp only [Order.addFilled] at hBound
            omega
        · exact ⟨matchQty inc r.order, hPos.le, rfl, Or.inr (by omega)⟩

/-- What a sweep leaves in the queue is open. -/
theorem sweep_open (inc : Order) (tradeId : UInt64) {rs : List Resting}
    (hrs : ∀ r ∈ rs, OpenOrder opp r.order) :
    ∀ r ∈ (sweep opp inc tradeId rs).rest, OpenOrder opp r.order := by
  induction rs generalizing inc tradeId with
  | nil => simp [sweep]
  | cons r rs ih =>
      have hTail : ∀ x ∈ rs, OpenOrder opp x.order :=
        fun x hx => hrs x (List.mem_cons_of_mem _ hx)
      by_cases hGo : inc.isFilled = true ∨ opp.before inc.price r.order.price
      · rw [sweep, if_pos hGo]
        exact hrs
      · have hInc : inc.isFilled = false := by
          push Not at hGo
          simpa using hGo.1
        have hr : OpenOrder opp r.order := hrs r (List.mem_cons_self ..)
        have hPos := matchQty_pos hInc hr.not_isFilled
        rw [sweep, if_neg hGo]
        dsimp only
        split
        · exact ih _ _ hTail
        · rename_i hOpen
          intro x hx
          rcases List.mem_cons.mp hx with rfl | hx
          · exact hr.trade hPos (by simpa using hOpen)
          · exact hTail x hx

/-- What a sweep finishes is exactly full. -/
theorem sweep_filled (opp : Side) (inc : Order) (tradeId : UInt64) (rs : List Resting) :
    ∀ r ∈ (sweep opp inc tradeId rs).filled,
      r.order.status = .FILLED ∧ r.order.filledQty = r.order.quantity := by
  induction rs generalizing inc tradeId with
  | nil => simp [sweep]
  | cons r rs ih =>
      rw [sweep]
      split
      · simp
      · dsimp only
        split
        · rename_i hFull
          intro x hx
          rcases List.mem_cons.mp hx with rfl | hx
          · have hLe := matchQty_le_resting inc r.order
            have hGe := Order.isFilled_iff.mp hFull
            simp only [Order.remainingQty, Order.addFilled] at hLe hGe
            refine ⟨by simp [Resting.trade, hFull], ?_⟩
            simp only [Resting.trade, Order.addFilled]
            omega
          · exact ih _ _ x hx
        · simp

/-- Behind an order whose price does not cross, no price does. -/
theorem Prioritised.before_of_before {s : Side} {r : Resting} {rs : List Resting}
    (h : Prioritised s (r :: rs)) {p : Int} (hp : s.before p r.order.price) :
    ∀ x ∈ r :: rs, s.before p x.order.price := by
  intro x hx
  rcases List.mem_cons.mp hx with rfl | hx
  · exact hp
  · rcases Side.not_before_iff.mp ((List.pairwise_cons.mp h).1 x hx) with hLt | hEq
    · exact Side.before_trans hp hLt
    · exact hEq ▸ hp

/-- A sweep ends because the incoming order is full or because nothing left crosses. -/
theorem sweep_exit (inc : Order) (tradeId : UInt64) {rs : List Resting}
    (hrs : Prioritised opp rs) :
    (sweep opp inc tradeId rs).incoming.isFilled = true ∨
      ∀ r ∈ (sweep opp inc tradeId rs).rest, opp.before inc.price r.order.price := by
  induction rs generalizing inc tradeId with
  | nil => simp [sweep]
  | cons r rs ih =>
      have hTail : Prioritised opp rs := (List.pairwise_cons.mp hrs).2
      rw [sweep]
      split
      · rename_i hGo
        exact hGo.imp id fun h => hrs.before_of_before h
      · dsimp only
        split
        · exact ih _ _ hTail
        · rename_i hOpen
          exact Or.inl ((isFilled_of_match inc r.order).resolve_right hOpen)

end Sweep

end MatchingMachine
