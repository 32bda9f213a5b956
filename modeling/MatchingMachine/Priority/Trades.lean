import MatchingMachine.Priority.Sweep

/-!
# The trades of a sweep

What the trades of one sweep say about the orders: each names the incoming order and an order
of the queue, at that order's price and for a positive quantity (`sweep_trades`), the quantities
traded under an ID are what its order has been filled by (`sweep_traded_incoming`,
`sweep_traded_queue`), the IDs count up (`sweep_tradeIds`), and no quantity leaves its range
(`sweep_overflow`).
-/

namespace MatchingMachine

/-- The ID of the trade's order on a side. -/
def Trade.idOn (t : Trade) : Side → UInt64
  | .BUY => t.buyOrderId
  | .SELL => t.sellOrderId

/-- The trade names an order. -/
def Trade.Names (t : Trade) (id : UInt64) : Prop := t.buyOrderId = id ∨ t.sellOrderId = id

instance (t : Trade) (id : UInt64) : Decidable (t.Names id) := inferInstanceAs (Decidable (_ ∨ _))

/-- The quantity traded under an ID. -/
def traded (id : UInt64) (ts : List Trade) : Int :=
  ((ts.filter fun t => t.Names id).map Trade.quantity).sum

@[simp] theorem traded_nil (id : UInt64) : traded id [] = 0 := rfl

theorem traded_append (id : UInt64) (ts ts' : List Trade) :
    traded id (ts ++ ts') = traded id ts + traded id ts' := by
  simp [traded]

theorem traded_cons (id : UInt64) (t : Trade) (ts : List Trade) :
    traded id (t :: ts) = (if t.Names id then t.quantity else 0) + traded id ts := by
  unfold traded
  by_cases h : t.Names id <;> simp [h]

theorem traded_eq_zero {id : UInt64} {ts : List Trade} (h : ∀ t ∈ ts, ¬ t.Names id) :
    traded id ts = 0 := by
  unfold traded
  rw [List.filter_eq_nil_iff.mpr fun t ht => by simpa using h t ht]
  rfl

/-- Trades for positive quantities add up to a positive one where there is any. -/
theorem traded_pos_iff (id : UInt64) {ts : List Trade} (hPos : ∀ t ∈ ts, 0 < t.quantity) :
    0 ≤ traded id ts ∧ (0 < traded id ts ↔ ∃ t ∈ ts, t.Names id) := by
  induction ts with
  | nil => simp
  | cons t ts ih =>
      obtain ⟨hNonneg, hIff⟩ := ih fun x hx => hPos x (List.mem_cons_of_mem _ hx)
      have ht := hPos t (List.mem_cons_self ..)
      rw [traded_cons]
      by_cases hNames : t.Names id
      · rw [if_pos hNames]
        refine ⟨by omega, iff_of_true (by omega) ⟨t, List.mem_cons_self .., hNames⟩⟩
      · rw [if_neg hNames, zero_add]
        refine ⟨hNonneg, hIff.trans ?_⟩
        simp [hNames]

theorem Trade.names_iff (t : Trade) (s : Side) (id : UInt64) :
    t.Names id ↔ t.idOn s.opposite = id ∨ t.idOn s = id := by
  cases s
  · exact or_comm
  · exact Iff.rfl

section MakeTrade

variable (opp : Side) (inc res : Order) (price qty : Int) (tradeId : UInt64)

@[simp] theorem idOn_makeTrade :
    (makeTrade opp inc res price qty tradeId).idOn opp = res.orderId := by
  cases opp <;> rfl

@[simp] theorem idOn_opposite_makeTrade :
    (makeTrade opp inc res price qty tradeId).idOn opp.opposite = inc.orderId := by
  cases opp <;> rfl

@[simp] theorem quantity_makeTrade :
    (makeTrade opp inc res price qty tradeId).quantity = qty := rfl

@[simp] theorem price_makeTrade : (makeTrade opp inc res price qty tradeId).price = price := rfl

@[simp] theorem tradeId_makeTrade :
    (makeTrade opp inc res price qty tradeId).tradeId = tradeId := rfl

end MakeTrade

section Sweep

variable {opp : Side}

/-- What a trade of a sweep says. -/
structure SweptTrade (opp : Side) (inc : Order) (rs : List Resting) (t : Trade) : Prop where
  incoming : t.idOn opp.opposite = inc.orderId
  resting : ∃ r ∈ rs, t.idOn opp = r.order.orderId ∧ t.price = r.order.price
  crosses : ¬ opp.before inc.price t.price
  quantity_pos : 0 < t.quantity

theorem sweep_trades (inc : Order) (tradeId : UInt64) {rs : List Resting}
    (hrs : ∀ r ∈ rs, OpenOrder opp r.order) :
    ∀ t ∈ (sweep opp inc tradeId rs).trades, SweptTrade opp inc rs t := by
  fun_induction sweep opp inc tradeId rs with
  | case1 inc tradeId => simp
  | case2 inc tradeId r rs hStop => simp
  | case3 inc tradeId r rs hGo qty t ov hFull ih =>
      have hOpen : inc.isFilled = false := by simpa using fun h => hGo (Or.inl h)
      have hr := hrs r (List.mem_cons_self ..)
      intro x hx
      rcases List.mem_append.mp hx with hx | hx
      · obtain rfl : x = t := by simpa using hx
        exact
          { incoming := by simp [t, Order.addFilled]
            resting := ⟨r, List.mem_cons_self .., by simp [t, Order.addFilled], rfl⟩
            crosses := fun h => hGo (Or.inr h)
            quantity_pos := matchQty_pos hOpen hr.not_isFilled }
      · obtain ⟨hInc, ⟨y, hy, hNames⟩, hCross, hPos⟩ :=
          ih (fun y hy => hrs y (List.mem_cons_of_mem _ hy)) x hx
        exact ⟨hInc, ⟨y, List.mem_cons_of_mem _ hy, hNames⟩, hCross, hPos⟩
  | case4 inc tradeId r rs hGo qty t ov hPart =>
      have hOpen : inc.isFilled = false := by simpa using fun h => hGo (Or.inl h)
      have hr := hrs r (List.mem_cons_self ..)
      intro x hx
      obtain rfl : x = t := by simpa using hx
      exact
        { incoming := by simp [t, Order.addFilled]
          resting := ⟨r, List.mem_cons_self .., by simp [t, Order.addFilled], rfl⟩
          crosses := fun h => hGo (Or.inr h)
          quantity_pos := matchQty_pos hOpen hr.not_isFilled }

/-- The incoming order is filled by what the sweep trades. -/
theorem sweep_sum (inc : Order) (tradeId : UInt64) (rs : List Resting) :
    (sweep opp inc tradeId rs).incoming.filledQty =
      inc.filledQty + ((sweep opp inc tradeId rs).trades.map Trade.quantity).sum := by
  fun_induction sweep opp inc tradeId rs with
  | case1 inc tradeId => simp
  | case2 inc tradeId r rs hStop => simp
  | case3 inc tradeId r rs hGo qty t ov hFull ih =>
      have hInc : (inc.addFilled qty).filledQty = inc.filledQty + qty := rfl
      have hQty : t.quantity = qty := rfl
      simp only [SweepResult.prepend, List.singleton_append, List.map_cons, List.sum_cons, ih,
        hInc, hQty]
      omega
  | case4 inc tradeId r rs hGo qty t ov hPart => simp [t, Order.addFilled]

/-- The orders a sweep fills are those whose trade is for all that remained of them, in the
order of the trades. -/
theorem sweep_filled_ptrs {look : UInt64 → Option OrderPtr} {remaining : OrderPtr → Int}
    (inc : Order) (tradeId : UInt64) {rs : List Resting}
    (hLook : ∀ r ∈ rs, look r.order.orderId = some r.ptr)
    (hRemaining : ∀ r ∈ rs, remaining r.ptr = r.order.remainingQty) :
    (sweep opp inc tradeId rs).filled.map Resting.ptr =
      (sweep opp inc tradeId rs).trades.filterMap fun t =>
        (look (t.idOn opp)).filter fun p => remaining p = t.quantity := by
  have hUsed : ∀ (inc : Order) (r : Resting),
      (r.order.addFilled (matchQty inc r.order)).isFilled = true ↔
        r.order.remainingQty = matchQty inc r.order := by
    intro inc r
    have hLe := matchQty_le_resting inc r.order
    rw [Order.isFilled_iff]
    simp only [Order.addFilled, Order.remainingQty] at hLe ⊢
    omega
  fun_induction sweep opp inc tradeId rs with
  | case1 inc tradeId => simp
  | case2 inc tradeId r rs hStop => simp
  | case3 inc tradeId r rs hGo qty t ov hFull ih =>
      have hr := hLook r (List.mem_cons_self ..)
      have hRem := hRemaining r (List.mem_cons_self ..)
      have hId : t.idOn opp = r.order.orderId := by simp [t, Order.addFilled]
      have hQty : remaining r.ptr = t.quantity := hRem.trans ((hUsed inc r).mp hFull)
      have hTail := ih (fun y hy => hLook y (List.mem_cons_of_mem _ hy))
        fun y hy => hRemaining y (List.mem_cons_of_mem _ hy)
      have hHead : ((look (t.idOn opp)).filter fun p => remaining p = t.quantity) = some r.ptr := by
        simp [hId, hr, hQty]
      simp only [SweepResult.prepend, List.singleton_append, List.map_cons, hTail,
        List.filterMap_cons, hHead]
      rfl
  | case4 inc tradeId r rs hGo qty t ov hPart =>
      have hr := hLook r (List.mem_cons_self ..)
      have hRem := hRemaining r (List.mem_cons_self ..)
      have hId : t.idOn opp = r.order.orderId := by simp [t, Order.addFilled]
      have hQty : remaining r.ptr ≠ t.quantity := by
        rw [hRem]
        exact fun h => hPart ((hUsed inc r).mpr h)
      simp [hId, hr, hQty]

/-- The orders a trade of a sweep can name. -/
theorem sweep_names (inc : Order) (tradeId : UInt64) (rs : List Resting) {id : UInt64}
    (hInc : inc.orderId ≠ id) (hrs : ∀ r ∈ rs, r.order.orderId ≠ id) :
    ∀ t ∈ (sweep opp inc tradeId rs).trades, ¬ t.Names id := by
  have hHead : ∀ (inc res : Order) (price qty : Int) (tradeId : UInt64), inc.orderId ≠ id →
      res.orderId ≠ id → ¬ (makeTrade opp inc res price qty tradeId).Names id := by
    intro inc res price qty tradeId hInc hRes hNames
    rw [Trade.names_iff _ opp, idOn_opposite_makeTrade, idOn_makeTrade] at hNames
    exact hNames.elim hInc hRes
  fun_induction sweep opp inc tradeId rs with
  | case1 inc tradeId => simp
  | case2 inc tradeId r rs hStop => simp
  | case3 inc tradeId r rs hGo qty t ov hFull ih =>
      intro x hx
      rcases List.mem_append.mp hx with hx | hx
      · obtain rfl : x = t := by simpa using hx
        exact hHead _ _ _ _ _ hInc (hrs r (List.mem_cons_self ..))
      · exact ih hInc (fun y hy => hrs y (List.mem_cons_of_mem _ hy)) x hx
  | case4 inc tradeId r rs hGo qty t ov hPart =>
      intro x hx
      obtain rfl : x = t := by simpa using hx
      exact hHead _ _ _ _ _ hInc (hrs r (List.mem_cons_self ..))

/-- Every trade of a sweep names the incoming order. -/
theorem sweep_names_incoming (inc : Order) (tradeId : UInt64) (rs : List Resting) :
    ∀ t ∈ (sweep opp inc tradeId rs).trades, t.Names inc.orderId := by
  have hHead : ∀ (inc res : Order) (price qty : Int) (tradeId : UInt64),
      (makeTrade opp inc res price qty tradeId).Names inc.orderId := by
    intro inc res price qty tradeId
    rw [Trade.names_iff _ opp, idOn_opposite_makeTrade]
    exact Or.inl rfl
  fun_induction sweep opp inc tradeId rs with
  | case1 inc tradeId => simp
  | case2 inc tradeId r rs hStop => simp
  | case3 inc tradeId r rs hGo qty t ov hFull ih =>
      intro x hx
      rcases List.mem_append.mp hx with hx | hx
      · obtain rfl : x = t := by simpa using hx
        exact hHead (inc.addFilled qty) _ _ _ _
      · exact ih x hx
  | case4 inc tradeId r rs hGo qty t ov hPart =>
      intro x hx
      obtain rfl : x = t := by simpa using hx
      exact hHead (inc.addFilled qty) _ _ _ _

/-- The incoming order is filled by what is traded under its ID. -/
theorem sweep_traded_incoming (inc : Order) (tradeId : UInt64) (rs : List Resting) :
    (sweep opp inc tradeId rs).incoming.filledQty =
      inc.filledQty + traded inc.orderId (sweep opp inc tradeId rs).trades := by
  rw [sweep_sum, traded, List.filter_eq_self.mpr]
  exact fun t ht => by simpa using sweep_names_incoming inc tradeId rs t ht

/-- Every order of the queue is filled by what is traded under its ID. -/
theorem sweep_traded_queue (inc : Order) (tradeId : UInt64) {rs : List Resting}
    (hIds : (rs.map fun r => r.order.orderId).Nodup)
    (hInc : ∀ r ∈ rs, inc.orderId ≠ r.order.orderId) :
    List.Forall₂
      (fun r' r => SameOrder r' r ∧ r'.order.filledQty =
        r.order.filledQty + traded r.order.orderId (sweep opp inc tradeId rs).trades)
      ((sweep opp inc tradeId rs).filled ++ (sweep opp inc tradeId rs).rest) rs := by
  -- orders behind the front one, which a sweep without trades for them leaves as they are
  have hUntouched : ∀ (ts : List Trade) (rs : List Resting),
      (∀ r ∈ rs, traded r.order.orderId ts = 0) →
      List.Forall₂ (fun r' r => SameOrder r' r ∧
        r'.order.filledQty = r.order.filledQty + traded r.order.orderId ts) rs rs := by
    intro ts rs hZero
    apply List.forall₂_same.mpr
    intro r hr
    exact ⟨.refl r, by rw [hZero r hr, add_zero]⟩
  have hNames : ∀ (inc r : Order) (price qty : Int) (n id : UInt64),
      (makeTrade opp inc r price qty n).Names id ↔ inc.orderId = id ∨ r.orderId = id := by
    intro inc r price qty n id
    rw [Trade.names_iff _ opp, idOn_opposite_makeTrade, idOn_makeTrade]
  fun_induction sweep opp inc tradeId rs with
  | case1 inc tradeId => exact .nil
  | case2 inc tradeId r rs hStop => exact hUntouched [] _ fun _ _ => rfl
  | case3 inc tradeId r rs hGo qty t ov hFull ih =>
      rw [List.map_cons, List.nodup_cons] at hIds
      have hNe : ∀ y ∈ rs, y.order.orderId ≠ r.order.orderId := fun y hy hEq =>
        hIds.1 (hEq ▸ List.mem_map_of_mem hy)
      have hIncR := hInc r (List.mem_cons_self ..)
      have hTail := ih hIds.2 fun y hy => hInc y (List.mem_cons_of_mem _ hy)
      simp only [SweepResult.prepend, List.cons_append, traded_cons]
      constructor
      · have hZero : traded r.order.orderId (sweep opp _ (tradeId + 1) rs).trades = 0 :=
          traded_eq_zero (sweep_names (inc.addFilled qty) (tradeId + 1) rs hIncR hNe)
        refine ⟨.trade r qty, ?_⟩
        have hNamed : t.Names r.order.orderId := (hNames ..).mpr (Or.inr rfl)
        rw [if_pos hNamed, List.nil_append, hZero, add_zero]
        rfl
      · have hMem := (List.forall₂_and_left (p := (· ∈ rs)) ..).mpr ⟨fun _ h => h, hTail.flip⟩
        refine hMem.flip.imp fun x' x hPair => ⟨hPair.2.1, ?_⟩
        obtain ⟨hx, hxx⟩ := hPair
        have hIncX := hInc x (List.mem_cons_of_mem _ hx)
        have hNot : ¬ t.Names x.order.orderId := fun h =>
          ((hNames ..).mp h).elim hIncX (hNe x hx).symm
        rw [if_neg hNot, zero_add]
        exact hxx.2
  | case4 inc tradeId r rs hGo qty t ov hPart =>
      rw [List.map_cons, List.nodup_cons] at hIds
      constructor
      · refine ⟨.trade r qty, ?_⟩
        have hNamed : t.Names r.order.orderId := (hNames ..).mpr (Or.inr rfl)
        rw [traded_cons, if_pos hNamed, traded_nil, add_zero]
        rfl
      · refine hUntouched _ rs fun x hx => traded_eq_zero ?_
        intro y hy hNot
        obtain rfl : y = t := by simpa using hy
        have hIncX := hInc x (List.mem_cons_of_mem _ hx)
        exact ((hNames ..).mp hNot).elim hIncX fun hEq =>
          hIds.1 (List.mem_map.mpr ⟨x, hx, hEq.symm⟩)

/-- Trade IDs count up from the last one given out. -/
theorem sweep_tradeIds (inc : Order) (tradeId : UInt64) (rs : List Resting) :
    (sweep opp inc tradeId rs).tradeId =
        tradeId + UInt64.ofNat (sweep opp inc tradeId rs).trades.length ∧
      (sweep opp inc tradeId rs).trades.map Trade.tradeId =
        (List.range (sweep opp inc tradeId rs).trades.length).map fun i =>
          tradeId + UInt64.ofNat (i + 1) := by
  fun_induction sweep opp inc tradeId rs with
  | case1 inc tradeId => simp
  | case2 inc tradeId r rs hStop => simp
  | case3 inc tradeId r rs hGo qty t ov hFull ih =>
      have hNext : ∀ n : Nat, tradeId + 1 + UInt64.ofNat n = tradeId + UInt64.ofNat (n + 1) := by
        intro n
        rw [UInt64.ofNat_add, add_comm (UInt64.ofNat n), ← add_assoc]
        rfl
      simp only [SweepResult.prepend, List.singleton_append, List.length_cons, List.map_cons,
        List.range_succ_eq_map, List.map_map, ih.1, ih.2, hNext]
      refine ⟨trivial, ?_⟩
      rfl
  | case4 inc tradeId r rs hGo qty t ov hPart =>
      exact ⟨rfl, rfl⟩

/-- A sweep makes one trade for each resting order it fills, and one more if the incoming order
runs out on a resting order that stays. -/
theorem sweep_length (inc : Order) (tradeId : UInt64) (rs : List Resting) :
    (sweep opp inc tradeId rs).trades.length = (sweep opp inc tradeId rs).filled.length ∨
      (sweep opp inc tradeId rs).trades.length = (sweep opp inc tradeId rs).filled.length + 1 ∧
        (sweep opp inc tradeId rs).incoming.isFilled = true ∧
        (sweep opp inc tradeId rs).rest ≠ [] := by
  fun_induction sweep opp inc tradeId rs with
  | case1 inc tradeId => exact Or.inl rfl
  | case2 inc tradeId r rs hStop => exact Or.inl rfl
  | case3 inc tradeId r rs hGo qty t ov hFull ih =>
      rcases ih with ih | ⟨ih, hInc, hRest⟩
      · exact Or.inl (congrArg (· + 1) ih)
      · exact Or.inr ⟨congrArg (· + 1) ih, hInc, hRest⟩
  | case4 inc tradeId r rs hGo qty t ov hPart =>
      exact Or.inr ⟨rfl, (isFilled_of_match inc r.order).resolve_right hPart, by simp⟩

/-- Orders within the range of `int64_t` are matched without leaving it. -/
theorem sweep_overflow (inc : Order) (tradeId : UInt64) {rs : List Resting}
    (hInc : 0 ≤ inc.filledQty ∧ inc.filledQty ≤ inc.quantity ∧ inc.quantity < 2 ^ 63)
    (hrs : ∀ r ∈ rs, OpenOrder opp r.order ∧ r.order.quantity < 2 ^ 63) :
    (sweep opp inc tradeId rs).overflow = false := by
  -- the matched quantity exceeds neither remainder, so no sum passes a quantity
  have hMatch : ∀ (inc : Order) (r : Resting),
      0 ≤ inc.filledQty ∧ inc.filledQty ≤ inc.quantity ∧ inc.quantity < 2 ^ 63 →
      OpenOrder opp r.order ∧ r.order.quantity < 2 ^ 63 → fillOverflows inc r.order = false := by
    intro inc r hInc hr
    have hNonneg := hr.1.filled_nonneg
    have hLt := hr.1.filled_lt
    have hInc' := matchQty_le_incoming inc r.order
    have hr' := matchQty_le_resting inc r.order
    have hQty : 0 ≤ matchQty inc r.order := by
      simp only [matchQty, Order.remainingQty]
      omega
    simp only [Order.remainingQty] at hInc' hr'
    unfold fillOverflows
    simp only [Bool.not_eq_false', Bool.and_eq_true, fitsInt64_iff, Order.remainingQty]
    omega
  fun_induction sweep opp inc tradeId rs with
  | case1 inc tradeId => rfl
  | case2 inc tradeId r rs hStop => rfl
  | case3 inc tradeId r rs hGo qty t ov hFull ih =>
      have hr := hrs r (List.mem_cons_self ..)
      have hov : ov = false := hMatch inc r hInc hr
      have hLe := matchQty_le_incoming inc r.order
      have hQty : 0 ≤ matchQty inc r.order := by
        have hLt := hr.1.filled_lt
        simp only [matchQty, Order.remainingQty]
        omega
      have hTail := ih
        (by
          simp only [Order.addFilled, Order.remainingQty] at hLe ⊢
          omega)
        fun y hy => hrs y (List.mem_cons_of_mem _ hy)
      simp [SweepResult.prepend, hov, hTail]
  | case4 inc tradeId r rs hGo qty t ov hPart =>
      exact hMatch inc r hInc (hrs r (List.mem_cons_self ..))

end Sweep

end MatchingMachine
