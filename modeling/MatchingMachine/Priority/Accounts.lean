import MatchingMachine.Priority.Requests
import MatchingMachine.Priority.Trades

/-!
# What a request does to the accounts

Every order after a request, open or finished by it, was open before or has just entered, and it
has been filled by what the request traded under its ID (`submit_account`).  Around this: which
orders a request finishes and in what state (`submit_status`), which orders its trades name
(`submit_trades`, `submit_names`), how many there are (`submit_length`) and their IDs
(`submit_tradeIds`).

The orders themselves are compared as they entered (`Resting.asEntered`), which no request
changes.
-/

namespace MatchingMachine

/-! ## Orders as they entered -/

/-- An order as it entered: new and not filled. -/
def Resting.asEntered (r : Resting) : Resting :=
  { r with order := { r.order with filledQty := 0, status := .NEW } }

theorem SameOrder.asEntered_eq {r' r : Resting} (h : SameOrder r' r) :
    r'.asEntered = r.asEntered := by
  obtain ⟨ptr', order'⟩ := r'
  obtain ⟨rfl, qty, status, rfl⟩ := h
  rfl

theorem FreshLimit.asEntered_eq {o : Order} (h : FreshLimit o) (p : OrderPtr) :
    Resting.asEntered ⟨p, o⟩ = ⟨p, o⟩ := by
  obtain ⟨-, hStatus, hFilled⟩ := h
  unfold Resting.asEntered
  rw [← hStatus, ← hFilled]

/-- An order that is no longer open: full, or cancelled before it was. -/
def Order.Closed (o : Order) : Prop :=
  o.status = .FILLED ∧ o.filledQty = o.quantity ∨ o.status = .CANCELLED ∧ o.filledQty < o.quantity

/-- The account a request opens. -/
def newAccounts (p : OrderPtr) (o : Order) : List Resting :=
  if o.type = .LIMIT then [⟨p, o⟩] else []

/-- The limit orders a request finishes. -/
def Outcome.finished (out : Outcome) : List Resting :=
  out.returned.filter fun r => r.order.type = .LIMIT

/-! ## One request -/

namespace PriorityBook

theorem filter_limit_all {F : PriorityBook} (hF : F.WellFormed) :
    (F.all.filter fun r => r.order.type = .LIMIT) = F.all := by
  apply List.filter_eq_self.mpr
  intro r hr
  obtain ⟨side, hSide⟩ := mem_all_iff.mp hr
  simpa using (hF.openOrder side r hSide).type_eq

/-- A request changes which orders are open, not the orders. -/
theorem submit_entered {F : PriorityBook} (hF : F.WellFormed) {p : OrderPtr} {o : Order}
    (hAdm : F.Admissible p o) :
    (((F.submit p o).finished ++ (F.submit p o).book.all).map Resting.asEntered).Perm
      (newAccounts p o ++ F.all.map Resting.asEntered) := by
  have hAll := (submit_conserves hF p o (f := Resting.asEntered)
    fun _ _ h => h.asEntered_eq).filter fun r => r.order.type = .LIMIT
  have hNext := filter_limit_all (submit_wellFormed hF hAdm.accepts)
  have hLimit : ∀ rs : List Resting, ((rs.map Resting.asEntered).filter
      fun r => r.order.type = .LIMIT) =
        (rs.filter fun r => r.order.type = .LIMIT).map Resting.asEntered := fun rs =>
    List.filter_map ..
  rw [hLimit, List.filter_append, hNext, List.filter_cons, hLimit, filter_limit_all hF] at hAll
  refine hAll.trans (List.Perm.of_eq ?_)
  unfold newAccounts
  by_cases hType : o.type = .LIMIT
  · have hSame := (hAdm.limit hType).1.asEntered_eq p
    rw [hSame]
    simp [hType]
  · simp [hType, Resting.asEntered]

/-- Every order after a limit order was there before or is the incoming one, and it has been
filled by what was traded under its ID. -/
theorem addLimit_account {F : PriorityBook} (hF : F.WellFormed) {p : OrderPtr} {o : Order}
    (hId : o.orderId ∉ F.ids) :
    ∀ r' ∈ (F.addLimit p o).returned ++ (F.addLimit p o).book.all,
      ∃ r, (r = ⟨p, o⟩ ∨ r ∈ F.all) ∧ SameOrder r' r ∧
        r'.order.filledQty =
          r.order.filledQty + traded r.order.orderId (F.addLimit p o).trades := by
  have hTrades : (F.addLimit p o).trades = (F.sweepOf o).trades := by
    cases hFill : (F.sweepOf o).incoming.isFilled with
    | true => rw [addLimit_of_filled p hFill]
    | false => rw [addLimit_of_open p hFill]
  have hIds : ((F.side o.side.opposite ++ F.side o.side).map fun r => r.order.orderId).Nodup :=
    ((all_perm_opposite F o.side).map _).nodup_iff.mp hF.ids_nodup
  rw [List.map_append] at hIds
  have hNe : ∀ r ∈ F.all, o.orderId ≠ r.order.orderId := fun r hr hEq =>
    hId (hEq ▸ List.mem_map_of_mem hr)
  have hMem : ∀ {s : Side} {r : Resting}, r ∈ F.side s → r ∈ F.all := fun hr =>
    mem_all_iff.mpr ⟨_, hr⟩
  intro r' hr'
  rw [hTrades]
  rcases List.mem_cons.mp ((F.addLimit_perm p o).mem_iff.mp hr') with rfl | hr'
  · -- the incoming order
    refine ⟨⟨p, o⟩, Or.inl rfl, sameOrder_settle p o _ (hF.openOrder o.side.opposite), ?_⟩
    obtain ⟨status, hSettle⟩ := (F.sweepOf o).incoming.settle_eq
    have hSum : (F.sweepOf o).incoming.filledQty = _ :=
      sweep_traded_incoming o F.lastTradeId (F.side o.side.opposite)
    rw [doneOf, hSettle]
    exact hSum
  rcases List.mem_append.mp hr' with hr' | hr'
  · -- an order of the queue that was swept
    have hQueue : List.Forall₂ _ ((F.sweepOf o).filled ++ (F.sweepOf o).rest) _ :=
      sweep_traded_queue o F.lastTradeId hIds.of_append_left fun r hr => hNe r (hMem hr)
    obtain ⟨r, hr, hSame, hFilled⟩ := exists_of_forall₂ hQueue hr'
    exact ⟨r, Or.inr (hMem hr), hSame, hFilled⟩
  · -- an order of the other queue
    refine ⟨r', Or.inr (hMem hr'), .refl r', ?_⟩
    have hZero : traded r'.order.orderId (F.sweepOf o).trades = 0 := by
      apply traded_eq_zero
      refine sweep_names o F.lastTradeId _ (hNe r' (hMem hr')) fun r hr hEq => ?_
      exact List.disjoint_of_nodup_append hIds (List.mem_map_of_mem hr)
        (hEq ▸ List.mem_map_of_mem (f := fun r : Resting => r.order.orderId) hr')
    rw [hZero, add_zero]

/-- A limit order closes full orders only. -/
theorem addLimit_returned {F : PriorityBook} (hF : F.WellFormed) (p : OrderPtr) {o : Order}
    (hFilled : o.filledQty = 0) (hPos : 0 < o.quantity) :
    ∀ r ∈ (F.addLimit p o).returned,
      r.order.status = .FILLED ∧ r.order.filledQty = r.order.quantity := by
  have hQueue := sweep_filled o.side.opposite o F.lastTradeId (F.side o.side.opposite)
  intro r hr
  cases hFill : (F.sweepOf o).incoming.isFilled with
  | false =>
      rw [addLimit_of_open p hFill] at hr
      exact hQueue r hr
  | true =>
      rw [addLimit_of_filled p hFill] at hr
      rcases List.mem_append.mp hr with hr | hr
      · exact hQueue r hr
      · obtain rfl : r = F.doneOf p o := by simpa using hr
        obtain ⟨qty, -, hIncoming, hLe⟩ :=
          sweep_incoming o F.lastTradeId (hF.openOrder o.side.opposite)
        have hFull := Order.isFilled_iff.mp hFill
        have hSettle : (F.sweepOf o).incoming.settle =
            { (F.sweepOf o).incoming with status := .FILLED } := if_pos hFill
        rw [doneOf, hSettle]
        refine ⟨rfl, ?_⟩
        show (F.sweepOf o).incoming.filledQty = (F.sweepOf o).incoming.quantity
        rw [sweepOf, hIncoming] at hFull ⊢
        simp only [Order.addFilled] at hFull ⊢
        omega

theorem lookup_type_eq {F : PriorityBook} (hF : F.WellFormed) {id : UInt64} {r : Resting}
    (h : F.lookup id = some r) : r.order.type = .LIMIT := by
  obtain ⟨side, hSide⟩ := mem_all_iff.mp (lookup_eq_some h).1
  exact (hF.openOrder side r hSide).type_eq

/-- A cancel closes the order it finds. -/
theorem finished_cancelRequest {F : PriorityBook} (hF : F.WellFormed) (p : OrderPtr) {o : Order}
    (hType : o.type = .CANCEL) :
    (F.cancelRequest p o).finished = ((F.lookup o.orderId).map cancelled).toList := by
  unfold Outcome.finished cancelRequest
  cases hLook : F.lookup o.orderId with
  | none => simp [hType]
  | some r =>
      have hLimit := lookup_type_eq hF hLook
      simp [hType, cancelled, hLimit]

theorem finished_addLimit {F : PriorityBook} (hF : F.WellFormed) {p : OrderPtr} {o : Order}
    (hType : o.type = .LIMIT) (hId : o.orderId ∉ F.ids) :
    (F.addLimit p o).finished = (F.addLimit p o).returned := by
  apply List.filter_eq_self.mpr
  intro r' hr'
  obtain ⟨r, hr, hSame, -⟩ := addLimit_account hF hId r' (List.mem_append_left _ hr')
  rw [decide_eq_true_iff, hSame.type_eq]
  rcases hr with rfl | hr
  · exact hType
  · obtain ⟨side, hSide⟩ := mem_all_iff.mp hr
    exact (hF.openOrder side r hSide).type_eq

/-- Every order after a request was there before or is the one that entered, and it has been
filled by what was traded under its ID. -/
theorem submit_account {F : PriorityBook} (hF : F.WellFormed) {p : OrderPtr} {o : Order}
    (hAdm : F.Admissible p o) :
    ∀ r' ∈ (F.submit p o).finished ++ (F.submit p o).book.all,
      ∃ r ∈ newAccounts p o ++ F.all, SameOrder r' r ∧
        r'.order.filledQty =
          r.order.filledQty + traded r.order.orderId (F.submit p o).trades := by
  intro r' hr'
  unfold submit newAccounts at *
  cases hType : o.type with
  | LIMIT =>
      rw [hType] at hr'
      dsimp only at hr' ⊢
      have hId := (hAdm.limit hType).2
      rw [finished_addLimit hF hType hId] at hr'
      obtain ⟨r, hr, hAccount⟩ := addLimit_account hF hId r' hr'
      exact ⟨r, by simpa using hr, hAccount⟩
  | CANCEL =>
      rw [hType] at hr'
      dsimp only at hr' ⊢
      rw [finished_cancelRequest hF p hType] at hr'
      rcases List.mem_append.mp hr' with hr' | hr'
      · obtain ⟨r, hr, rfl⟩ := Option.map_eq_some_iff.mp (Option.mem_toList.mp hr')
        exact ⟨r, by simpa using (lookup_eq_some hr).1, sameOrder_cancelled r, by
          simp [cancelled, cancelRequest]⟩
      · rw [cancelRequest, all_remove] at hr'
        exact ⟨r', by simpa using (List.mem_filter.mp hr').1, .refl r', by simp [cancelRequest]⟩

/-- What a request closes, and what it leaves open. -/
theorem submit_status {F : PriorityBook} (hF : F.WellFormed) {p : OrderPtr} {o : Order}
    (hAdm : F.Admissible p o) (hPos : o.type = .LIMIT → 0 < o.quantity) :
    (∀ r ∈ (F.submit p o).finished, r.order.Closed) ∧
      ∀ r ∈ (F.submit p o).finished ++ (F.submit p o).book.all,
        r.order.status = .CANCELLED ↔ o.type = .CANCEL ∧ r.order.orderId = o.orderId := by
  have hNext := submit_wellFormed hF hAdm.accepts
  have hOpen : ∀ r ∈ (F.submit p o).book.all, r.order.status ≠ .CANCELLED := by
    intro r hr
    obtain ⟨side, hSide⟩ := mem_all_iff.mp hr
    rw [(hNext.openOrder side r hSide).status_eq]
    split <;> decide
  cases hType : o.type with
  | LIMIT =>
      have hFull := addLimit_returned hF p (hAdm.limit hType).1.filled_eq (hPos hType)
      rw [← finished_addLimit hF hType (hAdm.limit hType).2] at hFull
      have hSubmit : F.submit p o = F.addLimit p o := by rw [submit, hType]
      rw [hSubmit] at hOpen ⊢
      refine ⟨fun r hr => Or.inl (hFull r hr), fun r hr => ?_⟩
      simp only [reduceCtorEq, false_and, iff_false]
      rcases List.mem_append.mp hr with hr | hr
      · rw [(hFull r hr).1]
        decide
      · exact hOpen r hr
  | CANCEL =>
      have hSubmit : F.submit p o = F.cancelRequest p o := by rw [submit, hType]
      rw [hSubmit] at hOpen ⊢
      rw [finished_cancelRequest hF p hType]
      have hFound : ∀ r' ∈ ((F.lookup o.orderId).map cancelled).toList,
          ∃ r, F.lookup o.orderId = some r ∧ r' = cancelled r := by
        intro r' hr'
        obtain ⟨r, hr, rfl⟩ := Option.map_eq_some_iff.mp (Option.mem_toList.mp hr')
        exact ⟨r, hr, rfl⟩
      constructor
      · intro r' hr'
        obtain ⟨r, hr, rfl⟩ := hFound r' hr'
        obtain ⟨side, hSide⟩ := mem_all_iff.mp (lookup_eq_some hr).1
        exact Or.inr ⟨rfl, (hF.openOrder side r hSide).filled_lt⟩
      · intro r' hr'
        rcases List.mem_append.mp hr' with hr' | hr'
        · obtain ⟨r, hr, rfl⟩ := hFound r' hr'
          exact iff_of_true rfl ⟨rfl, (lookup_eq_some hr).2⟩
        · refine iff_of_false (hOpen r' hr') fun h => ?_
          rw [cancelRequest, all_remove] at hr'
          simpa [h.2] using (List.mem_filter.mp hr').2

theorem addLimit_trades (F : PriorityBook) (p : OrderPtr) (o : Order) :
    (F.addLimit p o).trades = (F.sweepOf o).trades ∧
      (F.addLimit p o).overflow = (F.sweepOf o).overflow ∧
      (F.addLimit p o).book.lastTradeId = (F.sweepOf o).tradeId := by
  cases hFill : (F.sweepOf o).incoming.isFilled with
  | true =>
      rw [addLimit_of_filled p hFill]
      exact ⟨rfl, rfl, rfl⟩
  | false =>
      rw [addLimit_of_open p hFill]
      exact ⟨rfl, rfl, lastTradeId_setSide ..⟩

/-- Only limit orders trade: with the other side, at prices within their limit. -/
theorem submit_trades {F : PriorityBook} (hF : F.WellFormed) (p : OrderPtr) (o : Order) :
    ∀ t ∈ (F.submit p o).trades, o.type = .LIMIT ∧
      SweptTrade o.side.opposite o (F.side o.side.opposite) t := by
  intro t ht
  cases hType : o.type with
  | LIMIT =>
      rw [submit, hType] at ht
      rw [(F.addLimit_trades p o).1] at ht
      exact ⟨rfl, sweep_trades o F.lastTradeId (hF.openOrder _) t ht⟩
  | CANCEL =>
      rw [submit, hType] at ht
      exact absurd ht List.not_mem_nil

/-- A trade names the order that entered or an open one. -/
theorem submit_names {F : PriorityBook} (hF : F.WellFormed) {p : OrderPtr} {o : Order} {t : Trade}
    (ht : t ∈ (F.submit p o).trades) {id : UInt64} (hNames : t.Names id) :
    o.type = .LIMIT ∧ id = o.orderId ∨ id ∈ F.ids := by
  obtain ⟨hType, hSwept⟩ := submit_trades hF p o t ht
  rcases (t.names_iff o.side.opposite id).mp hNames with h | h
  · exact Or.inl ⟨hType, h.symm.trans hSwept.incoming⟩
  · obtain ⟨r, hr, hId, -⟩ := hSwept.resting
    refine Or.inr ?_
    rw [← h, hId]
    exact List.mem_map_of_mem (mem_all_iff.mpr ⟨_, hr⟩)

/-- A request makes at most one trade for each order it finishes, and for each open one. -/
theorem submit_length {F : PriorityBook} (hF : F.WellFormed) {p : OrderPtr} {o : Order}
    (hAdm : F.Admissible p o) :
    (F.submit p o).trades.length ≤ (F.submit p o).finished.length ∧
      (F.submit p o).trades.length ≤ F.all.length := by
  cases hType : o.type with
  | CANCEL =>
      have hNone : (F.submit p o).trades = [] := by
        rw [submit, hType]
        rfl
      simp [hNone]
  | LIMIT =>
      have hSubmit : F.submit p o = F.addLimit p o := by rw [submit, hType]
      rw [hSubmit, finished_addLimit hF hType (hAdm.limit hType).2, (F.addLimit_trades p o).1]
      have hVisited : ((F.sweepOf o).filled ++ (F.sweepOf o).rest).length =
          (F.side o.side.opposite).length :=
        (sweep_sameOrder o.side.opposite o F.lastTradeId (F.side o.side.opposite)).length_eq
      have hAll := (F.all_perm_opposite o.side).length_eq
      have hLength : (F.sweepOf o).trades.length = (F.sweepOf o).filled.length ∨ _ :=
        sweep_length o F.lastTradeId (F.side o.side.opposite)
      rw [List.length_append] at hVisited hAll
      cases hFill : (F.sweepOf o).incoming.isFilled with
      | true =>
          rw [addLimit_of_filled p hFill]
          simp only [List.length_append, List.length_singleton]
          rcases hLength with hLength | ⟨hLength, -, hRest⟩
          · omega
          · have hPos := List.length_pos_of_ne_nil hRest
            change (F.sweepOf o).trades.length = (F.sweepOf o).filled.length + 1 at hLength
            change 0 < (F.sweepOf o).rest.length at hPos
            omega
      | false =>
          rw [addLimit_of_open p hFill]
          dsimp only
          rcases hLength with hLength | ⟨-, hFull, -⟩
          · omega
          · change (F.sweepOf o).incoming.isFilled = true at hFull
            rw [hFill] at hFull
            cases hFull

/-- Trade IDs go on from the last one given out. -/
theorem submit_tradeIds (F : PriorityBook) (p : OrderPtr) (o : Order) :
    (F.submit p o).book.lastTradeId =
        F.lastTradeId + UInt64.ofNat (F.submit p o).trades.length ∧
      (F.submit p o).trades.map Trade.tradeId =
        (List.range (F.submit p o).trades.length).map fun i =>
          F.lastTradeId + UInt64.ofNat (i + 1) := by
  cases hType : o.type with
  | LIMIT =>
      have hSubmit : F.submit p o = F.addLimit p o := by rw [submit, hType]
      rw [hSubmit, (F.addLimit_trades p o).2.2, (F.addLimit_trades p o).1]
      exact sweep_tradeIds o F.lastTradeId _
  | CANCEL =>
      have hSubmit : F.submit p o = F.cancelRequest p o := by rw [submit, hType]
      rw [hSubmit]
      constructor
      · show F.lastTradeId = F.lastTradeId + UInt64.ofNat 0
        exact (add_zero _).symm
      · rfl

/-- Orders within the range of `int64_t` are served without leaving it. -/
theorem submit_overflow {F : PriorityBook} (hF : F.WellFormed) {p : OrderPtr} {o : Order}
    (hAdm : F.Admissible p o) (ho : o.type = .LIMIT → 0 < o.quantity ∧ o.quantity < 2 ^ 63)
    (hAll : ∀ r ∈ F.all, r.order.quantity < 2 ^ 63) : (F.submit p o).overflow = false := by
  cases hType : o.type with
  | CANCEL =>
      rw [submit, hType]
      rfl
  | LIMIT =>
      have hSubmit : F.submit p o = F.addLimit p o := by rw [submit, hType]
      have hFilled := (hAdm.limit hType).1.filled_eq
      obtain ⟨hPos, hLt⟩ := ho hType
      rw [hSubmit, (F.addLimit_trades p o).2.1]
      refine sweep_overflow o F.lastTradeId (by omega) fun r hr => ?_
      exact ⟨hF.openOrder _ r hr, hAll r (mem_all_iff.mpr ⟨_, hr⟩)⟩

end PriorityBook

end MatchingMachine
