import MatchingMachine.Priority.Accounts

/-!
# The ledger of a priority book

A `Ledger` is a priority book next to what has come out of it: the limit orders that have left
it in their final state, all trades, and the IDs whose cancel found an order.  `Balanced` is the
accounting law, and `submit_balanced` says that every request keeps it: each order, open or
closed, has been filled by what the trades that name it add up to; closed orders are full or
cancelled; trade IDs count from one, and there are fewer trades than orders.
-/

namespace MatchingMachine

structure Ledger where
  book : PriorityBook := {}
  closed : List Resting := []
  trades : List Trade := []
  cancelled : List UInt64 := []

namespace Ledger

/-- All limit orders, the closed ones and the open ones. -/
def accounts (L : Ledger) : List Resting := L.closed ++ L.book.all

/-- The ledger after a request. -/
def submit (L : Ledger) (p : OrderPtr) (o : Order) : Ledger :=
  let out := L.book.submit p o
  { book := out.book
    closed := L.closed ++ out.finished
    trades := L.trades ++ out.trades
    cancelled := L.cancelled ++
      if o.type = .CANCEL ∧ (L.book.lookup o.orderId).isSome then [o.orderId] else [] }

/-- The accounting law, for a ledger of the orders that have `entered`. -/
structure Balanced (L : Ledger) (entered : List Resting) : Prop where
  wellFormed : L.book.WellFormed
  entered_perm : (L.accounts.map Resting.asEntered).Perm entered
  ids_nodup : (entered.map fun r => r.order.orderId).Nodup
  filled_eq : ∀ r ∈ L.accounts, r.order.filledQty = traded r.order.orderId L.trades
  closed : ∀ r ∈ L.closed, r.order.Closed
  cancelled_iff : ∀ r ∈ L.accounts,
    r.order.status = .CANCELLED ↔ r.order.orderId ∈ L.cancelled
  named : ∀ t ∈ L.trades, ∀ id, t.Names id → id ∈ entered.map fun r => r.order.orderId
  cancelled_mem : ∀ id ∈ L.cancelled, id ∈ entered.map fun r => r.order.orderId
  quantity_pos : ∀ t ∈ L.trades, 0 < t.quantity
  lastTradeId : L.book.lastTradeId = UInt64.ofNat L.trades.length
  tradeIds : L.trades.map Trade.tradeId =
    (List.range L.trades.length).map fun i => UInt64.ofNat (i + 1)
  length_le : L.trades.length ≤ L.closed.length
  length_lt : L.trades ≠ [] → L.trades.length < entered.length

theorem balanced_empty : ({} : Ledger).Balanced [] where
  wellFormed := PriorityBook.wellFormed_empty
  entered_perm := .nil
  ids_nodup := List.nodup_nil
  filled_eq := by simp [accounts, PriorityBook.all]
  closed := by simp
  cancelled_iff := by simp [accounts, PriorityBook.all]
  named := by simp
  cancelled_mem := by simp
  quantity_pos := by simp
  lastTradeId := rfl
  tradeIds := rfl
  length_le := le_rfl
  length_lt := by simp

namespace Balanced

variable {L : Ledger} {entered : List Resting}

theorem ids_perm (h : L.Balanced entered) :
    (L.accounts.map fun r => r.order.orderId).Perm (entered.map fun r => r.order.orderId) := by
  have hMap := h.entered_perm.map fun r => r.order.orderId
  rwa [List.map_map] at hMap

theorem accounts_ids_nodup (h : L.Balanced entered) :
    (L.accounts.map fun r => r.order.orderId).Nodup :=
  h.ids_perm.nodup_iff.mpr h.ids_nodup

theorem mem_accounts_of_mem_all {r : Resting} (hr : r ∈ L.book.all) : r ∈ L.accounts :=
  List.mem_append_right _ hr

theorem mem_entered (h : L.Balanced entered) {r : Resting} (hr : r ∈ L.accounts) :
    r.asEntered ∈ entered :=
  h.entered_perm.mem_iff.mp (List.mem_map_of_mem hr)

theorem id_mem_entered (h : L.Balanced entered) {r : Resting} (hr : r ∈ L.accounts) :
    r.order.orderId ∈ entered.map fun r => r.order.orderId :=
  h.ids_perm.mem_iff.mp (List.mem_map_of_mem hr)

/-- A closed order's ID is not open. -/
theorem closed_id_not_open (h : L.Balanced entered) {r : Resting} (hr : r ∈ L.closed) :
    r.order.orderId ∉ L.book.ids := by
  have hIds := h.accounts_ids_nodup
  rw [accounts, List.map_append] at hIds
  exact List.disjoint_of_nodup_append hIds (List.mem_map_of_mem hr)

/-- An open order has not been cancelled. -/
theorem open_not_cancelled (h : L.Balanced entered) {r : Resting} (hr : r ∈ L.book.all) :
    r.order.orderId ∉ L.cancelled := by
  rw [← h.cancelled_iff r (mem_accounts_of_mem_all hr)]
  obtain ⟨side, hSide⟩ := PriorityBook.mem_all_iff.mp hr
  rw [(h.wellFormed.openOrder side r hSide).status_eq]
  split <;> decide

/-- The status of an order tells how far it has been filled. -/
theorem status_eq (h : L.Balanced entered) {r : Resting} (hr : r ∈ L.accounts) :
    r.order.filledQty ≤ r.order.quantity ∧
      (r.order.status = .FILLED ↔ r.order.filledQty = r.order.quantity) ∧
      (r.order.status ≠ .FILLED → r.order.status ≠ .CANCELLED →
        r.order.status = if 0 < r.order.filledQty then .PARTIAL else .NEW) := by
  rcases List.mem_append.mp hr with hr | hr
  · rcases h.closed r hr with ⟨hStatus, hFull⟩ | ⟨hStatus, hLt⟩
    · exact ⟨hFull.le, iff_of_true hStatus hFull, fun hNe => absurd hStatus hNe⟩
    · refine ⟨hLt.le, iff_of_false (by simp [hStatus]) hLt.ne, fun _ hNe => absurd hStatus hNe⟩
  · obtain ⟨side, hSide⟩ := PriorityBook.mem_all_iff.mp hr
    have hOpen := h.wellFormed.openOrder side r hSide
    refine ⟨hOpen.filled_lt.le, iff_of_false ?_ hOpen.filled_lt.ne, fun _ _ => hOpen.status_eq⟩
    rw [hOpen.status_eq]
    split <;> decide

theorem mem_cancelled_submit {p : OrderPtr} {o : Order} {id : UInt64} :
    id ∈ (L.submit p o).cancelled ↔
      id ∈ L.cancelled ∨ o.type = .CANCEL ∧ id = o.orderId ∧ id ∈ L.book.ids := by
  have hFound : (L.book.lookup o.orderId).isSome ↔ o.orderId ∈ L.book.ids := by
    rw [← not_iff_not, Bool.not_eq_true, Option.isSome_eq_false_iff, Option.isNone_iff_eq_none]
    exact PriorityBook.lookup_eq_none_iff
  simp only [submit, List.mem_append, hFound]
  split
  · rename_i hCancel
    simp only [List.mem_singleton, hCancel.1, true_and]
    refine or_congr_right ⟨?_, And.left⟩
    rintro rfl
    exact ⟨rfl, hCancel.2⟩
  · rename_i hCancel
    refine or_congr_right ⟨fun h => absurd h List.not_mem_nil, ?_⟩
    rintro ⟨hType, rfl, hMem⟩
    exact absurd ⟨hType, hMem⟩ hCancel

section Submit

variable {p : OrderPtr} {o : Order}

/-- A request the ledger admits: a limit order is for a positive quantity, under an ID that has
not been used. -/
structure Admits (L : Ledger) (entered : List Resting) (p : OrderPtr) (o : Order) : Prop where
  admissible : L.book.Admissible p o
  quantity_pos : o.type = .LIMIT → 0 < o.quantity
  id_fresh : o.type = .LIMIT → o.orderId ∉ entered.map fun r => r.order.orderId

theorem mem_newAccounts {r : Resting} :
    r ∈ newAccounts p o ↔ o.type = .LIMIT ∧ r = ⟨p, o⟩ := by
  unfold newAccounts
  split <;> simp [*]

theorem accounts_submit : (L.submit p o).accounts = L.closed ++
    ((L.book.submit p o).finished ++ (L.book.submit p o).book.all) := List.append_assoc ..

/-- What was known of an order before the request. -/
theorem filled_eq_before (h : L.Balanced entered) (hAdm : Admits L entered p o) {r : Resting}
    (hr : r ∈ newAccounts p o ++ L.book.all) :
    r.order.filledQty = traded r.order.orderId L.trades ∧ r.order.orderId ∉ L.cancelled := by
  rcases List.mem_append.mp hr with hr | hr
  · obtain ⟨hType, rfl⟩ := mem_newAccounts.mp hr
    have hId := hAdm.id_fresh hType
    refine ⟨?_, fun hMem => hId (h.cancelled_mem _ hMem)⟩
    rw [(hAdm.admissible.limit hType).1.filled_eq]
    exact (traded_eq_zero fun t ht hNames => hId (h.named t ht _ hNames)).symm
  · exact ⟨h.filled_eq r (mem_accounts_of_mem_all hr), h.open_not_cancelled hr⟩

/-- No trade of the request is with a closed order. -/
theorem traded_closed (h : L.Balanced entered) (hAdm : Admits L entered p o) {r : Resting}
    (hr : r ∈ L.closed) : traded r.order.orderId (L.book.submit p o).trades = 0 := by
  refine traded_eq_zero fun t ht hNames => ?_
  rcases PriorityBook.submit_names h.wellFormed ht hNames with ⟨hType, hEq⟩ | hMem
  · exact hAdm.id_fresh hType (hEq ▸ h.id_mem_entered (List.mem_append_left _ hr))
  · exact h.closed_id_not_open hr hMem

theorem submit_filled_eq (h : L.Balanced entered) (hAdm : Admits L entered p o) :
    ∀ r ∈ (L.submit p o).accounts,
      r.order.filledQty = traded r.order.orderId (L.submit p o).trades := by
  intro r' hr'
  rw [accounts_submit] at hr'
  show _ = traded _ (L.trades ++ (L.book.submit p o).trades)
  rw [traded_append]
  rcases List.mem_append.mp hr' with hr' | hr'
  · rw [h.traded_closed hAdm hr', add_zero]
    exact h.filled_eq r' (List.mem_append_left _ hr')
  · obtain ⟨r, hr, hSame, hFilled⟩ :=
      PriorityBook.submit_account h.wellFormed hAdm.admissible r' hr'
    rw [hFilled, (h.filled_eq_before hAdm hr).1, hSame.orderId_eq]

theorem submit_cancelled_iff (h : L.Balanced entered) (hAdm : Admits L entered p o) :
    ∀ r ∈ (L.submit p o).accounts,
      r.order.status = .CANCELLED ↔ r.order.orderId ∈ (L.submit p o).cancelled := by
  have hStatus :=
    (PriorityBook.submit_status h.wellFormed hAdm.admissible hAdm.quantity_pos).2
  intro r' hr'
  rw [accounts_submit] at hr'
  rw [mem_cancelled_submit]
  rcases List.mem_append.mp hr' with hr' | hr'
  · have hNot : ¬ (o.type = .CANCEL ∧ r'.order.orderId = o.orderId ∧
        r'.order.orderId ∈ L.book.ids) := fun hCancel =>
      h.closed_id_not_open hr' hCancel.2.2
    rw [h.cancelled_iff r' (List.mem_append_left _ hr')]
    exact (or_iff_left hNot).symm
  · obtain ⟨r, hr, hSame, -⟩ :=
      PriorityBook.submit_account h.wellFormed hAdm.admissible r' hr'
    have hNot := (h.filled_eq_before hAdm hr).2
    rw [← hSame.orderId_eq] at hNot
    rw [hStatus r' hr', or_iff_right hNot]
    refine and_congr_right fun hType => ⟨fun hId => ⟨hId, ?_⟩, And.left⟩
    rcases List.mem_append.mp hr with hr | hr
    · rw [(mem_newAccounts.mp hr).1] at hType
      cases hType
    · rw [hSame.orderId_eq]
      exact List.mem_map_of_mem hr

/-- The ID of an open order, or of one that enters, is the ID of an order that has entered. -/
theorem id_mem_submit (h : L.Balanced entered) {id : UInt64}
    (hId : o.type = .LIMIT ∧ id = o.orderId ∨ id ∈ L.book.ids) :
    id ∈ (entered ++ newAccounts p o).map fun r => r.order.orderId := by
  rw [List.map_append, List.mem_append]
  rcases hId with ⟨hType, rfl⟩ | hMem
  · exact Or.inr (List.mem_map_of_mem (mem_newAccounts.mpr ⟨hType, rfl⟩))
  · obtain ⟨r, hr, rfl⟩ := List.mem_map.mp hMem
    exact Or.inl (h.id_mem_entered (mem_accounts_of_mem_all hr))

theorem submit_tradeIds (h : L.Balanced entered) :
    (L.submit p o).book.lastTradeId = UInt64.ofNat (L.submit p o).trades.length ∧
      (L.submit p o).trades.map Trade.tradeId =
        (List.range (L.submit p o).trades.length).map fun i => UInt64.ofNat (i + 1) := by
  obtain ⟨hLast, hIds⟩ := L.book.submit_tradeIds p o
  rw [h.lastTradeId] at hLast hIds
  show (L.book.submit p o).book.lastTradeId =
      UInt64.ofNat (L.trades ++ (L.book.submit p o).trades).length ∧
    (L.trades ++ (L.book.submit p o).trades).map Trade.tradeId = _
  rw [List.length_append, hLast, List.map_append, h.tradeIds, hIds]
  constructor
  · exact (UInt64.ofNat_add ..).symm
  · show _ = (List.range (L.trades ++ (L.book.submit p o).trades).length).map _
    rw [List.length_append, List.range_add, List.map_append, List.map_map]
    simp only [Function.comp_def, add_assoc, UInt64.ofNat_add]

theorem submit_length (h : L.Balanced entered) (hAdm : Admits L entered p o) :
    (L.submit p o).trades.length ≤ (L.submit p o).closed.length ∧
      ((L.submit p o).trades ≠ [] →
        (L.submit p o).trades.length < (entered ++ newAccounts p o).length) := by
  obtain ⟨hFinished, hOpen⟩ := PriorityBook.submit_length h.wellFormed hAdm.admissible
  have hLe := h.length_le
  have hEntered := h.entered_perm.length_eq
  simp only [accounts, List.length_map, List.length_append] at hEntered
  have hClosed : (L.submit p o).closed.length =
      L.closed.length + (L.book.submit p o).finished.length := List.length_append
  have hTrades : (L.submit p o).trades.length =
      L.trades.length + (L.book.submit p o).trades.length := List.length_append
  rw [hClosed, hTrades]
  refine ⟨Nat.add_le_add hLe hFinished, fun hNe => ?_⟩
  rw [List.length_append]
  by_cases hType : o.type = .LIMIT
  · have hOne : (newAccounts p o).length = 1 := by simp [newAccounts, hType]
    omega
  · -- a cancel trades nothing
    have hNone : (L.book.submit p o).trades = [] := by
      apply List.eq_nil_iff_forall_not_mem.mpr
      intro t ht
      exact hType (PriorityBook.submit_trades h.wellFormed p o t ht).1
    have hOld : L.trades ≠ [] := by
      intro hEq
      apply hNe
      show L.trades ++ (L.book.submit p o).trades = []
      rw [hEq, hNone, List.append_nil]
    have hLt := h.length_lt hOld
    rw [hNone, List.length_nil]
    omega

/-- Every request keeps the accounting law. -/
theorem submit_balanced (h : L.Balanced entered) (hAdm : Admits L entered p o) :
    (L.submit p o).Balanced (entered ++ newAccounts p o) where
  wellFormed := PriorityBook.submit_wellFormed h.wellFormed hAdm.admissible.accepts
  entered_perm := by
    rw [accounts_submit, List.map_append]
    refine ((PriorityBook.submit_entered h.wellFormed hAdm.admissible).append_left _).trans ?_
    refine (List.perm_append_comm.append_left _).trans ?_
    rw [← List.append_assoc, ← List.map_append]
    exact h.entered_perm.append_right _
  ids_nodup := by
    by_cases hType : o.type = .LIMIT
    · have hOne : newAccounts p o = [⟨p, o⟩] := if_pos hType
      have hIds := h.ids_nodup.concat (hAdm.id_fresh hType)
      rw [hOne, List.map_append]
      rwa [List.concat_eq_append] at hIds
    · have hNone : newAccounts p o = [] := if_neg hType
      rw [hNone, List.append_nil]
      exact h.ids_nodup
  filled_eq := h.submit_filled_eq hAdm
  closed := by
    intro r hr
    rcases List.mem_append.mp hr with hr | hr
    · exact h.closed r hr
    · exact (PriorityBook.submit_status h.wellFormed hAdm.admissible hAdm.quantity_pos).1 r hr
  cancelled_iff := h.submit_cancelled_iff hAdm
  named := by
    intro t ht id hNames
    rcases List.mem_append.mp ht with ht | ht
    · rw [List.map_append]
      exact List.mem_append_left _ (h.named t ht id hNames)
    · exact h.id_mem_submit (PriorityBook.submit_names h.wellFormed ht hNames)
  cancelled_mem := by
    intro id hId
    rcases mem_cancelled_submit.mp hId with hId | ⟨-, -, hId⟩
    · rw [List.map_append]
      exact List.mem_append_left _ (h.cancelled_mem id hId)
    · exact h.id_mem_submit (Or.inr hId)
  quantity_pos := by
    intro t ht
    rcases List.mem_append.mp ht with ht | ht
    · exact h.quantity_pos t ht
    · exact (PriorityBook.submit_trades h.wellFormed p o t ht).2.quantity_pos
  lastTradeId := h.submit_tradeIds.1
  tradeIds := h.submit_tradeIds.2
  length_le := (h.submit_length hAdm).1
  length_lt := (h.submit_length hAdm).2

end Submit

end Balanced

end Ledger

end MatchingMachine
