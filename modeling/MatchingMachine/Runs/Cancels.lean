import MatchingMachine.Priority.Accounts
import MatchingMachine.Refinement.Confined
import MatchingMachine.Refinement.Reachable

/-!
# Cancelling after resubmissions

The caller owns the order objects, and may submit one again after it has been cancelled: nothing
but the type of an order, its remaining quantity and its ID is a precondition of `add_order`.
`Submittable` are the orders that may be new or withdrawn in this sense, and a `History` is any
sequence of calls with such orders.

`add_order` leaves the status of an order alone unless the order is filled in part.  A withdrawn
order that has never traded and does not trade on entry therefore rests with the status
`CANCELLED`, by which `cancel_resting` takes it for cancelled.  `Revives` excludes this, and
`cancelExact` is about the histories all of whose orders satisfy it.
-/

namespace MatchingMachine

open Interaction

variable {k : Nat}

/-! ## Histories of calls -/

/-- An order with this ID stands at a live position of a level. -/
def BookState.Rests (s : BookState k) (id : UInt64) : Prop :=
  ∃ p ∈ s.book.livePtrs, (s.heap p).orderId = id

instance (s : BookState k) (id : UInt64) : Decidable (s.Rests id) :=
  inferInstanceAs (Decidable (∃ p ∈ s.book.livePtrs, (s.heap p).orderId = id))

/-- The order at `p` meets the preconditions of `add_order`, and is new or has been cancelled. -/
@[mk_iff]
structure Submittable (s : BookState k) (p : OrderPtr) : Prop where
  type_eq : (s.heap p).type = .LIMIT
  notLive : s.book.orderIndex.find? (s.heap p).orderId = none
  filled_nonneg : 0 ≤ (s.heap p).filledQty
  filled_lt : (s.heap p).filledQty < (s.heap p).quantity
  status_eq : (s.heap p).status = .NEW ∧ (s.heap p).filledQty = 0 ∨ (s.heap p).status = .CANCELLED

instance (s : BookState k) (p : OrderPtr) : Decidable (Submittable s p) :=
  decidable_of_iff _ (submittable_iff s p).symm

/-- The order would trade at once: its price crosses the best price of the other side. -/
def BookState.crosses (s : BookState k) (o : Order) : Bool :=
  match (s.book.levels o.side.opposite).begin? with
  | none => false
  | some (price, _) => !decide (o.side.opposite.before o.price price)

/-- Submitting the order at `p` leaves no `CANCELLED` behind: it is new, has been filled in part
or trades at once. -/
def Revives (s : BookState k) (p : OrderPtr) : Prop :=
  (s.heap p).status ≠ .CANCELLED ∨ 0 < (s.heap p).filledQty ∨ s.crosses (s.heap p) = true

instance (s : BookState k) (p : OrderPtr) : Decidable (Revives s p) :=
  inferInstanceAs (Decidable (_ ∨ _ ∨ _))

/-- What a call adds under which ID, and the trades it makes. -/
structure BookCall where
  added : Option UInt64 := none
  trades : List Trade := []

/-- A call, or anything that happens to memory outside the book in between; every limit order
that is added satisfies `ok`. -/
inductive CallStep (ok : BookState k → OrderPtr → Prop) :
    BookState k → BookCall → BookState k → Prop
  | outside {s : BookState k} (heap : Heap) (buf : TradeRingBuffer k)
      (hResting : ∀ q ∈ s.book.livePtrs, heap q = s.heap q) :
      CallStep ok s {} { s with heap := heap, buf := buf }
  | addOrder {s s' : BookState k} {p : OrderPtr} {now : UInt64} (hSubmit : Submittable s p)
      (hOk : ok s p) (hCall : s.addOrder (some p) now = some s') :
      CallStep ok s { added := some (s.heap p).orderId, trades := s'.trades } s'
  | addOrderNoalloc {s s' : BookState k} {p : OrderPtr} {now : UInt64}
      {handler : List OrderPtr → OrderPtr → BookState k → BookState k} {log : List OrderPtr}
      (hSubmit : (s.heap p).type = .LIMIT → Submittable s p ∧ ok s p) (hSpares : Spares p handler)
      (hCall : run handler [] (s.addOrderNoalloc (some p) now) = some (log, s')) :
      CallStep ok s
        { added := if (s.heap p).type = .LIMIT then some (s.heap p).orderId else none
          trades := s'.trades } s'
  | cancelOrder {s : BookState k} (id : UInt64) : CallStep ok s {} (s.cancelOrder id).2
  | clear {s : BookState k} : CallStep ok s {} s.clear

inductive History (ok : BookState k → OrderPtr → Prop) :
    BookState k → List BookCall → BookState k → Prop
  | nil (s : BookState k) : History ok s [] s
  | cons {s s' s'' : BookState k} {c : BookCall} {cs : List BookCall} (hStep : CallStep ok s c s')
      (hRest : History ok s' cs s'') : History ok s (c :: cs) s''

/-! ## What rests -/

namespace PriorityBook

theorem mem_ids_remove {F : PriorityBook} {id i : UInt64} :
    i ∈ (F.remove id).ids ↔ i ∈ F.ids ∧ i ≠ id := by
  unfold ids
  rw [all_remove]
  constructor
  · intro hi
    obtain ⟨r, hr, rfl⟩ := List.mem_map.mp hi
    rw [List.mem_filter] at hr
    exact ⟨List.mem_map_of_mem hr.1, by simpa using hr.2⟩
  · rintro ⟨hi, hNe⟩
    obtain ⟨r, hr, rfl⟩ := List.mem_map.mp hi
    exact List.mem_map_of_mem (List.mem_filter.mpr ⟨hr, by simpa using hNe⟩)

end PriorityBook

section Rests

variable {s : BookState k} {F : PriorityBook}

theorem Represents.rests_iff (hR : Represents s.heap s.book F) {id : UInt64} :
    s.Rests id ↔ id ∈ F.ids := by
  unfold BookState.Rests
  rw [hR.livePtrs_eq]
  constructor
  · rintro ⟨p, hp, hId⟩
    obtain ⟨r, hr, rfl⟩ := List.mem_map.mp hp
    rw [hR.contents hr] at hId
    exact List.mem_map.mpr ⟨r, hr, hId⟩
  · intro hId
    obtain ⟨r, hr, hId⟩ := List.mem_map.mp hId
    exact ⟨r.ptr, List.mem_map_of_mem hr, by rw [hR.contents hr, hId]⟩

/-- In a book that represents a priority book, a cancel finds exactly what rests. -/
theorem Represents.cancel_iff (hR : Represents s.heap s.book F) (id : UInt64) :
    (s.cancelOrder id).1 = true ↔ s.Rests id := by
  rw [(cancelOrder_post hR id).1, hR.rests_iff]
  cases hLook : F.lookup id with
  | none => exact iff_of_false Bool.false_ne_true (PriorityBook.lookup_eq_none_iff.mp hLook)
  | some r =>
      obtain ⟨hr, hId⟩ := PriorityBook.lookup_eq_some hLook
      exact iff_of_true rfl (List.mem_map.mpr ⟨r, hr, hId⟩)

theorem Represents.orderCount_eq_livePtrs (hR : Represents s.heap s.book F) :
    s.book.orderCount = s.book.livePtrs.length := by
  rw [hR.orderCount_eq, hR.livePtrs_eq]
  exact (List.length_map _).symm

/-- A cancelled order has left the book. -/
theorem Represents.not_rests_cancel (hR : Represents s.heap s.book F) (id : UInt64) :
    ¬ (s.cancelOrder id).2.Rests id := by
  rw [(cancelOrder_post hR id).2.1.rests_iff, PriorityBook.mem_ids_remove]
  exact fun hMem => hMem.2 rfl

/-- Where the price of an order crosses, the order trades. -/
theorem Represents.filled_pos_of_crosses (hR : Represents s.heap s.book F) {o : Order}
    (hNonneg : 0 ≤ o.filledQty) (hOpen : o.isFilled = false) (hCross : s.crosses o = true) :
    0 < (F.sweepOf o).incoming.filledQty := by
  unfold BookState.crosses at hCross
  have hFirst := Represents.begin?_map_fst (hR.sideRep o.side.opposite)
  have hQueue := hR.wellFormed.openOrder o.side.opposite
  unfold PriorityBook.sweepOf
  cases hSide : F.side o.side.opposite with
  | nil =>
      rw [hSide] at hFirst
      rw [Option.map_eq_none_iff.mp hFirst] at hCross
      cases hCross
  | cons r rs =>
      rw [hSide] at hFirst hQueue
      obtain ⟨e, hBegin, hPrice⟩ := Option.map_eq_some_iff.mp hFirst
      have hPrice : e.1 = r.order.price := hPrice
      rw [hBegin] at hCross
      have hGo : ¬ (o.isFilled = true ∨ o.side.opposite.before o.price r.order.price) := by
        rw [hOpen, ← hPrice]
        simpa using hCross
      have hr := hQueue r (List.mem_cons_self ..)
      have hPos := matchQty_pos hOpen hr.not_isFilled
      rw [sweep, if_neg hGo]
      dsimp only
      split
      · obtain ⟨qty, hQty, hEq, -⟩ := sweep_incoming (o.addFilled (matchQty o r.order))
          (F.lastTradeId + 1) fun x hx => hQueue x (List.mem_cons_of_mem _ hx)
        rw [SweepResult.prepend, hEq]
        show 0 < o.filledQty + matchQty o r.order + qty
        omega
      · show 0 < o.filledQty + matchQty o r.order
        omega

/-- An order that revives may rest. -/
theorem Represents.accepts (hR : Represents s.heap s.book F) {p : OrderPtr} (now : UInt64)
    (hSubmit : (s.heap p).type = .LIMIT → Submittable s p ∧ Revives s p) :
    F.Accepts p ((s.heap p).stamp now) := by
  obtain ⟨t, ht⟩ := (s.heap p).stamp_eq now
  rw [ht]
  refine
    { ptr_fresh := hR.ptr_fresh fun hType => (hSubmit hType).1.notLive
      limit := fun hType => ?_ }
  obtain ⟨hSub, hRevives⟩ := hSubmit hType
  refine ⟨⟨hType, hSub.filled_nonneg, fun hZero => ?_⟩, hR.id_fresh hSub.notLive⟩
  have hOpen : ({ s.heap p with timestampNs := t } : Order).isFilled = false :=
    Order.not_isFilled_iff.mpr hSub.filled_lt
  rcases hSub.status_eq with hNew | hCancelled
  · exact hNew.1
  -- a withdrawn order has been filled before, or trades in its sweep
  rcases hRevives with hStatus | hFilled | hCross
  · exact absurd hCancelled hStatus
  · obtain ⟨qty, hQty, hEq, -⟩ := sweep_incoming ({ s.heap p with timestampNs := t } : Order)
      F.lastTradeId (hR.wellFormed.openOrder (s.heap p).side.opposite)
    unfold PriorityBook.sweepOf at hZero
    rw [hEq] at hZero
    have hSum : (s.heap p).filledQty + qty = 0 := hZero
    omega
  · have hPos := hR.filled_pos_of_crosses
      (o := { s.heap p with timestampNs := t }) hSub.filled_nonneg hOpen hCross
    rw [hZero] at hPos
    exact absurd hPos (lt_irrefl 0)

end Rests

/-! ## Histories in which every order revives -/

/-- After a call the book still represents a priority book; the trades name the order that was
added and orders that rested; nothing else has come to rest. -/
theorem CallStep.represents {s s' : BookState k} {c : BookCall} {F : PriorityBook}
    (hR : Represents s.heap s.book F) (hStep : CallStep Revives s c s') :
    ∃ F', Represents s'.heap s'.book F' ∧
      (∀ id ∈ F'.ids, c.added = some id ∨ id ∈ F.ids) ∧
      ∀ t ∈ c.trades, ∀ id, t.Names id → c.added = some id ∨ id ∈ F.ids := by
  -- an order that is submitted and the resting ones are all there is, wherever they end up
  have hIds : ∀ (p : OrderPtr) (o : Order), o.type = .LIMIT →
      ∀ id ∈ (F.submit p o).book.ids, some o.orderId = some id ∨ id ∈ F.ids := by
    intro p o _ id hId
    have hPerm := PriorityBook.submit_conserves hR.wellFormed p o (f := fun r => r.order.orderId)
      fun _ _ h => h.orderId_eq
    rw [List.map_append] at hPerm
    rcases List.mem_cons.mp (hPerm.mem_iff.mp (List.mem_append_right _ hId)) with hEq | hOld
    · exact Or.inl (congrArg some hEq.symm)
    · exact Or.inr hOld
  have hStampId : ∀ (o : Order) (now : UInt64), (o.stamp now).orderId = o.orderId := by
    intro o now
    obtain ⟨t, ht⟩ := o.stamp_eq now
    rw [ht]
  have hStampType : ∀ (o : Order) (now : UInt64), (o.stamp now).type = o.type := by
    intro o now
    obtain ⟨t, ht⟩ := o.stamp_eq now
    rw [ht]
  cases hStep with
  | outside heap buf hResting =>
      refine ⟨F, hR.congr_heap fun q hq => hResting q ?_, fun _ hId => Or.inr hId, by simp⟩
      rwa [hR.livePtrs_eq]
  | @addOrder _ p now hSubmit hOk hCall =>
      have hAcc := hR.accepts now fun _ => ⟨hSubmit, hOk⟩
      obtain ⟨s'', hCall', hPost⟩ := addOrder_post hR hSubmit.type_eq hAcc
      obtain rfl := Option.some.inj (hCall'.symm.trans hCall)
      have hType : ((s.heap p).stamp now).type = .LIMIT := by rw [hStampType, hSubmit.type_eq]
      refine ⟨_, hPost.represents, fun id hId => ?_, fun t ht id hNames => ?_⟩
      · have hMem := hIds p _ hType id hId
        rwa [hStampId] at hMem
      · rw [hPost.trades_eq] at ht
        rcases PriorityBook.submit_names hR.wellFormed ht hNames with ⟨-, rfl⟩ | hOld
        · exact Or.inl (congrArg some (hStampId _ _).symm)
        · exact Or.inr hOld
  | @addOrderNoalloc _ p now handler log hSubmit hSpares hCall =>
      have hAcc := hR.accepts now hSubmit
      -- the caller may reuse what it is handed back, and writes nothing that rests
      have hRely : ∀ log a (s : BookState k), (ownership p F.ptrs fun _ => False).guar log a s →
          (ownership p F.ptrs fun _ => False).rely log a s (handler log a s) := by
        intro log a s _
        obtain ⟨h, hEq, hHeld⟩ := hSpares log a s
        exact ⟨h, hEq, fun q hq => hHeld q (hq.resolve_right not_false)⟩
      obtain ⟨log', s'', hCall', hPost⟩ := run_of_wp hRely (addOrderNoalloc_wp hR hAcc _)
      obtain ⟨rfl, rfl⟩ : log' = log ∧ s'' = s' := by simpa [hCall'] using hCall
      refine ⟨_, hPost.represents, fun id hId => ?_, fun t ht id hNames => ?_⟩
      · cases hType : (s.heap p).type with
        | LIMIT =>
            have hType' : ((s.heap p).stamp now).type = .LIMIT := by rw [hStampType, hType]
            have hMem := hIds p _ hType' id hId
            rw [hStampId] at hMem
            rwa [if_pos rfl]
        | CANCEL =>
            have hType' : ((s.heap p).stamp now).type = .CANCEL := by rw [hStampType, hType]
            rw [PriorityBook.submit, hType'] at hId
            exact Or.inr (PriorityBook.mem_ids_remove.mp hId).1
      · dsimp only at ht
        rw [hPost.trades_eq] at ht
        rcases PriorityBook.submit_names hR.wellFormed ht hNames with ⟨hType, rfl⟩ | hOld
        · rw [hStampType] at hType
          rw [if_pos hType]
          exact Or.inl (congrArg some (hStampId _ _).symm)
        · exact Or.inr hOld
  | cancelOrder id =>
      refine ⟨_, (cancelOrder_post hR id).2.1, fun i hi => Or.inr ?_, by simp⟩
      exact (PriorityBook.mem_ids_remove.mp hi).1
  | clear => exact ⟨{}, represents_empty _, by simp [PriorityBook.ids, PriorityBook.all], by simp⟩

theorem History.represents {s s' : BookState k} {cs : List BookCall} {F : PriorityBook}
    (hR : Represents s.heap s.book F) (h : History Revives s cs s') :
    ∃ F', Represents s'.heap s'.book F' := by
  induction h generalizing F with
  | nil s => exact ⟨F, hR⟩
  | cons hStep _ ih =>
      obtain ⟨F', hR', -⟩ := hStep.represents hR
      exact ih hR'

/-- An ID that does not rest neither comes to rest nor is named by a trade until it is added. -/
theorem History.not_named {s s' : BookState k} {cs : List BookCall} {F : PriorityBook}
    (hR : Represents s.heap s.book F) (h : History Revives s cs s') {id : UInt64}
    (hId : ¬ s.Rests id) (hAdded : ∀ c ∈ cs, c.added ≠ some id) :
    ¬ s'.Rests id ∧ ∀ c ∈ cs, ∀ t ∈ c.trades, ¬ t.Names id := by
  induction h generalizing F with
  | nil s => exact ⟨hId, by simp⟩
  | @cons s s' s'' c cs hStep _ ih =>
      rw [hR.rests_iff] at hId
      obtain ⟨hFirst, hLater⟩ := List.forall_mem_cons.mp hAdded
      obtain ⟨F', hR', hIds, hTrades⟩ := hStep.represents hR
      have hId' : ¬ s'.Rests id := by
        rw [hR'.rests_iff]
        exact fun hMem => (hIds id hMem).elim hFirst hId
      obtain ⟨hRests, hNamed⟩ := ih hR' hId' hLater
      refine ⟨hRests, List.forall_mem_cons.mpr ⟨fun t ht hNames => ?_, hNamed⟩⟩
      exact (hTrades t ht id hNames).elim hFirst hId

/-! ## Orders that do not revive -/

/-- Where no price crosses, the matching loop ends at once. -/
theorem matchOrder_of_not_crosses {s : BookState k} {p : OrderPtr}
    (hCross : s.crosses (s.heap p) = false) :
    s.matchOrder p = some (s.settleIncoming p) := by
  have hRound : BookState.matchRound (s.heap p).side.opposite p s = some (.done s) := by
    unfold BookState.crosses at hCross
    unfold BookState.matchRound
    cases hBegin : (s.book.levels (s.heap p).side.opposite).begin? with
    | none => rfl
    | some e =>
        rw [hBegin] at hCross
        have hBefore : (s.heap p).side.opposite.before (s.heap p).price e.1 := by
          simpa using hCross
        dsimp only
        rw [if_pos hBefore, ite_self]
  unfold BookState.matchOrder
  dsimp only
  rw [loop, hRound]
  rfl

/-- An order that is pushed to its level is live there. -/
theorem Represents.mem_upsert_push {h : Heap} {b : OrderBook} {F : PriorityBook}
    (hR : Represents h b F) (side : Side) (price : Int) (p : OrderPtr) :
    ∃ l, (price, l) ∈ ((b.levels side).upsert price fun level =>
      (level.getD {}).push p).entries ∧ p ∈ l.live := by
  refine ⟨_, (OrderedMap.mem_entries_iff _ _ _).mpr (OrderedMap.find?_upsert_self ..), ?_⟩
  cases hFind : (b.levels side).find? price with
  | none =>
      show p ∈ (({} : PriceLevel).push p).live
      rw [PriceLevel.live_push_empty]
      exact List.mem_singleton_self p
  | some l =>
      have hLive := (hR.sideRep side).live _ (((b.levels side).mem_entries_iff price l).mpr hFind)
      show p ∈ (l.push p).live
      rw [PriceLevel.live_push hLive.head_le]
      exact List.mem_append_right _ (List.mem_singleton_self p)

/-- A withdrawn order that has not been filled and does not trade at once rests and cannot be
cancelled. -/
theorem Represents.addOrder_of_not_revives {s : BookState k} {F : PriorityBook}
    (hR : Represents s.heap s.book F) {p : OrderPtr} (now : UInt64) (hSubmit : Submittable s p)
    (hNot : ¬ Revives s p) :
    ∃ s', s.addOrder (some p) now = some s' ∧ s'.Rests (s.heap p).orderId ∧
      (s'.cancelOrder (s.heap p).orderId).1 = false := by
  unfold Revives at hNot
  push Not at hNot
  obtain ⟨hStatus, hFilled, hCross⟩ := hNot
  obtain ⟨t, ht⟩ := (s.heap p).stamp_eq now
  have hHeap : (s.stamped p now).heap p = { s.heap p with timestampNs := t } :=
    (stamped_heap_self s p now).trans ht
  have hBook : (s.stamped p now).book = s.book := by rw [stamped_eq]
  -- the state of the call after the index has been written
  let u : BookState k := (s.stamped p now).insertIndex (s.heap p).orderId p
  have hu : u.heap p = { s.heap p with timestampNs := t } := hHeap
  have hLevels : ∀ side, u.book.levels side = s.book.levels side := by
    intro side
    show ((s.stamped p now).insertIndex (s.heap p).orderId p).book.levels side = _
    rw [BookState.insertIndex, hBook, OrderBook.levels_mk]
  have hOpen : (u.heap p).isFilled = false := by
    rw [hu]
    exact Order.not_isFilled_iff.mpr hSubmit.filled_lt
  have hMatch : u.matchOrder p = some (u.settleIncoming p) := by
    refine matchOrder_of_not_crosses ?_
    have hSide := hLevels (s.heap p).side.opposite
    unfold BookState.crosses at hCross ⊢
    rw [hu, hSide]
    simpa using hCross
  have hSettle : u.settleIncoming p = u := by
    unfold BookState.settleIncoming
    rw [if_neg (by simp [hOpen]), if_neg]
    rw [hu]
    exact not_lt.mpr hFilled
  have hCall : s.addOrder (some p) now = some (u.restOrder p) := by
    unfold BookState.addOrder
    simp only [← BookState.stamped.eq_def]
    rw [hHeap]
    show (u.matchOrder p >>= fun s => some (s.restOrder p)) = _
    rw [hMatch, hSettle]
    rfl
  have hType : (u.heap p).type = .LIMIT := by rw [hu, ← hSubmit.type_eq]
  have hRest := BookState.restOrder_of_open rfl hOpen hType
  refine ⟨u.restOrder p, hCall, ⟨p, ?_, ?_⟩, ?_⟩
  · rw [hRest]
    refine OrderBook.mem_livePtrs_iff.mpr ⟨(u.heap p).side, ?_⟩
    dsimp only
    rw [OrderBook.levels_setLevels]
    obtain ⟨l, hl, hp⟩ := hR.mem_upsert_push (u.heap p).side (u.heap p).price p
    rw [hLevels]
    exact ⟨((u.heap p).price, l), hl, hp⟩
  · rw [hRest]
    show (u.heap p).orderId = _
    rw [hu]
  · have hFind : (u.restOrder p).book.orderIndex.find? (s.heap p).orderId = some p := by
      rw [hRest, OrderBook.orderIndex_setLevels]
      exact OrderedMap.find?_upsert_self ..
    have hMark : ((u.restOrder p).heap p).status = .CANCELLED := by
      rw [hRest]
      show (u.heap p).status = _
      rw [hu]
      exact hStatus
    unfold BookState.cancelOrder BookState.cancelResting
    rw [hFind]
    dsimp only
    rw [if_pos (Or.inr hMark)]
    rfl

/-! ## The cancels of a history -/

/-- After a submission the cancels are exact if and only if the order revives. -/
theorem Represents.addOrder_exact_iff {s : BookState k} {F : PriorityBook}
    (hR : Represents s.heap s.book F) {p : OrderPtr} (now : UInt64) (hSubmit : Submittable s p) :
    ∃ s', s.addOrder (some p) now = some s' ∧
      ((∀ id, (s'.cancelOrder id).1 = true ↔ s'.Rests id) ↔ Revives s p) := by
  by_cases hRevives : Revives s p
  · have hAcc := hR.accepts now fun _ => ⟨hSubmit, hRevives⟩
    obtain ⟨s', hCall, hPost⟩ := addOrder_post hR hSubmit.type_eq hAcc
    exact ⟨s', hCall, iff_of_true hPost.represents.cancel_iff hRevives⟩
  · obtain ⟨s', hCall, hRests, hCancel⟩ := hR.addOrder_of_not_revives now hSubmit hRevives
    refine ⟨s', hCall, iff_of_false (fun hExact => ?_) hRevives⟩
    have hTrue := (hExact _).mpr hRests
    rw [hCancel] at hTrue
    cases hTrue

/-- When every submitted order revives, the cancels of a history are exact.  No submission that
leaves them exact is excluded by this. -/
theorem cancelExact {heap : Heap} {buf : TradeRingBuffer k} {cs : List BookCall} {s : BookState k}
    (hHistory : History Revives { heap := heap, book := {}, buf := buf } cs s) :
    s.book.orderCount = s.book.livePtrs.length ∧
    (∀ id, ((s.cancelOrder id).1 = true ↔ s.Rests id) ∧ ¬ (s.cancelOrder id).2.Rests id ∧
      ∀ {cs' : List BookCall} {t : BookState k}, History Revives (s.cancelOrder id).2 cs' t →
        (∀ c ∈ cs', c.added ≠ some id) →
          ¬ t.Rests id ∧ ∀ c ∈ cs', ∀ trade ∈ c.trades, ¬ trade.Names id) ∧
    ∀ p now, Submittable s p → ∃ s', s.addOrder (some p) now = some s' ∧
      ((∀ id, (s'.cancelOrder id).1 = true ↔ s'.Rests id) ↔ Revives s p) := by
  obtain ⟨F, hR⟩ := hHistory.represents (represents_empty heap)
  refine ⟨hR.orderCount_eq_livePtrs, fun id => ?_, fun p now => hR.addOrder_exact_iff now⟩
  refine ⟨hR.cancel_iff id, hR.not_rests_cancel id, fun hLater hAdded => ?_⟩
  exact hLater.not_named (cancelOrder_post hR id).2.1 (hR.not_rests_cancel id) hAdded

/-- An order that has been filled in part is cancelled, submitted again and cancelled again. -/
theorem cancelExact_filled_order :
    ∃ (cs : List BookCall) (s : BookState 4),
      cs.map BookCall.added = [some 1, some 2, none, some 1] ∧ s.Rests 1 ∧
        (s.cancelOrder 1).1 = true ∧ ¬ (s.cancelOrder 1).2.Rests 1 := by
  let heap : Heap := fun p => if p = 0 then
      { orderId := 1, timestampNs := 1, price := 100, quantity := 5 }
    else { orderId := 2, timestampNs := 2, price := 100, quantity := 3, side := .SELL }
  let s₀ : BookState 4 := { heap := heap, book := {} }
  have hSeen : (s₀.addOrder (some 0) 7).any (fun s₁ => (s₁.addOrder (some 1) 7).any fun s₂ =>
      Submittable s₁ 1 ∧ Revives s₁ 1 ∧ Submittable (s₂.cancelOrder 1).2 0 ∧
      Revives (s₂.cancelOrder 1).2 0 ∧ ((s₂.cancelOrder 1).2.addOrder (some 0) 7).any fun s₃ =>
        (s₁.heap 1).orderId = 2 ∧ ((s₂.cancelOrder 1).2.heap 0).orderId = 1 ∧ s₃.Rests 1) =
      true := by decide +kernel
  obtain ⟨s₁, hFirst, hSeen⟩ := (Option.any_eq_true ..).mp hSeen
  obtain ⟨s₂, hSecond, hSeen⟩ := (Option.any_eq_true ..).mp hSeen
  obtain ⟨hSell, hNew, hAgain, hFilled, hSeen⟩ := of_decide_eq_true hSeen
  obtain ⟨s₃, hThird, hSeen⟩ := (Option.any_eq_true ..).mp hSeen
  obtain ⟨hId, hId', hRests⟩ := of_decide_eq_true hSeen
  let cs : List BookCall := [⟨some 1, s₁.trades⟩, ⟨some (s₁.heap 1).orderId, s₂.trades⟩, {},
    ⟨some ((s₂.cancelOrder 1).2.heap 0).orderId, s₃.trades⟩]
  have hHistory : History Revives s₀ cs s₃ :=
    .cons (.addOrder (p := 0) (by decide +kernel) (by decide +kernel) hFirst)
      (.cons (.addOrder hSell hNew hSecond) (.cons (.cancelOrder 1)
        (.cons (.addOrder hAgain hFilled hThird) (.nil _))))
  obtain ⟨-, hCancel, -⟩ := cancelExact hHistory
  refine ⟨cs, s₃, ?_, hRests, (hCancel 1).1.mpr hRests, (hCancel 1).2.1⟩
  simp only [cs, List.map, hId, hId']

/-- An order that is cancelled and submitted again as it is rests, is not found by the next
cancel, and trades afterwards. -/
theorem cancel_misses_resubmitted :
    ∃ (heap : Heap) (c₁ c₂ c₃ : BookCall) (s₁ s₂ s₃ : BookState 4),
      History (fun _ _ => True) { heap := heap, book := {} } [c₁] s₁ ∧ c₁.added = some 1 ∧
      (s₁.cancelOrder 1).1 = true ∧
      History (fun _ _ => True) (s₁.cancelOrder 1).2 [c₂] s₂ ∧ c₂.added = some 1 ∧
      s₂.Rests 1 ∧ s₂.book.orderCount = 1 ∧ (s₂.cancelOrder 1).1 = false ∧
      History (fun _ _ => True) (s₂.cancelOrder 1).2 [c₃] s₃ ∧ c₃.added = some 2 ∧
      ∃ t ∈ c₃.trades, t.Names 1 := by
  let heap : Heap := fun p => if p = 0 then
      { orderId := 1, timestampNs := 1, price := 100, quantity := 5 }
    else { orderId := 2, timestampNs := 2, price := 100, quantity := 3, side := .SELL }
  let s₀ : BookState 4 := { heap := heap, book := {} }
  have hSeen : (s₀.addOrder (some 0) 7).any (fun s₁ =>
      (s₁.cancelOrder 1).1 ∧ Submittable (s₁.cancelOrder 1).2 0 ∧
      ((s₁.cancelOrder 1).2.heap 0).orderId = 1 ∧
      ((s₁.cancelOrder 1).2.addOrder (some 0) 7).any fun s₂ =>
        s₂.Rests 1 ∧ s₂.book.orderCount = 1 ∧ (s₂.cancelOrder 1).1 = false ∧
        Submittable (s₂.cancelOrder 1).2 1 ∧ ((s₂.cancelOrder 1).2.heap 1).orderId = 2 ∧
        ((s₂.cancelOrder 1).2.addOrder (some 1) 7).any fun s₃ => ∃ t ∈ s₃.trades, t.Names 1) =
      true := by decide +kernel
  obtain ⟨s₁, hFirst, hSeen⟩ := (Option.any_eq_true ..).mp hSeen
  obtain ⟨hCancel, hAgain, hId, hSeen⟩ := of_decide_eq_true hSeen
  obtain ⟨s₂, hSecond, hSeen⟩ := (Option.any_eq_true ..).mp hSeen
  obtain ⟨hRests, hCount, hMissed, hSell, hId', hSeen⟩ := of_decide_eq_true hSeen
  obtain ⟨s₃, hThird, hTrade⟩ := (Option.any_eq_true ..).mp hSeen
  exact ⟨heap, _, _, _, s₁, s₂, s₃,
    .cons (.addOrder (by decide +kernel) trivial hFirst) (.nil _), rfl, hCancel,
    .cons (.addOrder hAgain trivial hSecond) (.nil _), congrArg some hId, hRests, hCount, hMissed,
    .cons (.addOrder hSell trivial hThird) (.nil _), congrArg some hId', of_decide_eq_true hTrade⟩

end MatchingMachine
