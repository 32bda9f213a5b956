import MatchingMachine.Priority.Sweep

/-!
# Requests on the priority book

A request neither loses nor duplicates an order (`submit_conserves`): the orders it returns
and the orders left in the book are the orders that were in the book and the one submitted.
From this and the facts about a sweep, every admissible request keeps the book well formed
(`submit_wellFormed`).
-/

namespace MatchingMachine

/-! ## Settling and queueing -/

theorem Order.settle_eq (o : Order) : ∃ status, o.settle = { o with status := status } := by
  unfold Order.settle
  split
  · exact ⟨_, rfl⟩
  · split
    · exact ⟨_, rfl⟩
    · exact ⟨o.status, rfl⟩

theorem Order.isFilled_settle (o : Order) : o.settle.isFilled = o.isFilled := by
  obtain ⟨status, h⟩ := o.settle_eq
  rw [h]
  rfl

/-- The incoming order after its sweep is the order that was submitted. -/
theorem sameOrder_settle {opp : Side} (p : OrderPtr) (inc : Order) (tradeId : UInt64)
    {rs : List Resting} (hrs : ∀ r ∈ rs, OpenOrder opp r.order) :
    SameOrder { ptr := p, order := (sweep opp inc tradeId rs).incoming.settle }
      { ptr := p, order := inc } := by
  obtain ⟨qty, -, hEq, -⟩ := sweep_incoming inc tradeId hrs
  obtain ⟨status, hStatus⟩ := (sweep opp inc tradeId rs).incoming.settle_eq
  refine ⟨rfl, inc.filledQty + qty, status, ?_⟩
  rw [hStatus, hEq]
  rfl

/-- A limit order that is not full after its sweep is open, if it was new or has been filled. -/
theorem openOrder_settle {opp : Side} {inc : Order} {tradeId : UInt64} {rs : List Resting}
    (hType : inc.type = .LIMIT) (hNonneg : 0 ≤ inc.filledQty)
    (hStatus : (sweep opp inc tradeId rs).incoming.filledQty = 0 → inc.status = .NEW)
    (hrs : ∀ r ∈ rs, OpenOrder opp r.order)
    (hOpen : (sweep opp inc tradeId rs).incoming.isFilled = false) :
    OpenOrder inc.side (sweep opp inc tradeId rs).incoming.settle := by
  obtain ⟨qty, hQty, hEq, -⟩ := sweep_incoming inc tradeId hrs
  rw [hEq] at hOpen hStatus ⊢
  have hLt := Order.not_isFilled_iff.mp hOpen
  simp only [Order.addFilled] at hLt hStatus
  unfold Order.settle
  rw [if_neg (by simp [hOpen])]
  split
  · rename_i hPos
    exact ⟨rfl, hType, hPos.le, hLt, by simp [hPos]⟩
  · rename_i hPos
    refine ⟨rfl, hType, ?_, hLt, ?_⟩
    · simp only [Order.addFilled]
      omega
    · rw [if_neg hPos]
      simp only [Order.addFilled] at hPos
      exact hStatus (by omega)

theorem enqueue_perm (s : Side) (r : Resting) (rs : List Resting) :
    (enqueue s r rs).Perm (r :: rs) := by
  induction rs with
  | nil => exact List.Perm.refl _
  | cons x xs ih =>
      rw [enqueue]
      split
      · exact List.Perm.refl _
      · exact (ih.cons x).trans (List.Perm.swap r x xs)

/-- Joining a queue keeps it in price order. -/
theorem Prioritised.enqueue {s : Side} {rs : List Resting} (h : Prioritised s rs)
    (r : Resting) : Prioritised s (enqueue s r rs) := by
  induction rs with
  | nil => exact List.pairwise_singleton _ _
  | cons x xs ih =>
      obtain ⟨hx, hxs⟩ := List.pairwise_cons.mp h
      rw [MatchingMachine.enqueue]
      split
      · rename_i hLt
        refine List.pairwise_cons.mpr ⟨fun y hy hBack => ?_, h⟩
        exact Side.before_irrefl s _ (Side.before_trans (h.before_of_before hLt y hy) hBack)
      · rename_i hGe
        refine List.pairwise_cons.mpr ⟨fun y hy => ?_, ih hxs⟩
        rcases List.mem_cons.mp ((enqueue_perm s r xs).mem_iff.mp hy) with rfl | hy
        · exact hGe
        · exact hx y hy

/-- An order joins behind the orders of its price or better and before the others. -/
theorem enqueue_append {s : Side} {r : Resting} {front back : List Resting}
    (hFront : ∀ x ∈ front, ¬ s.before r.order.price x.order.price)
    (hBack : ∀ x ∈ back.head?, s.before r.order.price x.order.price) :
    enqueue s r (front ++ back) = front ++ r :: back := by
  induction front with
  | nil =>
      cases back with
      | nil => rfl
      | cons x xs => simp [enqueue, hBack x rfl]
  | cons x xs ih =>
      rw [List.cons_append, enqueue, if_neg (hFront x (List.mem_cons_self ..)),
        ih fun y hy => hFront y (List.mem_cons_of_mem _ hy)]
      rfl

/-! ## Conservation -/

namespace PriorityBook

/-- The sweep of an incoming limit order. -/
def sweepOf (F : PriorityBook) (o : Order) : SweepResult :=
  sweep o.side.opposite o F.lastTradeId (F.side o.side.opposite)

/-- The incoming order after its sweep. -/
def doneOf (F : PriorityBook) (p : OrderPtr) (o : Order) : Resting :=
  { ptr := p, order := (F.sweepOf o).incoming.settle }

theorem addLimit_of_filled {F : PriorityBook} {o : Order} (p : OrderPtr)
    (h : (F.sweepOf o).incoming.isFilled = true) :
    F.addLimit p o =
      { book := { F.setSide o.side.opposite (F.sweepOf o).rest with
          lastTradeId := (F.sweepOf o).tradeId }
        trades := (F.sweepOf o).trades
        returned := (F.sweepOf o).filled ++ [F.doneOf p o]
        overflow := (F.sweepOf o).overflow } := by
  unfold sweepOf at h
  simp [addLimit, sweepOf, doneOf, h]

theorem addLimit_of_open {F : PriorityBook} {o : Order} (p : OrderPtr)
    (h : (F.sweepOf o).incoming.isFilled = false) :
    F.addLimit p o =
      { book := ({ F.setSide o.side.opposite (F.sweepOf o).rest with
          lastTradeId := (F.sweepOf o).tradeId }).setSide o.side
            (enqueue o.side (F.doneOf p o) (F.side o.side))
        trades := (F.sweepOf o).trades
        returned := (F.sweepOf o).filled
        overflow := (F.sweepOf o).overflow } := by
  unfold sweepOf at h
  have hNe : o.side ≠ o.side.opposite := (Side.opposite_ne _).symm
  simp [addLimit, sweepOf, doneOf, h, side_setSide_of_ne _ hNe]

theorem all_perm_opposite (F : PriorityBook) (s : Side) :
    F.all.Perm (F.side s.opposite ++ F.side s) := by
  simpa using F.all_perm s.opposite

/-- Returned and remaining orders of a limit order, listed along the sweep. -/
theorem addLimit_perm (F : PriorityBook) (p : OrderPtr) (o : Order) :
    ((F.addLimit p o).returned ++ (F.addLimit p o).book.all).Perm
      (F.doneOf p o :: ((F.sweepOf o).filled ++ (F.sweepOf o).rest ++ F.side o.side)) := by
  have hNe : o.side ≠ o.side.opposite := (Side.opposite_ne _).symm
  cases hFill : (F.sweepOf o).incoming.isFilled with
  | true =>
      rw [addLimit_of_filled p hFill]
      refine ((all_perm_opposite _ o.side).append_left _).trans ?_
      simp only [side_withId, side_setSide, side_setSide_of_ne _ hNe, List.append_assoc,
        List.cons_append, List.nil_append]
      exact List.perm_middle
  | false =>
      rw [addLimit_of_open p hFill]
      refine ((all_perm_opposite _ o.side).append_left _).trans ?_
      simp only [side_setSide, side_setSide_of_ne _ hNe.symm, side_withId]
      refine (((enqueue_perm _ _ _).append_left _).append_left _).trans ?_
      rw [← List.append_assoc]
      exact List.perm_middle

/-- A limit order neither loses nor duplicates an order. -/
theorem addLimit_conserves {F : PriorityBook} {p : OrderPtr} {o : Order}
    (hF : ∀ s, ∀ r ∈ F.side s, OpenOrder s r.order) {α : Type} {f : Resting → α}
    (hf : ∀ r' r, SameOrder r' r → f r' = f r) :
    (((F.addLimit p o).returned ++ (F.addLimit p o).book.all).map f).Perm
      (f { ptr := p, order := o } :: F.all.map f) := by
  have hSweep : List.Forall₂ SameOrder ((F.sweepOf o).filled ++ (F.sweepOf o).rest)
      (F.side o.side.opposite) := sweep_sameOrder _ o _ _
  have hDone : SameOrder (F.doneOf p o) { ptr := p, order := o } :=
    sameOrder_settle p o _ (hF o.side.opposite)
  refine ((F.addLimit_perm p o).map f).trans ?_
  rw [List.map_cons, List.map_append, map_eq_of_sameOrder hf hSweep, ← List.map_append,
    hf _ _ hDone]
  exact ((all_perm_opposite F o.side).symm.map f).cons _

/-- Taking out the order with an ID. -/
theorem all_remove (F : PriorityBook) (id : UInt64) :
    (F.remove id).all = F.all.filter fun r => r.order.orderId ≠ id := by
  simp [remove, all]

theorem side_remove (F : PriorityBook) (id : UInt64) (s : Side) :
    (F.remove id).side s = (F.side s).filter fun r => r.order.orderId ≠ id := by
  cases s <;> rfl

theorem lookup_eq_none_iff {F : PriorityBook} {id : UInt64} : F.lookup id = none ↔ id ∉ F.ids := by
  simp [lookup, ids]

theorem lookup_eq_some {F : PriorityBook} {id : UInt64} {r : Resting}
    (h : F.lookup id = some r) : r ∈ F.all ∧ r.order.orderId = id := by
  refine ⟨List.mem_of_find?_eq_some h, ?_⟩
  simpa using List.find?_some h

theorem remove_of_lookup_none {F : PriorityBook} {id : UInt64} (h : F.lookup id = none) :
    F.remove id = F := by
  have hKeep : ∀ s, (F.side s).filter (fun r => r.order.orderId ≠ id) = F.side s := by
    intro s
    rw [List.filter_eq_self]
    intro r hr
    rw [lookup_eq_none_iff] at h
    have hNe : r.order.orderId ≠ id := by
      rintro rfl
      exact h (List.mem_map_of_mem (mem_all_iff.mpr ⟨s, hr⟩))
    simpa using hNe
  have hBids := hKeep .BUY
  have hAsks := hKeep .SELL
  simp only [side] at hBids hAsks
  rw [remove, hBids, hAsks]

/-- With distinct IDs, removing an order takes out exactly it. -/
theorem all_perm_remove {F : PriorityBook} (hIds : F.ids.Nodup) {id : UInt64} {r : Resting}
    (h : F.lookup id = some r) : F.all.Perm (r :: (F.remove id).all) := by
  obtain ⟨hMem, rfl⟩ := lookup_eq_some h
  rw [all_remove]
  obtain ⟨front, back, hAll⟩ := List.append_of_mem hMem
  rw [ids, hAll] at hIds
  simp only [List.map_append, List.map_cons, List.nodup_append, List.nodup_cons,
    List.mem_map, List.mem_cons] at hIds
  obtain ⟨-, ⟨hBack, -⟩, hFront⟩ := hIds
  have hf : front.filter (fun x => x.order.orderId ≠ r.order.orderId) = front := by
    rw [List.filter_eq_self]
    intro x hx
    simpa using hFront _ ⟨x, hx, rfl⟩ _ (Or.inl rfl)
  have hb : back.filter (fun x => x.order.orderId ≠ r.order.orderId) = back := by
    rw [List.filter_eq_self]
    intro x hx
    simpa using fun hEq => hBack ⟨x, hx, hEq⟩
  have hr : List.filter (fun x : Resting => decide (x.order.orderId ≠ r.order.orderId))
      (r :: back) = back := by
    rw [List.filter_cons_of_neg (by simp), hb]
  rw [hAll, List.filter_append, hf, hr]
  exact List.perm_middle

theorem sameOrder_cancelled (r : Resting) : SameOrder (cancelled r) r := ⟨rfl, _, _, rfl⟩

/-- A cancel request neither loses nor duplicates an order. -/
theorem cancelRequest_conserves {F : PriorityBook} {p : OrderPtr} {o : Order}
    (hIds : F.ids.Nodup) {α : Type} {f : Resting → α}
    (hf : ∀ r' r, SameOrder r' r → f r' = f r) :
    (((F.cancelRequest p o).returned ++ (F.cancelRequest p o).book.all).map f).Perm
      (f { ptr := p, order := o } :: F.all.map f) := by
  unfold cancelRequest
  cases hLook : F.lookup o.orderId with
  | none => simp [remove_of_lookup_none hLook]
  | some r =>
      simp only [Option.map_some, Option.toList_some, List.cons_append, List.nil_append,
        List.map_cons, hf _ _ (sameOrder_cancelled r)]
      exact (List.Perm.swap _ _ _).trans (((all_perm_remove hIds hLook).symm.map f).cons _)

/-! ## Well-formed books -/

theorem wellFormed_empty : ({} : PriorityBook).WellFormed where
  openOrder := by intro s; cases s <;> simp [side]
  prioritised := by intro s; cases s <;> exact List.Pairwise.nil
  ids_nodup := List.nodup_nil
  ptrs_nodup := List.nodup_nil
  uncrossed := by simp

/-- A request the book may be given: an object that does not rest in it, and for a limit
order a fresh one whose ID is not live. -/
structure Admissible (F : PriorityBook) (p : OrderPtr) (o : Order) : Prop where
  ptr_fresh : p ∉ F.ptrs
  limit : o.type = .LIMIT → FreshLimit o ∧ o.orderId ∉ F.ids

/-- A limit order that leaves no trace of an earlier life: it was new, or it is filled in part
by the end of its sweep. -/
structure MayRest (F : PriorityBook) (o : Order) : Prop where
  type_eq : o.type = .LIMIT
  filled_nonneg : 0 ≤ o.filledQty
  status_eq : (F.sweepOf o).incoming.filledQty = 0 → o.status = .NEW

/-- A request the book can deal with.  Its limit order need not be fresh. -/
structure Accepts (F : PriorityBook) (p : OrderPtr) (o : Order) : Prop where
  ptr_fresh : p ∉ F.ptrs
  limit : o.type = .LIMIT → F.MayRest o ∧ o.orderId ∉ F.ids

theorem mayRest_of_fresh (F : PriorityBook) {o : Order} (h : FreshLimit o) : F.MayRest o where
  type_eq := h.type_eq
  filled_nonneg := h.filled_eq.ge
  status_eq _ := h.status_eq

theorem Admissible.accepts {F : PriorityBook} {p : OrderPtr} {o : Order} (h : F.Admissible p o) :
    F.Accepts p o where
  ptr_fresh := h.ptr_fresh
  limit hType := ⟨F.mayRest_of_fresh (h.limit hType).1, (h.limit hType).2⟩

/-- A request neither loses nor duplicates an order. -/
theorem submit_conserves {F : PriorityBook} (hF : F.WellFormed) (p : OrderPtr) (o : Order)
    {α : Type} {f : Resting → α} (hf : ∀ r' r, SameOrder r' r → f r' = f r) :
    (((F.submit p o).returned ++ (F.submit p o).book.all).map f).Perm
      (f { ptr := p, order := o } :: F.all.map f) := by
  unfold submit
  cases o.type with
  | LIMIT => exact addLimit_conserves hF.openOrder hf
  | CANCEL => exact cancelRequest_conserves hF.ids_nodup hf

theorem submit_ptrs_perm {F : PriorityBook} (hF : F.WellFormed) (p : OrderPtr) (o : Order) :
    ((F.submit p o).returned.map Resting.ptr ++ (F.submit p o).book.ptrs).Perm
      (p :: F.ptrs) := by
  have h := submit_conserves hF p o (f := Resting.ptr) fun _ _ h => h.ptr_eq
  rwa [List.map_append] at h

/-- A request leaves no address in the book but its own and those that were there. -/
theorem mem_ptrs_submit {F : PriorityBook} (hF : F.WellFormed) {p q : OrderPtr} {o : Order}
    (h : q ∈ (F.submit p o).book.ptrs) : q = p ∨ q ∈ F.ptrs :=
  List.mem_cons.mp ((submit_ptrs_perm hF p o).mem_iff.mp (List.mem_append_right _ h))

/-- Nothing is uncrossed by taking orders away. -/
theorem WellFormed.of_sublist {F G : PriorityBook} (hF : F.WellFormed)
    (h : ∀ s, (G.side s).Sublist (F.side s)) : G.WellFormed := by
  have hAll : G.all.Sublist F.all := (h .BUY).append (h .SELL)
  exact
    { openOrder := fun s r hr => hF.openOrder s r ((h s).subset hr)
      prioritised := fun s => (hF.prioritised s).sublist (h s)
      ids_nodup := hF.ids_nodup.sublist (hAll.map _)
      ptrs_nodup := hF.ptrs_nodup.sublist (hAll.map _)
      uncrossed := fun b hb a ha =>
        hF.uncrossed b ((h .BUY).subset hb) a ((h .SELL).subset ha) }

theorem wellFormed_remove {F : PriorityBook} (hF : F.WellFormed) (id : UInt64) :
    (F.remove id).WellFormed :=
  hF.of_sublist fun s => by
    rw [side_remove]
    exact List.filter_sublist

/-- Prices tell whether a queue is in order. -/
theorem prioritised_iff {s : Side} {rs : List Resting} :
    Prioritised s rs ↔
      (rs.map fun r => r.order.price).Pairwise fun x y => ¬ s.before y x := by
  rw [Prioritised, List.pairwise_map]

theorem sweepOf_rest_prioritised {F : PriorityBook} (hF : F.WellFormed) (o : Order) :
    Prioritised o.side.opposite (F.sweepOf o).rest := by
  have hPrices := map_eq_of_sameOrder (f := fun r => r.order.price)
    (fun _ _ h => h.price_eq) (sweep_sameOrder o.side.opposite o F.lastTradeId
      (F.side o.side.opposite))
  have hAll := prioritised_iff.mp (hF.prioritised o.side.opposite)
  rw [← hPrices, ← prioritised_iff] at hAll
  exact List.Pairwise.sublist (List.sublist_append_right _ _) hAll

/-- Every order a sweep leaves or finishes was in the queue. -/
theorem exists_of_mem_rest {F : PriorityBook} {o : Order} {r : Resting}
    (h : r ∈ (F.sweepOf o).rest) : ∃ x ∈ F.side o.side.opposite, SameOrder r x :=
  exists_of_forall₂ (sweep_sameOrder o.side.opposite o F.lastTradeId (F.side o.side.opposite))
    (List.mem_append_right _ h)

theorem exists_of_mem_filled {F : PriorityBook} {o : Order} {r : Resting}
    (h : r ∈ (F.sweepOf o).filled) : ∃ x ∈ F.side o.side.opposite, SameOrder r x :=
  exists_of_forall₂ (sweep_sameOrder o.side.opposite o F.lastTradeId (F.side o.side.opposite))
    (List.mem_append_left _ h)

/-- The uncrossed condition, seen from either side. -/
theorem uncrossed_of_sides {F : PriorityBook} (s : Side)
    (h : ∀ x ∈ F.side s, ∀ y ∈ F.side s.opposite,
      s.opposite.before x.order.price y.order.price) :
    ∀ b ∈ F.bids, ∀ a ∈ F.asks, b.order.price < a.order.price := by
  intro b hb a ha
  cases s with
  | BUY => exact h b hb a ha
  | SELL => exact h a ha b hb

theorem WellFormed.before_of_mem {F : PriorityBook} (hF : F.WellFormed) {s : Side}
    {x y : Resting} (hx : x ∈ F.side s) (hy : y ∈ F.side s.opposite) :
    s.opposite.before x.order.price y.order.price := by
  cases s with
  | BUY => exact hF.uncrossed x hx y hy
  | SELL => exact hF.uncrossed y hy x hx

theorem addLimit_wellFormed {F : PriorityBook} (hF : F.WellFormed) {p : OrderPtr} {o : Order}
    (hp : p ∉ F.ptrs) (hMay : F.MayRest o) (hId : o.orderId ∉ F.ids) :
    (F.addLimit p o).book.WellFormed := by
  have hNe : o.side ≠ o.side.opposite := (Side.opposite_ne _).symm
  have hRest := sweepOf_rest_prioritised hF o
  have hOpen := sweep_open o F.lastTradeId (hF.openOrder o.side.opposite)
  have hIds := addLimit_conserves (p := p) (o := o) hF.openOrder
    (f := fun r => r.order.orderId) fun _ _ h => h.orderId_eq
  have hPtrs := addLimit_conserves (p := p) (o := o) hF.openOrder
    (f := Resting.ptr) fun _ _ h => h.ptr_eq
  rw [List.map_append] at hIds hPtrs
  have hIdsNodup := (hIds.nodup_iff.mpr (List.nodup_cons.mpr ⟨hId, hF.ids_nodup⟩)).of_append_right
  have hPtrsNodup := (hPtrs.nodup_iff.mpr (List.nodup_cons.mpr ⟨hp, hF.ptrs_nodup⟩)).of_append_right
  -- the opposite queue is what the sweep left; the own one may have gained the order
  have hOpp : (F.addLimit p o).book.side o.side.opposite = (F.sweepOf o).rest := by
    cases hFill : (F.sweepOf o).incoming.isFilled with
    | true => simp [addLimit_of_filled p hFill]
    | false => simp [addLimit_of_open p hFill, side_setSide_of_ne _ hNe.symm]
  have hOwn : (F.addLimit p o).book.side o.side = F.side o.side ∨
      (F.sweepOf o).incoming.isFilled = false ∧
        (F.addLimit p o).book.side o.side =
          enqueue o.side (F.doneOf p o) (F.side o.side) := by
    cases hFill : (F.sweepOf o).incoming.isFilled with
    | true => exact Or.inl (by simp [addLimit_of_filled p hFill, side_setSide_of_ne _ hNe])
    | false => exact Or.inr ⟨rfl, by simp [addLimit_of_open p hFill]⟩
  have hOwnOpen : ∀ r ∈ (F.addLimit p o).book.side o.side, OpenOrder o.side r.order := by
    intro r hr
    rcases hOwn with hOwn | ⟨hFill, hOwn⟩
    · exact hF.openOrder _ r (hOwn ▸ hr)
    · rw [hOwn] at hr
      rcases List.mem_cons.mp ((enqueue_perm _ _ _).mem_iff.mp hr) with rfl | hr
      · exact openOrder_settle hMay.type_eq hMay.filled_nonneg hMay.status_eq (hF.openOrder _) hFill
      · exact hF.openOrder _ r hr
  have hOwnPrioritised : Prioritised o.side ((F.addLimit p o).book.side o.side) := by
    rcases hOwn with hOwn | ⟨-, hOwn⟩
    · exact hOwn ▸ hF.prioritised _
    · exact hOwn ▸ (hF.prioritised _).enqueue _
  have hSides : ∀ s, s = o.side ∨ s = o.side.opposite := by
    intro s
    cases s <;> cases o.side <;> simp [Side.opposite]
  refine ⟨?_, ?_, hIdsNodup, hPtrsNodup, uncrossed_of_sides o.side ?_⟩
  · intro s r hr
    rcases hSides s with rfl | rfl
    · exact hOwnOpen r hr
    · exact hOpen r (hOpp ▸ hr)
  · intro s
    rcases hSides s with rfl | rfl
    · exact hOwnPrioritised
    · exact hOpp ▸ hRest
  · intro x hx y hy
    rw [hOpp] at hy
    obtain ⟨y', hy', hSameY⟩ := exists_of_mem_rest hy
    have hPrice := hSameY.price_eq.symm
    rcases hOwn with hOwn | ⟨hFill, hOwn⟩
    · exact hPrice ▸ hF.before_of_mem (hOwn ▸ hx) hy'
    · rw [hOwn] at hx
      rcases List.mem_cons.mp ((enqueue_perm _ _ _).mem_iff.mp hx) with rfl | hx
      · have hExit := (sweep_exit o F.lastTradeId
          (hF.prioritised o.side.opposite)).resolve_left (by simpa [sweepOf] using hFill) y hy
        have hSame := (sameOrder_settle p o F.lastTradeId
          (hF.openOrder o.side.opposite)).price_eq
        exact hSame ▸ hExit
      · exact hPrice ▸ hF.before_of_mem hx hy'

/-- Every request the book can deal with keeps it well formed. -/
theorem submit_wellFormed {F : PriorityBook} (hF : F.WellFormed) {p : OrderPtr} {o : Order}
    (h : F.Accepts p o) : (F.submit p o).book.WellFormed := by
  unfold submit
  cases hType : o.type with
  | LIMIT => exact addLimit_wellFormed hF h.ptr_fresh (h.limit hType).1 (h.limit hType).2
  | CANCEL => exact wellFormed_remove hF o.orderId

end PriorityBook

end MatchingMachine
