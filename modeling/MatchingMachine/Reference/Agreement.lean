import MatchingMachine.Reference.ReferenceBook
import MatchingMachine.Refinement.Lockstep

/-!
# The book agrees with the reference book

`Mirrors R F arr` relates the reference book with the priority book: the same orders, under
arrival numbers `arr`, and every queue in price-time priority.  The best order of a side is
then the head of its queue (`best?_eq`), matching one order after the other is the sweep
(`matchIncoming_eq`), and every request keeps the relation.  With `Represents` on the other
side, `observe_eq_reference` follows by induction on the session.
-/

namespace MatchingMachine

variable {k : Nat}

/-- A resting order as the reference book sees it. -/
def Resting.refOrder (arr : OrderPtr → Nat) (r : Resting) : RefOrder where
  orderId := r.order.orderId
  side := r.order.side
  price := r.order.price
  remaining := r.order.remainingQty
  arrival := arr r.ptr

/-- A queue in price-time priority. -/
def InPriority (s : Side) (arr : OrderPtr → Nat) (rs : List Resting) : Prop :=
  rs.Pairwise fun x y => (x.refOrder arr).Precedes s (y.refOrder arr)

structure Mirrors (R : ReferenceBook) (F : PriorityBook) (arr : OrderPtr → Nat) : Prop where
  orders : R.orders.Perm (F.all.map (Resting.refOrder arr))
  inPriority : ∀ s, InPriority s arr (F.side s)
  arrived : ∀ r ∈ F.all, arr r.ptr < R.nextArrival

namespace ReferenceBook

variable {arr : OrderPtr → Nat} {s : Side} {queue own : List Resting} {orders : List RefOrder}

/-- The best order of a side is the first of its queue. -/
theorem best?_eq (hPerm : orders.Perm ((queue ++ own).map (Resting.refOrder arr)))
    (hQueue : ∀ r ∈ queue, r.order.side = s) (hOwn : ∀ r ∈ own, r.order.side ≠ s)
    (hSorted : InPriority s arr queue) :
    best? s orders = queue.head?.map (Resting.refOrder arr) := by
  have hMem : ∀ x, x ∈ orders → x.side = s → ∃ r ∈ queue, r.refOrder arr = x := by
    intro x hx hSide
    obtain ⟨r, hr, rfl⟩ := List.mem_map.mp (hPerm.mem_iff.mp hx)
    rcases List.mem_append.mp hr with hr | hr
    · exact ⟨r, hr, rfl⟩
    · exact absurd hSide (hOwn r hr)
  cases queue with
  | nil =>
      rw [List.head?_nil, Option.map_none, best?, List.find?_eq_none]
      intro x hx hBest
      simp only [Bool.and_eq_true, decide_eq_true_eq] at hBest
      obtain ⟨r, hr, -⟩ := hMem x hx hBest.1
      exact absurd hr (List.not_mem_nil)
  | cons r rs =>
      have hFirst := (List.pairwise_cons.mp hSorted).1
      have hr : r.refOrder arr ∈ orders :=
        hPerm.mem_iff.mpr (List.mem_map_of_mem (List.mem_cons_self ..))
      have hBest : ∀ x ∈ orders, x.side = s → ¬ x.Precedes s (r.refOrder arr) := by
        intro x hx hSide
        obtain ⟨y, hy, rfl⟩ := hMem x hx hSide
        rcases List.mem_cons.mp hy with rfl | hy
        · exact RefOrder.not_precedes_self s _
        · exact (hFirst y hy).asymm
      rw [List.head?_cons, Option.map_some]
      cases hFind : best? s orders with
      | none =>
          rw [best?, List.find?_eq_none] at hFind
          have hSide : (r.refOrder arr).side = s := hQueue r (List.mem_cons_self ..)
          refine absurd ?_ (hFind _ hr)
          simp only [hSide, Bool.and_eq_true, decide_eq_true_eq, List.all_eq_true, true_and]
          exact hBest
      | some o =>
          -- any other order that nothing precedes is preceded by the head
          have ho := List.find?_some hFind
          simp only [Bool.and_eq_true, decide_eq_true_eq, List.all_eq_true] at ho
          obtain ⟨y, hy, rfl⟩ := hMem o (best?_mem hFind) ho.1
          rcases List.mem_cons.mp hy with rfl | hy
          · rfl
          · exact absurd (hFirst y hy)
              (ho.2 _ hr (hQueue r (List.mem_cons_self ..)))

theorem bestPrice_eq {R : ReferenceBook} {F : PriorityBook} (hM : Mirrors R F arr)
    (hF : F.WellFormed) (s : Side) :
    R.bestPrice s = ((F.side s).head?.map fun r => r.order.price).getD 0 := by
  have hBest := best?_eq (hM.orders.trans ((F.all_perm s).map _))
    (fun r hr => (hF.openOrder s r hr).side_eq)
    (fun r hr => by
      rw [(hF.openOrder s.opposite r hr).side_eq]
      exact Side.opposite_ne s) (hM.inPriority s)
  rw [bestPrice, hBest]
  cases (F.side s).head? <;> rfl

/-! ## Matching -/

/-- The report of a trade does not depend on the fields the reference does not have. -/
theorem report_makeTrade (arr : OrderPtr → Nat) (opp : Side) (inc res : Order) (price qty : Int)
    (tradeId : UInt64) {r : Resting} (hId : res.orderId = r.order.orderId) (hPrice : r.order.price = price) :
    (makeTrade opp inc res price qty tradeId).report =
      trade opp.opposite inc.orderId (r.refOrder arr) qty := by
  cases opp <;> simp [makeTrade, Trade.report, trade, Side.opposite, Resting.refOrder, hId, hPrice]

theorem refOrder_trade (r : Resting) (qty : Int) :
    (r.trade qty).refOrder arr =
      { r.refOrder arr with remaining := (r.refOrder arr).remaining - qty } := by
  simp only [Resting.refOrder, Resting.trade, Order.addFilled, Order.remainingQty,
    RefOrder.mk.injEq, true_and, and_true]
  omega

theorem isFilled_iff_remaining {o : Order} : o.isFilled = true ↔ ¬ 0 < o.remainingQty := by
  rw [Order.isFilled_iff, Order.remainingQty]
  omega

theorem remainingQty_addFilled (o : Order) (qty : Int) :
    (o.addFilled qty).remainingQty = o.remainingQty - qty := by
  simp only [Order.remainingQty, Order.addFilled]
  omega

/-- Using up a resting order takes it out, otherwise it stays with what remains of it. -/
theorem consume_perm {r : Resting} {rs : List Resting} (inc : Order)
    (hPerm : orders.Perm ((r :: rs ++ own).map (Resting.refOrder arr))) :
    (consume orders (r.refOrder arr) (matchQty inc r.order)).Perm
      (((if (r.order.addFilled (matchQty inc r.order)).isFilled then rs
        else r.trade (matchQty inc r.order) :: rs) ++ own).map (Resting.refOrder arr)) := by
  have hErase : (orders.erase (r.refOrder arr)).Perm ((rs ++ own).map (Resting.refOrder arr)) := by
    have h := hPerm.erase (r.refOrder arr)
    rwa [List.cons_append, List.map_cons, List.erase_cons_head] at h
  have hUsed : (r.refOrder arr).remaining = matchQty inc r.order ↔
      (r.order.addFilled (matchQty inc r.order)).isFilled = true := by
    have hLe := matchQty_le_resting inc r.order
    change r.order.remainingQty = matchQty inc r.order ↔ _
    rw [isFilled_iff_remaining, remainingQty_addFilled]
    omega
  unfold consume
  by_cases hFull : (r.order.addFilled (matchQty inc r.order)).isFilled = true
  · rwa [if_pos (hUsed.mpr hFull), if_pos hFull]
  · rw [if_neg (hUsed.not.mpr hFull), if_neg hFull, List.cons_append, List.map_cons,
      refOrder_trade]
    exact hErase.cons _

/-- Matching one order after the other is the sweep. -/
theorem matchIncoming_eq {opp : Side} (inc : Order) (tradeId : UInt64)
    (hPerm : orders.Perm ((queue ++ own).map (Resting.refOrder arr)))
    (hQueue : ∀ r ∈ queue, r.order.side = opp) (hOwn : ∀ r ∈ own, r.order.side ≠ opp)
    (hSorted : InPriority opp arr queue) :
    ∃ orders', matchIncoming opp.opposite inc.orderId inc.price inc.remainingQty orders =
        ((sweep opp inc tradeId queue).incoming.remainingQty,
          (sweep opp inc tradeId queue).trades.map Trade.report, orders') ∧
      orders'.Perm
        (((sweep opp inc tradeId queue).rest ++ own).map (Resting.refOrder arr)) := by
  induction queue generalizing inc tradeId orders with
  | nil =>
      have hBest := best?_eq hPerm hQueue hOwn hSorted
      refine ⟨orders, matchIncoming_stop (Or.inr ?_), hPerm⟩
      rw [Side.opposite_opposite, hBest]
      simp
  | cons r rs ih =>
      have hBest := best?_eq hPerm hQueue hOwn hSorted
      rw [List.head?_cons, Option.map_some] at hBest
      by_cases hStop : inc.isFilled = true ∨ opp.before inc.price r.order.price
      · rw [sweep, if_pos hStop]
        refine ⟨orders, matchIncoming_stop ?_, hPerm⟩
        rw [Side.opposite_opposite, hBest]
        refine hStop.imp isFilled_iff_remaining.mp fun hCross o ho => ?_
        obtain rfl : r.refOrder arr = o := by simpa using ho
        exact hCross
      · push Not at hStop
        obtain ⟨hOpen, hCross⟩ := hStop
        have hPos : 0 < inc.remainingQty := by
          by_contra hNeg
          exact hOpen (isFilled_iff_remaining.mpr hNeg)
        have hOpen' : inc.isFilled = false := by simpa using hOpen
        have hTrade := report_makeTrade arr opp (inc.addFilled (matchQty inc r.order))
          (r.order.addFilled (matchQty inc r.order)) r.order.price (matchQty inc r.order)
          (tradeId + 1) (r := r) rfl rfl
        have hPerm' := consume_perm inc hPerm
        have hBest' : best? opp.opposite.opposite orders = some (r.refOrder arr) := by
          rw [Side.opposite_opposite, hBest]
        have hCross' : ¬ opp.opposite.opposite.before inc.price (r.refOrder arr).price := by
          rw [Side.opposite_opposite]
          exact hCross
        have hRound : ∀ rest ts orders', matchIncoming opp.opposite inc.orderId inc.price
              (inc.addFilled (matchQty inc r.order)).remainingQty
              (consume orders (r.refOrder arr) (matchQty inc r.order)) = (rest, ts, orders') →
            matchIncoming opp.opposite inc.orderId inc.price inc.remainingQty orders =
              (rest, trade opp.opposite inc.orderId (r.refOrder arr) (matchQty inc r.order) :: ts,
                orders') := by
          intro rest ts orders' hNext
          rw [remainingQty_addFilled] at hNext
          exact matchIncoming_step hPos hBest' hCross' hNext
        rw [sweep_step tradeId rs hOpen' hCross]
        by_cases hRes : (r.order.addFilled (matchQty inc r.order)).isFilled = true
        · rw [if_pos hRes] at hPerm' ⊢
          obtain ⟨orders', hMatch, hOrders⟩ := ih (inc.addFilled (matchQty inc r.order))
            (tradeId + 1) hPerm' (fun x hx => hQueue x (List.mem_cons_of_mem _ hx))
            (List.pairwise_cons.mp hSorted).2
          refine ⟨orders', (hRound _ _ _ hMatch).trans ?_, hOrders⟩
          rw [SweepResult.prepend, List.map_append, List.map_singleton, hTrade]
          rfl
        · rw [if_neg hRes] at hPerm' ⊢
          -- the incoming order is full, so this match is the last
          have hInc := (isFilled_of_match inc r.order).resolve_right hRes
          have hLast : matchIncoming opp.opposite inc.orderId inc.price
              (inc.addFilled (matchQty inc r.order)).remainingQty
              (consume orders (r.refOrder arr) (matchQty inc r.order)) = (_, [], _) :=
            matchIncoming_stop (Or.inl (isFilled_iff_remaining.mp hInc))
          rw [sweep_stop (Or.inl hInc)]
          refine ⟨_, (hRound _ _ _ hLast).trans ?_, hPerm'⟩
          rw [SweepResult.prepend, List.map_append, List.map_singleton, hTrade]
          rfl

end ReferenceBook

/-! ## Requests -/

namespace InPriority

variable {s : Side} {arr : OrderPtr → Nat} {rs : List Resting}

/-- Priority is a matter of prices and arrival numbers only. -/
theorem iff_key : InPriority s arr rs ↔ (rs.map Resting.key).Pairwise fun a b =>
    s.before a.1 b.1 ∨ a.1 = b.1 ∧ arr a.2 < arr b.2 := by
  rw [List.pairwise_map]
  rfl

theorem congr_arr (h : InPriority s arr rs) {arr' : OrderPtr → Nat}
    (hAgree : ∀ r ∈ rs, arr' r.ptr = arr r.ptr) : InPriority s arr' rs := by
  refine List.Pairwise.imp_of_mem ?_ h
  intro x y hx hy hxy
  simpa only [RefOrder.Precedes, Resting.refOrder, hAgree x hx, hAgree y hy] using hxy

/-- The last arrival queues behind the orders of its price. -/
theorem enqueue (h : InPriority s arr rs) {r : Resting}
    (hLast : ∀ x ∈ rs, arr x.ptr < arr r.ptr) : InPriority s arr (enqueue s r rs) := by
  induction rs with
  | nil => exact List.pairwise_singleton _ _
  | cons x xs ih =>
      obtain ⟨hx, hxs⟩ := List.pairwise_cons.mp h
      rw [MatchingMachine.enqueue]
      split
      · rename_i hLt
        refine List.pairwise_cons.mpr ⟨fun y hy => Or.inl ?_, h⟩
        rcases List.mem_cons.mp hy with rfl | hy
        · exact hLt
        · rcases hx y hy with hxy | ⟨hxy, -⟩
          · exact Side.before_trans hLt hxy
          · have hPrice : x.order.price = y.order.price := hxy
            exact (hPrice ▸ hLt :)
      · rename_i hGe
        refine List.pairwise_cons.mpr
          ⟨fun y hy => ?_, ih hxs fun y hy => hLast y (List.mem_cons_of_mem _ hy)⟩
        rcases List.mem_cons.mp ((enqueue_perm s r xs).mem_iff.mp hy) with rfl | hy
        · exact (Side.not_before_iff.mp hGe).imp id
            fun hEq => ⟨hEq.symm, hLast x (List.mem_cons_self ..)⟩
        · exact hx y hy

end InPriority

namespace Mirrors

variable {R : ReferenceBook} {F : PriorityBook} {arr : OrderPtr → Nat}

theorem empty (n : Nat) : Mirrors { orders := [], nextArrival := n } {} arr where
  orders := List.Perm.refl _
  inPriority s := by cases s <;> exact List.Pairwise.nil
  arrived := by simp [PriorityBook.all]

/-- Both sides of a book, in whichever order they are given. -/
theorem of_sides (s : Side)
    (hOrders : R.orders.Perm ((F.side s ++ F.side s.opposite).map (Resting.refOrder arr)))
    (hSide : InPriority s arr (F.side s)) (hOther : InPriority s.opposite arr (F.side s.opposite))
    (hArrived : ∀ r ∈ F.side s ++ F.side s.opposite, arr r.ptr < R.nextArrival) :
    Mirrors R F arr where
  orders := hOrders.trans ((F.all_perm s).symm.map _)
  inPriority t := by
    cases s <;> cases t <;> assumption
  arrived r hr := hArrived r ((F.all_perm s).mem_iff.mp hr)

theorem id_fresh_iff (hM : Mirrors R F arr) {id : UInt64} :
    (∀ x ∈ R.orders, x.orderId ≠ id) ↔ id ∉ F.ids := by
  have hIds := hM.orders.map RefOrder.orderId
  rw [List.map_map] at hIds
  have hMem : id ∈ R.orders.map RefOrder.orderId ↔ id ∈ F.ids := hIds.mem_iff
  rw [← hMem]
  simp

/-- Deleting an order by its ID. -/
theorem cancel (hM : Mirrors R F arr) (id : UInt64) :
    (R.cancel id).1 = (F.lookup id).isSome ∧ Mirrors (R.cancel id).2 (F.remove id) arr := by
  constructor
  · rw [PriorityBook.lookup, List.isSome_find?, ReferenceBook.cancel, hM.orders.any_eq,
      List.any_map]
    rfl
  · refine { orders := ?_, inPriority := ?_, arrived := ?_ }
    · rw [PriorityBook.all_remove]
      refine (hM.orders.filter _).trans (List.Perm.of_eq ?_)
      rw [List.filter_map]
      rfl
    · intro s
      rw [PriorityBook.side_remove]
      exact (hM.inPriority s).sublist List.filter_sublist
    · intro r hr
      rw [PriorityBook.all_remove] at hr
      exact hM.arrived r (List.mem_filter.mp hr).1

/-- Entering a limit order. -/
theorem add (hM : Mirrors R F arr) (hF : F.WellFormed) {p : OrderPtr} {o : Order}
    (hp : p ∉ F.ptrs) (hFilled : o.filledQty = 0) :
    (R.add o).1 = (F.addLimit p o).trades.map Trade.report ∧
      Mirrors (R.add o).2 (F.addLimit p o).book (Function.update arr p R.nextArrival) := by
  have hNe : o.side ≠ o.side.opposite := (Side.opposite_ne _).symm
  obtain ⟨orders', hMatch, hOrders⟩ := ReferenceBook.matchIncoming_eq o F.lastTradeId
    (hM.orders.trans ((PriorityBook.all_perm_opposite F o.side).map _))
    (fun r hr => (hF.openOrder _ r hr).side_eq)
    (fun r hr => (hF.openOrder _ r hr).side_eq ▸ hNe) (hM.inPriority o.side.opposite)
  have hQuantity : o.remainingQty = o.quantity := by simp [Order.remainingQty, hFilled]
  rw [Side.opposite_opposite, hQuantity] at hMatch
  -- what was there keeps its arrival number
  have hKeepAll : ∀ r ∈ F.all, Function.update arr p R.nextArrival r.ptr = arr r.ptr := by
    intro r hr
    have hNe : r.ptr ≠ p := fun hEq => hp (hEq ▸ List.mem_map_of_mem hr)
    exact Function.update_of_ne hNe _ _
  have hMemSide : ∀ s, ∀ r ∈ F.side s, r ∈ F.all := fun s r hr =>
    PriorityBook.mem_all_iff.mpr ⟨s, hr⟩
  have hRest : ∀ r ∈ (F.sweepOf o).rest, ∃ x ∈ F.all, x.ptr = r.ptr := by
    intro r hr
    obtain ⟨x, hx, hSame⟩ := PriorityBook.exists_of_mem_rest hr
    exact ⟨x, hMemSide _ x hx, hSame.ptr_eq.symm⟩
  have hLater : ∀ r ∈ (F.sweepOf o).rest ++ F.side o.side, ∃ x ∈ F.all, x.ptr = r.ptr := by
    intro r hr
    rcases List.mem_append.mp hr with hr | hr
    · exact hRest r hr
    · exact ⟨r, hMemSide _ r hr, rfl⟩
  have hKeep : ∀ r ∈ (F.sweepOf o).rest ++ F.side o.side,
      Function.update arr p R.nextArrival r.ptr = arr r.ptr := by
    intro r hr
    obtain ⟨x, hx, hEq⟩ := hLater r hr
    exact hEq ▸ hKeepAll x hx
  have hArrived : ∀ r ∈ (F.sweepOf o).rest ++ F.side o.side,
      Function.update arr p R.nextArrival r.ptr < R.nextArrival := by
    intro r hr
    obtain ⟨x, hx, hEq⟩ := hLater r hr
    rw [hKeep r hr, ← hEq]
    exact hM.arrived x hx
  have hRestPriority : InPriority o.side.opposite (Function.update arr p R.nextArrival)
      (F.sweepOf o).rest := by
    have hKeys := map_eq_of_sameOrder (f := Resting.key)
      (fun _ _ h => by rw [Resting.key, Resting.key, h.price_eq, h.ptr_eq])
      (sweep_sameOrder o.side.opposite o F.lastTradeId (F.side o.side.opposite))
    have hAll := InPriority.iff_key.mp (hM.inPriority o.side.opposite)
    rw [← hKeys, ← InPriority.iff_key] at hAll
    have hSub : InPriority o.side.opposite arr (F.sweepOf o).rest :=
      List.Pairwise.sublist (List.sublist_append_right _ _) hAll
    exact hSub.congr_arr fun r hr => hKeep r (List.mem_append_left _ hr)
  have hOwnPriority : InPriority o.side (Function.update arr p R.nextArrival) (F.side o.side) :=
    (hM.inPriority o.side).congr_arr fun r hr => hKeep r (List.mem_append_right _ hr)
  have hPerm : orders'.Perm (((F.sweepOf o).rest ++ F.side o.side).map
      (Resting.refOrder (Function.update arr p R.nextArrival))) := by
    refine hOrders.trans (List.Perm.of_eq (List.map_congr_left fun r hr => ?_))
    rw [Resting.refOrder, Resting.refOrder, hKeep r hr]
  have hDone : (F.doneOf p o).refOrder (Function.update arr p R.nextArrival) =
      { orderId := o.orderId, side := o.side, price := o.price
        remaining := (F.sweepOf o).incoming.remainingQty, arrival := R.nextArrival } := by
    have hSame : SameOrder (F.doneOf p o) ⟨p, o⟩ :=
      sameOrder_settle p o F.lastTradeId (hF.openOrder o.side.opposite)
    have hRemaining : (F.doneOf p o).order.remainingQty =
        (F.sweepOf o).incoming.remainingQty := by
      obtain ⟨status, hStatus⟩ := (F.sweepOf o).incoming.settle_eq
      rw [PriorityBook.doneOf, hStatus]
      rfl
    have hArrival : Function.update arr p R.nextArrival (F.doneOf p o).ptr = R.nextArrival :=
      Function.update_self ..
    rw [Resting.refOrder, hSame.orderId_eq, hSame.side_eq, hSame.price_eq, hRemaining, hArrival]
  unfold ReferenceBook.add
  rw [hMatch]
  dsimp only
  cases hFill : (F.sweepOf o).incoming.isFilled with
  | true =>
      have hNone : ¬ 0 < (F.sweepOf o).incoming.remainingQty :=
        ReferenceBook.isFilled_iff_remaining.mp hFill
      unfold PriorityBook.sweepOf at hNone
      rw [PriorityBook.addLimit_of_filled p hFill, if_neg hNone]
      refine ⟨rfl, Mirrors.of_sides o.side.opposite ?_ ?_ ?_ ?_⟩ <;>
        simp only [Side.opposite_opposite, PriorityBook.side_withId, PriorityBook.side_setSide,
          PriorityBook.side_setSide_of_ne _ hNe]
      · exact hPerm
      · exact hRestPriority
      · exact hOwnPriority
      · exact hArrived
  | false =>
      have hPos : 0 < (F.sweepOf o).incoming.remainingQty := by
        by_contra hNeg
        rw [ReferenceBook.isFilled_iff_remaining.mpr hNeg] at hFill
        exact Bool.noConfusion hFill
      unfold PriorityBook.sweepOf at hPos
      rw [PriorityBook.addLimit_of_open p hFill, if_pos hPos]
      have hJoined : ∀ r ∈ (F.sweepOf o).rest ++ enqueue o.side (F.doneOf p o) (F.side o.side),
          r = F.doneOf p o ∨ r ∈ (F.sweepOf o).rest ++ F.side o.side := by
        intro r hr
        have hMem := ((enqueue_perm o.side (F.doneOf p o) (F.side o.side)).append_left
          (F.sweepOf o).rest).mem_iff.mp hr
        rw [List.perm_middle.mem_iff] at hMem
        exact List.mem_cons.mp hMem
      have hLast : Function.update arr p R.nextArrival (F.doneOf p o).ptr = R.nextArrival :=
        Function.update_self ..
      refine ⟨rfl, Mirrors.of_sides o.side.opposite ?_ ?_ ?_ ?_⟩ <;>
        simp only [Side.opposite_opposite, PriorityBook.side_withId, PriorityBook.side_setSide,
          PriorityBook.side_setSide_of_ne _ hNe.symm]
      · rw [← PriorityBook.sweepOf, ← hDone]
        refine (hPerm.append_right _).trans ?_
        rw [← List.map_singleton, ← List.map_append]
        refine List.Perm.map _ ?_
        rw [List.append_assoc]
        exact (List.perm_append_comm.trans (enqueue_perm _ _ _).symm).append_left _
      · exact hRestPriority
      · refine hOwnPriority.enqueue fun x hx => ?_
        rw [hLast]
        exact hArrived x (List.mem_append_right _ hx)
      · intro r hr
        rcases hJoined r hr with rfl | hr
        · rw [hLast]
          exact Nat.lt_succ_self _
        · exact (hArrived r hr).trans (Nat.lt_succ_self _)

end Mirrors

/-! ## Sessions -/

/-- Entering an order with another timestamp makes no difference to the reference. -/
theorem ReferenceBook.add_stamp (R : ReferenceBook) (o : Order) (now : UInt64) :
    R.add (o.stamp now) = R.add o := by
  unfold Order.stamp
  split <;> rfl

/-- One call: the same result, and the books keep up with each other. -/
theorem perform_eq_reference {s : BookState k} {R : ReferenceBook} {F : PriorityBook}
    {arr : OrderPtr → Nat} (hR : Represents s.heap s.book F) (hM : Mirrors R F arr)
    {r : Request} (hAdmits : R.AdmitsAll [r]) (hFresh : ∀ p ∈ r.ptr?, p ∉ F.ptrs) :
    ∃ response s' F' arr', s.perform r = some (response, s') ∧
      response.map Trade.report = (R.perform r).1 ∧ Represents s'.heap s'.book F' ∧
      Mirrors (R.perform r).2 F' arr' ∧ ∀ q ∈ F'.ptrs, q ∈ r.ptr? ∨ q ∈ F.ptrs := by
  cases r with
  | add p o now =>
      have hAdmits : R.Admits o := hAdmits.1
      have hp : p ∉ F.ptrs := hFresh p rfl
      have hPlace := hR.place hp o
      have hSelf : (s.place p o).heap p = o := s.place_heap_self p o
      obtain ⟨t, ht⟩ := o.stamp_eq now
      -- what the reference asks of an order is what the book asks: the same IDs are live
      have hAdm : F.Admissible p (((s.place p o).heap p).stamp now) := by
        rw [hSelf, ht]
        exact
          { ptr_fresh := hp
            limit := fun _ => ⟨⟨hAdmits.type_eq, hAdmits.status_eq, hAdmits.filled_eq⟩,
              hM.id_fresh_iff.mp hAdmits.id_fresh⟩ }
      have hType : ((s.place p o).heap p).type = .LIMIT := by rw [hSelf, hAdmits.type_eq]
      obtain ⟨s', hAdd, hPost⟩ := addOrder_post hPlace hType hAdm.accepts
      have hSubmit : F.submit p (((s.place p o).heap p).stamp now) = F.addLimit p (o.stamp now) := by
        rw [hSelf, PriorityBook.submit, ht]
        dsimp only
        rw [hAdmits.type_eq]
      have hPtrs := fun q hq => PriorityBook.mem_ptrs_submit hR.wellFormed (p := p) (q := q)
        (o := ((s.place p o).heap p).stamp now) hq
      rw [hSubmit] at hPost hPtrs
      obtain ⟨hTrades, hMirrors⟩ := hM.add hR.wellFormed hp (o := o.stamp now)
        (by rw [ht, hAdmits.filled_eq])
      rw [ReferenceBook.add_stamp] at hTrades hMirrors
      refine ⟨.trades s'.trades, s', _, _, ?_, ?_, hPost.represents, hMirrors, ?_⟩
      · rw [BookState.perform, hAdd]
        rfl
      · rw [Response.map, hPost.trades_eq, ← hTrades]
        rfl
      · intro q hq
        rcases hPtrs q hq with rfl | hq
        · exact Or.inl rfl
        · exact Or.inr hq
  | cancel id =>
      obtain ⟨hFound, hRep, -⟩ := cancelOrder_post hR id
      obtain ⟨hFound', hMirrors⟩ := hM.cancel id
      refine ⟨.cancelled (s.cancelOrder id).1, (s.cancelOrder id).2, _, _, rfl, ?_, hRep, hMirrors,
        fun q hq => Or.inr ?_⟩
      · rw [Response.map, hFound, ← hFound']
        rfl
      · rw [PriorityBook.ptrs, PriorityBook.all_remove] at hq
        exact (List.filter_sublist.map Resting.ptr).subset hq
  | clear =>
      exact ⟨.cleared, s.clear, {}, arr, rfl, rfl, represents_empty _, Mirrors.empty _,
        fun q hq => absurd hq List.not_mem_nil⟩

/-- A session that starts from books that mirror each other. -/
theorem session_eq_reference {s : BookState k} {R : ReferenceBook} {F : PriorityBook}
    {arr : OrderPtr → Nat} (hR : Represents s.heap s.book F) (hM : Mirrors R F arr)
    {requests : List Request} (hAdmits : R.AdmitsAll requests)
    (hObjects : (requests.filterMap Request.ptr?).Nodup)
    (hFresh : ∀ p ∈ requests.filterMap Request.ptr?, p ∉ F.ptrs) :
    (s.session requests).map (fun r => r.1.map (Observation.map Trade.report)) =
      some (R.observe requests) := by
  induction requests generalizing s R F arr with
  | nil => rfl
  | cons r rs ih =>
      have hSplit : R.AdmitsAll [r] ∧ (R.perform r).2.AdmitsAll rs := by
        cases r with
        | add p o now => exact ⟨⟨hAdmits.1, trivial⟩, hAdmits.2⟩
        | cancel id => exact ⟨trivial, hAdmits⟩
        | clear => exact ⟨trivial, hAdmits⟩
      have hHead : ∀ p ∈ r.ptr?, p ∈ (r :: rs).filterMap Request.ptr? := fun p hp =>
        List.mem_filterMap.mpr ⟨r, List.mem_cons_self .., hp⟩
      have hTail : (rs.filterMap Request.ptr?).Sublist ((r :: rs).filterMap Request.ptr?) :=
        (List.sublist_cons_self r rs).filterMap _
      obtain ⟨response, s', F', arr', hPerform, hResponse, hR', hM', hPtrs⟩ :=
        perform_eq_reference hR hM hSplit.1 fun p hp => hFresh p (hHead p hp)
      -- what rests came with this request or rested before, and no object comes twice
      have hFresh' : ∀ p ∈ rs.filterMap Request.ptr?, p ∉ F'.ptrs := by
        intro p hp hMem
        rcases hPtrs p hMem with hr | hF
        · rw [List.filterMap_cons, Option.mem_def.mp hr] at hObjects
          exact (List.nodup_cons.mp hObjects).1 hp
        · exact hFresh p (hTail.subset hp) hF
      have hRest := ih hR' hM' hSplit.2 (hObjects.sublist hTail) hFresh'
      obtain ⟨⟨os, final⟩, hSession, hos⟩ := Option.map_eq_some_iff.mp hRest
      have hBid : s'.book.bestBid = (R.perform r).2.bestPrice .BUY := by
        rw [hR'.bestBid_eq, ReferenceBook.bestPrice_eq hM' hR'.wellFormed]
        rfl
      have hAsk : s'.book.bestAsk = (R.perform r).2.bestPrice .SELL := by
        rw [hR'.bestAsk_eq, ReferenceBook.bestPrice_eq hM' hR'.wellFormed]
        rfl
      have hCount : s'.book.orderCount = (R.perform r).2.orderCount := by
        rw [hR'.orderCount_eq, ReferenceBook.orderCount, hM'.orders.length_eq, List.length_map]
      rw [BookState.session, hPerform, ReferenceBook.observe]
      rcases hNext : R.perform r with ⟨response', R'⟩
      rw [hNext] at hResponse hBid hAsk hCount hos
      dsimp only at hResponse hBid hAsk hCount hos ⊢
      rw [← hResponse, ← hBid, ← hAsk, ← hCount, ← hos]
      simp only [Option.bind_eq_bind, Option.bind_some, hSession]
      rfl

/-- `OrderBook` implements price-time priority: along every session with a new book, in which
each limit order is its own object, new, of positive quantity and with an ID that is not live,
every call terminates and the caller observes exactly what the reference book answers. -/
theorem priceTimePriority (heap : Heap) (requests : List Request)
    (hAdmits : ({} : ReferenceBook).AdmitsAll requests)
    (hObjects : (requests.filterMap Request.ptr?).Nodup) :
    (({ heap := heap, book := {} } : BookState k).session requests).map
        (fun r => r.1.map (Observation.map Trade.report)) =
      some (({} : ReferenceBook).observe requests) :=
  session_eq_reference (represents_empty heap) (Mirrors.empty 0 : Mirrors {} {} fun _ => 0) hAdmits
    hObjects fun _ _ => List.not_mem_nil

/-- Two asks at one price, a cancel of the earlier one, a bid that takes part of the later one
and rests, and a new book. -/
theorem priceTimePriority_short_session :
    (({ heap := fun _ => {}, book := {} } : BookState 4).session
        [.add 0 { orderId := 1, timestampNs := 1, price := 100, quantity := 5, side := .SELL } 7,
          .add 1 { orderId := 2, timestampNs := 2, price := 100, quantity := 3, side := .SELL } 7,
          .cancel 1,
          .add 2 { orderId := 3, timestampNs := 3, price := 101, quantity := 4 } 7,
          .clear]).map (fun r => r.1.map (Observation.map Trade.report)) =
      some [⟨.trades [], 0, 100, 1⟩, ⟨.trades [], 0, 100, 2⟩, ⟨.cancelled true, 0, 100, 1⟩,
        ⟨.trades [⟨3, 2, 100, 3⟩], 101, 0, 1⟩, ⟨.cleared, 0, 0, 0⟩] :=
  (priceTimePriority _ _ (by decide +kernel) (by decide)).trans (by decide +kernel)

end MatchingMachine
