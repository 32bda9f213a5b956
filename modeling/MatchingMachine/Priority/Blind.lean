import MatchingMachine.Priority.Requests

/-!
# Addresses and timestamps do not matter

No decision of the priority book looks at the address of an order or at a timestamp.  `blind`
forgets both, on orders, trades, queues, books and outcomes, and every operation commutes with it,
up to `submit_blind`.
-/

namespace MatchingMachine

def Order.untimed (o : Order) : Order := { o with timestampNs := 0 }

def Trade.untimed (t : Trade) : Trade := { t with timestampNs := 0 }

def Resting.blind (r : Resting) : Resting := { ptr := 0, order := r.order.untimed }

def SweepResult.blind (r : SweepResult) : SweepResult where
  incoming := r.incoming.untimed
  tradeId := r.tradeId
  rest := r.rest.map Resting.blind
  trades := r.trades.map Trade.untimed
  filled := r.filled.map Resting.blind
  overflow := r.overflow

def PriorityBook.blind (F : PriorityBook) : PriorityBook where
  bids := F.bids.map Resting.blind
  asks := F.asks.map Resting.blind
  lastTradeId := F.lastTradeId

def Outcome.blind (out : Outcome) : Outcome where
  book := out.book.blind
  trades := out.trades.map Trade.untimed
  returned := out.returned.map Resting.blind
  overflow := out.overflow

@[simp] theorem Order.isFilled_untimed (o : Order) : o.untimed.isFilled = o.isFilled := rfl

theorem Order.settle_untimed (o : Order) : o.untimed.settle = o.settle.untimed := by
  unfold Order.settle
  rw [Order.isFilled_untimed]
  split
  · rfl
  · show (if 0 < o.filledQty then _ else _) = _
    split <;> rfl

theorem SweepResult.blind_prepend (r : SweepResult) (ts : List Trade) (fs : List Resting)
    (ov : Bool) : (r.prepend ts fs ov).blind =
      r.blind.prepend (ts.map Trade.untimed) (fs.map Resting.blind) ov := by
  simp [SweepResult.blind, SweepResult.prepend]

theorem makeTrade_untimed (opp : Side) (inc res : Order) (price qty : Int) (tradeId : UInt64) :
    makeTrade opp inc.untimed res.untimed price qty tradeId =
      (makeTrade opp inc res price qty tradeId).untimed := by
  cases opp <;> rfl

theorem sweep_blind (opp : Side) (inc : Order) (tradeId : UInt64) (rs : List Resting) :
    sweep opp inc.untimed tradeId (rs.map Resting.blind) = (sweep opp inc tradeId rs).blind := by
  induction rs generalizing inc tradeId with
  | nil => rfl
  | cons r rs ih =>
      rw [List.map_cons, sweep, sweep]
      by_cases hStop : inc.isFilled = true ∨ opp.before inc.price r.order.price
      · rw [if_pos hStop]
        exact if_pos hStop
      rw [if_neg hStop]
      refine (if_neg hStop).trans ?_
      have hTrade : makeTrade opp (inc.untimed.addFilled (matchQty inc.untimed r.blind.order))
          (r.blind.order.addFilled (matchQty inc.untimed r.blind.order)) r.blind.order.price
          (matchQty inc.untimed r.blind.order) (tradeId + 1) =
            (makeTrade opp (inc.addFilled (matchQty inc r.order))
              (r.order.addFilled (matchQty inc r.order)) r.order.price (matchQty inc r.order)
              (tradeId + 1)).untimed := makeTrade_untimed ..
      by_cases hFull : (r.order.addFilled (matchQty inc r.order)).isFilled = true
      · rw [if_pos hFull]
        refine (if_pos hFull).trans ?_
        rw [SweepResult.blind_prepend, hTrade]
        have hTail := ih (inc.addFilled (matchQty inc r.order)) (tradeId + 1)
        rw [← hTail]
        rfl
      · rw [if_neg hFull]
        refine (if_neg hFull).trans ?_
        rw [hTrade]
        rfl

theorem enqueue_blind (s : Side) (r : Resting) (rs : List Resting) :
    enqueue s r.blind (rs.map Resting.blind) = (enqueue s r rs).map Resting.blind := by
  induction rs with
  | nil => rfl
  | cons x xs ih =>
      rw [List.map_cons, enqueue, enqueue]
      by_cases hBefore : s.before r.order.price x.order.price
      · rw [if_pos hBefore]
        exact if_pos hBefore
      · rw [if_neg hBefore, List.map_cons, ← ih]
        exact if_neg hBefore

namespace PriorityBook

variable (F : PriorityBook)

theorem side_blind (s : Side) : F.blind.side s = (F.side s).map Resting.blind := by
  cases s <;> rfl

theorem setSide_blind (s : Side) (rs : List Resting) :
    F.blind.setSide s (rs.map Resting.blind) = (F.setSide s rs).blind := by
  cases s <;> rfl

/-- The queue after a limit order that rests. -/
theorem setSide_withId_blind (s : Side) (rs : List Resting) (id : UInt64) :
    { F.blind.setSide s (rs.map Resting.blind) with lastTradeId := id } =
      ({ F.setSide s rs with lastTradeId := id } : PriorityBook).blind := by
  cases s <;> rfl

theorem all_blind : F.blind.all = F.all.map Resting.blind := List.map_append.symm

theorem sweepOf_blind (o : Order) : F.blind.sweepOf o.untimed = (F.sweepOf o).blind := by
  unfold sweepOf
  rw [← sweep_blind, ← side_blind]
  rfl

theorem doneOf_blind (p : OrderPtr) (o : Order) :
    F.blind.doneOf 0 o.untimed = (F.doneOf p o).blind := by
  unfold doneOf
  rw [sweepOf_blind]
  exact congrArg (Resting.mk 0) (Order.settle_untimed _)

theorem addLimit_blind (p : OrderPtr) (o : Order) :
    F.blind.addLimit 0 o.untimed = (F.addLimit p o).blind := by
  have hSweep := F.sweepOf_blind o
  have hDone := F.doneOf_blind p o
  cases hFill : (F.sweepOf o).incoming.isFilled with
  | true =>
      have hFill' : (F.blind.sweepOf o.untimed).incoming.isFilled = true := by
        rw [hSweep]
        exact hFill
      rw [addLimit_of_filled p hFill, addLimit_of_filled 0 hFill', hSweep, hDone]
      simp only [SweepResult.blind, Outcome.blind, List.map_append, List.map_cons, List.map_nil]
      rw [← setSide_withId_blind]
      rfl
  | false =>
      have hFill' : (F.blind.sweepOf o.untimed).incoming.isFilled = false := by
        rw [hSweep]
        exact hFill
      rw [addLimit_of_open p hFill, addLimit_of_open 0 hFill', hSweep, hDone, side_blind,
        show o.untimed.side = o.side from rfl, enqueue_blind]
      simp only [SweepResult.blind, Outcome.blind]
      rw [← setSide_blind, ← setSide_withId_blind]

theorem lookup_blind (id : UInt64) : F.blind.lookup id = (F.lookup id).map Resting.blind := by
  unfold lookup
  rw [all_blind, List.find?_map]
  rfl

theorem remove_blind (id : UInt64) : F.blind.remove id = (F.remove id).blind := by
  unfold remove blind
  simp only [List.filter_map]
  rfl

theorem cancelRequest_blind (p : OrderPtr) (o : Order) :
    F.blind.cancelRequest 0 o.untimed = (F.cancelRequest p o).blind := by
  unfold cancelRequest
  rw [show o.untimed.orderId = o.orderId from rfl, lookup_blind, remove_blind]
  cases F.lookup o.orderId <;> rfl

/-- A request on the book without addresses and timestamps has the outcome without them. -/
theorem submit_blind (p : OrderPtr) (o : Order) :
    F.blind.submit 0 o.untimed = (F.submit p o).blind := by
  unfold submit
  rw [show o.untimed.type = o.type from rfl]
  cases o.type with
  | LIMIT => exact F.addLimit_blind p o
  | CANCEL => exact F.cancelRequest_blind p o

end PriorityBook

end MatchingMachine
