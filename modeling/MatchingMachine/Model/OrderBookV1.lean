import MatchingMachine.Model.Session

/-!
# The original order book

`me_v1::OrderBookV1` from `benchmarks/order_book_v1.h`: a deque per price level, cancels by
`deque::erase`, an index without reserve.  Its mutex guards whole calls and does not appear.
As for the current book, one branch of the matching loop stands for both sides.
-/

namespace MatchingMachine

/-- `std::map` from price to a deque of orders, in the order of a side. -/
abbrev DequeLevels (s : Side) := OrderedMap Int (List OrderPtr) s.before

structure OrderBookV1 where
  bidLevels : DequeLevels .BUY := .empty
  askLevels : DequeLevels .SELL := .empty
  orderIndex : OrderIndex := .empty
  tradeIdCounter : UInt64 := 0

namespace OrderBookV1

def levels (b : OrderBookV1) : (s : Side) → DequeLevels s
  | .BUY => b.bidLevels
  | .SELL => b.askLevels

def setLevels (b : OrderBookV1) : (s : Side) → DequeLevels s → OrderBookV1
  | .BUY, ls => { b with bidLevels := ls }
  | .SELL, ls => { b with askLevels := ls }

def bestBid (b : OrderBookV1) : Int :=
  match b.bidLevels.begin? with
  | none => 0
  | some (price, _) => price

def bestAsk (b : OrderBookV1) : Int :=
  match b.askLevels.begin? with
  | none => 0
  | some (price, _) => price

def orderCount (b : OrderBookV1) : Nat := b.orderIndex.size

def clear (b : OrderBookV1) : OrderBookV1 :=
  { b with bidLevels := .empty, askLevels := .empty, orderIndex := .empty, tradeIdCounter := 0 }

end OrderBookV1

/-- What a call of the original book works on. -/
structure V1State where
  heap : Heap
  book : OrderBookV1
  trades : List Trade := []

namespace V1State

def modifyOrder (s : V1State) (p : OrderPtr) (f : Order → Order) : V1State :=
  { s with heap := s.heap.modify p f }

def setStatus (s : V1State) (p : OrderPtr) (status : OrderStatus) : V1State :=
  s.modifyOrder p fun o => { o with status := status }

def eraseIndex (s : V1State) (id : UInt64) : V1State :=
  { s with book := { s.book with orderIndex := s.book.orderIndex.erase id } }

def insertIndex (s : V1State) (id : UInt64) (p : OrderPtr) : V1State :=
  { s with book := { s.book with orderIndex := s.book.orderIndex.upsert id fun _ => p } }

/-- `levels.begin()->second.pop_front()`. -/
def popFront (s : V1State) (opp : Side) : V1State :=
  { s with book := s.book.setLevels opp ((s.book.levels opp).modifyBegin List.tail) }

def eraseFront (s : V1State) (opp : Side) : V1State :=
  { s with book := s.book.setLevels opp (s.book.levels opp).eraseBegin }

def frontEmpty (s : V1State) (opp : Side) : Bool :=
  match (s.book.levels opp).begin? with
  | none => true
  | some (_, dq) => dq.isEmpty

def frontSize (s : V1State) (opp : Side) : Nat :=
  match (s.book.levels opp).begin? with
  | none => 0
  | some (_, dq) => dq.length

def fill (s : V1State) (opp : Side) (incoming resting : OrderPtr) (price : Int) : V1State :=
  let qty := matchQty (s.heap incoming) (s.heap resting)
  let heap := (s.heap.modify incoming fun o => o.addFilled qty).modify resting
    fun o => o.addFilled qty
  let tradeId := s.book.tradeIdCounter + 1
  { s with
    heap := heap
    book := { s.book with tradeIdCounter := tradeId }
    trades := s.trades ++
      [makeTrade opp (heap incoming) (heap resting) price qty tradeId] }

/-- One round of `while (!incoming->is_filled() && !dq.empty())`. -/
def matchLevelRound (opp : Side) (incoming : OrderPtr) (s : V1State) : ForInStep V1State :=
  match (s.book.levels opp).begin? with
  | none => .done s
  | some (price, dq) =>
      match dq.head? with
      | none => .done s
      | some resting =>
          if (s.heap incoming).isFilled then .done s
          else
            let s := s.fill opp incoming resting price
            if (s.heap resting).isFilled then
              let s := s.setStatus resting .FILLED
              let s := s.eraseIndex (s.heap resting).orderId
              .yield (s.popFront opp)
            else .yield (s.setStatus resting .PARTIAL)

/-- One round of `while (!incoming->is_filled() && !levels.empty())`. -/
def matchRound (opp : Side) (incoming : OrderPtr) (s : V1State) : Option (ForInStep V1State) :=
  match (s.book.levels opp).begin? with
  | none => some (.done s)
  | some (price, _) =>
      if (s.heap incoming).isFilled then some (.done s)
      else if opp.before (s.heap incoming).price price then some (.done s)
      else do
        let s ← loop none (fun s => some (matchLevelRound opp incoming s))
          (s.frontSize opp + 2) s
        return .yield (if s.frontEmpty opp then s.eraseFront opp else s)

def settleIncoming (s : V1State) (incoming : OrderPtr) : V1State :=
  if (s.heap incoming).isFilled then
    (s.setStatus incoming .FILLED).eraseIndex (s.heap incoming).orderId
  else if 0 < (s.heap incoming).filledQty then s.setStatus incoming .PARTIAL
  else s

/-- `OrderBookV1::match`. -/
def matchOrder (incoming : OrderPtr) (s : V1State) : Option V1State := do
  let opp := (s.heap incoming).side.opposite
  let s ← loop none (matchRound opp incoming) ((s.book.levels opp).size + 2) s
  return s.settleIncoming incoming

def restOrder (s : V1State) (order : OrderPtr) : V1State :=
  let o := s.heap order
  if !o.isFilled && decide (o.type = .LIMIT) then
    { s with
      book := s.book.setLevels o.side
        ((s.book.levels o.side).upsert o.price fun dq => dq.getD [] ++ [order]) }
  else s

def stampIncoming (s : V1State) (order : OrderPtr) (now : UInt64) : V1State :=
  if (s.heap order).timestampNs = 0 then
    s.modifyOrder order fun o => { o with timestampNs := now }
  else s

/-- `OrderBookV1::add_order`. -/
def addOrder (order : Option OrderPtr) (now : UInt64) (s : V1State) : Option V1State :=
  let s := { s with trades := [] }
  match order with
  | none => some s
  | some order => do
      let s := s.stampIncoming order now
      let s := s.insertIndex (s.heap order).orderId order
      let s ← s.matchOrder order
      return s.restOrder order

/-- `remove_from_level(levels)`: erase the first order with the ID from the deque. -/
def removeFromLevel (s : V1State) (side : Side) (price : Int) (id : UInt64) : V1State :=
  match (s.book.levels side).find? price with
  | none => s
  | some dq =>
      let dq := dq.eraseP fun p => (s.heap p).orderId = id
      { s with
        book := s.book.setLevels side
          (if dq.isEmpty then (s.book.levels side).erase price
            else (s.book.levels side).upsert price fun _ => dq) }

/-- `OrderBookV1::cancel_order`. -/
def cancelOrder (s : V1State) (orderId : UInt64) : Bool × V1State :=
  match s.book.orderIndex.find? orderId with
  | none => (false, s)
  | some order =>
      if (s.heap order).status = .FILLED ∨ (s.heap order).status = .CANCELLED then (false, s)
      else
        let s := s.setStatus order .CANCELLED
        let s := s.removeFromLevel (s.heap order).side (s.heap order).price orderId
        (true, s.eraseIndex orderId)

def clear (s : V1State) : V1State := { s with book := s.book.clear }

/-! ## Sessions -/

/-- The caller fills in the object at `p`. -/
def place (s : V1State) (p : OrderPtr) (o : Order) : V1State := s.modifyOrder p fun _ => o

def perform (s : V1State) : Request → Option (Response Trade × V1State)
  | .add p o now => do
      let s ← (s.place p o).addOrder (some p) now
      return (.trades s.trades, s)
  | .cancel id =>
      let (found, s) := s.cancelOrder id
      some (.cancelled found, s)
  | .clear => some (.cleared, s.clear)

/-- The observations along a session, and the state it ends in; `none` if a call does not
terminate. -/
def session (s : V1State) : List Request → Option (List (Observation Trade) × V1State)
  | [] => some ([], s)
  | r :: rs => do
      let (response, s) ← s.perform r
      let (os, s') ← s.session rs
      return ({ response := response, bestBid := s.book.bestBid, bestAsk := s.book.bestAsk,
                orderCount := s.book.orderCount } :: os, s')

end V1State

end MatchingMachine
