import MatchingMachine.Lib.Interaction
import MatchingMachine.Lib.OrderedMap
import MatchingMachine.Model.PriceLevel
import MatchingMachine.Model.TradeRingBuffer

/-!
# The order book

`OrderBook` with its two entry points.  `addOrder` is the path that returns a vector of
trades; `addOrderNoalloc` writes them into a trade buffer and hands finished orders to a
deallocator.  The two matching loops are kept apart, as they are in the source.

A matching loop has a buy and a sell branch that differ only in the level map they take
orders from, in the direction of the price test and in which identifier is the buyer's.  The
model has one branch, for the side `opp` the resting orders are on:

* the levels are `levels opp`, ordered by `opp.before`;
* `incoming->price < ask_price` and `incoming->price > bid_price` are both
  `opp.before incoming.price price`;
* `makeTrade` puts the two identifiers in their places.

The deallocator runs code of the caller in the middle of a call, so `addOrderNoalloc` is an
`Interaction` whose calls are the deallocator's.  Loops carry a bound on their rounds; an
exhausted bound is `none` or `stuck` and never the result of a call.
-/

namespace MatchingMachine

/-- `std::map` from price to level, in the order of a side. -/
abbrev Levels (s : Side) := OrderedMap Int PriceLevel s.before

/-- `absl::flat_hash_map` from order ID to order; its iteration order is never observed. -/
abbrev OrderIndex := OrderedMap UInt64 OrderPtr (· < ·)

structure OrderBook where
  bidLevels : Levels .BUY := .empty
  askLevels : Levels .SELL := .empty
  orderIndex : OrderIndex := .empty
  tradeIdCounter : UInt64 := 0

namespace OrderBook

/-- The level map of a side. -/
def levels (b : OrderBook) : (s : Side) → Levels s
  | .BUY => b.bidLevels
  | .SELL => b.askLevels

def setLevels (b : OrderBook) : (s : Side) → Levels s → OrderBook
  | .BUY, ls => { b with bidLevels := ls }
  | .SELL, ls => { b with askLevels := ls }

@[simp] theorem levels_setLevels (b : OrderBook) (s : Side) (ls : Levels s) :
    (b.setLevels s ls).levels s = ls := by
  cases s <;> rfl

theorem levels_setLevels_of_ne (b : OrderBook) {s t : Side} (h : t ≠ s) (ls : Levels s) :
    (b.setLevels s ls).levels t = b.levels t := by
  cases s <;> cases t <;> first | rfl | exact absurd rfl h

@[simp] theorem setLevels_levels (b : OrderBook) (s : Side) :
    b.setLevels s (b.levels s) = b := by
  cases s <;> rfl

@[simp] theorem orderIndex_setLevels (b : OrderBook) (s : Side) (ls : Levels s) :
    (b.setLevels s ls).orderIndex = b.orderIndex := by
  cases s <;> rfl

@[simp] theorem tradeIdCounter_setLevels (b : OrderBook) (s : Side) (ls : Levels s) :
    (b.setLevels s ls).tradeIdCounter = b.tradeIdCounter := by
  cases s <;> rfl

/-- The levels do not depend on the index and the counter. -/
@[simp] theorem levels_mk (b : OrderBook) (i : OrderIndex) (c : UInt64) (s : Side) :
    (OrderBook.mk b.bidLevels b.askLevels i c).levels s = b.levels s := by
  cases s <;> rfl

def bestBid (b : OrderBook) : Int :=
  match b.bidLevels.begin? with
  | none => 0
  | some (price, _) => price

def bestAsk (b : OrderBook) : Int :=
  match b.askLevels.begin? with
  | none => 0
  | some (price, _) => price

def orderCount (b : OrderBook) : Nat := b.orderIndex.size

def clear (b : OrderBook) : OrderBook :=
  { b with bidLevels := .empty, askLevels := .empty, orderIndex := .empty, tradeIdCounter := 0 }

end OrderBook

/-- What a call works on: the orders in memory, the book and the caller's trade buffer of
capacity `2 ^ k`.  `trades` are the trades of the current call, in order, and `overflow` is
set once a signed operation on quantities has left its range; no branch reads it. -/
structure BookState (k : Nat) where
  heap : Heap
  book : OrderBook
  buf : TradeRingBuffer k := {}
  trades : List Trade := []
  overflow : Bool := false

/-! ## The statements the matching loops are made of -/

/-- `std::min(incoming->remaining_qty(), resting->remaining_qty())`. -/
def matchQty (incoming resting : Order) : Int := min incoming.remainingQty resting.remainingQty

/-- `filled_qty += qty`. -/
def Order.addFilled (o : Order) (qty : Int) : Order := { o with filledQty := o.filledQty + qty }

@[simp] theorem Order.addFilled_zero (o : Order) : o.addFilled 0 = o := by
  simp [Order.addFilled]

theorem Order.addFilled_addFilled (o : Order) (a b : Int) :
    (o.addFilled a).addFilled b = o.addFilled (a + b) := by
  simp [Order.addFilled, Int.add_assoc]

/-- One of the four signed operations of a match leaves the range of `int64_t`. -/
def fillOverflows (incoming resting : Order) : Bool :=
  let qty := matchQty incoming resting
  !(fitsInt64 incoming.remainingQty && fitsInt64 resting.remainingQty &&
    fitsInt64 (incoming.filledQty + qty) && fitsInt64 (resting.filledQty + qty))

/-- The trade record.  `opp` is the side of the resting order. -/
def makeTrade (opp : Side) (incoming resting : Order) (price qty : Int) (tradeId : UInt64) :
    Trade where
  tradeId := tradeId
  timestampNs := incoming.timestampNs
  buyOrderId := match opp with
    | .SELL => incoming.orderId
    | .BUY => resting.orderId
  sellOrderId := match opp with
    | .SELL => resting.orderId
    | .BUY => incoming.orderId
  price := price
  quantity := qty
  symbol := incoming.symbol

namespace BookState

variable {k : Nat}

def modifyOrder (s : BookState k) (p : OrderPtr) (f : Order → Order) : BookState k :=
  { s with heap := s.heap.modify p f }

def setStatus (s : BookState k) (p : OrderPtr) (status : OrderStatus) : BookState k :=
  s.modifyOrder p fun o => { o with status := status }

/-- `order_index_.erase(id)`. -/
def eraseIndex (s : BookState k) (id : UInt64) : BookState k :=
  { s with book := { s.book with orderIndex := s.book.orderIndex.erase id } }

/-- `order_index_[id] = p`. -/
def insertIndex (s : BookState k) (id : UInt64) (p : OrderPtr) : BookState k :=
  { s with book := { s.book with orderIndex := s.book.orderIndex.upsert id fun _ => p } }

/-- Update `levels.begin()->second`. -/
def modifyFront (s : BookState k) (opp : Side) (f : PriceLevel → PriceLevel) : BookState k :=
  { s with book := s.book.setLevels opp ((s.book.levels opp).modifyBegin f) }

/-- `levels.erase(levels.begin())`. -/
def eraseFront (s : BookState k) (opp : Side) : BookState k :=
  { s with book := s.book.setLevels opp (s.book.levels opp).eraseBegin }

/-- `levels.begin()->second.empty()`. -/
def frontEmpty (s : BookState k) (opp : Side) : Bool :=
  match (s.book.levels opp).begin? with
  | none => true
  | some (_, level) => level.empty

/-- `levels.begin()->second.size()`. -/
def frontSize (s : BookState k) (opp : Side) : Nat :=
  match (s.book.levels opp).begin? with
  | none => 0
  | some (_, level) => level.size

/-- One match of the incoming with a resting order: the quantities, the next trade ID and
the trade record. -/
def fill (s : BookState k) (opp : Side) (incoming resting : OrderPtr) (price : Int) :
    BookState k × Trade :=
  let qty := matchQty (s.heap incoming) (s.heap resting)
  let heap := (s.heap.modify incoming fun o => o.addFilled qty).modify resting
    fun o => o.addFilled qty
  let tradeId := s.book.tradeIdCounter + 1
  let t := makeTrade opp (heap incoming) (heap resting) price qty tradeId
  ({ s with
      heap := heap
      book := { s.book with tradeIdCounter := tradeId }
      trades := s.trades ++ [t]
      overflow := s.overflow || fillOverflows (s.heap incoming) (s.heap resting) }, t)

/-- The status of the incoming order after the loop. -/
def settleIncoming (s : BookState k) (incoming : OrderPtr) : BookState k :=
  if (s.heap incoming).isFilled then
    (s.setStatus incoming .FILLED).eraseIndex (s.heap incoming).orderId
  else if 0 < (s.heap incoming).filledQty then s.setStatus incoming .PARTIAL
  else s

/-- What is left of a limit order joins the level of its price. -/
def restOrder (s : BookState k) (order : OrderPtr) : BookState k :=
  let o := s.heap order
  if !o.isFilled && decide (o.type = .LIMIT) then
    { s with
      book := s.book.setLevels o.side
        ((s.book.levels o.side).upsert o.price fun level => (level.getD {}).push order) }
  else s

/-- A zero timestamp is replaced by a clock reading. -/
def stampIncoming (s : BookState k) (order : OrderPtr) (now : UInt64) : BookState k :=
  if (s.heap order).timestampNs = 0 then
    s.modifyOrder order fun o => { o with timestampNs := now }
  else s

/-! ## Cancelling -/

/-- `remove_from_level(levels)`. -/
def removeFromLevel (s : BookState k) (side : Side) (price : Int) (id : UInt64) :
    BookState k :=
  match (s.book.levels side).find? price with
  | none => s
  | some level =>
      let level := level.removeId s.heap id
      { s with
        book := s.book.setLevels side
          (if level.empty then (s.book.levels side).erase price
            else (s.book.levels side).upsert price fun _ => level) }

/-- Remove a resting order and return it, or `none` when there is none. -/
def cancelResting (s : BookState k) (orderId : UInt64) : Option OrderPtr × BookState k :=
  match s.book.orderIndex.find? orderId with
  | none => (none, s)
  | some order =>
      if (s.heap order).status = .FILLED ∨ (s.heap order).status = .CANCELLED then (none, s)
      else
        let s := s.setStatus order .CANCELLED
        let s := s.removeFromLevel (s.heap order).side (s.heap order).price orderId
        (some order, s.eraseIndex orderId)

def cancelOrder (s : BookState k) (orderId : UInt64) : Bool × BookState k :=
  let (cancelled, s) := s.cancelResting orderId
  (cancelled.isSome, s)

def clear (s : BookState k) : BookState k := { s with book := s.book.clear }

/-! ## The path that returns a vector -/

/-- One round of `while (!incoming->is_filled() && !level.empty())` in `match`. -/
def matchLevelRound (opp : Side) (incoming : OrderPtr) (s : BookState k) :
    ForInStep (BookState k) :=
  match (s.book.levels opp).begin? with
  | none => .done s
  | some (price, level) =>
      if (s.heap incoming).isFilled || level.empty then .done s
      else
        match level.front with
        | none => .yield (s.modifyFront opp PriceLevel.popFront)
        | some resting =>
            let s := (s.fill opp incoming resting price).1
            if (s.heap resting).isFilled then
              let s := s.setStatus resting .FILLED
              let s := s.eraseIndex (s.heap resting).orderId
              .yield (s.modifyFront opp PriceLevel.popFront)
            else .yield (s.setStatus resting .PARTIAL)

/-- One round of `while (!incoming->is_filled() && !levels.empty())` in `match`. -/
def matchRound (opp : Side) (incoming : OrderPtr) (s : BookState k) :
    Option (ForInStep (BookState k)) :=
  match (s.book.levels opp).begin? with
  | none => some (.done s)
  | some (price, _) =>
      if (s.heap incoming).isFilled then some (.done s)
      else if opp.before (s.heap incoming).price price then some (.done s)
      else
        let s := s.modifyFront opp PriceLevel.dropHoles
        if s.frontEmpty opp then some (.yield (s.eraseFront opp))
        else do
          let s ← loop none (fun s => some (matchLevelRound opp incoming s))
            (s.frontSize opp + 2) s
          return .yield (if s.frontEmpty opp then s.eraseFront opp else s)

/-- `OrderBook::match`. -/
def matchOrder (incoming : OrderPtr) (s : BookState k) : Option (BookState k) := do
  let opp := (s.heap incoming).side.opposite
  let s ← loop none (matchRound opp incoming) ((s.book.levels opp).size + 2) s
  return s.settleIncoming incoming

/-- `OrderBook::add_order`; the returned vector is `trades` of the result. -/
def addOrder (order : Option OrderPtr) (now : UInt64) (s : BookState k) :
    Option (BookState k) :=
  let s := { s with trades := [] }
  match order with
  | none => some s
  | some order => do
      let s := s.stampIncoming order now
      let s := s.insertIndex (s.heap order).orderId order
      let s ← s.matchOrder order
      return s.restOrder order

/-! ## The allocation-free path -/

/-- A program of the book that may call the deallocator. -/
abbrev BookProgram (k : Nat) := Interaction OrderPtr (BookState k)

/-- `deallocator(p)`. -/
def deallocator (p : OrderPtr) (s : BookState k) :
    BookProgram k (BookState k) :=
  .call p s .ret

/-- `Trade& t = trade_buf.alloc_slot();` and the assignments to its fields. -/
def writeTrade (s : BookState k) (t : Trade) :
    BookState k :=
  let (slot, buf) := s.buf.allocSlot
  { s with buf := buf.setSlot slot t }

/-- One round of `while (!incoming->is_filled() && !level.empty())` in `match_noalloc`. -/
def matchLevelRoundNoalloc (opp : Side) (incoming : OrderPtr)
    (s : BookState k) :
    BookProgram k (ForInStep (BookState k)) :=
  match (s.book.levels opp).begin? with
  | none => .ret (.done s)
  | some (price, level) =>
      if (s.heap incoming).isFilled || level.empty then .ret (.done s)
      else
        match level.front with
        | none => .ret (.yield (s.modifyFront opp PriceLevel.popFront))
        | some resting =>
            let (s, t) := s.fill opp incoming resting price
            let s := s.writeTrade t
            if (s.heap resting).isFilled then do
              let s := s.setStatus resting .FILLED
              let s := s.eraseIndex (s.heap resting).orderId
              let s := s.modifyFront opp PriceLevel.popFront
              let s ← deallocator resting s
              return .yield s
            else .ret (.yield (s.setStatus resting .PARTIAL))

/-- One round of `while (!incoming->is_filled() && !levels.empty())` in `match_noalloc`. -/
def matchRoundNoalloc (opp : Side) (incoming : OrderPtr) (s : BookState k) :
    BookProgram k (ForInStep (BookState k)) :=
  match (s.book.levels opp).begin? with
  | none => .ret (.done s)
  | some (price, _) =>
      if (s.heap incoming).isFilled then .ret (.done s)
      else if opp.before (s.heap incoming).price price then .ret (.done s)
      else
        let s := s.modifyFront opp PriceLevel.dropHoles
        if s.frontEmpty opp then .ret (.yield (s.eraseFront opp))
        else do
          let s ← loop .stuck (matchLevelRoundNoalloc opp incoming) (s.frontSize opp + 2) s
          return .yield (if s.frontEmpty opp then s.eraseFront opp else s)

/-- `OrderBook::match_noalloc`. -/
def matchNoalloc (incoming : OrderPtr) (s : BookState k) :
    BookProgram k (BookState k) := do
  let opp := (s.heap incoming).side.opposite
  let s ← loop .stuck (matchRoundNoalloc opp incoming) ((s.book.levels opp).size + 2) s
  return s.settleIncoming incoming

/-- `OrderBook::add_order_noalloc`. -/
def addOrderNoalloc (order : Option OrderPtr) (now : UInt64)
    (s : BookState k) : BookProgram k (BookState k) :=
  let s := { s with trades := [] }
  match order with
  | none => .ret s
  | some order =>
      let s := s.stampIncoming order now
      if (s.heap order).type = .CANCEL then do
        let (cancelled, s) := s.cancelResting (s.heap order).orderId
        let s ← match cancelled with
          | none => .ret s
          | some c => deallocator c s
        deallocator order s
      else do
        let s := s.insertIndex (s.heap order).orderId order
        let s ← s.matchNoalloc order
        let s := s.restOrder order
        if (s.heap order).isFilled then deallocator order s else .ret s

end BookState

end MatchingMachine
