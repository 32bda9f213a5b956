import MatchingMachine.Model.OrderBook

/-!
# The priority book

What an order book is for: two queues of open orders in price-time priority.  A
`PriorityBook` has no levels, cursors, holes or index; each side is one list, best order
first, and an entry carries the contents of its order next to the address it lives at.

* `sweep` matches an incoming order along the opposite side;
* `addLimit` and `cancel` are the two requests, and `Outcome` is everything a request
  produces: trades, the orders that are finished with their final contents, the next book;
* `WellFormed` is the invariant of the abstract book, kept by both requests.

The faithful book refines this one in `Refinement`.
-/

namespace MatchingMachine

/-- An open order and the address of its object. -/
structure Resting where
  ptr : OrderPtr
  order : Order
  deriving DecidableEq

/-- The two queues, best order first, and the last trade ID given out. -/
structure PriorityBook where
  bids : List Resting := []
  asks : List Resting := []
  lastTradeId : UInt64 := 0
  deriving DecidableEq

namespace PriorityBook

def side (F : PriorityBook) : Side → List Resting
  | .BUY => F.bids
  | .SELL => F.asks

def setSide (F : PriorityBook) : Side → List Resting → PriorityBook
  | .BUY, rs => { F with bids := rs }
  | .SELL, rs => { F with asks := rs }

/-- All open orders. -/
def all (F : PriorityBook) : List Resting := F.bids ++ F.asks

/-- The addresses of the open orders. -/
def ptrs (F : PriorityBook) : List OrderPtr := F.all.map Resting.ptr

/-- The IDs of the open orders. -/
def ids (F : PriorityBook) : List UInt64 := F.all.map fun r => r.order.orderId

@[simp] theorem side_setSide (F : PriorityBook) (s : Side) (rs : List Resting) :
    (F.setSide s rs).side s = rs := by
  cases s <;> rfl

theorem side_setSide_of_ne (F : PriorityBook) {s t : Side} (h : t ≠ s) (rs : List Resting) :
    (F.setSide s rs).side t = F.side t := by
  cases s <;> cases t <;> first | rfl | exact absurd rfl h

@[simp] theorem lastTradeId_setSide (F : PriorityBook) (s : Side) (rs : List Resting) :
    (F.setSide s rs).lastTradeId = F.lastTradeId := by
  cases s <;> rfl

@[simp] theorem side_withId (F : PriorityBook) (id : UInt64) (s : Side) :
    ({ F with lastTradeId := id }).side s = F.side s := by
  cases s <;> rfl

/-- Both sides, in whichever order they are taken. -/
theorem all_perm (F : PriorityBook) (s : Side) :
    F.all.Perm (F.side s ++ F.side s.opposite) := by
  cases s with
  | BUY => exact List.Perm.refl _
  | SELL => exact List.perm_append_comm

theorem mem_all_iff {F : PriorityBook} {r : Resting} : r ∈ F.all ↔ ∃ s, r ∈ F.side s := by
  constructor
  · intro h
    rcases List.mem_append.mp h with h | h
    · exact ⟨.BUY, h⟩
    · exact ⟨.SELL, h⟩
  · rintro ⟨s, h⟩
    cases s with
    | BUY => exact List.mem_append_left _ h
    | SELL => exact List.mem_append_right _ h

end PriorityBook

/-! ## Matching along the opposite side -/

/-- What a sweep leaves and what it has produced. -/
structure SweepResult where
  incoming : Order
  tradeId : UInt64
  rest : List Resting
  trades : List Trade := []
  filled : List Resting := []
  overflow : Bool := false

namespace SweepResult

/-- Put earlier trades and finished orders in front. -/
def prepend (ts : List Trade) (fs : List Resting) (ov : Bool) (r : SweepResult) :
    SweepResult :=
  { r with trades := ts ++ r.trades, filled := fs ++ r.filled, overflow := ov || r.overflow }

@[simp] theorem prepend_prepend (ts ts' : List Trade) (fs fs' : List Resting) (ov ov' : Bool)
    (r : SweepResult) :
    (r.prepend ts fs ov).prepend ts' fs' ov' =
      r.prepend (ts' ++ ts) (fs' ++ fs) (ov' || ov) := by
  simp [prepend, Bool.or_assoc]

end SweepResult

/-- The resting order after trading `qty` with an incoming one. -/
def Resting.trade (r : Resting) (qty : Int) : Resting :=
  { r with order :=
      { r.order.addFilled qty with
        status := if (r.order.addFilled qty).isFilled then .FILLED else .PARTIAL } }

/-- Match an incoming order along a queue: trade with the front order at that order's
price as long as the incoming order is open and the price crosses. -/
def sweep (opp : Side) (inc : Order) (tradeId : UInt64) : List Resting → SweepResult
  | [] => { incoming := inc, tradeId := tradeId, rest := [] }
  | r :: rs =>
      if inc.isFilled ∨ opp.before inc.price r.order.price then
        { incoming := inc, tradeId := tradeId, rest := r :: rs }
      else
        let qty := matchQty inc r.order
        let t := makeTrade opp (inc.addFilled qty) (r.order.addFilled qty) r.order.price qty
          (tradeId + 1)
        let ov := fillOverflows inc r.order
        if (r.order.addFilled qty).isFilled then
          (sweep opp (inc.addFilled qty) (tradeId + 1) rs).prepend [t] [r.trade qty] ov
        else
          { incoming := inc.addFilled qty, tradeId := tradeId + 1, rest := r.trade qty :: rs,
            trades := [t], overflow := ov }

/-- An incoming order's contents once its sweep is over. -/
def Order.settle (o : Order) : Order :=
  if o.isFilled then { o with status := .FILLED }
  else if 0 < o.filledQty then { o with status := .PARTIAL }
  else o

/-! ## Requests -/

/-- Everything a request produces. -/
structure Outcome where
  book : PriorityBook
  trades : List Trade := []
  returned : List Resting := []
  overflow : Bool := false

/-- Join a queue behind every order whose price is at least as good. -/
def enqueue (s : Side) (r : Resting) : List Resting → List Resting
  | [] => [r]
  | x :: xs =>
      if s.before r.order.price x.order.price then r :: x :: xs else x :: enqueue s r xs

namespace PriorityBook

/-- Enter a limit order: sweep the opposite side, then rest what is left. -/
def addLimit (F : PriorityBook) (p : OrderPtr) (o : Order) : Outcome :=
  let opp := o.side.opposite
  let r := sweep opp o F.lastTradeId (F.side opp)
  let G := { F.setSide opp r.rest with lastTradeId := r.tradeId }
  let done : Resting := { ptr := p, order := r.incoming.settle }
  if r.incoming.isFilled then
    { book := G, trades := r.trades, returned := r.filled ++ [done], overflow := r.overflow }
  else
    { book := G.setSide o.side (enqueue o.side done (G.side o.side)), trades := r.trades,
      returned := r.filled, overflow := r.overflow }

/-- The open order with an ID. -/
def lookup (F : PriorityBook) (id : UInt64) : Option Resting :=
  F.all.find? fun r => r.order.orderId = id

/-- A cancelled order's final contents. -/
def cancelled (r : Resting) : Resting := { r with order := { r.order with status := .CANCELLED } }

/-- Take the order with an ID out of the book. -/
def remove (F : PriorityBook) (id : UInt64) : PriorityBook :=
  { F with
    bids := F.bids.filter fun r => r.order.orderId ≠ id
    asks := F.asks.filter fun r => r.order.orderId ≠ id }

/-- A cancel request that lives at `p` with contents `o`. -/
def cancelRequest (F : PriorityBook) (p : OrderPtr) (o : Order) : Outcome :=
  { book := F.remove o.orderId
    returned := ((F.lookup o.orderId).map cancelled).toList ++ [{ ptr := p, order := o }] }

/-- Any request. -/
def submit (F : PriorityBook) (p : OrderPtr) (o : Order) : Outcome :=
  match o.type with
  | .LIMIT => F.addLimit p o
  | .CANCEL => F.cancelRequest p o

end PriorityBook

/-! ## The invariant -/

/-- An order that may rest on a side. -/
structure OpenOrder (s : Side) (o : Order) : Prop where
  side_eq : o.side = s
  type_eq : o.type = .LIMIT
  filled_nonneg : 0 ≤ o.filledQty
  filled_lt : o.filledQty < o.quantity
  status_eq : o.status = if 0 < o.filledQty then .PARTIAL else .NEW

/-- A limit order as it enters: new, and not yet filled in part. -/
structure FreshLimit (o : Order) : Prop where
  type_eq : o.type = .LIMIT
  status_eq : o.status = .NEW
  filled_eq : o.filledQty = 0

/-- A queue in price order. -/
def Prioritised (s : Side) (rs : List Resting) : Prop :=
  rs.Pairwise fun x y => ¬ s.before y.order.price x.order.price

structure PriorityBook.WellFormed (F : PriorityBook) : Prop where
  openOrder : ∀ s, ∀ r ∈ F.side s, OpenOrder s r.order
  prioritised : ∀ s, Prioritised s (F.side s)
  ids_nodup : F.ids.Nodup
  ptrs_nodup : F.ptrs.Nodup
  uncrossed : ∀ b ∈ F.bids, ∀ a ∈ F.asks, b.order.price < a.order.price

end MatchingMachine
