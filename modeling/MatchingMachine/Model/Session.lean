import MatchingMachine.Model.OrderBook

/-!
# Sessions with a book

A session is a sequence of calls of the public interface, `add_order`, `cancel_order` and
`clear`, together with what its caller observes: the result of each call, and what
`best_bid`, `best_ask` and `order_count` answer after it.

The caller owns the order objects.  A request to add an order names the object's address and
its contents; the caller fills in the object and then makes the call.
-/

namespace MatchingMachine

/-- A call of the book.  `now` is the clock reading the call would use. -/
inductive Request
  | add (p : OrderPtr) (o : Order) (now : UInt64)
  | cancel (id : UInt64)
  | clear

/-- What a call returns, with trades reported as `τ`. -/
inductive Response (τ : Type)
  | trades (ts : List τ)
  | cancelled (found : Bool)
  | cleared
  deriving DecidableEq, Repr

/-- The result of a call, and the book's answers after it. -/
structure Observation (τ : Type) where
  response : Response τ
  bestBid : Int
  bestAsk : Int
  orderCount : Nat
  deriving DecidableEq, Repr

def Response.map {τ τ' : Type} (f : τ → τ') : Response τ → Response τ'
  | .trades ts => .trades (ts.map f)
  | .cancelled found => .cancelled found
  | .cleared => .cleared

def Observation.map {τ τ' : Type} (f : τ → τ') (o : Observation τ) : Observation τ' where
  response := o.response.map f
  bestBid := o.bestBid
  bestAsk := o.bestAsk
  orderCount := o.orderCount

/-- The address of the object a request submits. -/
def Request.ptr? : Request → Option OrderPtr
  | .add p _ _ => some p
  | .cancel _ => none
  | .clear => none

namespace BookState

variable {k : Nat}

/-- The caller fills in the object at `p`. -/
def place (s : BookState k) (p : OrderPtr) (o : Order) : BookState k :=
  s.modifyOrder p fun _ => o

def perform (s : BookState k) : Request → Option (Response Trade × BookState k)
  | .add p o now => do
      let s ← (s.place p o).addOrder (some p) now
      return (.trades s.trades, s)
  | .cancel id =>
      let (found, s) := s.cancelOrder id
      some (.cancelled found, s)
  | .clear => some (.cleared, s.clear)

/-- The observations along a session, and the state it ends in; `none` if a call does not
terminate. -/
def session (s : BookState k) : List Request → Option (List (Observation Trade) × BookState k)
  | [] => some ([], s)
  | r :: rs => do
      let (response, s) ← s.perform r
      let (os, s') ← s.session rs
      return ({ response := response, bestBid := s.book.bestBid, bestAsk := s.book.bestAsk,
                orderCount := s.book.orderCount } :: os, s')

@[simp] theorem place_heap_self (s : BookState k) (p : OrderPtr) (o : Order) :
    (s.place p o).heap p = o := by
  simp [place, modifyOrder]

theorem place_heap_of_ne {p q : OrderPtr} (hNe : q ≠ p) (s : BookState k) (o : Order) :
    (s.place p o).heap q = s.heap q := by
  simp [place, modifyOrder, Heap.modify_of_ne hNe]

end BookState

end MatchingMachine
