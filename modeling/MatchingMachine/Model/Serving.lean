import MatchingMachine.Model.Session

/-!
# Serving a stream of requests

The other way a book is used: a stream of order objects, limit orders and cancel requests,
enters through either entry path.

* `Entry` is the path a request takes; the allocation-free one comes with the deallocator the
  caller passes;
* `serve` is one call, `serveAll` a stream of them, with a `Call` for each that says what
  went in and what came out.

On the path that returns a vector a cancel request is a call of `cancel_order` with its ID.
-/

namespace MatchingMachine

open Interaction

/-- An order object handed to the book: its address, its contents as it enters, and the clock
reading the call would use. -/
structure Submission where
  ptr : OrderPtr
  order : Order
  now : UInt64

/-- A deallocator: what it does to the memory when it is handed `p` after the calls `log`. -/
abbrev Deallocator (k : Nat) := List OrderPtr → OrderPtr → BookState k → BookState k

/-- A deallocator that leaves the orders alone. -/
def Deallocator.inert (k : Nat) : Deallocator k := fun _ _ s => s

/-- A deallocator that overwrites the order it is handed, as a pool does that gives the slot
out again. -/
def Deallocator.overwriting {k : Nat} (junk : List OrderPtr → OrderPtr → Order) :
    Deallocator k := fun log p s => s.place p (junk log p)

/-- The path a request takes. -/
inductive Entry (k : Nat)
  | vector
  | noalloc (deallocator : Deallocator k)

/-- The path has a deallocator. -/
def Entry.isNoalloc {k : Nat} : Entry k → Bool
  | .vector => false
  | .noalloc _ => true

/-- What a call gives back: for a cancel whether an order was found, the orders handed to the
deallocator, and the state after the call. -/
structure Reply (k : Nat) where
  found : Bool := false
  returned : List OrderPtr := []
  state : BookState k

/-- One served request.  The trades of a call are those of its final state. -/
structure Call (k : Nat) where
  request : Submission
  before : BookState k
  found : Bool
  trades : List Trade
  returned : List OrderPtr
  after : BookState k

namespace BookState

variable {k : Nat}

/-- Serve one request.  On the allocation-free path a cancel has found an order if the
deallocator is handed that order next to the request. -/
def serve (s : BookState k) (entry : Entry k) (x : Submission) : Option (Reply k) :=
  let s := s.place x.ptr x.order
  match entry, x.order.type with
  | .noalloc deallocator, type =>
      (run deallocator [] (s.addOrderNoalloc (some x.ptr) x.now)).map fun (log, s) =>
        { found := decide (type = .CANCEL) && decide (log.length = 2), returned := log, state := s }
  | .vector, .LIMIT => (s.addOrder (some x.ptr) x.now).map fun s => { state := s }
  | .vector, .CANCEL =>
      let (found, s) := s.cancelOrder x.order.orderId
      some { found := found, state := { s with trades := [] } }

/-- The record of a call. -/
def callOf (s : BookState k) (x : Submission) (reply : Reply k) : Call k where
  request := x
  before := s.place x.ptr x.order
  found := reply.found
  trades := reply.state.trades
  returned := reply.returned
  after := reply.state

/-- Serve a stream; the request in front takes the entry path `entries 0`. -/
def serveAll (s : BookState k) (entries : Nat → Entry k) :
    List Submission → Option (List (Call k) × BookState k)
  | [] => some ([], s)
  | x :: xs => do
      let reply ← s.serve (entries 0) x
      let (calls, final) ← reply.state.serveAll (fun n => entries (n + 1)) xs
      return (s.callOf x reply :: calls, final)

end BookState

/-- The trades of a run, in order. -/
def Call.allTrades {k : Nat} (calls : List (Call k)) : List Trade := calls.flatMap Call.trades

end MatchingMachine
