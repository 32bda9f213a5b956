import MatchingMachine.Model.OrderBook

/-!
# The single-threaded mode of the engine

`MatchingEngine::add_symbol`, `submit` and `get_order_book`: one book per symbol in `books_`, a
map from strings to books.  A string is the list of its bytes, and the map a function.

The orders of all symbols are in one memory.  A call of a book works on that memory and on its
book; the trade buffer belongs to the pipeline and is not used here.
-/

namespace MatchingMachine

/-- A `std::string`. -/
abbrev Symbol := List UInt8

/-- `std::string(order->symbol, strnlen(order->symbol, 8))`. -/
def Order.symbolKey (o : Order) : Symbol := o.symbol.toList.takeWhile fun c => c ≠ 0

structure SingleThreaded where
  heap : Heap
  books : Symbol → Option OrderBook := fun _ => none
  totalTrades : Nat := 0

namespace SingleThreaded

/-- What a call of a book works on. -/
def bookState (e : SingleThreaded) (book : OrderBook) : BookState 0 :=
  { heap := e.heap, book := book }

/-- The memory and the book of a symbol after a call. -/
def store (e : SingleThreaded) (key : Symbol) (s : BookState 0) : SingleThreaded :=
  { e with heap := s.heap, books := Function.update e.books key (some s.book) }

def addSymbol (e : SingleThreaded) (symbol : Symbol) : SingleThreaded :=
  match e.books symbol with
  | some _ => e
  | none => { e with books := Function.update e.books symbol (some {}) }

/-- Creates the symbol's book on first use. -/
def submit (e : SingleThreaded) (order : OrderPtr) (now : UInt64) :
    Option (List Trade × SingleThreaded) :=
  let key := (e.heap order).symbolKey
  let e := match e.books key with
    | some _ => e
    | none => { e with books := Function.update e.books key (some {}) }
  do
    let book ← e.books key
    let s ← (e.bookState book).addOrder (some order) now
    return (s.trades,
      { e.store key s with totalTrades := wrap64 (e.totalTrades + s.trades.length) })

def getOrderBook (e : SingleThreaded) (symbol : Symbol) : Option OrderBook := e.books symbol

/-- `get_order_book(symbol)->cancel_order(id)`; without a book there is nothing to call. -/
def cancelOrder (e : SingleThreaded) (symbol : Symbol) (id : UInt64) :
    Option Bool × SingleThreaded :=
  match e.getOrderBook symbol with
  | none => (none, e)
  | some book =>
      let (found, s) := (e.bookState book).cancelOrder id
      (some found, e.store symbol s)

end SingleThreaded

/-! ## Calls -/

inductive EngineCall
  | addSymbol (symbol : Symbol)
  /-- The caller writes the order to its object and submits it; `now` is what the clock shows. -/
  | submit (order : OrderPtr) (contents : Order) (now : UInt64)
  | cancelOrder (symbol : Symbol) (id : UInt64)

/-- The symbol a call is for. -/
def EngineCall.symbol : EngineCall → Symbol
  | addSymbol symbol => symbol
  | submit _ contents _ => contents.symbolKey
  | cancelOrder symbol _ => symbol

/-- What a call returns. -/
structure EngineReply where
  trades : List Trade := []
  found : Option Bool := none
  deriving DecidableEq, Repr

namespace SingleThreaded

def serve (e : SingleThreaded) : EngineCall → Option (EngineReply × SingleThreaded)
  | .addSymbol symbol => some ({}, e.addSymbol symbol)
  | .submit order contents now => do
      let e := { e with heap := Function.update e.heap order contents }
      let (trades, e) ← e.submit order now
      return ({ trades := trades }, e)
  | .cancelOrder symbol id =>
      let (found, e) := e.cancelOrder symbol id
      some ({ found := found }, e)

end SingleThreaded

end MatchingMachine
