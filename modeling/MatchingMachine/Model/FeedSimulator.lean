import MatchingMachine.Model.Order
import MatchingMachine.Lib.TextStream

/-!
# The order stream

`FeedSimulator` of `src/feed_simulator.cpp`: orders are generated, or read from a CSV file.  The
random distributions are an input: `Draws` has what each of them yields for one order, and nothing
is assumed of it.  The order ID is taken from a counter that cancels advance as well.
-/

namespace MatchingMachine

/-- What the distributions yield for one order.  An integer distribution yields a number that
`uniformInt` maps into its range, so that every value of the range comes of some number. -/
structure Draws where
  cancel : Bool := false
  buy : Bool := false
  quantity : Nat := 0
  offset : Int := 0
  cancelId : Nat := 0
  deriving DecidableEq, Repr

/-- A value of `std::uniform_int_distribution(lo, hi)`. -/
def uniformInt (lo hi number : Nat) : Nat := lo + number % (hi + 1 - lo)

theorem uniformInt_mem {lo hi : Nat} (h : lo ≤ hi) (number : Nat) :
    lo ≤ uniformInt lo hi number ∧ uniformInt lo hi number ≤ hi := by
  have hLt := Nat.mod_lt number (show 0 < hi + 1 - lo by omega)
  unfold uniformInt
  omega

/-- `strncpy(symbol, text, n)` into a zeroed field. -/
def strncpy (text : List UInt8) (n : Nat) : SymbolField :=
  let copied := (text.takeWhile (· ≠ 0)).take n
  Vector.ofFn fun i => copied.getD i 0

structure FeedSimulator where
  symbol : List UInt8
  basePrice : Int
  nextOrderId : UInt64 := 1

namespace FeedSimulator

def makeRandomOrder (sim : FeedSimulator) (isCancel : Bool) (d : Draws) : Order × FeedSimulator :=
  let o : Order :=
    { orderId := sim.nextOrderId
      timestampNs := 0
      side := if d.buy then .BUY else .SELL
      quantity := uniformInt 1 100 d.quantity
      symbol := strncpy sim.symbol 7 }
  let sim := { sim with nextOrderId := sim.nextOrderId + 1 }
  if isCancel then
    let id := uniformInt 1 (sim.nextOrderId - 2).toNat d.cancelId
    ({ o with type := .CANCEL, orderId := UInt64.ofNat id }, sim)
  else
    let price := sim.basePrice + d.offset.tdiv 100 * 100
    ({ o with type := .LIMIT, price := if price ≤ 0 then sim.basePrice else price }, sim)

/-- The next order; the first one is never a cancel. -/
def nextOrder (sim : FeedSimulator) (d : Draws) : Order × FeedSimulator :=
  sim.makeRandomOrder (d.cancel && decide (sim.nextOrderId > 1)) d

/-- `generate_into(slot)`. -/
def generateInto (sim : FeedSimulator) (slot : OrderPtr) (heap : Heap) (d : Draws) :
    Heap × FeedSimulator :=
  let (o, sim) := sim.nextOrder d
  (heap.modify slot fun _ => o, sim)

/-- `generate_random(count)`, with the draws of each of the orders. -/
def generateRandom (sim : FeedSimulator) : List Draws → List Order × FeedSimulator
  | [] => ([], sim)
  | d :: ds =>
      let (o, sim) := sim.nextOrder d
      let (os, sim) := sim.generateRandom ds
      (o :: os, sim)

/-! ## CSV files -/

def newline : UInt8 := 10

def comma : UInt8 := 44

/-- The body of the loop of `load_csv`.  The string of one read is what the next one is given. -/
def parseLine (sim : FeedSimulator) (line : List UInt8) : Except StdException Order := do
  let token := InStream.getline { rest := line } [] comma
  let orderId ← stoull token.str
  let token := token.stream.getline token.str comma
  let side := if token.str = [48] then Side.BUY else Side.SELL
  let token := token.stream.getline token.str comma
  let price ← stoll token.str
  let token := token.stream.getline token.str comma
  let quantity ← stoll token.str
  let token := token.stream.getline token.str comma
  let type := if token.str = [48] then OrderType.LIMIT else OrderType.CANCEL
  return {
    orderId := orderId, side := side, price := price, quantity := quantity, type := type
    symbol := strncpy sim.symbol 7 }

/-- The loop of `load_csv`. -/
def loadLines (sim : FeedSimulator) (file : InStream) (line : List UInt8) (orders : List Order) :
    Except StdException (List Order) :=
  let line := file.getline line newline
  if _hok : line.ok = true then
    if line.str.isEmpty then
      sim.loadLines line.stream line.str orders
    else do
      let o ← sim.parseLine line.str
      sim.loadLines line.stream line.str (orders ++ [o])
  else
    pure orders
termination_by file.left
decreasing_by all_goals exact InStream.left_getline _ _ _ ‹_›

/-- `load_csv(filepath)`, with the contents of the file if it opens. -/
def loadCsv (sim : FeedSimulator) (filepath : String) (file : Option (List UInt8)) :
    Except StdException (List Order) :=
  match file with
  | none => throw (.runtimeError ("Cannot open file: " ++ filepath))
  | some text =>
      let header := InStream.getline { rest := text } [] newline
      sim.loadLines header.stream header.str []

end FeedSimulator

end MatchingMachine
