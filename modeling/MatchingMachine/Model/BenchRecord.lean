import MatchingMachine.Lib.Binary64
import MatchingMachine.Lib.TextStream
import MatchingMachine.Lib.Utf8
import Mathlib

/-!
# Reading what a benchmark printed

`intervals` of `scripts/record/bench_record.py`.  The console output is a list of bytes, a Python
string a list of characters.  Clocks are integers; a time is a float, that is a double.
-/

namespace MatchingMachine

namespace BenchRecord

/-- A Python string. -/
abbrev Text := List Char

/-- What `launch` knows after a chunk of output: the bytes so far, and three clocks in ns. -/
structure Mark where
  offset : Nat
  clock : Int
  cpu : Int
  wait : Int
  deriving DecidableEq, Repr

structure Interval where
  name : Text
  wall : ℚ
  cpu : ℚ
  wait : ℚ
  deriving DecidableEq

/-- What `intervals` raises. -/
inductive IntervalsError where
  | indexError
  | unicodeDecodeError
  | overflowError
  deriving DecidableEq, Repr

/-- `AGGREGATE.sub("", name)` for `_(mean|median|stddev|cv)$`. -/
def stripAggregate (name : Text) : Text :=
  let suffixes := ["_mean", "_median", "_stddev", "_cv"].map String.toList
  match suffixes.find? fun suffix => suffix.isSuffixOf name with
  | some suffix => name.take (name.length - suffix.length)
  | none => name

/-- The variables of the loop over the lines. -/
structure LineScan where
  last : Text → Option Nat := fun _ => none
  order : List Text := []
  offset : Nat := 0

/-- `line.startswith(b"BM_")`. -/
def isBenchmarkLine (line : List UInt8) : Bool := [66, 77, 95].isPrefixOf line

/-- `line.split()[0]` of such a line. -/
def firstWord (line : List UInt8) : List UInt8 := line.takeWhile fun c => !isSpace c

/-- `AGGREGATE.sub("", line.split()[0].decode())`. -/
def lineName (line : List UInt8) : Option Text :=
  (Utf8.decodeStrict (firstWord line)).map stripAggregate

def scanLine (s : LineScan) (line : List UInt8) : Except IntervalsError LineScan :=
  let s := { s with offset := s.offset + (line.length + 1) }
  if isBenchmarkLine line then
    match lineName line with
    | some name =>
        let order := if (s.last name).isNone then s.order ++ [name] else s.order
        .ok { s with order := order, last := Function.update s.last name (some s.offset) }
    | none => .error .unicodeDecodeError
  else
    .ok s

/-- The first mark at or after the end of a benchmark; `final` is `marks[-1]`. -/
def endMark (marks : List Mark) (final : Mark) (lineEnd : Nat) : Mark :=
  (marks.find? fun m => m.offset ≥ min lineEnd final.offset).getD final

/-- `n / d` of an `int` and a `float`. -/
def floatDiv (n : Int) (d : ℚ) : Except IntervalsError ℚ :=
  match Binary64.ofInt n with
  | some x => .ok (Binary64.round (x / d))
  | none => .error .overflowError

/-- The loop over the benchmarks. -/
def rowsFrom (marks : List Mark) (final : Mark) (last : Text → Option Nat) :
    Mark → List Text → Except IntervalsError (List Interval)
  | _, [] => .ok []
  | prev, name :: names => do
      let mark := endMark marks final ((last name).getD 0)
      let wall ← floatDiv (mark.clock - prev.clock) (10 ^ 9)
      let cpu ← floatDiv (mark.cpu - prev.cpu) (10 ^ 9)
      let wait ← floatDiv (mark.wait - prev.wait) (10 ^ 6)
      let rows ← rowsFrom marks final last mark names
      return { name, wall, cpu, wait } :: rows

def intervals (out : List UInt8) (marks : List Mark) : Except IntervalsError (List Interval) := do
  let s ← (out.splitOn 10).foldlM scanLine {}
  match marks.head?, marks.getLast? with
  | some first, some final => rowsFrom marks final s.last first s.order
  | _, _ => .error .indexError

end BenchRecord

end MatchingMachine
