import MatchingMachine.Lib.Dict
import MatchingMachine.Lib.Fallible
import MatchingMachine.Lib.RegexSearch
import MatchingMachine.Lib.Utf8
import MatchingMachine.Model.BenchRecord
import Mathlib

/-!
# Latency reports

`LatencyRecorder::report` of `include/latency_recorder.h` prints them, `latency_reports` of
`scripts/record/bench_record.py` reads them from the console output of a binary.
-/

namespace MatchingMachine

/-! ## The writer -/

namespace LatencyRecorder

abbrev Text := List Char

/-- The arguments of the `printf` calls of `report`. -/
structure Report where
  quantity : Text
  count : Nat
  p50 : UInt64
  p95 : UInt64
  p99 : UInt64
  p999 : UInt64
  pmax : UInt64
  deriving DecidableEq, Repr

/-- `%lu` -/
def digits (n : Nat) : Text := Nat.toDigits 10 n

/-- `%6lu` -/
def padded (v : UInt64) : Text := (digits v.toNat).leftpad 6 ' '

def line (head : String) (v : UInt64) : Text := head.toList ++ padded v ++ " ticks\n".toList

/-- What the `printf` calls print. -/
def Report.text (r : Report) : Text :=
  "=== Latency Report: ".toList ++ r.quantity ++ " (".toList ++ digits r.count ++
    " samples, TSC ticks) ===\n".toList ++
    (line "P50  : " r.p50 ++ line "P95  : " r.p95 ++ line "P99  : " r.p99 ++
      line "P999 : " r.p999 ++ line "Max  : " r.pmax)

/-- What `report` prints of its samples.  `index p n` is `static_cast<size_t>(p * n)`, where the
product is rounded as a `double`. -/
def reported (index : ℚ → Nat → Nat) (quantity : Text) (samples : List UInt64) : Report :=
  let sorted := samples.insertionSort (· ≤ ·)
  let percentile p := sorted.getD (index p (sorted.length - 1)) 0
  { quantity := quantity
    count := sorted.length
    p50 := percentile 0.50
    p95 := percentile 0.95
    p99 := percentile 0.99
    p999 := percentile 0.999
    pmax := sorted.getLast?.getD 0 }

def report (index : ℚ → Nat → Nat) (quantity : Text) (samples : List UInt64) : Text :=
  if samples.isEmpty then
    "=== Latency Report: ".toList ++ quantity ++ ", no samples ===\n".toList
  else (reported index quantity samples).text

end LatencyRecorder

/-! ## The reader -/

namespace BenchRecord

open Regex

/-- Python's classes of characters. -/
class Unicode where
  /-- `\w` -/
  isWord : Char → Bool
  /-- `\s` -/
  isSpace : Char → Bool
  /-- `\d` -/
  isDecimal : Char → Bool
  /-- The value of a decimal digit. -/
  digit : Char → Nat
  isWord_ascii : ∀ c : Char, c.toNat < 128 → isWord c = (c.isAlphanum || c == '_')
  isSpace_ascii : ∀ c : Char, c.toNat < 128 →
    isSpace c = (c == ' ' || (9 ≤ c.toNat && c.toNat ≤ 13) || (28 ≤ c.toNat && c.toNat ≤ 31))
  isDecimal_ascii : ∀ c : Char, c.toNat < 128 → isDecimal c = c.isDigit
  digit_ascii : ∀ c : Char, c.isDigit = true → digit c = c.toNat - '0'.toNat

variable [Unicode]

open Unicode hiding isSpace

/-- `[\w-]` -/
def isQuantityChar (c : Char) : Bool := isWord c || c == '-'

/-- `LATENCY_HEADER` -/
def latencyHeader : Regex Char :=
  seq (literal "=== Latency Report".toList) <|
  seq (opt (seq (literal ": ".toList) (group (many1 isQuantityChar)))) <|
  seq (literal " (".toList) <| seq (many1 isDecimal) <| seq (literal " samples".toList) <|
  seq (opt (literal ", TSC ticks".toList)) (literal ") ===\n".toList)

/-- `^` -/
def lineStart (before _after : Option Char) : Bool := before.all (· == '\n')

/-- `\b` -/
def wordBoundary (before after : Option Char) : Bool := before.any isWord != after.any isWord

/-- `^(\w+)\s*:\s*(\d+) (?:ticks|cycles)\b` -/
def percentilePattern : Regex Char :=
  seq (assert lineStart) <| seq (group (many1 isWord)) <| seq (star (char Unicode.isSpace)) <|
  seq (literal ":".toList) <| seq (star (char Unicode.isSpace)) <| seq (group (many1 isDecimal)) <|
  seq (literal " ".toList) <| seq (alt (literal "ticks".toList) (literal "cycles".toList))
    (assert wordBoundary)

/-- `text.split("\n\n")[0]` -/
def beforeBlankLine : Text → Text
  | [] => []
  | '\n' :: '\n' :: _ => []
  | c :: cs => c :: beforeBlankLine cs

def maxStrDigits : Nat := 4300

/-- `int(text)` for a text of digits. -/
def int (text : Text) : Except String Nat :=
  if maxStrDigits < text.length then
    throw (s!"Exceeds the limit ({maxStrDigits} digits) for integer string conversion: " ++
      s!"value has {text.length} digits; use sys.set_int_max_str_digits() to increase the limit")
  else pure (text.foldl (fun n c => 10 * n + digit c) 0)

/-- An entry of `reports`. -/
structure LatencyReport where
  quantity : Text
  repetition : Nat
  ticks : Dict Text Nat

/-- `{k: int(v) for k, v in found}` -/
def readTicks (found : List (List Text)) : Except String (Dict Text Nat) :=
  found.foldlM (fun ticks groups =>
    match groups with
    | [v, k] => do return ticks.set k (← int v)
    | _ => pure ticks) Dict.empty

/-- The variables of the loop. -/
structure ReportScan where
  reports : List LatencyReport := []
  seen : Dict Text Nat := Dict.empty

/-- One turn of the loop: the groups of a header, and the text up to the next one. -/
def scanReport (s : ReportScan) (part : List Text × Text) : Except String ReportScan :=
  let found := findAll percentilePattern (beforeBlankLine part.2)
  if found.isEmpty then pure s
  else do
    let quantity := part.1.head?.getD "end-to-end".toList
    let repetition := (s.seen.get? quantity).getD 0
    let ticks ← readTicks found
    return { reports := s.reports ++ [{ quantity, repetition, ticks }]
             seen := s.seen.modify quantity 0 (· + 1) }

def latencyReports (out : List UInt8) : Except String (List LatencyReport) := do
  let parts := (split latencyHeader (Utf8.decode out)).2
  let s ← parts.foldlM scanReport {}
  return s.reports

end BenchRecord

end MatchingMachine
