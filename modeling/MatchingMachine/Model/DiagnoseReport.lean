import MatchingMachine.Lib.Dict
import Mathlib

/-!
# The report of a diagnostic study

`summarize` of `scripts/report/diagnose_report.py` and what it calls.  The two CSV files are lists
of rows, the environment and the raw files are what the JSON and regular-expression modules make of
them.  What Python's numbers and characters are is left to a class, so that nothing here depends on
how floating-point operations round.
-/

namespace MatchingMachine

namespace DiagnoseReport

/-- A Python string. -/
abbrev Text := List Char

/-- A field of a CSV row; `none` where the row is too short for its header. -/
abbrev Cell := Option Text

/-- The columns that are read. -/
inductive Column where
  | session | block | round | condition | binary
  | exitStatus | wallS | foreignMs | throttleCore | throttlePackage | deviceIrqs | irqTrm | suspendedS
  | warmup | benchmark | repetition | realTimeNs
  deriving DecidableEq, Repr

/-- A row of `csv.DictReader`. -/
abbrev Row := List (Column × Cell)

/-- What `launch_key` returns. -/
structure LaunchKey where
  session : Int
  block : Int
  condition : Cell
  binary : Cell
  deriving DecidableEq, Repr

/-- A benchmark of a launch. -/
abbrev Group := LaunchKey × Cell

inductive LayoutField where
  | address | mod64 | mod4096
  deriving DecidableEq, Repr

/-- The messages of the `ValueError`s. -/
inductive Problem (F : Type) where
  | studyIncomplete
  | invalidRepetitionCount
  | duplicateLaunchRecords
  | noCompleteMeasurements
  | failedLaunch (key : LaunchKey)
  | noMatchingLaunch (key : LaunchKey)
  | duplicateRepetition (index : Int) (key : LaunchKey) (benchmark : Cell)
  | invalidRealTime (value : F)
  | incompleteRepetitions (key : LaunchKey) (benchmark : Cell) (expected : Int)
  | launchesWithoutSamples (keys : List LaunchKey)
  | wallTimeNotPositive
  | conflictingRawCopies (name : Text)
  | layoutWithoutMetadata (stem : Text)
  | layoutOfIncompleteLaunch (stem : Text)
  | unrecognizedLayoutFilename (stem : Text)
  | layoutNotOfOneLaunch (stem : Text)
  | multipleLayoutLogs (key : LaunchKey)
  | missingLayoutField (field : LayoutField) (stem : Text)
  | inconsistentResidues (stem : Text)
  /-- `int` or `float` cannot read a text. -/
  | invalidLiteral (text : Text)
  /-- A statistic or `max` of nothing. -/
  | noData

/-- What Python raises. -/
inductive Raised (F : Type) where
  | valueError (problem : Problem F)
  | keyError
  | typeError
  | overflowError

abbrev Py (F : Type) := Except (Raised F)

def raise {F α : Type} (problem : Problem F) : Py F α := .error (.valueError problem)

/-- Python's integers, floats and characters, as far as they are used. -/
class Python (F : Type) extends Add F, Sub F, Mul F, Div F, NatCast F where
  /-- `int(text)` and `int(text, 0)`. -/
  int : Text → Option Int
  intBase0 : Text → Option Int
  float : Text → Option F
  inf : F
  lt : F → F → Bool
  le : F → F → Bool
  /-- `int(x)` of a float. -/
  truncate : F → Except (Raised F) Int
  mean : List F → F
  stdev : List F → F
  /-- `\d`, `str.isdigit`, and the value of a decimal digit. -/
  isDecimal : Char → Bool
  isDigit : Char → Bool
  digit : Char → Nat

variable {F : Type} [Python F]

/-! ## Rows -/

/-- `row[column]`. -/
def Row.item (row : Row) (column : Column) : Py F Cell :=
  match row.lookup column with
  | some cell => .ok cell
  | none => .error .keyError

/-- `int(cell)`. -/
def parseInt : Cell → Py F Int
  | none => .error .typeError
  | some text =>
      match Python.int F text with
      | some n => .ok n
      | none => raise (.invalidLiteral text)

/-- `float(cell)`. -/
def parseFloat : Cell → Py F F
  | none => .error .typeError
  | some text =>
      match Python.float text with
      | some x => .ok x
      | none => raise (.invalidLiteral text)

def launchKey (row : Row) : Py F LaunchKey := do
  let session ← parseInt (← Row.item row .session)
  let block ← parseInt ((row.lookup .block).getD ((row.lookup .round).getD (some [])))
  let condition ← Row.item row .condition
  let binary ← Row.item row .binary
  return ⟨session, block, condition, binary⟩

/-- `int(row.get("warmup") or 0)`. -/
def warmupMark (row : Row) : Py F Int :=
  match row.lookup .warmup with
  | none | some none | some (some []) => .ok 0
  | some cell => parseInt cell

/-! ## Orders -/

/-- `re.split(r"(\d+)", text)`: texts without digits and, between them, runs of digits. -/
def splitDigits (isDecimal : Char → Bool) : Text → List Text
  | [] => [[]]
  | c :: cs =>
      match splitDigits isDecimal cs with
      | [] => [[c]]
      | part :: parts =>
          if isDecimal c then
            match part, parts with
            | [], run :: parts => [] :: (c :: run) :: parts
            | part, parts => [] :: [c] :: part :: parts
          else (c :: part) :: parts

/-- `int(part) if part.isdigit() else part`. -/
def naturalPart (part : Text) : Py F (Text ⊕ₗ Nat) :=
  if part ≠ [] ∧ part.all (Python.isDigit F) then
    if part.all (Python.isDecimal F) then
      .ok (Sum.inrₗ (part.foldl (fun n c => 10 * n + Python.digit F c) 0))
    else raise (.invalidLiteral part)
  else .ok (Sum.inlₗ part)

/-- The key that orders names by their numeric arguments; `str(None)` is `"None"`. -/
def natural (cell : Cell) : Py F (List (Text ⊕ₗ Nat)) :=
  (splitDigits (Python.isDecimal F) (cell.getD "None".toList)).mapM naturalPart

/-- `sorted(xs, key=key)`. -/
def sortedBy {α κ : Type} [LinearOrder κ] (key : α → Py F κ) (xs : List α) : Py F (List α) := do
  let keyed ← xs.mapM fun x => do return (← key x, x)
  return (keyed.insertionSort fun a b => a.1 ≤ b.1).map Prod.snd

/-- The order of tuples of text; a missing field comes first. -/
def pairOrder (pair : Cell × Cell) : WithBot Text ×ₗ WithBot Text := toLex (pair.1, pair.2)

def LaunchKey.order (key : LaunchKey) : Int ×ₗ Int ×ₗ WithBot Text ×ₗ WithBot Text :=
  toLex (key.session, toLex (key.block, pairOrder (key.condition, key.binary)))

/-! ## Statistics -/

def sortFloats (values : List F) : List F := values.insertionSort fun a b => Python.le a b

def median (values : List F) : Py F F :=
  let data := sortFloats values
  let n := data.length
  match data[n / 2]?, data[n / 2 - 1]? with
  | some high, some low => .ok (if n % 2 = 1 then high else (low + high) / (2 : Nat))
  | _, _ => raise .noData

def maximum : List F → Py F F
  | [] => raise .noData
  | x :: xs => .ok (xs.foldl (fun m x => if Python.lt m x then x else m) x)

def minimum : List F → Py F F
  | [] => raise .noData
  | x :: xs => .ok (xs.foldl (fun m x => if Python.lt x m then x else m) x)

/-- The coefficient of variation in percent. -/
def cv (values : List F) : Option F :=
  if values.length > 1 then
    some (Python.stdev values / Python.mean values * (100 : Nat))
  else none

/-- The `i`-th of `statistics.quantiles(values, n=4, method="inclusive")`. -/
def quartile (data : List F) (i : Nat) : Py F F :=
  let j := i * (data.length - 1) / 4
  let delta := i * (data.length - 1) % 4
  match data[j]?, data[j + 1]? with
  | some low, some high => .ok ((low * (4 - delta : Nat) + high * (delta : Nat)) / (4 : Nat))
  | _, _ => raise .noData

def iqrPercent (values : List F) : Py F F := do
  let (first, third) ← match values with
    | [value] => pure (value, value)
    | _ =>
        let data := sortFloats values
        pure (← quartile data 1, ← quartile data 3)
  return (third - first) / (← median values) * (100 : Nat)

/-! ## The study -/

/-- An entry of `design` in `env.json`. -/
inductive Setting where
  | absent
  | integer (n : Int)
  | other
  deriving DecidableEq, Repr

/-- `env.json`; `incomplete` when `complete` is there and `false`. -/
structure Environment where
  incomplete : Bool := false
  repetitions : Setting := .absent
  warmupRepetitions : Setting := .absent

/-- The fields of a line `MM_LAYOUT ...`. -/
abbrev LayoutLine := List (LayoutField × Text)

/-- A log: the name without `.log`, the numbers in a name `s<session>_b<block>_c<condition>`, and
its layout lines. -/
structure LayoutLog where
  stem : Text
  identity : Option (Int × Int)
  lines : List LayoutLine

/-- The metadata of a launch; `condition` is `none` when it is not there. -/
structure Metadata where
  complete : Bool
  condition : Option Text

/-- What `raw_files` returns, sorted into logs and metadata by stem. -/
structure RawFiles where
  logs : List LayoutLog := []
  metadata : List (Text × Metadata) := []

/-- The files of a study; `raw` is what `raw_files` returns or raises. -/
structure Study (F : Type) where
  environment : Environment := {}
  samples : List Row
  launches : List Row
  raw : Py F RawFiles := .ok {}

/-! ## Rows of the report -/

structure BenchmarkRow (F : Type) where
  condition : Cell
  binary : Cell
  benchmark : Cell
  launches : Nat
  repetitions : Int
  median : F
  min : F
  max : F
  spread : F
  launchCv : Option F
  iqr : F
  withinCvMedian : Option F
  withinCvMax : Option F

structure TelemetryRow (F : Type) where
  condition : Cell
  binary : Cell
  launches : Nat
  throttleCore : Int
  throttlePackage : Int
  deviceIrqs : Int
  thermalIrqs : Int
  suspended : F
  foreignMedian : F
  foreignMax : F
  foreignAboveFive : Nat

structure LayoutRow where
  condition : Cell
  binary : Cell
  launches : Nat
  uniqueAddresses : Nat
  mod64Values : List Int
  uniqueMod64 : Nat
  uniqueMod4096 : Nat
  multiMod64Launches : Nat
  multiMod4096Launches : Nat

/-- One launch with its scores in ms. -/
structure LaunchLayoutRow (F : Type) where
  key : LaunchKey
  mod64 : List Int
  scores : List (Cell × F)

structure Report (F : Type) where
  benchmarks : List (BenchmarkRow F)
  telemetry : List (TelemetryRow F)
  layout : List LayoutRow
  launchLayout : List (LaunchLayoutRow F)

/-! ## Benchmarks -/

/-- The score of a benchmark in a launch. -/
structure Score (F : Type) where
  key : LaunchKey
  benchmark : Cell
  median : F
  cv : Option F

/-- The loop over the rows of `samples.csv`. -/
def addSample (records : Dict LaunchKey Row) (repetitions : Dict Group (Dict Int F)) (row : Row) :
    Py F (Dict Group (Dict Int F)) := do
  let key ← launchKey row
  if key ∉ records.keys then raise (.noMatchingLaunch key)
  else if (← warmupMark row) ≠ 0 then return repetitions
  else
    let benchmark ← Row.item row .benchmark
    let group := (repetitions.get? (key, benchmark)).getD Dict.empty
    let index ← parseInt (← Row.item row .repetition)
    if index ∈ group.keys then raise (.duplicateRepetition index key benchmark)
    else
      let value ← parseFloat (← Row.item row .realTimeNs)
      if ¬(Python.lt ((0 : Nat) : F) value ∧ Python.lt value Python.inf) then
        raise (.invalidRealTime value)
      else
        return repetitions.modify (key, benchmark) Dict.empty fun group => group.set index value

/-- `set(range(warmup, expected))`. -/
def countedIndices (warmup expected : Int) : Finset Int :=
  ((List.range (expected - warmup).toNat).map fun i : Nat => warmup + i).toFinset

/-- The loop over the benchmarks of the launches. -/
def score (warmup expected : Int) (entry : Group × Dict Int F) : Py F (Score F) := do
  let ((key, benchmark), values) := entry
  if values.keys.toFinset ≠ countedIndices warmup expected then
    raise (.incompleteRepetitions key benchmark (expected - warmup))
  else
    return ⟨key, benchmark, ← median values.values, cv values.values⟩

/-- `grouped`: the scores of the launches of one condition and binary. -/
def grouped (scores : List (Score F)) : Dict ((Cell × Cell) × Cell) (List (Score F)) :=
  Dict.gather [] (fun s : Score F => ((s.key.condition, s.key.binary), s.benchmark))
    (fun group s => group ++ [s]) scores

def launchMedians (scores : List (Score F)) : Dict LaunchKey (Dict Cell F) :=
  Dict.gather Dict.empty Score.key (fun medians s => medians.set s.benchmark s.median) scores

def benchmarkRow (repetitions : Int) (entry : ((Cell × Cell) × Cell) × List (Score F)) :
    Py F (BenchmarkRow F) := do
  let (((condition, binary), benchmark), entries) := entry
  let medians := entries.map Score.median
  let insideCv := entries.filterMap Score.cv
  let low ← minimum medians
  let high ← maximum medians
  return {
    condition := condition, binary := binary, benchmark := benchmark
    launches := medians.length, repetitions := repetitions
    median := ← median medians, min := low, max := high
    spread := (high / low - (1 : Nat)) * (100 : Nat)
    launchCv := cv medians, iqr := ← iqrPercent medians
    withinCvMedian := ← if insideCv = [] then pure none else some <$> median insideCv
    withinCvMax := ← if insideCv = [] then pure none else some <$> maximum insideCv }

/-- The key by which the benchmarks are sorted. -/
def benchmarkOrder (entry : ((Cell × Cell) × Cell) × List (Score F)) :
    Py F (List (List (Text ⊕ₗ Nat))) := do
  return [← natural entry.1.1.1, ← natural entry.1.1.2, ← natural entry.1.2]

def benchmarkRows (repetitions : Int) (scores : List (Score F)) : Py F (List (BenchmarkRow F)) := do
  let sorted ← sortedBy benchmarkOrder (grouped scores).entries
  sorted.mapM (benchmarkRow repetitions)

/-! ## Telemetry -/

def sum (values : List F) : F := values.foldl (· + ·) (0 : Nat)

def telemetryRow (entry : (Cell × Cell) × List Row) : Py F (TelemetryRow F) := do
  let ((condition, binary), records) := entry
  let value (column : Column) (row : Row) : Py F F := do parseFloat (← Row.item row column)
  records.forM fun row => do
    if Python.le (← value .wallS row) ((0 : Nat) : F) then raise .wallTimeNotPositive
  let foreign ← records.mapM fun row => do return (← value .foreignMs row) / (← value .wallS row)
  return {
    condition := condition, binary := binary, launches := records.length
    throttleCore := ← Python.truncate (sum (← records.mapM (value .throttleCore)))
    throttlePackage := ← Python.truncate (sum (← records.mapM (value .throttlePackage)))
    deviceIrqs := ← Python.truncate (sum (← records.mapM (value .deviceIrqs)))
    thermalIrqs := ← Python.truncate (sum (← records.mapM (value .irqTrm)))
    suspended := sum (← records.mapM (value .suspendedS))
    foreignMedian := ← median foreign
    foreignMax := ← maximum foreign
    foreignAboveFive := foreign.countP fun value => Python.lt ((5 : Nat) : F) value }

def telemetryRows (launches : List Row) : Py F (List (TelemetryRow F)) := do
  let keyed ← launches.mapM fun row => do
    return ((← Row.item row .condition, ← Row.item row .binary), row)
  let telemetry := Dict.gather [] Prod.fst (fun rows e => rows ++ [e.2]) keyed
  let sorted ← sortedBy (fun entry : (Cell × Cell) × List Row => pure (pairOrder entry.1))
    telemetry.entries
  sorted.mapM telemetryRow

/-! ## Layouts -/

/-- The addresses that a launch printed, and their residues. -/
structure Addresses where
  address : Finset Int := ∅
  mod64 : Finset Int := ∅
  mod4096 : Finset Int := ∅

/-- One line of a layout log. -/
def addAddress (stem : Text) (values : Addresses) (line : LayoutLine) : Py F Addresses := do
  let field (f : LayoutField) : Py F Text :=
    match line.lookup f with
    | some text => .ok text
    | none => raise (.missingLayoutField f stem)
  let number (parse : Text → Option Int) (text : Text) : Py F Int :=
    match parse text with
    | some n => .ok n
    | none => raise (.invalidLiteral text)
  let address ← number (Python.intBase0 F) (← field .address)
  let mod64 ← number (Python.intBase0 F) (← field .mod64)
  let mod4096 ← number (Python.intBase0 F) (← field .mod4096)
  if address % 64 ≠ (← number (Python.int F) (← field .mod64)) then
    raise (.inconsistentResidues stem)
  else if address % 4096 ≠ (← number (Python.int F) (← field .mod4096)) then
    raise (.inconsistentResidues stem)
  else
    return ⟨insert address values.address, insert mod64 values.mod64,
      insert mod4096 values.mod4096⟩

/-- The loop over the logs. -/
def addLayoutLog (records : Dict LaunchKey Row) (metadata : List (Text × Metadata))
    (observations : Dict LaunchKey Addresses) (log : LayoutLog) :
    Py F (Dict LaunchKey Addresses) := do
  if log.lines = [] then return observations
  else
    match metadata.lookup log.stem with
    | none => raise (.layoutWithoutMetadata log.stem)
    | some launch =>
        if ¬launch.complete then raise (.layoutOfIncompleteLaunch log.stem)
        else
          match log.identity, launch.condition with
          | none, _ => raise (.unrecognizedLayoutFilename log.stem)
          | some _, none => .error .keyError
          | some (session, block), some condition =>
              match records.keys.filter fun key =>
                key.session = session ∧ key.block = block ∧ key.condition = some condition with
              | [key] =>
                  if key ∈ observations.keys then raise (.multipleLayoutLogs key)
                  else
                    let values ← log.lines.foldlM (addAddress log.stem) {}
                    return observations.set key values
              | _ => raise (.layoutNotOfOneLaunch log.stem)

def layoutRow (entry : (Cell × Cell) × List Addresses) : LayoutRow :=
  let combined (field : Addresses → Finset Int) : Finset Int :=
    entry.2.foldl (fun all values => all ∪ field values) ∅
  { condition := entry.1.1, binary := entry.1.2
    launches := entry.2.length
    uniqueAddresses := (combined Addresses.address).card
    mod64Values := (combined Addresses.mod64).sort
    uniqueMod64 := (combined Addresses.mod64).card
    uniqueMod4096 := (combined Addresses.mod4096).card
    multiMod64Launches := entry.2.countP fun values => values.mod64.card > 1
    multiMod4096Launches := entry.2.countP fun values => values.mod4096.card > 1 }

def launchLayoutRow (medians : Dict LaunchKey (Dict Cell F)) (entry : LaunchKey × Addresses) :
    Py F (LaunchLayoutRow F) := do
  let scores ← sortedBy (fun score : Cell × F => natural score.1)
    ((medians.get? entry.1).getD Dict.empty).entries
  return ⟨entry.1, entry.2.mod64.sort, scores.map fun s => (s.1, s.2 / (10 ^ 6 : Nat))⟩

def layoutRows (raw : Py F RawFiles) (records : Dict LaunchKey Row)
    (medians : Dict LaunchKey (Dict Cell F)) :
    Py F (List LayoutRow × List (LaunchLayoutRow F)) := do
  let files ← raw
  let observations ← files.logs.foldlM (addLayoutLog records files.metadata) Dict.empty
  let groups := Dict.gather [] (fun e : LaunchKey × Addresses => (e.1.condition, e.1.binary))
    (fun all e => all ++ [e.2]) observations.entries
  let sorted ← sortedBy (fun entry : (Cell × Cell) × List Addresses => pure (pairOrder entry.1))
    groups.entries
  let rows := sorted.map layoutRow
  let varying (entry : LaunchKey × Addresses) : Bool := rows.any fun row =>
    row.condition = entry.1.condition ∧ row.binary = entry.1.binary ∧ row.uniqueMod64 > 1
  let listed ← sortedBy (fun entry : LaunchKey × Addresses =>
    pure (toLex (entry.2.mod64.sort, entry.1.order))) (observations.entries.filter varying)
  return (rows, ← listed.mapM (launchLayoutRow medians))

/-! ## The whole -/

/-- `repetitions` and `warmup_repetitions`, checked. -/
def repetitionCounts (environment : Environment) : Py F (Int × Int) :=
  let value (setting : Setting) (default : Int) : Option Int :=
    match setting with
    | .absent => some default
    | .integer n => some n
    | .other => none
  match value environment.repetitions 5, value environment.warmupRepetitions 0 with
  | some expected, some warmup =>
      if 0 ≤ warmup ∧ warmup < expected then .ok (expected, warmup)
      else raise .invalidRepetitionCount
  | _, _ => raise .invalidRepetitionCount

/-- `launch_records`, from the rows of `launches.csv`. -/
def launchRecords (launches : List Row) : Py F (Dict LaunchKey Row) := do
  let keyed ← launches.mapM fun row => do return (← launchKey row, row)
  return keyed.foldl (fun d e => d.set e.1 e.2) Dict.empty

/-- The check of one launch. -/
def checkLaunch (entry : LaunchKey × Row) : Py F Unit := do
  if (← parseInt ((entry.2.lookup .exitStatus).getD (some ['0']))) ≠ 0 then
    raise (.failedLaunch entry.1)

def summarize (study : Study F) : Py F (Report F) := do
  if study.environment.incomplete then raise .studyIncomplete
  else
    let (expected, warmup) ← repetitionCounts study.environment
    let records ← launchRecords study.launches
    if records.entries.length ≠ study.launches.length then raise .duplicateLaunchRecords
    else if study.samples = [] ∨ study.launches = [] then raise .noCompleteMeasurements
    else
      records.entries.forM checkLaunch
      let repetitions ← study.samples.foldlM (addSample records) Dict.empty
      let scores ← repetitions.entries.mapM (score warmup expected)
      let missing := records.keys.filter fun key => key ∉ repetitions.keys.map Prod.fst
      if missing ≠ [] then
        raise (.launchesWithoutSamples (missing.insertionSort fun a b => a.order ≤ b.order))
      else
        let benchmarks ← benchmarkRows (expected - warmup) scores
        let telemetry ← telemetryRows study.launches
        let (layout, launchLayout) ← layoutRows study.raw records (launchMedians scores)
        return ⟨benchmarks, telemetry, layout, launchLayout⟩

end DiagnoseReport

end MatchingMachine
