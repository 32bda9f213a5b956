import MatchingMachine.Lib.Regex
import MatchingMachine.Lib.TextStream
import Mathlib

/-!
# The saved state of the measurement mode

`kv_get`, `require_trusted` and `load_saved_state` of `scripts/env/bench_env.sh`, and the files that
`cmd_setup` saves.  The script runs with `LC_ALL=C`, so a character is a byte.  The files hold no
NUL bytes, which bash would drop.
-/

namespace MatchingMachine

namespace BenchEnv

abbrev Text := List UInt8

def ascii (s : String) : Text := s.toList.map fun c => UInt8.ofNat c.toNat

/-- A number in a base up to 16, as `printf` writes it. -/
def natText (base n : Nat) : Text := (Nat.toDigits base n).map fun c => UInt8.ofNat c.toNat

/-! ## Text -/

/-- The lines of a file, as `grep` sees them: the last one need not end in a newline. -/
def grepLines (content : Text) : List Text :=
  let lines := content.splitOn 10
  if lines.getLast? = some [] then lines.dropLast else lines

/-- The lines for which `read` succeeds: those that end in a newline. -/
def readLines (content : Text) : List Text := (content.splitOn 10).dropLast

/-- `${text#*c}`: what follows the first `c`. -/
def afterFirst (c : UInt8) (text : Text) : Text :=
  if c ∈ text then (text.dropWhile fun d => d ≠ c).tail else text

/-- `${text%%c*}`: what precedes the first `c`. -/
def beforeFirst (c : UInt8) (text : Text) : Text := text.takeWhile fun d => d ≠ c

/-- `${text#c}` and `${text%c}` for a character. -/
def dropLeading (c : UInt8) (text : Text) : Text :=
  if text.head? = some c then text.tail else text

def dropTrailing (c : UInt8) (text : Text) : Text :=
  if text.getLast? = some c then text.dropLast else text

/-- The separators of `read`. -/
def isBlank (c : UInt8) : Bool := c = 32 || c = 9 || c = 10

/-- `read -a items`. -/
def words (text : Text) : List Text := (text.splitOnP isBlank).filter fun word => word ≠ []

/-- The first word of a text, and what follows it. -/
def nextWord (text : Text) : Text × Text :=
  let text := text.dropWhile isBlank
  (text.takeWhile fun c => !isBlank c, text.dropWhile fun c => !isBlank c)

/-- What `read irq aff extra` assigns. -/
structure IrqFields where
  irq : Text
  aff : Text
  extra : Text
  deriving DecidableEq, Repr

def readFields (line : Text) : IrqFields :=
  let (irq, rest) := nextWord line
  let (aff, rest) := nextWord rest
  { irq := irq, aff := aff, extra := (rest.dropWhile isBlank).rdropWhile isBlank }

/-- `kv_get`: the value of a key in a file. -/
def kvGet (content : Text) (key : Text) : Text :=
  let line := ((grepLines content).find? fun line => (key ++ ascii "=").isPrefixOf line).getD []
  dropTrailing 34 (dropLeading 34 (afterFirst 61 line))

/-! ## Trust -/

inductive Kind where
  | directory | regular | other
  deriving DecidableEq, Repr

/-- What is found at a path; `isThere` looks through a symlink. -/
structure Path where
  name : Text
  isSymlink : Bool := false
  isThere : Bool := true
  owner : Nat
  mode : Nat
  kind : Kind
  content : Text := []

/-- `require_trusted`; `die` raises its message. -/
def requireTrusted (p : Path) (uid : Nat) : Except Text Unit :=
  if p.isSymlink then throw (p.name ++ ascii " is a symlink; refusing to trust it")
  else if ¬p.isThere then throw (p.name ++ ascii " does not exist")
  else if p.owner ≠ uid then
    throw (p.name ++ ascii " is owned by uid " ++ natText 10 p.owner ++ ascii ", expected uid " ++
      natText 10 uid ++ ascii "; refusing to trust it")
  else if p.mode &&& 18 ≠ 0 then
    throw (p.name ++ ascii " is group- or world-writable (mode " ++ natText 8 p.mode ++
      ascii "); refusing to trust it")
  else pure ()

/-! ## Patterns -/

section Patterns

open Regex

def isHexDigit (c : UInt8) : Bool := isDigit c || (97 ≤ c && c ≤ 102) || (65 ≤ c && c ≤ 70)

/-- `[a-z_]` -/
def isNameChar (c : UInt8) : Bool := (97 ≤ c && c ≤ 122) || c = 95

/-- `-?[0-9]` -/
def paranoidPattern : Regex UInt8 := seq (opt (char fun c => c = 45)) (char isDigit)

/-- `[01]` -/
def noTurboPattern : Regex UInt8 := char fun c => c = 48 || c = 49

/-- `[0-9]{1,3}` -/
def percentPattern : Regex UInt8 := between isDigit 1 3

/-- `[0-9]{1,4}` -/
def cpuPattern : Regex UInt8 := between isDigit 1 4

/-- `[a-z_]{1,32}` -/
def governorPattern : Regex UInt8 := between isNameChar 1 32

/-- `[0-9a-fA-F]{1,16}(,[0-9a-fA-F]{1,16})*` -/
def maskPattern : Regex UInt8 := sepBy 44 (between isHexDigit 1 16)

/-- `[0-9]{1,5}` -/
def irqPattern : Regex UInt8 := between isDigit 1 5

/-- `[0-9]{1,4}(-[0-9]{1,4})?(,[0-9]{1,4}(-[0-9]{1,4})?)*` -/
def cpuListPattern : Regex UInt8 :=
  sepBy 44 (seq cpuPattern (opt (seq (char fun c => c = 45) cpuPattern)))

end Patterns

/-! ## Loading -/

/-- The variables `R_*`. -/
structure Restored where
  paranoid : Text := []
  noTurbo : Text := []
  minPct : Text := []
  maxPct : Text := []
  governors : List Text := []
  offlined : List Text := []
  defaultIrqMask : Text := []
  irqs : List Text := []
  rejected : List Text := []
  deriving DecidableEq, Repr

/-- `'...'`. -/
def quoted (text : Text) : Text := ascii "'" ++ text ++ ascii "'"

def loadParanoid (v : Text) (r : Restored) : Restored :=
  if paranoidPattern.fullMatch v ∧ (decimal v).any fun n => -1 ≤ n ∧ n ≤ 4 then
    { r with paranoid := v }
  else
    { r with
      paranoid := ascii "4"
      rejected := r.rejected ++
        [ascii "SAVED_PARANOID=" ++ quoted v ++ ascii " (restoring the most restrictive value, 4)"] }

def loadNoTurbo (v : Text) (r : Restored) : Restored :=
  if noTurboPattern.fullMatch v then { r with noTurbo := v }
  else
    { r with noTurbo := [], rejected := r.rejected ++ [ascii "SAVED_NO_TURBO=" ++ quoted v] }

/-- The body of the loop over `SAVED_MIN_PCT` and `SAVED_MAX_PCT`: the value and what is rejected. -/
def loadPercent (key v : Text) : Text × List Text :=
  if percentPattern.fullMatch v ∧ digitsVal v ≤ 100 then (natText 10 (digitsVal v), [])
  else ([], [key ++ ascii "=" ++ quoted v])

def loadMinPct (v : Text) (r : Restored) : Restored :=
  let (v, rejected) := loadPercent (ascii "SAVED_MIN_PCT") v
  { r with minPct := v, rejected := r.rejected ++ rejected }

def loadMaxPct (v : Text) (r : Restored) : Restored :=
  let (v, rejected) := loadPercent (ascii "SAVED_MAX_PCT") v
  { r with maxPct := v, rejected := r.rejected ++ rejected }

def addGovernor (r : Restored) (pair : Text) : Restored :=
  let c := beforeFirst 58 pair
  let g := afterFirst 58 pair
  if cpuPattern.fullMatch c ∧ governorPattern.fullMatch g then
    { r with governors := r.governors ++ [c ++ ascii ":" ++ g] }
  else { r with rejected := r.rejected ++ [ascii "governor entry " ++ quoted pair] }

def addOfflined (r : Restored) (c : Text) : Restored :=
  if cpuPattern.fullMatch c then { r with offlined := r.offlined ++ [c] }
  else { r with rejected := r.rejected ++ [ascii "offlined CPU " ++ quoted c] }

def loadMask (v : Text) (r : Restored) : Restored :=
  if maskPattern.fullMatch v then { r with defaultIrqMask := v }
  else
    { r with
      defaultIrqMask := []
      rejected := r.rejected ++ [ascii "SAVED_DEFAULT_IRQ_MASK=" ++ quoted v] }

/-- `IRQ entry '$irq $aff${extra:+ $extra}'`. -/
def irqRejection (fields : IrqFields) : Text :=
  let extra := if fields.extra = [] then [] else ascii " " ++ fields.extra
  ascii "IRQ entry " ++ quoted (fields.irq ++ ascii " " ++ fields.aff ++ extra)

def addIrq (r : Restored) (line : Text) : Restored :=
  let fields := readFields line
  if irqPattern.fullMatch fields.irq ∧ cpuListPattern.fullMatch fields.aff ∧ fields.extra = [] then
    { r with irqs := r.irqs ++ [fields.irq ++ ascii " " ++ fields.aff] }
  else { r with rejected := r.rejected ++ [irqRejection fields] }

def loadSavedState (uid : Nat) (stateDir stateFile irqFile : Path) : Except Text Restored := do
  requireTrusted stateDir uid
  if stateDir.kind ≠ .directory then throw (stateDir.name ++ ascii " is not a directory")
  requireTrusted stateFile uid
  if stateFile.kind ≠ .regular then throw (stateFile.name ++ ascii " is not a regular file")
  let value (key : String) : Text := kvGet stateFile.content (ascii key)
  let r := loadParanoid (value "SAVED_PARANOID") {}
  let r := loadNoTurbo (value "SAVED_NO_TURBO") r
  let r := loadMinPct (value "SAVED_MIN_PCT") r
  let r := loadMaxPct (value "SAVED_MAX_PCT") r
  let r := (words (value "SAVED_GOVERNORS")).foldl addGovernor r
  let r := (words (value "SAVED_OFFLINED")).foldl addOfflined r
  let r := loadMask (value "SAVED_DEFAULT_IRQ_MASK") r
  if irqFile.isThere ∨ irqFile.isSymlink then
    requireTrusted irqFile uid
    if irqFile.kind ≠ .regular then throw (irqFile.name ++ ascii " is not a regular file")
    return (readLines irqFile.content).foldl addIrq r
  else
    return r

/-! ## Saving -/

/-- What `cmd_setup` finds on the machine, and what else it writes. -/
structure Machine where
  date : Text
  paranoid : Text
  noTurbo : Text
  minPct : Text
  maxPct : Text
  /-- The online CPUs with their governors. -/
  governors : List (Text × Text)
  siblings : List Text
  defaultIrqMask : Text
  irqs : List (Text × Text)
  measure : Text
  selection : Text
  rationale : Text
  housekeeping : Text
  script : Text
  scriptSha256 : Text
  moved : Nat
  refused : Nat
  residual : Text

/-- `echo` of each line. -/
def echoAll (lines : List Text) : Text := lines.flatMap fun line => line ++ [10]

/-- `sibling_cpus | tr '\n' ' ' | sed 's/ $//'`. -/
def siblingList (siblings : List Text) : Text :=
  dropTrailing 32 (siblings.flatMap fun c => c ++ [32])

/-- `KEY="value"`. -/
def quotedLine (key : String) (value : Text) : Text :=
  ascii key ++ ascii "=\x22" ++ value ++ ascii "\x22"

/-- The state file as it is written before anything is changed. -/
def savedHead (m : Machine) : Text :=
  echoAll [
    ascii "# saved by bench_env.sh at " ++ m.date,
    ascii "SAVED_PARANOID=" ++ m.paranoid,
    ascii "SAVED_NO_TURBO=" ++ m.noTurbo,
    ascii "SAVED_MIN_PCT=" ++ m.minPct,
    ascii "SAVED_MAX_PCT=" ++ m.maxPct,
    quotedLine "SAVED_GOVERNORS" (m.governors.flatMap fun g => g.1 ++ ascii ":" ++ g.2 ++ ascii " "),
    quotedLine "SAVED_OFFLINED" (siblingList m.siblings),
    ascii "SAVED_DEFAULT_IRQ_MASK=" ++ m.defaultIrqMask] ++
  echoAll [
    quotedLine "MEASURE_CPUS" m.measure,
    quotedLine "MEASURE_SOURCE" m.selection,
    quotedLine "MEASURE_RATIONALE" m.rationale,
    quotedLine "HOUSEKEEPING" m.housekeeping,
    quotedLine "SETUP_SCRIPT" m.script,
    ascii "SETUP_SCRIPT_SHA256=" ++ m.scriptSha256]

/-- The lines that are appended to it at the end. -/
def irqSummary (moved refused : Nat) (residual : Text) : Text :=
  echoAll [
    ascii "IRQ_MOVED=" ++ natText 10 moved,
    ascii "IRQ_REFUSED=" ++ natText 10 refused,
    quotedLine "IRQ_RESIDUAL" residual]

/-- The state file at the end of the setup. -/
def savedState (m : Machine) : Text := savedHead m ++ irqSummary m.moved m.refused m.residual

def savedIrqs (m : Machine) : Text := echoAll (m.irqs.map fun i => i.1 ++ ascii " " ++ i.2)

end BenchEnv

end MatchingMachine
