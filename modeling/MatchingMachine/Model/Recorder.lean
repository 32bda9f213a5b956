import MatchingMachine.Lib.Dict
import MatchingMachine.Model.BenchRecord
import MatchingMachine.Model.LatencyReports
import Mathlib

/-!
# What the recording scripts ask of the machine

The part of `scripts/record/bench_record.py` that `bench_diagnose.py` uses too, and what `setup` and
`restore` of `scripts/env/bench_env.sh` do to the machine.  Everything a script asks of the
operating system or of another program is a call: an environment answers it or makes it raise,
knowing all that has happened before.  The trace of a run has the calls with their answers, in
order.

An exception that comes from outside, as at a signal, is raised by a call too: none comes between
two calls, say between writing the output of `setup` and `self.entered = True`.
-/

namespace MatchingMachine

namespace BenchRecord

/-! ## Measurement mode -/

/-- Something `cmd_setup` changes. -/
inductive Setting where
  | governor (cpu : Int)
  | noTurbo
  | minPerfPct
  | online (cpu : Int)
  | perfEventParanoid
  | defaultSmpAffinity
  | smpAffinityList (irq : Nat)
  deriving DecidableEq, Repr

/-- The machine, as far as measurement mode goes: the state file, and the settings that differ
from what they were when it was written. -/
structure Machine where
  stateFile : Bool := false
  changed : List Setting := []
  /-- The settings that differ from what they were, and that no state file tells of any more. -/
  lost : List Setting := []
  deriving DecidableEq, Repr

/-- How far `cmd_setup` gets. -/
inductive SetupEnd where
  /-- It dies before it writes the state file. -/
  | refused
  /-- It stops after the state file and the first `n` changes. -/
  | stopped (n : Nat)
  /-- It makes all changes, and one of them fails its verification. -/
  | unverified
  | complete
  deriving DecidableEq, Repr

/-- `cmd_setup` with the changes of `plan`: the machine after it, the changes made, and the exit
status. -/
def Machine.setup (plan : List Setting) (ending : SetupEnd) (m : Machine) :
    Machine × List Setting × Int :=
  let after (made : List Setting) : Machine :=
    { m with stateFile := true, changed := m.changed ++ made }
  if m.stateFile then (m, [], 1)
  else match ending with
    | .refused => (m, [], 1)
    | .stopped n => (after (plan.take n), plan.take n, 1)
    | .unverified => (after plan, plan, 1)
    | .complete => (after plan, plan, 0)

/-- How far `cmd_restore` gets. -/
inductive RestoreEnd where
  | refused
  /-- It stops when it has undone some of the changes. -/
  | stopped (undone : List Setting)
  /-- It removes the state file without having put back `left`: it goes on where the write of a
  governor or of an affinity is refused, and passes over a saved value that it rejects.  What it
  prints after that may still fail, so that it exits with another status than 0. -/
  | complete (left : List Setting) (status : Int)
  deriving DecidableEq, Repr

/-- What it has not put back when it removes the state file. -/
def RestoreEnd.left : RestoreEnd → List Setting
  | .complete left _ => left
  | .refused | .stopped _ => []

/-- `cmd_restore`: the machine after it and the exit status. -/
def Machine.restore (ending : RestoreEnd) (m : Machine) : Machine × Int :=
  if !m.stateFile then (m, 1)
  else match ending with
    | .refused => (m, 1)
    | .stopped undone => ({ m with changed := m.changed.filter (· ∉ undone) }, 1)
    | .complete left status =>
        ({ stateFile := false, changed := [], lost := m.lost ++ m.changed.filter (· ∈ left) },
          status)

/-! ## Calls -/

/-- What a Python step raises. -/
inductive Raised where
  | processLookupError
  /-- An `OSError` of another kind. -/
  | osError
  | valueError (message : String)
  | runtimeError (message : String)
  | keyError (key : String)
  /-- `sys.exit(message)` -/
  | systemExit (message : String)
  /-- `SystemExit(status)` -/
  | exit (status : Nat)
  /-- `parser.error(message)` -/
  | usage (message : String)
  | other (name : String)
  deriving DecidableEq, Repr

/-- A set of CPUs. -/
abbrev CpuSet := Finset Int

def sorted {α : Type} [LinearOrder α] (s : Finset α) : List α := s.sort (· ≤ ·)

/-- The start time and the affinity of a task. -/
structure Entry where
  start : Option Text
  allowed : CpuSet

/-- `affinity_baseline.json`, by task id. -/
abbrev Baseline := Dict Nat Entry

/-- `subprocess.CompletedProcess` -/
structure Completed where
  returncode : Int
  stdout : String := ""
  stderr : String := ""

/-- What `launch` returns, without the telemetry. -/
structure Launched where
  out : List UInt8
  marks : List Mark
  exitStatus : Int

/-- An entry of `benchmarks` in Google Benchmark's JSON. -/
structure BenchmarkEntry where
  name : String
  errorOccurred : Bool := false
  errorMessage : String := ""
  runType : String
  runName : String
  repetitionIndex : Nat
  realTime : ℚ
  cpuTime : ℚ
  timeUnit : String
  iterations : Nat

inductive Call where
  /-- `os.access(path, os.X_OK)` -/
  | executable (path : String)
  /-- `cmake --build` -/
  | build
  /-- What `prepare` finds out about the sources and the binaries, and the files it makes. -/
  | describe
  | pathExists (path : String)
  | isFile (path : String)
  /-- `shutil.which(name)` -/
  | which (name : String)
  | makeDirectory (name : String)
  /-- `git rev-parse HEAD` -/
  | gitCommit
  /-- The name of a process, from `/proc/<pid>/comm`. -/
  | readComm (pid : Nat)
  /-- The signals that arrived while `privileged` ran its command. -/
  | pendingSignals
  | readText (path : String)
  | log (message : String)
  /-- The tasks `user_tasks()` yields, as process and task. -/
  | userTasks
  /-- The text of `/proc/<pid>/task/<tid>/stat`. -/
  | readStat (pid tid : Nat)
  | getAffinity (tid : Nat)
  | setAffinity (tid : Nat) (cpus : CpuSet)
  | onlineCpus
  /-- `self.recovery.write_text(json.dumps(baseline))` -/
  | writeRecovery (baseline : Baseline)
  | readRecovery (file : String)
  | unlinkRecovery
  | writeText (name text : String)
  | writeBytes (name : String) (bytes : List UInt8)
  /-- The output an exception carries, or nothing. -/
  | writeOutput (name : String)
  /-- The metadata of a launch: the condition, the command, whether it is complete, and the
  exception that ended it. -/
  | writeCommand (name condition : String) (command : List String) (complete : Bool)
      (error : Option Raised)
  /-- `write_json(path, value)`, without the value. -/
  | writeJson (name : String)
  /-- `bench_env.sh cores --list` -/
  | listCores
  /-- `capture_env.sh` -/
  | captureEnv (name : String)
  /-- `json.loads(path.read_text())`, kept as text. -/
  | readJson (name : String)
  | warmUp (core : Int) (seconds : Int)
  /-- With what comes before the binary on the command line, and with changes of `os.environ`. -/
  | launch (binary : String) (cores : List Int) (measure : CpuSet) (args : List String)
      (json : String) (prefixArgs : List String) (overrides : List (String × String))
  /-- `json.load(fh)["benchmarks"]` -/
  | loadJson (name : String)
  | write
  | summary
  /-- The CSV files and `env.json` of a diagnostic study. -/
  | checkpoint
  | archive

@[reducible] def Call.Answer : Call → Type
  | executable _ => Bool
  | pathExists _ => Bool
  | isFile _ => Bool
  | which _ => Option String
  | gitCommit => Completed
  | build => Completed
  | userTasks => List (Nat × Nat)
  | readStat _ _ => Text
  | getAffinity _ => CpuSet
  | onlineCpus => CpuSet
  | readRecovery _ => Baseline
  | listCores => Completed
  | captureEnv _ => Completed
  | readJson _ => String
  | launch .. => Launched
  | loadJson _ => List BenchmarkEntry
  | readComm _ => String
  | pendingSignals => List Nat
  | readText _ => String
  | _ => Unit

/-- Where a call is made: in `leave` or elsewhere. -/
inductive Site where
  | leave
  | body
  deriving DecidableEq, Repr

inductive Event where
  /-- `sudo -n mm-bench-env setup`, with the changes it made. -/
  | setup (made : List Setting) (result : Except Raised Completed)
  /-- `sudo -n mm-bench-env restore` -/
  | restore (result : Except Raised Completed)
  | answered (site : Site) (c : Call) (answer : Except Raised c.Answer)

/-- What the environment makes of `setup`.  When `raised` is given, `subprocess.run` raises. -/
structure SetupRun where
  plan : List Setting
  ending : SetupEnd
  stdout : String := ""
  stderr : String := ""
  raised : Option Raised := none

structure RestoreRun where
  ending : RestoreEnd
  stdout : String := ""
  stderr : String := ""
  raised : Option Raised := none

structure Environment where
  /-- `os.getpid()` -/
  pid : Nat
  /-- `os.cpu_count() or 1` -/
  cpuCount : Nat
  /-- `str(exc)` -/
  str : Raised → String
  setup : List Event → SetupRun
  restore : List Event → RestoreRun
  answer : List Event → Site → (c : Call) → Except Raised c.Answer

/-! ## The state of a run -/

/-- A study, the machine, and what has happened so far. -/
structure World (σ : Type) where
  study : σ
  machine : Machine
  trace : List Event := []

abbrev Recorder (σ : Type) := EStateM Raised (World σ)

variable {σ : Type}

def raising {α : Type} : Except Raised α → Recorder σ α
  | .ok a => pure a
  | .error e => throw e

def note (e : Event) : Recorder σ Unit := modify fun w => { w with trace := w.trace ++ [e] }

def modifyStudy (f : σ → σ) : Recorder σ Unit := modify fun w => { w with study := f w.study }

def call (env : Environment) (site : Site) (c : Call) : Recorder σ c.Answer := do
  let w ← get
  let answer := env.answer w.trace site c
  note (.answered site c answer)
  raising answer

def raiseIf (condition : Bool) (e : Raised) : Recorder σ Unit :=
  if condition then throw e else pure ()

/-- `run("sudo", "-n", INSTALLED, "setup")` -/
def runSetup (env : Environment) : Recorder σ Completed := do
  let w ← get
  let run := env.setup w.trace
  let (machine, made, status) := w.machine.setup run.plan run.ending
  let done : Completed := { returncode := status, stdout := run.stdout, stderr := run.stderr }
  let result := run.raised.elim (.ok done) .error
  set { w with machine := machine }
  note (.setup made result)
  raising result

/-- `run("sudo", "-n", INSTALLED, "restore")` -/
def runRestore (env : Environment) : Recorder σ Completed := do
  let w ← get
  let run := env.restore w.trace
  let (machine, status) := w.machine.restore run.ending
  let done : Completed := { returncode := status, stdout := run.stdout, stderr := run.stderr }
  let result := run.raised.elim (.ok done) .error
  set { w with machine := machine }
  note (.restore result)
  raising result

/-! ## Affinity -/

section Affinity

variable [Unicode]

/-- `text.strip()` -/
def strip (text : Text) : Text := (text.dropWhile Unicode.isSpace).rdropWhile Unicode.isSpace

/-- `text.split()` -/
def splitSpace (text : Text) : List Text :=
  (text.splitOnP Unicode.isSpace).filter fun word => !word.isEmpty

/-- `text.rsplit(")", 1)[1].split()[19]` -/
def startField (text : Text) : Option Text :=
  if ')' ∈ text then (splitSpace (text.rtakeWhile (· != ')')))[19]? else none

def taskStart (env : Environment) (site : Site) (pid tid : Nat) : Recorder σ (Option Text) :=
  tryCatch (startField <$> call env site (.readStat pid tid)) fun e =>
    match e with
    | .processLookupError | .osError => pure none
    | e => throw e

def addBaseline (env : Environment) (base : Baseline) (task : Nat × Nat) : Recorder σ Baseline :=
  tryCatch
    (do
      let start ← taskStart env .body task.1 task.2
      let allowed ← call env .body (.getAffinity task.2)
      return base.set task.2 { start, allowed })
    fun e =>
      match e with
      | .processLookupError | .osError => pure base
      | e => throw e

def affinityBaseline (env : Environment) : Recorder σ Baseline := do
  let tasks ← call env .body .userTasks
  tasks.foldlM (addBaseline env) Dict.empty

/-- The affinity of the first of the tasks that is in the baseline with the start time it has
now. -/
def knownAffinity (env : Environment) (site : Site) (baseline : Baseline) (pid : Nat) :
    List Nat → Recorder σ (Option CpuSet)
  | [] => pure none
  | owner :: owners =>
      match baseline.get? owner with
      | none => knownAffinity env site baseline pid owners
      | some entry => do
          let start ← taskStart env site pid owner
          if entry.start = start then return some entry.allowed
          else knownAffinity env site baseline pid owners

/-- `(want & online) - exclude or online - exclude` -/
def restrict (online exclude want : CpuSet) : CpuSet :=
  if (want ∩ online) \ exclude = ∅ then online \ exclude else (want ∩ online) \ exclude

/-- The counts `apply_affinity` returns, and the `failures` it collects. -/
structure Pass where
  seen : Int := 0
  changed : Nat := 0
  failed : Nat := 0
  failures : List (Nat × Nat) := []

/-- `set(range(os.cpu_count() or 1))` -/
def Environment.everything (env : Environment) : CpuSet :=
  (Finset.range env.cpuCount).map Nat.castEmbedding

/-- The body of the loop over the tasks. -/
def retarget (env : Environment) (site : Site) (baseline : Baseline) (exclude online : CpuSet)
    (pass : Pass) (task : Nat × Nat) : Recorder σ Pass :=
  if task.1 = env.pid then pure pass
  else do
    let pass := { pass with seen := pass.seen + 1 }
    let known ← knownAffinity env site baseline task.1 [task.2, task.1]
    let want := restrict online exclude (known.getD env.everything)
    tryCatch
      (do
        let allowed ← call env site (.getAffinity task.2)
        if allowed ≠ want then
          call env site (.setAffinity task.2 want)
          return { pass with changed := pass.changed + 1 }
        else return pass)
      fun e =>
        match e with
        | .processLookupError => pure { pass with seen := pass.seen - 1 }
        | .osError =>
            pure { pass with failed := pass.failed + 1, failures := pass.failures ++ [task] }
        | e => throw e

def applyAffinity (env : Environment) (site : Site) (baseline : Baseline) (exclude : CpuSet) :
    Recorder σ Pass := do
  let online ← call env site .onlineCpus
  let tasks ← call env site .userTasks
  tasks.foldlM (retarget env site baseline exclude online) {}

end Affinity

/-! ## Output of the programs -/

structure Sample where
  benchmark : String
  repetition : Nat
  realTime : ℚ
  cpuTime : ℚ
  iterations : Nat

def warmupRepetitions : Int := 1

/-- Nanoseconds in a `time_unit`. -/
def nanoseconds (unit : String) : Except Raised ℚ :=
  match unit with
  | "ns" => pure 1
  | "us" => pure (10 ^ 3)
  | "ms" => pure (10 ^ 6)
  | "s" => pure (10 ^ 9)
  | unit => throw (.keyError unit)

def samples (json : String) (benchmarks : List BenchmarkEntry) : Except Raised (List Sample) := do
  let errors := (benchmarks.filter (·.errorOccurred)).map fun b => b.name ++ ": " ++ b.errorMessage
  if !errors.isEmpty then
    throw (.valueError (json ++ ": benchmarks reported errors: " ++ "; ".intercalate errors))
  (benchmarks.filter (·.runType = "iteration")).mapM fun b => do
    let unit ← nanoseconds b.timeUnit
    return { benchmark := b.runName, repetition := b.repetitionIndex
             realTime := Binary64.round (b.realTime * unit)
             cpuTime := Binary64.round (b.cpuTime * unit), iterations := b.iterations }

/-- What `intervals` raises, to its callers. -/
def IntervalsError.raised : IntervalsError → Raised
  | .indexError => .other "IndexError"
  | .unicodeDecodeError => .other "UnicodeDecodeError"
  | .overflowError => .other "OverflowError"

section Cores

variable [Unicode]

/-- `int(text)` -/
def parseInt (text : Text) : Except Raised Int :=
  let body := strip text
  let digits := if body.head? = some '-' ∨ body.head? = some '+' then body.tail else body
  let groups := digits.splitOn '_'
  if groups.all fun group => !group.isEmpty && group.all Unicode.isDecimal then do
    let value ← (int groups.flatten).mapError .valueError
    return if body.head? = some '-' then -(value : Int) else value
  else throw (.valueError ("invalid literal for int() with base 10: " ++ String.ofList text))

/-- `[int(c) for c in stdout.strip().split(",") if c]` -/
def coreNumbers (stdout : String) : Except Raised (List Int) :=
  (((strip stdout.toList).splitOn ',').filter fun part => !part.isEmpty).mapM parseInt

end Cores

end BenchRecord

end MatchingMachine
