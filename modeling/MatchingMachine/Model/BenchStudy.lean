import MatchingMachine.Model.Recorder
import Mathlib

/-!
# Recording a study

`Study` and `main` of `scripts/record/bench_record.py`.
-/

namespace MatchingMachine

namespace BenchRecord

/-- The entry of a session in `env["sessions"]`. -/
structure SessionEnv where
  session : Nat
  cores : List Int
  housekeeping : CpuSet
  before : String
  after : String
  /-- Tasks seen, not at their baseline, and not changeable. -/
  affinityRestored : Option (Int × Nat × Nat)

/-- What identifies a launch in the rows. -/
structure Key where
  session : Nat
  round : Nat
  condition : String
  binary : String

/-- The rows, where numbers are not yet rounded or printed. -/
structure Rows where
  /-- Position, cores, and tasks moved. -/
  launches : List (Key × Nat × List Int × Nat) := []
  samples : List (Key × Sample) := []
  intervals : List (Key × Interval) := []
  latency : List (Key × LatencyReport) := []

/-- The fields of `Study` that change. -/
structure Study where
  rows : Rows := {}
  sessions : List SessionEnv := []
  baseline : Option Baseline := none
  entered : Bool := false
  roundIndex : Nat := 0

/-- The options of a study, as `main` leaves them. -/
structure Design where
  sessions : Int
  rounds : Int
  repetitions : Int
  warmup : Int
  conditions : List String
  benchmarkArgs : List String := []
  unpinned : Bool
  smoke : Bool

/-- `die(message)` under a condition. -/
def dieIf (condition : Bool) (message : String) : Recorder Study Unit :=
  raiseIf condition (.systemExit ("bench_record.py: " ++ message))

/-! ## One launch -/

section Study

variable [Unicode]

/-- `BINARIES`, with whether a binary gets one core. -/
def binaries : List (String × Bool) :=
  [("bench_order_book", true), ("bench_spsc_ring_buffer", false),
    ("bench_matching_engine", false), ("bench_baseline_mutex", false)]

/-- `f"{n:02d}"` -/
def twoDigits (n : Nat) : String := if n < 10 then "0" ++ toString n else toString n

def one (env : Environment) (o : Design) (key : Key) (position : Nat) (cores : List Int)
    (measure : CpuSet) (moved : Nat) : Recorder Study Unit := do
  let stem := "s" ++ toString key.session ++ "_r" ++ twoDigits key.round ++ "_" ++ key.condition ++
    "_" ++ key.binary
  let args := ("--benchmark_repetitions=" ++ toString o.repetitions) :: o.benchmarkArgs
  let launched ← call env .body (.launch key.binary cores measure args (stem ++ ".json") [] [])
  call env .body (.writeBytes (stem ++ ".log") launched.out)
  dieIf (launched.exitStatus ≠ 0)
    (key.binary ++ " exited with " ++ toString launched.exitStatus ++ "; see " ++ stem ++ ".log")
  modifyStudy fun t =>
    { t with rows.launches := t.rows.launches ++ [(key, position, cores, moved)] }
  let benchmarks ← call env .body (.loadJson (stem ++ ".json"))
  let measured ← raising (samples (stem ++ ".json") benchmarks)
  modifyStudy fun t => { t with rows.samples := t.rows.samples ++ measured.map (key, ·) }
  let spans ← raising ((intervals launched.out launched.marks).mapError IntervalsError.raised)
  modifyStudy fun t => { t with rows.intervals := t.rows.intervals ++ spans.map (key, ·) }
  let reports ← raising ((latencyReports launched.out).mapError .valueError)
  modifyStudy fun t => { t with rows.latency := t.rows.latency ++ reports.map (key, ·) }

/-! ## Sessions -/

/-- The launches of a round. -/
def launches (env : Environment) (o : Design) (s r : Nat) (condition : String)
    (order : List (String × Bool)) (baseline : Baseline) (cores : List Int) : Recorder Study Unit := do
  for ((binary, solo), position) in order.zipIdx 1 do
    let pass ← if condition = "cleared" then applyAffinity env .body baseline cores.toFinset
      else pure {}
    one env o { session := s, round := r, condition, binary } position
      (if solo then cores.take 1 else cores) cores.toFinset pass.changed

/-- The body of the loop over the rounds. -/
def round (env : Environment) (o : Design) (s : Nat) (baseline : Baseline) (cores : List Int)
    (r : Nat) : Recorder Study Unit := do
  let condition := o.conditions.getD ((r - 1 + (s - 1)) % o.conditions.length) ""
  let index := (← get).study.roundIndex % binaries.length
  modifyStudy fun t => { t with roundIndex := t.roundIndex + 1 }
  tryFinally
    (launches env o s r condition (binaries.drop index ++ binaries.take index) baseline cores)
    (if condition = "cleared" then applyAffinity env .body baseline ∅ else pure {})
  call env .body (.log ("session " ++ toString s ++ " round " ++ toString r ++ "/" ++
    toString o.rounds ++ " (" ++ condition ++ ") done"))

def rounds (env : Environment) (o : Design) (s : Nat) (baseline : Baseline) (cores : List Int) :
    Recorder Study Unit := do
  for r in List.range' 1 o.rounds.toNat do
    round env o s baseline cores r

def restoreFailed (done : Completed) : String :=
  "RESTORE FAILED — run `sudo -n /usr/local/sbin/mm-bench-env restore` by hand:\n" ++
    done.stdout ++ done.stderr

/-- The part of `leave` that leaves measurement mode. -/
def leaveMode (env : Environment) : Recorder Study Unit := do
  if (← get).study.entered then
    let done ← runRestore env
    modifyStudy fun t => { t with entered := false }
    if done.returncode ≠ 0 then call env .leave (.log (restoreFailed done))

def notRestored (pass : Pass) : String :=
  "affinity: " ++ toString pass.changed ++ " tasks not at baseline, " ++ toString pass.failed ++
    " not changeable"

/-- The first pass of `leave` over the tasks. -/
def firstPass (env : Environment) (baseline : Baseline) : Recorder Study Pass := do
  let online ← call env .leave .onlineCpus
  call env .leave (.setAffinity 0 online)
  applyAffinity env .leave baseline ∅

/-- The second pass, which counts what the first left. -/
def secondPass (env : Environment) (baseline : Baseline) : Recorder Study (Int × Nat × Nat) := do
  let pass ← applyAffinity env .leave baseline ∅
  modifyStudy fun t => { t with baseline := none }
  call env .leave .unlinkRecovery
  if pass.changed ≠ 0 ∨ pass.failed ≠ 0 then call env .leave (.log (notRestored pass))
  return (pass.seen, pass.changed, pass.failed)

/-- The part of `leave` that returns every task to its baseline affinity. -/
def returnTasks (env : Environment) : Recorder Study (Option (Int × Nat × Nat)) := do
  match (← get).study.baseline with
  | none => return none
  | some baseline =>
      let _ ← firstPass env baseline
      some <$> secondPass env baseline

/-- The order matters: an affinity set while CPUs are offline does not grow back. -/
def leave (env : Environment) : Recorder Study (Option (Int × Nat × Nat)) := do
  leaveMode env
  returnTasks env

def captureEnv (env : Environment) (name : String) : Recorder Study String := do
  let _ ← call env .body (.captureEnv name)
  call env .body (.readJson name)

/-- The part of `session` that comes before measurement mode, and `setup`. -/
def enter (env : Environment) (o : Design) (s : Nat) : Recorder Study Baseline := do
  let baseline ← affinityBaseline env
  modifyStudy fun t => { t with baseline := some baseline }
  call env .body (.writeRecovery baseline)
  if !o.unpinned then
    let done ← runSetup env
    call env .body (.writeText ("s" ++ toString s ++ "_setup.txt") (done.stdout ++ done.stderr))
    dieIf (done.returncode ≠ 0) ("setup failed:\n" ++ done.stdout ++ done.stderr)
    modifyStudy fun t => { t with entered := true }
  return baseline

/-- The part of `session` from `setup` to `leave`. -/
def measure (env : Environment) (o : Design) (s : Nat) (baseline : Baseline) :
    Recorder Study SessionEnv := do
  let listed ← call env .body .listCores
  let cores ← raising (coreNumbers listed.stdout)
  dieIf (listed.returncode ≠ 0 ∨ cores.length ≠ 2)
    ("could not determine the measurement cores: " ++ listed.stdout ++ listed.stderr)
  let online ← call env .body .onlineCpus
  let housekeeping := online \ cores.toFinset
  dieIf (¬ cores.toFinset ⊆ online ∨ housekeeping = ∅)
    ("measurement cores " ++ toString cores ++ " need to be online with at least one other core " ++
      "(online: " ++ toString (sorted online) ++ ")")
  call env .body (.setAffinity 0 housekeeping)
  let before ← captureEnv env ("s" ++ toString s ++ "_env_before.json")
  call env .body (.log ("session " ++ toString s ++ ": cores " ++ toString cores ++
    ", housekeeping " ++ toString (sorted housekeeping) ++ "; warm-up"))
  call env .body (.warmUp (cores.headD 0) o.warmup)
  rounds env o s baseline cores
  let after ← captureEnv env ("s" ++ toString s ++ "_env_after.json")
  return { session := s, cores, housekeeping, before, after, affinityRestored := none }

def session (env : Environment) (o : Design) (s : Nat) : Recorder Study Unit := do
  let baseline ← enter env o s
  let entry ← measure env o s baseline
  let affinityRestored ← leave env
  modifyStudy fun t => { t with sessions := t.sessions ++ [{ entry with affinityRestored }] }

/-! ## The program -/

def alreadyActive : String :=
  "measurement mode is already active; run `sudo -n /usr/local/sbin/mm-bench-env restore` first"

def notInstalled : String :=
  "/usr/local/sbin/mm-bench-env is not installed; see scripts/env/install_bench_env.sh, " ++
    "or pass --unpinned"

def prepare (env : Environment) (o : Design) : Recorder Study Unit := do
  for (name, _) in binaries do
    let built ← call env .body (.executable name)
    dieIf (!built) ("missing " ++ name ++ "; build Release first")
  dieIf (← get).machine.stateFile alreadyActive
  if !o.unpinned then
    let installed ← call env .body (.executable "/usr/local/sbin/mm-bench-env")
    dieIf (!installed) notInstalled
  let built ← call env .body .build
  dieIf (built.returncode ≠ 0) "Release build failed"
  call env .body .describe
  call env .body (.log "study ->")

/-- The command line. -/
structure Options where
  sessions : Int := 4
  rounds : Int := 8
  repetitions : Int := 6
  conditions : String := "shared,cleared"
  warmup : Int := 5
  unpinned : Bool := false
  smoke : Bool := false
  restoreAffinity : Option String := none

/-- `--smoke` overrides the size of the study. -/
def Options.design (o : Options) : Design :=
  let conditions := o.conditions.splitOn ","
  if o.smoke then
    { sessions := 1, rounds := conditions.length, repetitions := 2, warmup := 1, conditions
      benchmarkArgs := ["--benchmark_min_time=0.01s"], unpinned := o.unpinned, smoke := true }
  else
    { sessions := o.sessions, rounds := o.rounds, repetitions := o.repetitions, warmup := o.warmup
      conditions, unpinned := o.unpinned, smoke := false }

def sessions (env : Environment) (o : Design) : Recorder Study Unit := do
  for s in List.range' 1 o.sessions.toNat do
    session env o s

def main (env : Environment) (o : Options) : Recorder Study Unit :=
  match o.restoreAffinity with
  | some file => do
      let baseline ← call env .body (.readRecovery file)
      let pass ← applyAffinity env .body baseline ∅
      call env .body (.log (toString pass.seen ++ " tasks, " ++ toString pass.changed ++
        " changed, " ++ toString pass.failed ++ " not changeable"))
  | none => do
      dieIf (o.repetitions ≤ warmupRepetitions)
        ("--repetitions must exceed the " ++ toString warmupRepetitions ++ " warm-up repetition")
      dieIf (!(o.conditions.splitOn ",").all (["shared", "cleared"].contains ·))
        "--conditions takes shared and cleared"
      prepare env o.design
      tryFinally (sessions env o.design) (leave env)
      call env .body .write
      call env .body .summary

/-- What happens in a run of the script on a machine. -/
def trace (env : Environment) (o : Options) (m : Machine) : List Event :=
  match (main env o).run { study := {}, machine := m } with
  | .ok _ w => w.trace
  | .error _ w => w.trace

end Study

end BenchRecord

end MatchingMachine
