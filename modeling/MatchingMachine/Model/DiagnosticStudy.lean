import MatchingMachine.Model.Recorder
import Mathlib

/-!
# Recording a diagnostic study

`privileged`, `DiagnosticStudy` and `main` of `scripts/record/bench_diagnose.py`, for a matrix that
`load_matrix` has accepted.
-/

namespace MatchingMachine

namespace BenchDiagnose

open BenchRecord

structure Condition where
  name : String
  binary : String
  filter : String
  prefixArgs : List String := []
  overrides : List (String × String) := []
  args : List String := []
  deriving DecidableEq

inductive Interference where
  | cleared
  | shared
  deriving DecidableEq, Repr

/-- The command line. -/
structure Options where
  sessions : Int := 2
  blocks : Int := 8
  repetitions : Int := 6
  warmup : Int := 3
  interference : Interference := .cleared
  launchTimeout : ℚ := 300
  allowUnmovable : List String := []

/-- The JSON of `capture_env.sh`, and what is added to it. -/
structure Captured where
  json : String
  randomizeVaSpace : Text

/-- A session in `env["sessions"]`. -/
structure Info where
  session : Nat
  setupExitStatus : Option Int := none
  cores : List Int := []
  housekeeping : List Int := []
  before : Option Captured := none
  /-- The exit status of the warm-up. -/
  warmup : Option Int := none
  unmovableTasks : Dict String Nat := Dict.empty
  after : Option Captured := none
  restoreExitStatus : Option Int := none
  signalsDuringRestore : List Nat := []
  /-- Tasks seen, not at their baseline, and not changeable. -/
  affinityRestored : Option (Int × Nat × Nat) := none
  cleanupErrors : List String := []

/-- What identifies a launch in the rows. -/
structure Key where
  session : Nat
  block : Nat
  condition : String
  binary : String
  deriving DecidableEq

/-- The rows, where numbers are not yet rounded or printed. -/
structure Rows where
  /-- Position, cores, and tasks seen, moved and not movable. -/
  launches : List (Key × Nat × List Int × Int × Nat × Nat) := []
  samples : List (Key × Sample) := []
  intervals : List (Key × Interval) := []
  latency : List (Key × LatencyReport) := []

/-- The fields of `DiagnosticStudy` that change. -/
structure Study where
  rows : Rows := {}
  sessions : List Info := []
  complete : Bool := false
  error : Option Raised := none
  baseline : Option Baseline := none
  originalAffinity : CpuSet := ∅
  setupAttempted : Bool := false
  ownsOutput : Bool := false

/-- `self.current_session`, which is the last of `env["sessions"]`. -/
def currentSession (t : Study) : Info := t.sessions.getLastD { session := 0 }

def modifyInfo (f : Info → Info) : Recorder Study Unit :=
  modifyStudy fun t => { t with sessions := t.sessions.dropLast ++ [f (currentSession t)] }

section Study

variable [Unicode]

/-! ## One launch -/

/-- A number as wide as the largest. -/
def padded (largest : Int) (n : Nat) : String :=
  "".pushn '0' ((toString largest).length - (toString n).length) ++ toString n

/-- The last component of a path. -/
def baseName (path : String) : String := (path.splitOn "/").getLastD ""

/-- The requested repetitions of each benchmark are there. -/
def repetitionsComplete (repetitions : Int) (measured : List Sample) : Bool :=
  !measured.isEmpty && measured.all fun s =>
    ((measured.filter (·.benchmark = s.benchmark)).map (·.repetition)).toFinset =
      Finset.range repetitions.toNat

def incomplete (stem : String) : Raised :=
  .runtimeError (stem ++ " did not produce the requested repetitions")

def exited (stem : String) (status : Int) : Raised :=
  .runtimeError (stem ++ " exited " ++ toString status ++ "; see its raw log")

/-- `recorder.launch`, with the metadata before and after it. -/
def launchCondition (env : Environment) (o : Options) (stem : String) (condition : Condition)
    (cores : List Int) (measure : CpuSet) : Recorder Study Launched := do
  let json := stem ++ ".json"
  let args := ("--benchmark_filter=" ++ condition.filter) ::
    ("--benchmark_repetitions=" ++ toString o.repetitions) :: condition.args
  let command := ["taskset", "-c", ",".intercalate ((sorted cores.toFinset).map toString)] ++
    condition.prefixArgs ++ [condition.binary, "--benchmark_out_format=json",
      "--benchmark_out=" ++ json] ++ args
  call env .body (.writeCommand stem condition.name command false none)
  let launched ← tryCatch
    (call env .body
      (.launch condition.binary cores measure args json condition.prefixArgs condition.overrides))
    fun e => do
      call env .body (.writeOutput (stem ++ ".log"))
      call env .body (.writeCommand stem condition.name command false (some e))
      throw e
  call env .body (.writeBytes (stem ++ ".log") launched.out)
  call env .body (.writeCommand stem condition.name command true none)
  return launched

/-- The rows of a launch that ended well. -/
def record (env : Environment) (o : Options) (stem : String) (key : Key) (launched : Launched) :
    Recorder Study Unit := do
  let benchmarks ← call env .body (.loadJson (stem ++ ".json"))
  let measured ← raising (samples (stem ++ ".json") benchmarks)
  modifyStudy fun t => { t with rows.samples := t.rows.samples ++ measured.map (key, ·) }
  raiseIf (!repetitionsComplete o.repetitions measured) (incomplete stem)
  let spans ← raising ((intervals launched.out launched.marks).mapError IntervalsError.raised)
  modifyStudy fun t => { t with rows.intervals := t.rows.intervals ++ spans.map (key, ·) }
  let reports ← raising ((latencyReports launched.out).mapError .valueError)
  modifyStudy fun t => { t with rows.latency := t.rows.latency ++ reports.map (key, ·) }
  call env .body .checkpoint

def one (env : Environment) (o : Options) (matrix : List Condition) (session block position : Nat)
    (condition : Condition) (cores : List Int) (measure : CpuSet) (moved : Int × Nat × Nat) :
    Recorder Study Unit := do
  let stem := "s" ++ padded o.sessions session ++ "_b" ++ padded o.blocks block ++ "_c" ++
    padded matrix.length (matrix.idxOf condition)
  let key : Key := { session, block, condition := condition.name
                     binary := baseName condition.binary }
  let launched ← launchCondition env o stem condition cores measure
  modifyStudy fun t =>
    { t with rows.launches := t.rows.launches ++ [(key, position, cores, moved)] }
  call env .body .checkpoint
  raiseIf (launched.exitStatus ≠ 0) (exited stem launched.exitStatus)
  record env o stem key launched

/-! ## Sessions -/

def environmentCaptureFailed (done : Completed) : Raised :=
  .runtimeError ("environment capture failed: " ++ done.stderr)

def captureEnv (env : Environment) (name : String) : Recorder Study Captured := do
  let done ← call env .body (.captureEnv name)
  if done.returncode ≠ 0 then
    call env .body (.writeText (name ++ ".error.log") (done.stdout ++ done.stderr))
    throw (environmentCaptureFailed done)
  let json ← call env .body (.readJson name)
  let text ← call env .body (.readText "/proc/sys/kernel/randomize_va_space")
  call env .body (.writeJson name)
  return { json, randomizeVaSpace := strip text.toList }

/-- `setup` or `restore`, with the signals that came in the meantime. -/
def privileged (env : Environment) (site : Site) (action : Recorder Study Completed)
    (destination : String) : Recorder Study (Completed × List Nat) := do
  let result ← action
  call env site (.writeText destination (result.stdout ++ result.stderr))
  let pending ← call env site .pendingSignals
  return (result, pending)

def taskName (env : Environment) (pid : Nat) : Recorder Study String :=
  tryCatch ((fun text => String.ofList (strip text.toList)) <$> call env .body (.readComm pid))
    fun e =>
      match e with
      | .processLookupError | .osError => pure "?"
      | e => throw e

def couldNotClear (failed : Nat) (unexpected : List String) : Raised :=
  .runtimeError ("could not clear " ++ toString failed ++
    " user tasks from measurement cores: " ++ ", ".intercalate unexpected)

/-- The largest count of each name so far. -/
def recordUnmovable (names : List String) (recorded : Dict String Nat) : Dict String Nat :=
  names.eraseDups.foldl
    (fun recorded name =>
      recorded.set name (max ((recorded.get? name).getD 0) (names.count name)))
    recorded

/-- `self.baseline` is given, as it is set in every session. -/
def clear (env : Environment) (o : Options) (baseline : Baseline) (measure : CpuSet) :
    Recorder Study (Int × Nat × Nat) := do
  let pass ← applyAffinity env .body baseline measure
  let names ← pass.failures.mapM fun task => taskName env task.1
  let unexpected := sorted (names.toFinset \ o.allowUnmovable.toFinset)
  raiseIf (!unexpected.isEmpty) (couldNotClear pass.failed unexpected)
  modifyInfo fun info => { info with unmovableTasks := recordUnmovable names info.unmovableTasks }
  return (pass.seen, pass.changed, pass.failed)

/-- The launches of a block. -/
def launches (env : Environment) (o : Options) (matrix : List Condition) (session block : Nat)
    (order : List Condition) (baseline : Baseline) (cores : List Int) : Recorder Study Unit := do
  for (condition, position) in order.zipIdx 1 do
    let moved ← if o.interference = .cleared then clear env o baseline cores.toFinset
      else pure (0, 0, 0)
    one env o matrix session block position condition cores cores.toFinset moved

def blocks (env : Environment) (o : Options) (matrix : List Condition) (session : Nat)
    (baseline : Baseline) (cores : List Int) : Recorder Study Unit := do
  for block in List.range' 1 o.blocks.toNat do
    let offset := ((session - 1) * o.blocks.toNat + block - 1) % matrix.length
    launches env o matrix session block (matrix.drop offset ++ matrix.take offset) baseline cores
    call env .body (.log ("session " ++ toString session ++ " block " ++ toString block ++ "/" ++
      toString o.blocks ++ " complete"))

/-- The warm-up of a session. -/
def warmUp (env : Environment) (o : Options) (session : Nat) (cores : List Int) :
    Recorder Study Unit := do
  let name := "s" ++ toString session ++ "_warmup"
  let launched ← tryCatch
    (call env .body (.launch "bench_order_book" (cores.take 1) cores.toFinset
      ["--benchmark_filter=BM_AddOrder_NoMatch_V3", "--benchmark_repetitions=1",
        "--benchmark_min_time=" ++ toString o.warmup ++ "s"] (name ++ ".json") [] []))
    fun e => do
      call env .body (.writeOutput (name ++ ".log"))
      throw e
  call env .body (.writeBytes (name ++ ".log") launched.out)
  modifyInfo fun info => { info with warmup := some launched.exitStatus }
  raiseIf (launched.exitStatus ≠ 0)
    (.runtimeError ("session " ++ toString session ++ " warm-up failed"))

def setupFailed (done : Completed) : Raised :=
  .runtimeError ("setup failed: " ++ done.stdout ++ done.stderr)

def invalidCores (listed : Completed) : Raised :=
  .runtimeError ("invalid measurement cores: " ++ listed.stdout ++ listed.stderr)

def raisePending (pending : List Nat) : Recorder Study Unit :=
  match pending with
  | [] => pure ()
  | signal :: _ => throw (.exit (128 + signal))

/-- What a session does before `try`. -/
def beginSession (env : Environment) (number : Nat) : Recorder Study Baseline := do
  raiseIf (← get).machine.stateFile
    (.runtimeError "measurement mode became active before setup")
  let original ← call env .body (.getAffinity 0)
  modifyStudy fun t => { t with originalAffinity := original }
  let baseline ← affinityBaseline env
  modifyStudy fun t => { t with baseline := some baseline }
  call env .body (.writeRecovery baseline)
  modifyStudy fun t =>
    { t with sessions := t.sessions ++ [{ session := number }], setupAttempted := true }
  return baseline

/-- From `setup` to the last block. -/
def span (env : Environment) (o : Options) (matrix : List Condition) (number : Nat)
    (baseline : Baseline) : Recorder Study Unit := do
  let (result, pending) ← privileged env .body (runSetup env) ("s" ++ toString number ++ "_setup.txt")
  modifyInfo fun info => { info with setupExitStatus := some result.returncode }
  raiseIf (result.returncode ≠ 0) (setupFailed result)
  raisePending pending
  let listed ← call env .body .listCores
  let cores ← raising (coreNumbers listed.stdout)
  let online ← call env .body .onlineCpus
  let housekeeping := online \ cores.toFinset
  raiseIf (listed.returncode ≠ 0 ∨ cores.length ≠ 2 ∨ ¬ cores.toFinset ⊆ online ∨ housekeeping = ∅)
    (invalidCores listed)
  call env .body (.setAffinity 0 housekeeping)
  let before ← captureEnv env ("s" ++ toString number ++ "_env_before.json")
  modifyInfo fun info =>
    { info with cores, housekeeping := sorted housekeeping, before := some before }
  call env .body .checkpoint
  call env .body (.log ("session " ++ toString number ++ ": cores " ++ toString cores ++
    ", housekeeping " ++ toString (sorted housekeeping)))
  if o.warmup ≠ 0 then warmUp env o number cores
  blocks env o matrix number baseline cores

/-- The part of `leave` that leaves measurement mode: the errors and the signals. -/
def restoreMode (env : Environment) : Recorder Study (List String × List Nat) := do
  let t := (← get).study
  if t.setupAttempted then
    tryCatch
      (do
        let (result, pending) ← privileged env .leave (runRestore env)
          ("s" ++ toString (currentSession t).session ++ "_restore.txt")
        modifyInfo fun info =>
          { info with restoreExitStatus := some result.returncode, signalsDuringRestore := pending }
        if result.returncode ≠ 0 then
          return (["restore failed: " ++ result.stdout ++ result.stderr], pending)
        modifyStudy fun t => { t with setupAttempted := false }
        return ([], pending))
      fun e => return (["restore failed: " ++ env.str e], [])
  else return ([], [])

def restorationLeft (pass : Pass) : String :=
  "affinity restoration left " ++ toString pass.changed ++ " incorrect and " ++
    toString pass.failed ++ " unchangeable tasks"

/-- The part of `leave` that returns every task to its baseline affinity: all errors so far. -/
def returnTasks (env : Environment) (errors : List String) : Recorder Study (List String) := do
  let t := (← get).study
  match t.baseline with
  | none => return errors
  | some baseline =>
      tryCatch
        (do
          let _ ← applyAffinity env .leave baseline ∅
          let pass ← applyAffinity env .leave baseline ∅
          let online ← call env .leave .onlineCpus
          call env .leave (.setAffinity 0 (t.originalAffinity ∩ online))
          modifyInfo fun info =>
            { info with affinityRestored := some (pass.seen, pass.changed, pass.failed) }
          if pass.changed ≠ 0 ∨ pass.failed ≠ 0 then return errors ++ [restorationLeft pass]
          if errors ≠ [] then return errors
          call env .leave .unlinkRecovery
          modifyStudy fun t => { t with baseline := none }
          return [])
        fun e => return errors ++ ["affinity restoration failed: " ++ env.str e]

def leave (env : Environment) : Recorder Study Unit := do
  let (errors, pending) ← restoreMode env
  let errors ← returnTasks env errors
  if errors ≠ [] then modifyInfo fun info => { info with cleanupErrors := errors }
  if pending ≠ [] then call env .leave .checkpoint
  raisePending pending
  raiseIf (errors ≠ []) (.runtimeError ("; ".intercalate errors))

/-- The first part of `finally`. -/
def captureAfter (env : Environment) (number : Nat) : Recorder Study Unit := do
  if (currentSession (← get).study).before.isSome then
    let after ← captureEnv env ("s" ++ toString number ++ "_env_after.json")
    modifyInfo fun info => { info with after := some after }

def session (env : Environment) (o : Options) (matrix : List Condition) (number : Nat) :
    Recorder Study Unit := do
  let baseline ← beginSession env number
  tryFinally (span env o matrix number baseline)
    (tryFinally (captureAfter env number) (leave env))

/-! ## The program -/

/-- The checks of `prepare` on a condition. -/
def checkCondition (env : Environment) (condition : Condition) : Recorder Study Unit := do
  let isFile ← call env .body (.isFile condition.binary)
  let executable ← if isFile then call env .body (.executable condition.binary) else pure false
  raiseIf (!executable)
    (.valueError ("missing executable " ++ condition.binary ++ "; build it before recording"))
  match condition.prefixArgs with
  | [] => pure ()
  | command :: _ =>
      let found ← call env .body (.which command)
      raiseIf (found.elim true String.isEmpty) (.valueError ("missing prefix command " ++ command))

def checkConditions (env : Environment) (matrix : List Condition) : Recorder Study Unit := do
  for condition in matrix do
    checkCondition env condition

def alreadyActive : Raised :=
  .runtimeError "measurement mode is already active; finish its owning session first"

def missingWarmUp : Raised :=
  .valueError "missing bench_order_book warm-up executable; build it before recording"

def checkWarmUp (env : Environment) (o : Options) : Recorder Study Unit := do
  if o.warmup ≠ 0 then
    let built ← call env .body (.executable "bench_order_book")
    raiseIf (!built) missingWarmUp

def prepare (env : Environment) (o : Options) (matrix : List Condition) : Recorder Study Unit := do
  raiseIf (← get).machine.stateFile alreadyActive
  let installed ← call env .body (.executable "/usr/local/sbin/mm-bench-env")
  raiseIf (!installed)
    (.runtimeError "missing installed setup helper: /usr/local/sbin/mm-bench-env")
  checkWarmUp env o
  checkConditions env matrix
  call env .body (.makeDirectory "")
  modifyStudy fun t => { t with ownsOutput := true }
  call env .body (.makeDirectory "raw")
  let git ← call env .body .gitCommit
  raiseIf (git.returncode ≠ 0) (.runtimeError git.stderr)
  call env .body .describe
  call env .body (.log "diagnostic study ->")
  call env .body .checkpoint

def sessions (env : Environment) (o : Options) (matrix : List Condition) : Recorder Study Unit := do
  for number in List.range' 1 o.sessions.toNat do
    session env o matrix number

/-- The body of `try` in `main`, with its handler. -/
def study (env : Environment) (o : Options) (matrix : List Condition) : Recorder Study Unit :=
  tryCatch
    (do
      prepare env o matrix
      sessions env o matrix
      modifyStudy fun t => { t with complete := true })
    fun e => do
      modifyStudy fun t => { t with error := some e }
      throw e

def archive (env : Environment) : Recorder Study Unit := do
  if (← get).study.ownsOutput then
    let raw ← call env .body (.pathExists "raw")
    if raw then
      call env .body .checkpoint
      call env .body .archive

/-- The checks of the command line. -/
def checkOptions (o : Options) : Recorder Study Unit := do
  raiseIf (min o.sessions o.blocks < 1) (.usage "sessions and blocks must be positive")
  raiseIf (o.repetitions ≤ warmupRepetitions)
    (.usage ("repetitions must exceed the " ++ toString warmupRepetitions ++ " warm-up repetition"))
  raiseIf (o.warmup < 0) (.usage "warmup must be nonnegative")
  raiseIf (¬ 0 < o.launchTimeout) (.usage "launch timeout must be positive")

def main (env : Environment) (o : Options) (matrix : List Condition) : Recorder Study Unit := do
  checkOptions o
  tryFinally (study env o matrix) (archive env)
  let t := (← get).study
  call env .body (.log ("recorded " ++ toString t.rows.launches.length ++ " launches ->"))

/-- A run of the script on a machine. -/
def run (env : Environment) (o : Options) (matrix : List Condition) (m : Machine) :
    EStateM.Result Raised (World Study) Unit :=
  (main env o matrix).run { study := {}, machine := m }

end Study

end BenchDiagnose

end MatchingMachine
