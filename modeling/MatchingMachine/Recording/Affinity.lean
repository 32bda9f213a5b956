import MatchingMachine.Lib.Raising
import MatchingMachine.Lib.Traces
import MatchingMachine.Model.Recorder
import Mathlib

/-!
# Passes over the tasks

What the shared part of the recording scripts does to the trace.  `Frame` collects the assertions
that no call can break.  A pass of `apply_affinity` that returns has tried every task, each with the
affinity its baseline gives it, and one that raises has met an exception it does not handle.
-/

open Std.Do Raising

set_option mvcgen.warning false

namespace MatchingMachine

namespace BenchRecord

variable {σ : Type}

/-- The world after more has happened. -/
def World.after (w : World σ) (es : List Event) : World σ := { w with trace := w.trace ++ es }

@[simp] theorem World.after_study (w : World σ) (es : List Event) :
    (w.after es).study = w.study := rfl

@[simp] theorem World.after_trace (w : World σ) (es : List Event) :
    (w.after es).trace = w.trace ++ es := rfl

@[simp] theorem World.after_nil (w : World σ) : w.after [] = w := by
  simp [World.after]

@[simp] theorem World.after_after (w : World σ) (es es' : List Event) :
    (w.after es).after es' = w.after (es ++ es') := by
  simp [World.after]

/-- The answer of a call. -/
def Event.IsAnswer : Event → Prop
  | .answered _ _ _ => True
  | _ => False

def Event.IsSetup : Event → Prop
  | .setup _ _ => True
  | _ => False

theorem Event.IsAnswer.not_setup {e : Event} (h : e.IsAnswer) : ¬ e.IsSetup := by
  cases e <;> simp [Event.IsAnswer, Event.IsSetup] at h ⊢

/-- The baseline that `setup` comes right after. -/
def Recorded (baseline : Baseline) (before : List Event) : Prop :=
  before.getLast? = some (.answered .body (.writeRecovery baseline) (.ok ()))

/-! ## What no call can break -/

/-- An assertion that survives the calls of a site. -/
def Frame (site : Site) (I : World σ → Prop) : Prop :=
  ∀ (w : World σ) (c : Call) (answer : Except Raised c.Answer),
    I w → I (w.after [.answered site c answer])

section Frames

variable {site : Site} {I : World σ → Prop}

theorem Frame.call (hI : Frame site I) (env : Environment) (c : Call) :
    Keeps I (call env site c) := by
  mvcgen [BenchRecord.call, note, raising]
  · exact hI _ _ _ ‹_›
  · exact hI _ _ _ ‹_›

theorem keeps_raising {α : Type} (r : Except Raised α) : Keeps I (raising r) := by
  mvcgen [raising]

variable [Unicode]

theorem Frame.taskStart (hI : Frame site I) (env : Environment) (pid tid : Nat) :
    Keeps I (taskStart env site pid tid) := by
  have hCall := hI.call env
  mvcgen [BenchRecord.taskStart, hCall]
  exact id

theorem Frame.knownAffinity (hI : Frame site I) (env : Environment) (baseline : Baseline)
    (pid : Nat) (owners : List Nat) : Keeps I (knownAffinity env site baseline pid owners) := by
  have hStart := hI.taskStart env
  induction owners with
  | nil => mvcgen [BenchRecord.knownAffinity]
  | cons owner owners ih => mvcgen [BenchRecord.knownAffinity, hStart, ih]

theorem Frame.retarget (hI : Frame site I) (env : Environment) (baseline : Baseline)
    (exclude online : CpuSet) (pass : Pass) (task : Nat × Nat) :
    Keeps I (retarget env site baseline exclude online pass task) := by
  have hKnown := hI.knownAffinity env
  have hCall := hI.call env
  mvcgen [BenchRecord.retarget, hKnown, hCall]

theorem Frame.applyAffinity (hI : Frame site I) (env : Environment) (baseline : Baseline)
    (exclude : CpuSet) : Keeps I (applyAffinity env site baseline exclude) := by
  have hCall := hI.call env
  have hRetarget := hI.retarget env
  mvcgen [BenchRecord.applyAffinity, hCall, hRetarget] invariants
  · post⟨fun _ w => ⌜I w⌝, fun _ w => ⌜I w⌝⟩
  exact id

theorem Frame.affinityBaseline (hI : Frame .body I) (env : Environment) :
    Keeps I (affinityBaseline env) := by
  have hCall := hI.call env
  have hStart := hI.taskStart env
  have hAdd : ∀ base task, Keeps I (addBaseline env base task) := by
    intro base task
    mvcgen [addBaseline, hCall, hStart]
  mvcgen [BenchRecord.affinityBaseline, hCall, hAdd] invariants
  · post⟨fun _ w => ⌜I w⌝, fun _ w => ⌜I w⌝⟩
  exact id

end Frames

/-! ## A pass that returns -/

theorem call_run (env : Environment) (site : Site) (c : Call) (w : World σ) :
    (call env site c).run w = ending (env.answer w.trace site c)
      (w.after [.answered site c (env.answer w.trace site c)]) := by
  cases hAnswer : env.answer w.trace site c <;>
    simp [call, note, raising, hAnswer, bind, EStateM.bind, EStateM.run, get, getThe,
      MonadStateOf.get, EStateM.get, modify, modifyGet, MonadStateOf.modifyGet, EStateM.modifyGet,
      pure, EStateM.pure, throw, throwThe, MonadExceptOf.throw, EStateM.throw, World.after, ending]

theorem call_ok {env : Environment} {site : Site} {c : Call} {w w' : World σ} {a : c.Answer}
    (h : (call env site c).run w = .ok a w') : w' = w.after [.answered site c (.ok a)] := by
  rw [call_run] at h
  cases hAnswer : env.answer w.trace site c <;> rw [hAnswer] at h <;> cases h
  rfl

theorem call_error {env : Environment} {site : Site} {c : Call} {w w' : World σ} {e : Raised}
    (h : (call env site c).run w = .error e w') :
    w' = w.after [.answered site c (.error e)] := by
  rw [call_run] at h
  cases hAnswer : env.answer w.trace site c <;> rw [hAnswer] at h <;> cases h
  rfl

theorem Machine.lost_setup (plan : List Setting) (ending : SetupEnd) (m : Machine) :
    (m.setup plan ending).1.lost = m.lost := by
  unfold Machine.setup
  split
  · rfl
  · cases ending <;> rfl

theorem Machine.mem_changed_setup {plan : List Setting} {ending : SetupEnd} {m : Machine}
    {x : Setting} (hx : x ∈ (m.setup plan ending).1.changed) :
    x ∈ m.changed ∨ x ∈ (m.setup plan ending).2.1 := by
  unfold Machine.setup at hx ⊢
  by_cases hState : m.stateFile
  · rw [if_pos hState] at hx
    exact Or.inl hx
  · rw [if_neg hState] at hx ⊢
    cases ending with
    | refused => exact Or.inl hx
    | stopped n => simpa using hx
    | unverified => simpa using hx
    | complete => simpa using hx

theorem Machine.mem_changed_restore {ending : RestoreEnd} {m : Machine} {x : Setting}
    (hx : x ∈ (m.restore ending).1.changed) : x ∈ m.changed := by
  unfold Machine.restore at hx
  split at hx
  · exact hx
  · cases ending with
    | refused => exact hx
    | stopped undone => exact List.mem_of_mem_filter hx
    | complete left => cases hx

theorem Machine.mem_lost_restore {ending : RestoreEnd} {m : Machine} {x : Setting}
    (hx : x ∈ (m.restore ending).1.lost) : x ∈ m.lost ∨ x ∈ m.changed ∧ x ∈ ending.left := by
  unfold Machine.restore at hx
  split at hx
  · exact Or.inl hx
  · cases ending with
    | refused => exact Or.inl hx
    | stopped undone => exact Or.inl hx
    | complete left _ => simpa [RestoreEnd.left] using hx

/-- `setup` is in the trace, with the changes it made. -/
theorem runSetup_run (env : Environment) (w : World σ) :
    ∃ made result machine, (runSetup env).run w =
      ending result { w.after [.setup made result] with machine := machine } ∧
        (∀ x ∈ machine.changed, x ∈ w.machine.changed ∨ x ∈ made) ∧
          machine.lost = w.machine.lost := by
  let run := env.setup w.trace
  let after := w.machine.setup run.plan run.ending
  refine ⟨after.2.1, run.raised.elim (.ok ⟨after.2.2, run.stdout, run.stderr⟩) .error, after.1, ?_,
    fun x hx => Machine.mem_changed_setup hx, Machine.lost_setup _ _ _⟩
  cases hRaised : run.raised <;>
    simp [runSetup, run, after, hRaised, note, raising, bind, EStateM.bind, EStateM.run, get, getThe,
      MonadStateOf.get, EStateM.get, modify, modifyGet, MonadStateOf.modifyGet, EStateM.modifyGet,
      pure, EStateM.pure, throw, throwThe, MonadExceptOf.throw, EStateM.throw, World.after, ending,
      set, MonadStateOf.set, EStateM.set]

/-- There is no state file, and no change that one could tell of. -/
def Machine.Left (m : Machine) : Prop := m.stateFile = false ∧ m.changed = []

/-- `restore` succeeds only when it has removed the state file. -/
theorem Machine.restore_zero {ending : RestoreEnd} {m : Machine} (h : (m.restore ending).2 = 0) :
    (m.restore ending).1.Left := by
  cases hState : m.stateFile <;> cases ending <;> simp_all [Machine.restore, Machine.Left]

theorem runRestore_run (env : Environment) (w : World σ) :
    ∃ result machine, (runRestore env).run w =
      ending result { w.after [.restore result] with machine := machine } ∧
        (∀ done, result = .ok done → done.returncode = 0 → machine.Left) ∧
          (∀ x ∈ machine.changed, x ∈ w.machine.changed) ∧
            ∀ x ∈ machine.lost, x ∈ w.machine.lost ∨
              x ∈ w.machine.changed ∧ x ∈ (env.restore w.trace).ending.left := by
  let run := env.restore w.trace
  let after := w.machine.restore run.ending
  refine ⟨run.raised.elim (.ok ⟨after.2, run.stdout, run.stderr⟩) .error, after.1, ?_, ?_,
    fun x hx => Machine.mem_changed_restore hx, fun x hx => Machine.mem_lost_restore hx⟩
  case refine_2 =>
    intro done hDone hZero
    cases hRaised : run.raised <;> simp only [hRaised, Option.elim, reduceCtorEq] at hDone
    cases hDone
    exact Machine.restore_zero hZero
  cases hRaised : run.raised <;>
    simp [runRestore, run, after, hRaised, note, raising, bind, EStateM.bind, EStateM.run, get,
      getThe, MonadStateOf.get, EStateM.get, modify, modifyGet, MonadStateOf.modifyGet,
      EStateM.modifyGet, pure, EStateM.pure, throw, throwThe, MonadExceptOf.throw, EStateM.throw,
      World.after, ending, set, MonadStateOf.set, EStateM.set]

section Passes

variable [Unicode] {env : Environment} {site : Site} {es es' : List Event}

/-- What `task_start` makes of an attempt to read the file. -/
def startOf : Except Raised Text → Option Text
  | .ok text => startField text
  | .error _ => none

/-- Among the events, the start time of a task was read as `start`. -/
def StartRead (site : Site) (es : List Event) (pid tid : Nat) (start : Option Text) : Prop :=
  ∃ answer, .answered site (.readStat pid tid) answer ∈ es ∧ startOf answer = start

/-- `known` is what the baseline says of the first of the owners that it knows: one whose start
time is still the one in the baseline. -/
def Known (site : Site) (baseline : Baseline) (es : List Event) (pid : Nat) :
    List Nat → Option CpuSet → Prop
  | [], known => known = none
  | owner :: owners, known =>
      match baseline.get? owner with
      | none => Known site baseline es pid owners known
      | some entry => ∃ start, StartRead site es pid owner start ∧
          if entry.start = start then known = some entry.allowed
          else Known site baseline es pid owners known

/-- What became of a task in a pass. -/
inductive Outcome where
  | kept
  | moved
  | gone
  | refused
  deriving DecidableEq, Repr

/-- The affinity of a task differed from `want`, and the attempt to set it ended with an answer. -/
def SetEnded (site : Site) (es : List Event) (tid : Nat) (want : CpuSet)
    (answer : Except Raised Unit) : Prop :=
  ∃ allowed, .answered site (.getAffinity tid) (.ok allowed) ∈ es ∧ allowed ≠ want ∧
    .answered site (.setAffinity tid want) answer ∈ es

def Became (site : Site) (es : List Event) (tid : Nat) (want : CpuSet) : Outcome → Prop
  | .kept => .answered site (.getAffinity tid) (.ok want) ∈ es
  | .moved => SetEnded site es tid want (.ok ())
  | .gone => .answered site (.getAffinity tid) (.error .processLookupError) ∈ es ∨
      SetEnded site es tid want (.error .processLookupError)
  | .refused => .answered site (.getAffinity tid) (.error .osError) ∈ es ∨
      SetEnded site es tid want (.error .osError)

/-- How an outcome counts. -/
def Pass.add (pass : Pass) (task : Nat × Nat) : Outcome → Pass
  | .kept => { pass with seen := pass.seen + 1 }
  | .moved => { pass with seen := pass.seen + 1, changed := pass.changed + 1 }
  | .gone => pass
  | .refused =>
      { pass with seen := pass.seen + 1, failed := pass.failed + 1
                  failures := pass.failures ++ [task] }

/-- Every task of another process was tried, with the affinity its baseline gives it, and its
outcome was counted. -/
def Attempts (env : Environment) (site : Site) (baseline : Baseline) (exclude online : CpuSet)
    (es : List Event) (pass : Pass) : List (Nat × Nat) → Pass → Prop
  | [], pass' => pass' = pass
  | task :: tasks, pass' =>
      if task.1 = env.pid then Attempts env site baseline exclude online es pass tasks pass'
      else ∃ known outcome, Known site baseline es task.1 [task.2, task.1] known ∧
        Became site es task.2 (restrict online exclude (known.getD env.everything)) outcome ∧
          Attempts env site baseline exclude online es (pass.add task outcome) tasks pass'

/-- A whole pass, over the tasks that were listed. -/
def Attempted (env : Environment) (site : Site) (baseline : Baseline) (exclude : CpuSet)
    (es : List Event) (pass : Pass) : Prop :=
  ∃ online tasks, .answered site .onlineCpus (.ok online) ∈ es ∧
    .answered site .userTasks (.ok tasks) ∈ es ∧
      Attempts env site baseline exclude online es {} tasks pass

theorem Known.mono {baseline : Baseline} {pid : Nat} {owners : List Nat} {known : Option CpuSet}
    (hSub : es ⊆ es') (h : Known site baseline es pid owners known) :
    Known site baseline es' pid owners known := by
  induction owners with
  | nil => exact h
  | cons owner owners ih =>
      unfold Known at h ⊢
      split at h
      · exact ih h
      · obtain ⟨start, ⟨answer, hMem, hStart⟩, hKnown⟩ := h
        refine ⟨start, ⟨answer, hSub hMem, hStart⟩, ?_⟩
        split at hKnown
        case isTrue hEq => rwa [if_pos hEq]
        case isFalse hNe =>
          rw [if_neg hNe]
          exact ih hKnown

omit [Unicode] in
theorem Became.mono {tid : Nat} {want : CpuSet} {outcome : Outcome} (hSub : es ⊆ es')
    (h : Became site es tid want outcome) : Became site es' tid want outcome := by
  have hSet : ∀ answer, SetEnded site es tid want answer → SetEnded site es' tid want answer := by
    rintro answer ⟨allowed, hGet, hNe, hSet⟩
    exact ⟨allowed, hSub hGet, hNe, hSub hSet⟩
  cases outcome with
  | kept => exact hSub h
  | moved => exact hSet _ h
  | gone => exact h.imp (fun hGet => hSub hGet) (hSet _)
  | refused => exact h.imp (fun hGet => hSub hGet) (hSet _)

theorem Attempts.mono {baseline : Baseline} {exclude online : CpuSet} {pass pass' : Pass}
    {tasks : List (Nat × Nat)} (hSub : es ⊆ es')
    (h : Attempts env site baseline exclude online es pass tasks pass') :
    Attempts env site baseline exclude online es' pass tasks pass' := by
  induction tasks generalizing pass with
  | nil => exact h
  | cons task tasks ih =>
      unfold Attempts at h ⊢
      split at h
      case isTrue hMe =>
        rw [if_pos hMe]
        exact ih h
      case isFalse hOther =>
        obtain ⟨known, outcome, hKnown, hBecame, hRest⟩ := h
        rw [if_neg hOther]
        exact ⟨known, outcome, hKnown.mono hSub, hBecame.mono hSub, ih hRest⟩

theorem Attempted.mono {baseline : Baseline} {exclude : CpuSet} {pass : Pass} (hSub : es ⊆ es')
    (h : Attempted env site baseline exclude es pass) :
    Attempted env site baseline exclude es' pass := by
  obtain ⟨online, tasks, hOnline, hTasks, hEach⟩ := h
  exact ⟨online, tasks, hSub hOnline, hSub hTasks, hEach.mono hSub⟩

/-- The counts only grow, and each outcome is in them. -/
theorem Attempts.counted {baseline : Baseline} {exclude online : CpuSet} {pass pass' : Pass}
    {tasks : List (Nat × Nat)}
    (h : Attempts env site baseline exclude online es pass tasks pass') :
    (pass.changed ≤ pass'.changed ∧ pass.failed ≤ pass'.failed ∧
      pass.failures ⊆ pass'.failures) ∧
      ∀ task ∈ tasks, task.1 ≠ env.pid →
        ∃ known outcome, Known site baseline es task.1 [task.2, task.1] known ∧
          Became site es task.2 (restrict online exclude (known.getD env.everything)) outcome ∧
            (outcome = .moved → pass.changed < pass'.changed) ∧
              (outcome = .refused → pass.failed < pass'.failed ∧ task ∈ pass'.failures) := by
  induction tasks generalizing pass with
  | nil =>
      obtain rfl : pass' = pass := h
      simp
  | cons task tasks ih =>
      unfold Attempts at h
      split at h
      -- the recorder itself is passed over
      case isTrue hMe =>
        obtain ⟨hGrow, hEach⟩ := ih h
        refine ⟨hGrow, fun other hMem hOther => ?_⟩
        rcases List.mem_cons.mp hMem with rfl | hMem
        · exact absurd hMe hOther
        · exact hEach other hMem hOther
      case isFalse hOther =>
        obtain ⟨known, outcome, hKnown, hBecame, hRest⟩ := h
        obtain ⟨⟨hChanged, hFailed, hFailures⟩, hEach⟩ := ih hRest
        have hAdd : pass.changed ≤ (pass.add task outcome).changed ∧
            pass.failed ≤ (pass.add task outcome).failed ∧
              pass.failures ⊆ (pass.add task outcome).failures := by
          cases outcome <;> simp [Pass.add]
        refine ⟨⟨hAdd.1.trans hChanged, hAdd.2.1.trans hFailed, List.Subset.trans hAdd.2.2 hFailures⟩,
          fun other hMem hNotMe => ?_⟩
        rcases List.mem_cons.mp hMem with rfl | hMem
        · refine ⟨known, outcome, hKnown, hBecame, ?_, ?_⟩
          · rintro rfl
            exact hChanged
          · rintro rfl
            exact ⟨hFailed, hFailures (by simp [Pass.add])⟩
        · obtain ⟨known', outcome', hKnown', hBecame', hMoved, hRefused⟩ :=
            hEach other hMem hNotMe
          exact ⟨known', outcome', hKnown', hBecame',
            fun hEq => hAdd.1.trans_lt (hMoved hEq),
            fun hEq => ⟨hAdd.2.1.trans_lt (hRefused hEq).1, (hRefused hEq).2⟩⟩

/-- Each task of another process has the affinity its baseline gives it, or is gone. -/
def Settled (env : Environment) (site : Site) (baseline : Baseline) (es : List Event) : Prop :=
  ∃ online tasks, .answered site .onlineCpus (.ok online) ∈ es ∧
    .answered site .userTasks (.ok tasks) ∈ es ∧
      ∀ task ∈ tasks, task.1 ≠ env.pid →
        ∃ known, Known site baseline es task.1 [task.2, task.1] known ∧
          (Became site es task.2 (restrict online ∅ (known.getD env.everything)) .kept ∨
            Became site es task.2 (restrict online ∅ (known.getD env.everything)) .gone)

theorem Settled.mono {site : Site} {es es' : List Event} (hSub : es ⊆ es')
    (h : Settled env site baseline es) : Settled env site baseline es' := by
  obtain ⟨online, tasks, hOnline, hTasks, hEach⟩ := h
  refine ⟨online, tasks, hSub hOnline, hSub hTasks, fun task hMem hOther => ?_⟩
  obtain ⟨known, hKnown, hBecame⟩ := hEach task hMem hOther
  exact ⟨known, hKnown.mono hSub, hBecame.imp (·.mono hSub) (·.mono hSub)⟩

/-- A pass that has found nothing to do. -/
theorem Attempted.settled {baseline : Baseline} {pass : Pass}
    (h : Attempted env site baseline ∅ es pass) (hChanged : pass.changed = 0)
    (hFailed : pass.failed = 0) : Settled env site baseline es := by
  obtain ⟨online, tasks, hOnline, hTasks, hAttempts⟩ := h
  refine ⟨online, tasks, hOnline, hTasks, fun task hMem hOther => ?_⟩
  obtain ⟨known, outcome, hKnown, hBecame, hMoved, hRefused⟩ := hAttempts.counted.2 task hMem hOther
  refine ⟨known, hKnown, ?_⟩
  cases outcome with
  | kept => exact .inl hBecame
  | gone => exact .inr hBecame
  | moved => exact absurd (hMoved rfl) (by simp [hChanged])
  | refused => exact absurd (hRefused rfl).1 (by simp [hFailed])

theorem taskStart_ok {pid tid : Nat} {w w' : World σ} {start : Option Text}
    (h : (taskStart env site pid tid).run w = .ok start w') :
    ∃ es, w' = w.after es ∧ StartRead site es pid tid start := by
  rw [taskStart, tryCatch_ok] at h
  rcases h with h | ⟨e, w₁, hRead, h⟩
  · rw [map_ok] at h
    obtain ⟨text, hRead, rfl⟩ := h
    exact ⟨_, call_ok hRead, _, List.mem_singleton.mpr rfl, rfl⟩
  · rw [map_error] at hRead
    obtain rfl := call_error hRead
    have hNone : start = none ∧ w' = w.after [.answered site (.readStat pid tid) (.error e)] := by
      cases e
      case processLookupError => exact pure_ok.mp h
      case osError => exact pure_ok.mp h
      all_goals exact absurd h throw_ok
    exact ⟨_, hNone.2, .error e, List.mem_singleton.mpr rfl, hNone.1.symm⟩

theorem knownAffinity_ok {baseline : Baseline} {pid : Nat} {owners : List Nat} {w w' : World σ}
    {known : Option CpuSet}
    (h : (knownAffinity env site baseline pid owners).run w = .ok known w') :
    ∃ es, w' = w.after es ∧ Known site baseline es pid owners known := by
  induction owners generalizing w with
  | nil =>
      obtain ⟨rfl, rfl⟩ := pure_ok.mp h
      exact ⟨[], by simp, rfl⟩
  | cons owner owners ih =>
      unfold knownAffinity at h
      cases hGet : baseline.get? owner with
      | none =>
          simp only [hGet] at h
          obtain ⟨es, hAfter, hKnown⟩ := ih h
          refine ⟨es, hAfter, ?_⟩
          simpa only [Known, hGet] using hKnown
      | some entry =>
          simp only [hGet, bind_ok] at h
          obtain ⟨start, w₁, hStart, h⟩ := h
          obtain ⟨es, rfl, hRead⟩ := taskStart_ok hStart
          split at h
          case isTrue hEq =>
            obtain ⟨rfl, rfl⟩ := pure_ok.mp h
            refine ⟨es, rfl, ?_⟩
            simp only [Known, hGet]
            exact ⟨start, hRead, by simp [hEq]⟩
          case isFalse hNe =>
            obtain ⟨es', rfl, hKnown⟩ := ih h
            refine ⟨es ++ es', by simp, ?_⟩
            simp only [Known, hGet]
            obtain ⟨answer, hMem, hStart⟩ := hRead
            refine ⟨start, ⟨answer, List.mem_append_left _ hMem, hStart⟩, ?_⟩
            rw [if_neg hNe]
            exact hKnown.mono (List.subset_append_right _ _)

/-- The `try` statement of the loop body. -/
def tryTask (env : Environment) (site : Site) (pass : Pass) (task : Nat × Nat) (want : CpuSet) :
    Recorder σ Pass :=
  tryCatch
    (do
      let allowed ← call env site (.getAffinity task.2)
      if allowed ≠ want then
        call env site (.setAffinity task.2 want)
        return { pass with changed := pass.changed + 1 }
      else return pass)
    fun e =>
      match e with
      | .processLookupError => pure { pass with seen := pass.seen - 1 }
      | .osError => pure { pass with failed := pass.failed + 1, failures := pass.failures ++ [task] }
      | e => throw e

omit [Unicode] in
theorem tryTask_ok {pass pass' : Pass} {task : Nat × Nat} {want : CpuSet} {w w' : World σ}
    (h : (tryTask env site { pass with seen := pass.seen + 1 } task want).run w = .ok pass' w') :
    ∃ es outcome, w' = w.after es ∧ Became site es task.2 want outcome ∧
      pass' = pass.add task outcome := by
  rw [tryTask, tryCatch_ok] at h
  rcases h with h | ⟨e, w₁, hRaised, h⟩
  · simp only [bind_ok] at h
    obtain ⟨allowed, w₁, hGet, h⟩ := h
    obtain rfl := call_ok hGet
    split at h
    case isTrue hNe =>
      simp only [bind_ok] at h
      obtain ⟨set, w₂, hSet, h⟩ := h
      obtain rfl := call_ok hSet
      obtain ⟨rfl, rfl⟩ := pure_ok.mp h
      exact ⟨_, .moved, World.after_after _ _ _, ⟨allowed, by simp, hNe, by simp⟩, rfl⟩
    case isFalse hEq =>
      obtain ⟨rfl, rfl⟩ := pure_ok.mp h
      obtain rfl := not_not.mp hEq
      exact ⟨_, .kept, rfl, by simp [Became], rfl⟩
  -- either call may have raised; a task that is gone counts as nothing, a refusal as failed
  · have hEnded : ∃ es, w₁ = w.after es ∧
        (.answered site (.getAffinity task.2) (.error e) ∈ es ∨
          SetEnded site es task.2 want (.error e)) := by
      simp only [bind_error] at hRaised
      rcases hRaised with hGet | ⟨allowed, w₂, hGet, hRaised⟩
      · exact ⟨_, call_error hGet, .inl (List.mem_singleton.mpr rfl)⟩
      · obtain rfl := call_ok hGet
        split at hRaised
        case isTrue hNe =>
          simp only [bind_error] at hRaised
          rcases hRaised with hSet | ⟨_, _, -, hRaised⟩
          · obtain rfl := call_error hSet
            exact ⟨_, World.after_after _ _ _, .inr ⟨allowed, by simp, hNe, by simp⟩⟩
          · exact absurd hRaised pure_error
        case isFalse => exact absurd hRaised pure_error
    obtain ⟨es, rfl, hEnded⟩ := hEnded
    cases e
    case processLookupError =>
      obtain ⟨rfl, rfl⟩ := pure_ok.mp h
      exact ⟨es, .gone, rfl, hEnded, by simp [Pass.add]⟩
    case osError =>
      obtain ⟨rfl, rfl⟩ := pure_ok.mp h
      exact ⟨es, .refused, rfl, hEnded, rfl⟩
    all_goals exact absurd h throw_ok

theorem retarget_ok {baseline : Baseline} {exclude online : CpuSet} {pass pass' : Pass}
    {task : Nat × Nat} {w w' : World σ} (hOther : task.1 ≠ env.pid)
    (h : (retarget env site baseline exclude online pass task).run w = .ok pass' w') :
    ∃ es known outcome, w' = w.after es ∧ Known site baseline es task.1 [task.2, task.1] known ∧
      Became site es task.2 (restrict online exclude (known.getD env.everything)) outcome ∧
        pass' = pass.add task outcome := by
  simp only [retarget, if_neg hOther, bind_ok] at h
  obtain ⟨known, w₁, hRun, h⟩ := h
  obtain ⟨es, rfl, hKnown⟩ := knownAffinity_ok hRun
  obtain ⟨es', outcome, rfl, hBecame, rfl⟩ := tryTask_ok h
  exact ⟨es ++ es', known, outcome, by simp, hKnown.mono (List.subset_append_left _ _),
    hBecame.mono (List.subset_append_right _ _), rfl⟩

theorem retargetAll_ok {baseline : Baseline} {exclude online : CpuSet} {tasks : List (Nat × Nat)}
    {pass pass' : Pass} {w w' : World σ}
    (h : (tasks.foldlM (retarget env site baseline exclude online) pass).run w = .ok pass' w') :
    ∃ es, w' = w.after es ∧ Attempts env site baseline exclude online es pass tasks pass' := by
  induction tasks generalizing pass w with
  | nil =>
      obtain ⟨rfl, rfl⟩ := pure_ok.mp h
      exact ⟨[], by simp, rfl⟩
  | cons task tasks ih =>
      simp only [List.foldlM_cons, bind_ok] at h
      obtain ⟨pass₁, w₁, hTask, h⟩ := h
      obtain ⟨es', hAfter, hRest⟩ := ih h
      unfold Attempts
      by_cases hMe : task.1 = env.pid
      · simp only [retarget, if_pos hMe] at hTask
        obtain ⟨rfl, rfl⟩ := pure_ok.mp hTask
        exact ⟨es', hAfter, by rwa [if_pos hMe]⟩
      · obtain ⟨es, known, outcome, rfl, hKnown, hBecame, rfl⟩ := retarget_ok hMe hTask
        refine ⟨es ++ es', by simpa using hAfter, ?_⟩
        rw [if_neg hMe]
        exact ⟨known, outcome, hKnown.mono (List.subset_append_left _ _),
          hBecame.mono (List.subset_append_left _ _), hRest.mono (List.subset_append_right _ _)⟩

/-- A pass that returns has tried every task, and its counts are those of the outcomes. -/
theorem applyAffinity_ok {baseline : Baseline} {exclude : CpuSet} {pass : Pass} {w w' : World σ}
    (h : (applyAffinity env site baseline exclude).run w = .ok pass w') :
    ∃ es, w' = w.after es ∧ Attempted env site baseline exclude es pass := by
  simp only [applyAffinity, bind_ok] at h
  obtain ⟨online, w₁, hOnline, tasks, w₂, hTasks, h⟩ := h
  obtain rfl := call_ok hOnline
  obtain rfl := call_ok hTasks
  obtain ⟨es, rfl, hEach⟩ := retargetAll_ok h
  exact ⟨[.answered site .onlineCpus (.ok online), .answered site .userTasks (.ok tasks)] ++ es,
    by simp, online, tasks, by simp, by simp, hEach.mono (List.subset_append_right _ _)⟩

/-- A pass asks for answers only. -/
theorem applyAffinity_answers {baseline : Baseline} {exclude : CpuSet} {pass : Pass}
    {w w' : World σ} (h : (applyAffinity env site baseline exclude).run w = .ok pass w') :
    ∃ es, w' = w.after es ∧ (∀ e ∈ es, e.IsAnswer) ∧
      Attempted env site baseline exclude es pass := by
  have hFrame : Frame site fun v : World σ => ∃ es, v = w.after es ∧ ∀ e ∈ es, e.IsAnswer := by
    rintro v c answer ⟨es, rfl, hAnswers⟩
    refine ⟨es ++ [.answered site c answer], by simp, ?_⟩
    simpa [or_imp, forall_and, Event.IsAnswer] using hAnswers
  obtain ⟨es, rfl, hAttempted⟩ := applyAffinity_ok h
  obtain ⟨es', hAfter, hAnswers⟩ :=
    (hFrame.applyAffinity env baseline exclude).ok ⟨[], by simp, by simp⟩ h
  have hTrace : w.trace ++ es = w.trace ++ es' := congrArg World.trace hAfter
  obtain rfl := List.append_cancel_left hTrace
  exact ⟨es, rfl, hAnswers, hAttempted⟩

end Passes

/-! ## A pass that raises -/

section Failures

/-- A call that `apply_affinity` makes for one task. -/
def Call.OfTask : Call → Prop
  | .readStat _ _ => True
  | .getAffinity _ => True
  | .setAffinity tid _ => tid ≠ 0
  | _ => False

/-- An exception that `apply_affinity` takes for a task that is gone or cannot be changed. -/
def Raised.IsOsError (e : Raised) : Prop := e = .processLookupError ∨ e = .osError

/-- What happened lets a cleanup go on: `restore` returned, with whatever exit status, and the
calls of `leave` returned, except for an `OSError` over a single task. -/
def Event.GoesOn : Event → Prop
  | .setup _ _ => True
  | .restore result => ∃ done, result = .ok done
  | .answered .body _ _ => True
  | .answered .leave c answer => ∀ e, answer = .error e → c.OfTask ∧ e.IsOsError

/-- Something has kept the cleanup from going on. -/
def World.Broken (w : World σ) : Prop := ∃ e ∈ w.trace, ¬ e.GoesOn

theorem call_raises (env : Environment) (c : Call) {w w' : World σ} {e : Raised}
    (h : (call env .leave c).run w = .error e w') : w'.Broken ∨ (c.OfTask ∧ e.IsOsError) := by
  obtain rfl := call_error h
  by_cases hTask : c.OfTask ∧ e.IsOsError
  · exact .inr hTask
  · refine .inl ⟨.answered .leave c (.error e), by simp, fun hGoes => hTask ?_⟩
    exact hGoes e rfl

theorem call_spec (env : Environment) (c : Call) :
    ⦃fun _ : World σ => ⌜True⌝⦄ call env .leave c
      ⦃post⟨fun _ _ => ⌜True⌝, fun e w => ⌜w.Broken ∨ (c.OfTask ∧ e.IsOsError)⌝⟩⦄ := by
  refine spec_of_run fun w _ => ⟨_, _, call_run env .leave c w, fun _ _ => trivial,
    fun e hAnswer => ?_⟩
  exact call_raises env c (by rw [call_run, hAnswer]; rfl)

variable [Unicode]

theorem taskStart_raises (env : Environment) (pid tid : Nat) :
    Takes (fun _ : World σ => True) (fun _ => True) World.Broken
      (taskStart env .leave pid tid) := by
  have hCall := @call_spec σ env
  mvcgen [taskStart, hCall]
  case vc4.except.handle.h_3 hLookup hOs _ hRaised =>
    exact hRaised.resolve_right fun hTask => hTask.2.elim hLookup hOs

theorem knownAffinity_raises (env : Environment) (baseline : Baseline) (pid : Nat)
    (owners : List Nat) :
    Takes (fun _ : World σ => True) (fun _ => True) World.Broken
      (knownAffinity env .leave baseline pid owners) := by
  have hStart := @taskStart_raises σ _ env
  induction owners with
  | nil => mvcgen [knownAffinity]
  | cons owner owners ih => mvcgen [knownAffinity, hStart, ih]

theorem retarget_raises (env : Environment) (baseline : Baseline) (exclude online : CpuSet)
    (pass : Pass) (task : Nat × Nat) :
    Takes (fun _ : World σ => True) (fun _ => True) World.Broken
      (retarget env .leave baseline exclude online pass task) := by
  have hKnown := @knownAffinity_raises σ _ env
  have hCall := @call_spec σ env
  mvcgen [retarget, hKnown, hCall]
  case vc5.isFalse.success.success.isTrue.except.handle.h_3 hLookup hOs _ hRaised =>
    exact hRaised.resolve_right fun hTask => hTask.2.elim hLookup hOs
  case vc9.isFalse.success.except.handle.h_3 hLookup hOs _ hRaised =>
    exact hRaised.resolve_right fun hTask => hTask.2.elim hLookup hOs

/-- A pass in `leave` that raises has met an exception it does not handle. -/
theorem applyAffinity_raises (env : Environment) (baseline : Baseline) (exclude : CpuSet) :
    Takes (fun _ : World σ => True) (fun _ => True) World.Broken
      (applyAffinity env .leave baseline exclude) := by
  have hCall := @call_spec σ env
  have hRetarget := @retarget_raises σ _ env
  mvcgen [applyAffinity, hCall, hRetarget] invariants
  · post⟨fun _ _ => ⌜True⌝, fun _ w => ⌜w.Broken⌝⟩
  -- neither of the two calls is for one task
  all_goals exact fun hRaised => hRaised.resolve_right fun hTask => hTask.1

end Failures

end BenchRecord

end MatchingMachine
