import MatchingMachine.Model.DiagnosticStudy
import MatchingMachine.Recording.Affinity
import Mathlib

/-!
# Every session is undone

In a run of `bench_diagnose.py`, however it ends, every `setup` is followed by a `restore`.  The
next `setup` runs, and the run ends normally, only after a `restore` that succeeded and a pass over
the tasks that found each at its baseline.

A `restore` that succeeds may still leave settings changed.  `Traced` follows them: what no state
file tells of any more is what a `restore` of the run has left.
-/

open Std.Do Raising Traces

set_option mvcgen.warning false

namespace MatchingMachine

namespace BenchDiagnose

open BenchRecord

/-! ## The property -/

section Property

variable [Unicode]

/-- `restore` succeeded, and before the next `setup` a pass found every task at its baseline. -/
def Confirmed (env : Environment) (baseline : Baseline) (restored : Except Raised Completed)
    (later : List Event) : Prop :=
  (∃ done, restored = .ok done ∧ done.returncode = 0) ∧
    ∃ pass rest, later = pass ++ rest ∧ (∀ e ∈ pass, e.IsAnswer) ∧ Settled env .leave baseline pass

/-- Every `setup` is followed by `restore`, and what was done is confirmed where another `setup`
follows, or when the study is complete. -/
def Undone (env : Environment) (complete : Prop) (trace : List Event) : Prop :=
  ∀ before made result after, trace = before ++ .setup made result :: after →
    ∃ baseline between restored later, Recorded baseline before ∧
      after = between ++ .restore restored :: later ∧ (∀ e ∈ between, e.IsAnswer) ∧
        ((complete ∨ ∃ e ∈ later, e.IsSetup) → Confirmed env baseline restored later)

variable {env : Environment} {baseline : Baseline} {complete : Prop} {t es : List Event}

theorem Confirmed.append {restored : Except Raised Completed}
    (h : Confirmed env baseline restored t) : Confirmed env baseline restored (t ++ es) := by
  obtain ⟨hDone, pass, rest, rfl, hAnswers, hSettled⟩ := h
  exact ⟨hDone, pass, rest ++ es, by simp, hAnswers, hSettled⟩

theorem Undone.append (h : Undone env complete t) (hQuiet : ∀ e ∈ es, ¬ e.IsSetup) :
    Undone env complete (t ++ es) := by
  intro before made result after hSplit
  have hSetup : (Event.setup made result).IsSetup := trivial
  obtain ⟨after', hT, rfl⟩ := split_left hQuiet hSetup hSplit
  obtain ⟨baseline, between, restored, later, hBaseline, rfl, hBetween, hConfirmed⟩ :=
    h before made result after' hT
  refine ⟨baseline, between, restored, later ++ es, hBaseline, by simp, hBetween, fun hMore => ?_⟩
  refine (hConfirmed (hMore.imp id ?_)).append
  rintro ⟨e, he, hIsSetup⟩
  rcases List.mem_append.mp he with he | he
  · exact ⟨e, he, hIsSetup⟩
  · exact absurd hIsSetup (hQuiet e he)

theorem Undone.imp {complete' : Prop} (h : Undone env complete t) (hImp : complete' → complete) :
    Undone env complete' t := by
  intro before made result after hSplit
  obtain ⟨baseline, between, restored, later, hBaseline, hAfter, hBetween, hConfirmed⟩ :=
    h before made result after hSplit
  exact ⟨baseline, between, restored, later, hBaseline, hAfter, hBetween,
    fun hMore => hConfirmed (hMore.imp hImp id)⟩

/-- One more session. -/
theorem Undone.session {before between later : List Event} {made : List Setting}
    {result restored : Except Raised Completed} (hBefore : Undone env True before)
    (hBaseline : Recorded baseline before) (hBetween : ∀ e ∈ between, e.IsAnswer)
    (hLater : ∀ e ∈ later, e.IsAnswer)
    (hConfirmed : complete → Confirmed env baseline restored later) :
    Undone env complete (before ++ .setup made result :: (between ++ .restore restored :: later)) := by
  have hQuiet : ∀ e ∈ between ++ .restore restored :: later, ¬ e.IsSetup := by
    intro e he
    simp only [List.mem_append, List.mem_cons] at he
    rcases he with he | rfl | he
    · exact (hBetween e he).not_setup
    · simp [Event.IsSetup]
    · exact (hLater e he).not_setup
  intro before' made' result' after' hSplit
  have hSetup : (Event.setup made' result').IsSetup := trivial
  rcases split_cases hQuiet hSetup hSplit with ⟨rfl, -, rfl⟩ | ⟨rest, rfl, rfl⟩
  · refine ⟨baseline, between, restored, later, hBaseline, rfl, hBetween, fun hMore => ?_⟩
    refine hConfirmed (hMore.resolve_right ?_)
    rintro ⟨e, he, hIsSetup⟩
    exact (hLater e he).not_setup hIsSetup
  · obtain ⟨baseline', between', restored', later', hBaseline', rfl, hBetween', hConfirmed'⟩ :=
      hBefore before' made' result' rest rfl
    exact ⟨baseline', between', restored',
      later' ++ .setup made result :: (between ++ .restore restored :: later), hBaseline', by simp,
      hBetween', fun _ => (hConfirmed' (.inl trivial)).append⟩

end Property

/-! ## The phases of a session -/

section Phases

variable [Unicode] {env : Environment} {baseline : Baseline} {good settled : Prop}
  {w : World Study}

/-- No session is open. -/
def Closed (env : Environment) (w : World Study) : Prop := Undone env True w.trace

/-- The run can end here. -/
def Ended (env : Environment) (w : World Study) : Prop := Undone env False w.trace

/-- The baseline is on disk, and `setup` comes next. -/
structure Ready (env : Environment) (baseline : Baseline) (w : World Study) : Prop where
  known : w.study.baseline = some baseline
  attempted : w.study.setupAttempted = true
  recorded : Recorded baseline w.trace
  closed : Closed env w

/-- `setup` has run. -/
structure Opened (env : Environment) (baseline : Baseline) (w : World Study) : Prop where
  known : w.study.baseline = some baseline
  attempted : w.study.setupAttempted = true
  since : ∃ before made result after, w.trace = before ++ .setup made result :: after ∧
    Recorded baseline before ∧ Undone env True before ∧ ∀ e ∈ after, e.IsAnswer

/-- `restore` has run: it succeeded if `good`, and the tasks were found at their baseline if
`settled`. -/
structure Left (env : Environment) (baseline : Baseline) (good settled : Prop)
    (w : World Study) : Prop where
  known : w.study.baseline = some baseline
  since : ∃ before made result between restored later,
    w.trace = before ++ .setup made result :: (between ++ .restore restored :: later) ∧
      Recorded baseline before ∧ Undone env True before ∧ (∀ e ∈ between, e.IsAnswer) ∧
        (∀ e ∈ later, e.IsAnswer) ∧
          (good → ∃ done, restored = .ok done ∧ done.returncode = 0) ∧
            (settled → Settled env .leave baseline later)
  machine : good → w.machine.Left

theorem Left.weaken {good' settled' : Prop} (h : Left env baseline good settled w)
    (hGood : good' → good) (hSettled : settled' → settled) :
    Left env baseline good' settled' w := by
  obtain ⟨hKnown, ⟨before, made, result, between, restored, later, hTrace, hBaseline, hBefore,
    hBetween, hLater, hDone, hFound⟩, hMachine⟩ := h
  exact ⟨hKnown, ⟨before, made, result, between, restored, later, hTrace, hBaseline, hBefore,
    hBetween, hLater, fun h => hDone (hGood h), fun h => hFound (hSettled h)⟩,
    fun h => hMachine (hGood h)⟩

/-- What `leave` has done is what the property asks for. -/
theorem Left.undone {complete : Prop} (h : Left env baseline good settled w)
    (hGood : complete → good) (hSettled : complete → settled) : Undone env complete w.trace := by
  obtain ⟨-, ⟨before, made, result, between, restored, later, hTrace, hBaseline, hBefore, hBetween,
    hLater, hDone, hFound⟩, -⟩ := h
  rw [hTrace]
  refine Undone.session hBefore hBaseline hBetween hLater fun hComplete => ?_
  exact ⟨hDone (hGood hComplete), later, [], by simp, hLater, hFound (hSettled hComplete)⟩

/-! What no call can break. -/

omit [Unicode] in
theorem quiet_answer {site : Site} {c : BenchRecord.Call} {answer : Except Raised c.Answer} :
    ∀ e ∈ [Event.answered site c answer], ¬ e.IsSetup := by
  simp [Event.IsSetup]

theorem Closed.frame (site : Site) : Frame site (Closed env) := fun _ _ _ h =>
  Undone.append h quiet_answer

theorem Ended.frame (site : Site) : Frame site (Ended env) := fun _ _ _ h =>
  Undone.append h quiet_answer

theorem Opened.frame (site : Site) : Frame site (Opened env baseline) := by
  rintro w c answer ⟨hKnown, hAttempted, before, made, result, after, hTrace, hBaseline, hBefore,
    hAfter⟩
  refine ⟨hKnown, hAttempted, before, made, result, after ++ [.answered site c answer],
    by simp [hTrace], hBaseline, hBefore, ?_⟩
  simpa [or_imp, forall_and, Event.IsAnswer] using hAfter

/-- After more answers, the tasks may be known to be at their baseline for another reason. -/
theorem Left.found {found : Prop} (h : Left env baseline good settled w) {es : List Event}
    (hAnswers : ∀ e ∈ es, e.IsAnswer) (hSettled : found → Settled env .leave baseline es) :
    Left env baseline good found (w.after es) := by
  obtain ⟨hKnown, ⟨before, made, result, between, restored, later, hTrace, hBaseline, hBefore,
    hBetween, hLater, hDone, -⟩, hMachine⟩ := h
  refine ⟨hKnown, ⟨before, made, result, between, restored, later ++ es, by simp [hTrace],
    hBaseline, hBefore, hBetween, ?_, hDone,
    fun h => (hSettled h).mono (List.subset_append_right _ _)⟩, hMachine⟩
  intro e he
  rcases List.mem_append.mp he with he | he
  · exact hLater e he
  · exact hAnswers e he

theorem Left.frame (site : Site) : Frame site (Left env baseline good settled) := by
  rintro w c answer ⟨hKnown, ⟨before, made, result, between, restored, later, hTrace, hBaseline,
    hBefore, hBetween, hLater, hDone, hFound⟩, hMachine⟩
  refine ⟨hKnown, ⟨before, made, result, between, restored, later ++ [.answered site c answer],
    by simp [hTrace], hBaseline, hBefore, hBetween, ?_, hDone,
    fun h => (hFound h).mono (List.subset_append_left _ _)⟩, hMachine⟩
  simpa [or_imp, forall_and, Event.IsAnswer] using hLater

/-- An assertion that survives what a session does between `setup` and `leave`. -/
structure SpanFrame (I : World Study → Prop) : Prop where
  calls : Frame .body I
  study : ∀ {w : World Study} {t : Study}, t.baseline = w.study.baseline →
    t.setupAttempted = w.study.setupAttempted → I w → I { w with study := t }

theorem Opened.spanFrame : SpanFrame (Opened env baseline) where
  calls := Opened.frame .body
  study hBaseline hAttempted h :=
    { h with known := hBaseline.trans h.known, attempted := hAttempted.trans h.attempted }

theorem Closed.spanFrame : SpanFrame (Closed env) := ⟨Closed.frame .body, fun _ _ h => h⟩

theorem Ended.spanFrame : SpanFrame (Ended env) := ⟨Ended.frame .body, fun _ _ h => h⟩

namespace SpanFrame

variable {I : World Study → Prop}

omit [Unicode] in
theorem modifyStudy (hI : SpanFrame I) (f : Study → Study)
    (hf : ∀ t, (f t).baseline = t.baseline ∧ (f t).setupAttempted = t.setupAttempted) :
    Keeps I (modifyStudy f) := by
  mvcgen [BenchRecord.modifyStudy]
  exact hI.study (hf _).1 (hf _).2 ‹_›

omit [Unicode] in
theorem modifyInfo (hI : SpanFrame I) (f : Info → Info) : Keeps I (modifyInfo f) :=
  hI.modifyStudy _ fun _ => ⟨rfl, rfl⟩

omit [Unicode] in
theorem raiseIf (_hI : SpanFrame I) (condition : Bool) (e : Raised) :
    Keeps I (raiseIf condition e) := by
  mvcgen [BenchRecord.raiseIf]

theorem captureEnv (hI : SpanFrame I) (env : Environment) (name : String) :
    Keeps I (captureEnv env name) := by
  have hCall := hI.calls.call env
  mvcgen [BenchDiagnose.captureEnv, hCall]

omit [Unicode] in
theorem launchCondition (hI : SpanFrame I) (env : Environment) (o : Options) (stem : String)
    (condition : Condition) (cores : List Int) (measure : CpuSet) :
    Keeps I (launchCondition env o stem condition cores measure) := by
  have hCall := hI.calls.call env
  mvcgen [BenchDiagnose.launchCondition, hCall]

theorem record (hI : SpanFrame I) (env : Environment) (o : Options) (stem : String) (key : Key)
    (launched : Launched) : Keeps I (record env o stem key launched) := by
  have hCall := hI.calls.call env
  have hModify := hI.modifyStudy
  have hRaise := hI.raiseIf
  have hRaising := fun α => @keeps_raising Study I α
  mvcgen [BenchDiagnose.record, hCall, hModify, hRaise, hRaising]
  all_goals simp

theorem one (hI : SpanFrame I) (env : Environment) (o : Options) (matrix : List Condition)
    (session block position : Nat) (condition : Condition) (cores : List Int) (measure : CpuSet)
    (moved : Int × Nat × Nat) :
    Keeps I (one env o matrix session block position condition cores measure moved) := by
  have hCall := hI.calls.call env
  have hModify := hI.modifyStudy
  have hRaise := hI.raiseIf
  have hLaunch := hI.launchCondition env
  have hRecord := hI.record env
  mvcgen [BenchDiagnose.one, hCall, hModify, hRaise, hLaunch, hRecord]
  all_goals simp

theorem clear (hI : SpanFrame I) (env : Environment) (o : Options) (baseline : Baseline)
    (measure : CpuSet) : Keeps I (clear env o baseline measure) := by
  have hCall := hI.calls.call env
  have hApply := hI.calls.applyAffinity env
  have hInfo := hI.modifyInfo
  have hRaise := hI.raiseIf
  have hName : ∀ pid, Keeps I (taskName env pid) := by
    intro pid
    mvcgen [taskName, hCall]
    exact id
  have hNames : ∀ tasks : List (Nat × Nat), Keeps I (tasks.mapM fun task => taskName env task.1) := by
    intro tasks
    induction tasks with
    | nil => mvcgen [List.mapM_nil]
    | cons task tasks ih => mvcgen [List.mapM_cons, hName, ih]
  mvcgen [BenchDiagnose.clear, hApply, hNames, hInfo, hRaise]

theorem launches (hI : SpanFrame I) (env : Environment) (o : Options) (matrix : List Condition)
    (session block : Nat) (order : List Condition) (baseline : Baseline) (cores : List Int) :
    Keeps I (launches env o matrix session block order baseline cores) := by
  have hClear := hI.clear env
  have hOne := hI.one env
  mvcgen [BenchDiagnose.launches, hClear, hOne] invariants
  · post⟨fun _ w => ⌜I w⌝, fun _ w => ⌜I w⌝⟩

theorem blocks (hI : SpanFrame I) (env : Environment) (o : Options) (matrix : List Condition)
    (session : Nat) (baseline : Baseline) (cores : List Int) :
    Keeps I (blocks env o matrix session baseline cores) := by
  have hCall := hI.calls.call env
  have hLaunches := hI.launches env
  mvcgen [BenchDiagnose.blocks, hCall, hLaunches] invariants
  · post⟨fun _ w => ⌜I w⌝, fun _ w => ⌜I w⌝⟩

omit [Unicode] in
theorem warmUp (hI : SpanFrame I) (env : Environment) (o : Options) (session : Nat)
    (cores : List Int) : Keeps I (warmUp env o session cores) := by
  have hCall := hI.calls.call env
  have hInfo := hI.modifyInfo
  have hRaise := hI.raiseIf
  mvcgen [BenchDiagnose.warmUp, hCall, hInfo, hRaise]

theorem captureAfter (hI : SpanFrame I) (env : Environment) (number : Nat) :
    Keeps I (captureAfter env number) := by
  have hCapture := hI.captureEnv env
  have hInfo := hI.modifyInfo
  mvcgen [BenchDiagnose.captureAfter, hCapture, hInfo]

omit [Unicode] in
theorem prepare (hI : SpanFrame I) (env : Environment) (o : Options) (matrix : List Condition) :
    Keeps I (prepare env o matrix) := by
  have hCall := hI.calls.call env
  have hRaise := hI.raiseIf
  have hModify := hI.modifyStudy
  have hWarmUp : Keeps I (checkWarmUp env o) := by
    mvcgen [checkWarmUp, hCall, hRaise]
  have hCondition : ∀ condition, Keeps I (checkCondition env condition) := by
    intro condition
    mvcgen [checkCondition, hCall, hRaise]
  have hConditions : Keeps I (checkConditions env matrix) := by
    mvcgen [checkConditions, hCondition] invariants
    · post⟨fun _ w => ⌜I w⌝, fun _ w => ⌜I w⌝⟩
  mvcgen [BenchDiagnose.prepare, hCall, hRaise, hModify, hWarmUp, hConditions]
  all_goals simp

omit [Unicode] in
theorem archive (hI : SpanFrame I) (env : Environment) : Keeps I (archive env) := by
  have hCall := hI.calls.call env
  mvcgen [BenchDiagnose.archive, hCall]

end SpanFrame

/-! ## A session -/

theorem beginSession_spec (env : Environment) (number : Nat) :
    ⦃fun w => ⌜Closed env w⌝⦄ beginSession env number
      ⦃post⟨fun baseline w => ⌜Ready env baseline w⌝, fun _ w => ⌜Closed env w⌝⟩⦄ := by
  have hClosed : SpanFrame (Closed env) := Closed.spanFrame
  have hOriginal := hClosed.calls.call env (.getAffinity 0)
  have hBaseline := hClosed.calls.affinityBaseline env
  have hRaise := hClosed.raiseIf
  have hRecovery : ∀ baseline,
      ⦃fun w => ⌜Closed env w ∧ w.study.baseline = some baseline⌝⦄
        call env .body (.writeRecovery baseline)
      ⦃post⟨fun _ w => ⌜Closed env w ∧ w.study.baseline = some baseline ∧
        Recorded baseline w.trace⌝, fun _ w => ⌜Closed env w⌝⟩⦄ := by
    intro baseline
    refine spec_of_run fun w hw => ⟨_, _, call_run env .body (.writeRecovery baseline) w, ?_, ?_⟩
    · intro _ hAnswer
      rw [hAnswer]
      exact ⟨Closed.frame _ _ _ _ hw.1, hw.2, by simp [Recorded]⟩
    · exact fun _ _ => Closed.frame _ _ _ _ hw.1
  mvcgen [beginSession, hBaseline, hRaise, hRecovery, hOriginal, BenchRecord.modifyStudy]
  case vc5.post.success.post.success.post.success.post.success hReady _ =>
    exact ⟨hReady.2.1, rfl, hReady.2.2, hReady.1⟩

theorem span_spec (env : Environment) (o : Options) (matrix : List Condition) (number : Nat)
    (baseline : Baseline) :
    Takes (Ready env baseline) (Opened env baseline) (Opened env baseline)
      (span env o matrix number baseline) := by
  have hOpened : SpanFrame (Opened env baseline) := Opened.spanFrame
  have hCall := hOpened.calls.call env
  have hInfo := hOpened.modifyInfo
  have hRaise := hOpened.raiseIf
  have hRaising := fun α => @keeps_raising Study (Opened env baseline) α
  have hCapture := hOpened.captureEnv env
  have hWarmUp := hOpened.warmUp env
  have hBlocks := hOpened.blocks env
  have hPending : ∀ pending, Keeps (Opened env baseline) (raisePending pending) := by
    intro pending
    mvcgen [raisePending]
  have hSetup : Takes (Ready env baseline) (Opened env baseline) (Opened env baseline)
      (runSetup env) := by
    refine spec_of_run fun w hw => ?_
    obtain ⟨made, result, machine, hRun, -⟩ := runSetup_run env w
    have hOpened : Opened env baseline { w.after [.setup made result] with machine := machine } :=
      ⟨hw.known, hw.attempted, w.trace, made, result, [], rfl, hw.recorded, hw.closed, by simp⟩
    exact ⟨result, _, hRun, fun _ _ => hOpened, fun _ _ => hOpened⟩
  have hPrivileged : ∀ destination, Takes (Ready env baseline) (Opened env baseline)
      (Opened env baseline) (privileged env .body (runSetup env) destination) := by
    intro destination
    mvcgen [privileged, hSetup, hCall]
  mvcgen [span, hPrivileged, hCall, hInfo, hRaise, hRaising, hCapture, hWarmUp, hBlocks, hPending]

theorem restore_spec (env : Environment) (baseline : Baseline) :
    ⦃fun w => ⌜Opened env baseline w⌝⦄ runRestore env
      ⦃post⟨fun done w => ⌜Left env baseline (done.returncode = 0) False w⌝,
        fun _ w => ⌜Left env baseline False False w⌝⟩⦄ := by
  refine spec_of_run fun w hw => ?_
  obtain ⟨result, machine, hRun, hMachine, -⟩ := runRestore_run env w
  obtain ⟨before, made, ran, after, hTrace, hBaseline, hBefore, hAfter⟩ := hw.since
  have hLeft : ∀ good : Prop, (good → ∃ done, result = .ok done ∧ done.returncode = 0) →
      Left env baseline good False { w.after [.restore result] with machine := machine } := by
    intro good hGood
    refine ⟨hw.known, ⟨before, made, ran, after, result, [], by simp [hTrace], hBaseline, hBefore,
      hAfter, by simp, hGood, False.elim⟩, fun h => ?_⟩
    obtain ⟨done, hDone, hZero⟩ := hGood h
    exact hMachine done hDone hZero
  refine ⟨result, _, hRun, ?_, fun _ _ => hLeft False False.elim⟩
  rintro done rfl
  exact hLeft _ fun hZero => ⟨done, rfl, hZero⟩

/-- `restoreMode` returns: it succeeded where it returns no error. -/
theorem restoreMode_spec (env : Environment) (baseline : Baseline) :
    ⦃fun w => ⌜Opened env baseline w⌝⦄ restoreMode env
      ⦃post⟨fun r w => ⌜Left env baseline (r.1 = []) False w⌝, fun _ _ => ⌜False⌝⟩⦄ := by
  have hRestore := restore_spec env
  have hCall : ∀ good c, Takes (Left env baseline good False) (Left env baseline good False)
      (Left env baseline False False) (call env .leave c) := fun good c =>
    ((Left.frame .leave).call env c).mono (fun _ => id) fun _ h => h.weaken False.elim id
  have hPrivileged : ∀ destination,
      ⦃fun w => ⌜Opened env baseline w⌝⦄ privileged env .leave (runRestore env) destination
        ⦃post⟨fun r w => ⌜Left env baseline (r.1.returncode = 0) False w⌝,
          fun _ w => ⌜Left env baseline False False w⌝⟩⦄ := by
    intro destination
    mvcgen [privileged, hRestore, hCall]
  mvcgen [restoreMode, hPrivileged, modifyInfo, BenchRecord.modifyStudy]
  case vc2.isTrue.post.success.isTrue hLeft _ _ =>
    exact { hLeft.weaken (fun h => absurd h (by simp)) id with }
  case vc3.isTrue.post.success.isFalse hLeft _ hZero _ =>
    exact { hLeft.weaken (fun _ => not_not.mp hZero) id with }
  case vc4.isTrue.post.except.handle hLeft => exact hLeft.weaken (fun h => absurd h (by simp)) id
  case vc5.isFalse hOpened _ hFalse => exact absurd hOpened.attempted hFalse

/-- What a pass in `leave` finds. -/
theorem pass_spec (env : Environment) (baseline : Baseline) (good : Prop) :
    ⦃fun w => ⌜Left env baseline good False w⌝⦄ applyAffinity env .leave baseline ∅
      ⦃post⟨fun pass w => ⌜Left env baseline good (pass.changed = 0 ∧ pass.failed = 0) w⌝,
        fun _ w => ⌜Left env baseline good False w⌝⟩⦄ := by
  have hFrame : Frame .leave (Left env baseline good False) := Left.frame .leave
  refine spec_of_run fun w hw => ?_
  cases hRun : (applyAffinity env .leave baseline ∅).run w with
  | ok pass w' =>
      refine ⟨.ok pass, w', rfl, ?_, by simp⟩
      rintro _ ⟨⟩
      obtain ⟨es, rfl, hAnswers, hAttempted⟩ := applyAffinity_answers hRun
      exact hw.found hAnswers fun hQuiet => hAttempted.settled hQuiet.1 hQuiet.2
  | error e w' =>
      exact ⟨.error e, w', rfl, by simp, fun _ _ =>
        (hFrame.applyAffinity env baseline ∅).error hw hRun⟩

/-- What holds when `leave` has collected its errors. -/
def Collected (env : Environment) (errors : List String) (w : World Study) : Prop :=
  Undone env (errors = []) w.trace ∧ (errors = [] → w.machine.Left)

theorem Left.collected {errors : List String} (h : Left env baseline good settled w)
    (hGood : errors = [] → good) (hSettled : errors = [] → settled) : Collected env errors w :=
  ⟨h.undone hGood hSettled, fun hNone => h.machine (hGood hNone)⟩

theorem Left.failed {errors : List String} {message : String}
    (h : Left env baseline good settled w) : Collected env (errors ++ [message]) w :=
  h.collected (fun hNone => absurd hNone (by simp)) fun hNone => absurd hNone (by simp)

/-- `returnTasks` returns: all is undone where it returns no error. -/
theorem returnTasks_spec (env : Environment) (baseline : Baseline) (errors : List String) :
    ⦃fun w => ⌜Left env baseline (errors = []) False w⌝⦄ returnTasks env errors
      ⦃post⟨fun errors' w => ⌜Collected env errors' w⌝, fun _ _ => ⌜False⌝⟩⦄ := by
  have hPass := fun baseline => pass_spec env baseline (errors = [])
  have hCall : ∀ baseline settled c, Takes (Left env baseline (errors = []) settled)
      (Left env baseline (errors = []) settled) (Left env baseline (errors = []) False)
      (call env .leave c) := fun baseline settled c =>
    ((Left.frame .leave).call env c).mono (fun _ => id) fun _ h => h.weaken id False.elim
  have hInfo : ∀ baseline settled f, Keeps (Left env baseline (errors = []) settled)
      (modifyInfo f) := by
    intro baseline settled f
    mvcgen [modifyInfo, BenchRecord.modifyStudy]
    rename_i hLeft _
    exact { hLeft with }
  mvcgen [returnTasks, hPass, hCall, hInfo, BenchRecord.modifyStudy]
  case vc1.h_1 hLeft _ hNone =>
    rw [hLeft.known] at hNone
    cases hNone
  case vc2.h_2.pre hLeft _ other hSome =>
    obtain rfl := Option.some.inj (hLeft.known.symm.trans hSome)
    exact hLeft
  case vc3.h_2.post.success.pre hLeft => exact hLeft.weaken id False.elim
  case vc14.h_2.post.success.post.success.post.success.post.success.post.success.isFalse.isTrue
      hErrors _ hLeft =>
    exact hLeft.collected id fun hNone => absurd hNone hErrors
  case vc18.h_2.post.success.post.success.post.success.post.success.post.success.isFalse.isFalse.post.success
      hPass hErrors _ _ _ _ hLeft _ =>
    have hNone : errors = [] := not_not.mp hErrors
    exact hLeft.collected (fun _ => hNone) fun _ => by omega
  all_goals exact Left.failed (by assumption)

theorem Undone.ended {complete : Prop} (h : Undone env complete w.trace) : Ended env w :=
  h.imp False.elim

/-- A session ends normally when all is undone. -/
theorem leave_spec (env : Environment) (baseline : Baseline) :
    Takes (Opened env baseline) (fun w => Closed env w ∧ w.machine.Left) (Ended env)
      (leave env) := by
  have hMode := restoreMode_spec env baseline
  have hTasks := returnTasks_spec env baseline
  have hInfo : ∀ errors f, Takes (Collected env errors) (Collected env errors) (Ended env)
      (modifyInfo f) := by
    intro errors f
    mvcgen [modifyInfo, BenchRecord.modifyStudy]
  have hCall : ∀ errors c, Takes (Collected env errors) (Collected env errors) (Ended env)
      (call env .leave c) := by
    intro errors c
    have hFrame : Frame .leave (Collected env errors) := fun _ _ _ h =>
      ⟨h.1.append quiet_answer, h.2⟩
    exact (hFrame.call env c).mono (fun _ => id) fun _ h => h.1.ended
  have hPending : ∀ errors pending, Takes (Collected env errors) (Collected env errors) (Ended env)
      (raisePending pending) := by
    intro errors pending
    mvcgen [raisePending]
    exact (‹Collected env errors _›).1.ended
  have hRaise : ∀ errors e, Takes (Collected env errors) (fun w => Closed env w ∧ w.machine.Left)
      (Ended env) (raiseIf (errors ≠ []) e) := by
    intro errors e
    mvcgen [raiseIf]
    case vc1.isTrue hCollected => exact hCollected.1.ended
    case vc2.isFalse hFalse _ hCollected =>
      have hNone : errors = [] := by simpa using hFalse
      exact ⟨hCollected.1.imp fun _ => hNone, hCollected.2 hNone⟩
  mvcgen [leave, hMode, hTasks, hInfo, hCall, hPending, hRaise]

theorem session_spec (env : Environment) (o : Options) (matrix : List Condition) (number : Nat) :
    Takes (Closed env) (fun w => Closed env w ∧ w.machine.Left) (Ended env)
      (session env o matrix number) := by
  have hBegin := beginSession_spec env number
  have hFinish : ∀ baseline, Takes (Opened env baseline) (fun w => Closed env w ∧ w.machine.Left)
      (Ended env) (tryFinally (captureAfter env number) (leave env)) := fun baseline =>
    takes_tryFinally (Opened.spanFrame.captureAfter env number) (leave_spec env baseline)
      ((leave_spec env baseline).mono (fun _ h => h.1.ended) fun _ => id)
  have hSession : ∀ baseline, Takes (Ready env baseline) (fun w => Closed env w ∧ w.machine.Left)
      (Ended env) (tryFinally (span env o matrix number baseline)
        (tryFinally (captureAfter env number) (leave env))) := fun baseline =>
    takes_tryFinally (span_spec env o matrix number baseline) (hFinish baseline)
      ((hFinish baseline).mono (fun _ h => h.1.ended) fun _ => id)
  mvcgen [session, hBegin, hSession]
  exact Undone.ended

/-- Every session is undone, and the machine is as it was. -/
def Complete (env : Environment) (o : Options) (w : World Study) : Prop :=
  Closed env w ∧ (1 ≤ o.sessions → w.machine.Left)

theorem sessions_spec (env : Environment) (o : Options) (matrix : List Condition) :
    Takes (Closed env) (Complete env o) (Ended env) (sessions env o matrix) := by
  have hSession := session_spec env o matrix
  mvcgen [sessions, hSession] invariants
  · post⟨fun r w => ⌜Closed env w ∧ (r.1.suffix.length < o.sessions.toNat → w.machine.Left)⌝,
      fun _ w => ⌜Ended env w⌝⟩
  case vc1.step.pre hClosed => exact hClosed.1
  case vc2.step.post.success hClosed => exact ⟨hClosed.1, fun _ => hClosed.2⟩
  case vc4.pre hClosed => exact ⟨hClosed, fun hLess => by simp at hLess⟩
  case vc5.post.success hClosed =>
    exact ⟨hClosed.1, fun hPositive => hClosed.2 (by simp only [List.length_nil]; omega)⟩

/-! ## The program -/

theorem study_spec (env : Environment) (o : Options) (matrix : List Condition) :
    Takes (Closed env) (Complete env o) (Ended env) (study env o matrix) := by
  have hClosed : SpanFrame (Closed env) := Closed.spanFrame
  have hPrepare := hClosed.prepare env o matrix
  have hSessions := sessions_spec env o matrix
  mvcgen [study, hPrepare, hSessions, BenchRecord.modifyStudy]
  case vc3.post.except.handle hClosed _ => exact Undone.ended hClosed

theorem Complete.spanFrame {o : Options} : SpanFrame (Complete env o) where
  calls _ _ _ h := ⟨Closed.frame .body _ _ _ h.1, h.2⟩
  study _ _ h := h

omit [Unicode] in
theorem checkOptions_spec (I : World Study → Prop) (o : Options) :
    ⦃fun w => ⌜I w⌝⦄ checkOptions o
      ⦃post⟨fun _ w => ⌜I w ∧ 1 ≤ o.sessions⌝, fun _ w => ⌜I w⌝⟩⦄ := by
  mvcgen [checkOptions, raiseIf]
  case vc5.isFalse.isFalse.isFalse.isFalse hI hLeast _ _ _ =>
    simp only [decide_eq_true_eq, min_lt_iff, not_or, not_lt] at hLeast
    exact ⟨hI, hLeast.1⟩

theorem main_spec (env : Environment) (o : Options) (matrix : List Condition) :
    Takes (Closed env) (fun w => Closed env w ∧ w.machine.Left) (Ended env) (main env o matrix) := by
  have hOptions := checkOptions_spec (Closed env) o
  have hComplete : SpanFrame (Complete env o) := Complete.spanFrame
  have hStudy : Takes (Closed env) (Complete env o) (Ended env)
      (tryFinally (study env o matrix) (archive env)) :=
    takes_tryFinally (study_spec env o matrix)
      ((hComplete.archive env).mono (fun _ => id) fun _ h => h.1.ended)
      (Ended.spanFrame.archive env)
  have hCall : ∀ c, Takes (Complete env o) (Complete env o) (Ended env) (call env .body c) :=
    fun c => (hComplete.calls.call env c).mono (fun _ => id) fun _ h => h.1.ended
  mvcgen [main, hOptions, hStudy, hCall]
  case vc2.post.success.pre hClosed => exact hClosed.1
  case vc4.post.success.post.success.post.success hOptions _ _ _ _ _ _ =>
    exact fun hComplete => ⟨hComplete.1, hComplete.2 hOptions.2⟩
  case vc5.post.except.handle => exact Undone.ended

/-! ## What a restore leaves -/

/-- A `setup` among the events has changed the setting. -/
def MadeIn (t : List Event) (x : Setting) : Prop := ∃ made result, .setup made result ∈ t ∧ x ∈ made

/-- A `restore` among the events removed the state file without putting back the setting, which a
`setup` before it had changed, or which the state file told of when the run began. -/
def LeftIn (env : Environment) (m : Machine) (t : List Event) (x : Setting) : Prop :=
  ∃ before restored after, t = before ++ .restore restored :: after ∧
    x ∈ (env.restore before).ending.left ∧ (x ∈ m.changed ∨ MadeIn before x)

/-- Where the changes of the machine come from. -/
structure Traced (env : Environment) (m : Machine) (w : World Study) : Prop where
  changed : ∀ x ∈ w.machine.changed, x ∈ m.changed ∨ MadeIn w.trace x
  lost : ∀ x ∈ w.machine.lost, x ∈ m.lost ∨ LeftIn env m w.trace x

section Traces

variable {m : Machine} {t es : List Event} {x : Setting}

omit [Unicode] in
theorem MadeIn.append (h : MadeIn t x) : MadeIn (t ++ es) x := by
  obtain ⟨made, result, hMem, hx⟩ := h
  exact ⟨made, result, List.mem_append_left _ hMem, hx⟩

omit [Unicode] in
theorem LeftIn.append (h : LeftIn env m t x) : LeftIn env m (t ++ es) x := by
  obtain ⟨before, restored, after, rfl, hx, hMade⟩ := h
  exact ⟨before, restored, after ++ es, by simp, hx, hMade⟩

omit [Unicode] in
theorem Traced.after (h : Traced env m w) : Traced env m (w.after es) where
  changed x hx := (h.changed x hx).imp id MadeIn.append
  lost x hx := (h.lost x hx).imp id LeftIn.append

omit [Unicode] in
theorem Traced.runSetup : Keeps (Traced env m) (runSetup env) := by
  refine spec_of_run fun w hw => ?_
  obtain ⟨made, result, machine, hRun, hChanged, hLost⟩ := runSetup_run env w
  have hTraced : Traced env m { w.after [.setup made result] with machine := machine } := by
    constructor
    · intro x hx
      rcases hChanged x hx with hOld | hMade
      · exact (hw.changed x hOld).imp id MadeIn.append
      · exact Or.inr ⟨made, result, by simp, hMade⟩
    · intro x hx
      dsimp only at hx
      rw [hLost] at hx
      exact (hw.lost x hx).imp id LeftIn.append
  exact ⟨result, _, hRun, fun _ _ => hTraced, fun _ _ => hTraced⟩

omit [Unicode] in
theorem Traced.runRestore : Keeps (Traced env m) (runRestore env) := by
  refine spec_of_run fun w hw => ?_
  obtain ⟨result, machine, hRun, -, hChanged, hLost⟩ := runRestore_run env w
  have hTraced : Traced env m { w.after [.restore result] with machine := machine } := by
    constructor
    · intro x hx
      exact (hw.changed x (hChanged x hx)).imp id MadeIn.append
    · intro x hx
      rcases hLost x hx with hOld | ⟨hOld, hLeft⟩
      · exact (hw.lost x hOld).imp id LeftIn.append
      · exact Or.inr ⟨w.trace, result, [], rfl, hLeft, hw.changed x hOld⟩
  exact ⟨result, _, hRun, fun _ _ => hTraced, fun _ _ => hTraced⟩

end Traces

/-- An assertion that survives every step of the program. -/
structure ModeFrame (env : Environment) (I : World Study → Prop) : Prop where
  calls : ∀ site, Frame site I
  study : ∀ {w : World Study} {t : Study}, I w → I { w with study := t }
  setup : Keeps I (runSetup env)
  restore : Keeps I (runRestore env)

omit [Unicode] in
theorem Traced.modeFrame {m : Machine} : ModeFrame env (Traced env m) where
  calls _ _ _ _ h := h.after
  study h := { h with }
  setup := Traced.runSetup
  restore := Traced.runRestore

namespace ModeFrame

variable {I : World Study → Prop}

omit [Unicode] in
theorem spanFrame (hI : ModeFrame env I) : SpanFrame I := ⟨hI.calls .body, fun _ _ h => hI.study h⟩

omit [Unicode] in
theorem modifyStudy (hI : ModeFrame env I) (f : Study → Study) : Keeps I (modifyStudy f) := by
  mvcgen [BenchRecord.modifyStudy]
  exact hI.study ‹_›

omit [Unicode] in
theorem raisePending (_hI : ModeFrame env I) (pending : List Nat) :
    Keeps I (raisePending pending) := by
  mvcgen [BenchDiagnose.raisePending]

omit [Unicode] in
theorem privileged (hI : ModeFrame env I) (site : Site) {action : Recorder Study Completed}
    (hAction : Keeps I action) (destination : String) :
    Keeps I (privileged env site action destination) := by
  have hCall := (hI.calls site).call env
  mvcgen [BenchDiagnose.privileged, hAction, hCall]

theorem beginSession (hI : ModeFrame env I) (number : Nat) :
    Keeps I (beginSession env number) := by
  have hCall := hI.spanFrame.calls.call env
  have hBaseline := hI.spanFrame.calls.affinityBaseline env
  have hRaise := hI.spanFrame.raiseIf
  have hModify := hI.modifyStudy
  mvcgen [BenchDiagnose.beginSession, hCall, hBaseline, hRaise, hModify]

theorem span (hI : ModeFrame env I) (o : Options) (matrix : List Condition) (number : Nat)
    (baseline : Baseline) : Keeps I (span env o matrix number baseline) := by
  have hCall := hI.spanFrame.calls.call env
  have hPrivileged := hI.privileged .body hI.setup
  have hInfo := hI.spanFrame.modifyInfo
  have hRaise := hI.spanFrame.raiseIf
  have hRaising := fun α => @keeps_raising Study I α
  have hCapture := hI.spanFrame.captureEnv env
  have hWarmUp := hI.spanFrame.warmUp env
  have hBlocks := hI.spanFrame.blocks env
  have hPending := hI.raisePending
  mvcgen [BenchDiagnose.span, hPrivileged, hCall, hInfo, hRaise, hRaising, hCapture, hWarmUp,
    hBlocks, hPending]

theorem leave (hI : ModeFrame env I) : Keeps I (leave env) := by
  have hCall := (hI.calls .leave).call env
  have hPrivileged := hI.privileged .leave hI.restore
  have hInfo := hI.spanFrame.modifyInfo
  have hModify := hI.modifyStudy
  have hRaise := hI.spanFrame.raiseIf
  have hPending := hI.raisePending
  have hApply := (hI.calls .leave).applyAffinity env
  have hMode : Keeps I (restoreMode env) := by
    mvcgen [restoreMode, hPrivileged, hInfo, hModify]
  have hTasks : ∀ errors, Keeps I (returnTasks env errors) := by
    intro errors
    mvcgen [returnTasks, hApply, hCall, hInfo, hModify]
  mvcgen [BenchDiagnose.leave, hMode, hTasks, hInfo, hCall, hPending, hRaise]

theorem session (hI : ModeFrame env I) (o : Options) (matrix : List Condition) (number : Nat) :
    Keeps I (session env o matrix number) := by
  have hBegin := hI.beginSession number
  have hLeave : Keeps I (tryFinally (captureAfter env number) (BenchDiagnose.leave env)) :=
    takes_tryFinally (hI.spanFrame.captureAfter env number) hI.leave hI.leave
  have hSession : ∀ baseline, Keeps I (tryFinally (BenchDiagnose.span env o matrix number baseline)
      (tryFinally (captureAfter env number) (BenchDiagnose.leave env))) := fun baseline =>
    takes_tryFinally (hI.span o matrix number baseline) hLeave hLeave
  mvcgen [BenchDiagnose.session, hBegin, hSession]

theorem main (hI : ModeFrame env I) (o : Options) (matrix : List Condition) :
    Keeps I (main env o matrix) := by
  have hCall := hI.spanFrame.calls.call env
  have hRaise := hI.spanFrame.raiseIf
  have hModify := hI.modifyStudy
  have hPrepare := hI.spanFrame.prepare env o matrix
  have hSession := hI.session o matrix
  have hSessions : Keeps I (sessions env o matrix) := by
    mvcgen [sessions, hSession] invariants
    · post⟨fun _ w => ⌜I w⌝, fun _ w => ⌜I w⌝⟩
  have hStudy : Keeps I (BenchDiagnose.study env o matrix) := by
    mvcgen [BenchDiagnose.study, hPrepare, hSessions, hModify]
    exact id
  have hArchive := hI.spanFrame.archive env
  have hBoth : Keeps I (tryFinally (BenchDiagnose.study env o matrix) (archive env)) :=
    takes_tryFinally hStudy hArchive hArchive
  have hOptions : Keeps I (checkOptions o) := by
    mvcgen [checkOptions, hRaise]
  mvcgen [BenchDiagnose.main, hOptions, hBoth, hCall]

end ModeFrame

theorem Closed.initial (m : Machine) : Closed env { study := {}, machine := m } := by
  intro before made result after hSplit
  simp at hSplit

omit [Unicode] in
theorem Traced.initial (m : Machine) : Traced env m { study := {}, machine := m } :=
  ⟨fun _ hx => Or.inl hx, fun _ hx => Or.inl hx⟩

/-- What a run leaves behind.  Where it ends normally there is no state file, and what differs from
before is what a `restore` has not put back that removed it. -/
theorem run_undone (env : Environment) (o : Options) (matrix : List Condition) (m : Machine) :
    match run env o matrix m with
    | .ok _ w => Undone env True w.trace ∧ w.machine.stateFile = false ∧ w.machine.changed = [] ∧
        ∀ x ∈ w.machine.lost, x ∈ m.lost ∨ LeftIn env m w.trace x
    | .error _ w => Undone env False w.trace := by
  have hMain := main_spec env o matrix
  have hFrame : ModeFrame env (Traced env m) := Traced.modeFrame
  have hTraced := hFrame.main o matrix
  cases hRun : run env o matrix m with
  | ok _ w =>
      obtain ⟨hClosed, hState, hChanged⟩ := hMain.ok (Closed.initial m) hRun
      exact ⟨hClosed, hState, hChanged, (hTraced.ok (Traced.initial m) hRun).lost⟩
  | error _ w => exact hMain.error (Closed.initial m) hRun

end Phases

end BenchDiagnose

end MatchingMachine
