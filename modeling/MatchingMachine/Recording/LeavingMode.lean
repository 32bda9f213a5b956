import MatchingMachine.Model.BenchStudy
import MatchingMachine.Recording.Affinity
import Mathlib

/-!
# Measurement mode is left

When a run of `bench_record.py` ends, however it ends, `restore` has run after the last `setup` that
changed the machine, and every task's affinity was restored after it: this holds exactly when each
`setup` that changed something has succeeded and its output was written, as long as nothing keeps
the cleanup itself from going on.  `self.entered` is what decides; it is set last.
-/

open Std.Do Raising Traces

set_option mvcgen.warning false

namespace MatchingMachine

namespace BenchRecord

/-! ## The property -/

/-- A `setup` that changed the machine. -/
def Event.Changes : Event → Prop
  | .setup made _ => made ≠ []
  | _ => False

theorem Event.IsAnswer.not_changes {e : Event} (h : e.IsAnswer) : ¬ e.Changes := by
  cases e <;> simp [Event.IsAnswer, Event.Changes] at h ⊢

/-- Every `setup` that changed the machine succeeded, and its output was written. -/
def Entered (trace : List Event) : Prop :=
  ∀ before made result after, trace = before ++ .setup made result :: after → made ≠ [] →
    ∃ done name text rest, result = .ok done ∧ done.returncode = 0 ∧
      after = .answered .body (.writeText name text) (.ok ()) :: rest

section Property

variable [Unicode]

/-- After the last `setup` that changed the machine, `restore` has run, and after it every task was
tried with the affinity it has in the baseline written before that `setup`. -/
def LeftMode (env : Environment) (trace : List Event) : Prop :=
  ∀ before made result after, trace = before ++ .setup made result :: after → made ≠ [] →
    (∀ e ∈ after, ¬ e.Changes) →
      ∃ baseline between done later pass, Recorded baseline before ∧
        after = between ++ .restore (.ok done) :: later ∧
          Attempted env .leave baseline ∅ later pass

/-! ## Longer traces -/

variable {env : Environment} {t es : List Event}

omit [Unicode] in
theorem Entered.append (h : Entered t) (hQuiet : ∀ e ∈ es, ¬ e.Changes) : Entered (t ++ es) := by
  intro before made result after hSplit hMade
  have hChange : (Event.setup made result).Changes := hMade
  obtain ⟨after', hT, rfl⟩ := split_left hQuiet hChange hSplit
  obtain ⟨done, name, text, rest, hOk, hZero, rfl⟩ := h before made result after' hT hMade
  exact ⟨done, name, text, rest ++ es, hOk, hZero, rfl⟩

theorem LeftMode.append (h : LeftMode env t) (hQuiet : ∀ e ∈ es, ¬ e.Changes) :
    LeftMode env (t ++ es) := by
  intro before made result after hSplit hMade hLast
  have hChange : (Event.setup made result).Changes := hMade
  obtain ⟨after', hT, rfl⟩ := split_left hQuiet hChange hSplit
  obtain ⟨baseline, between, done, later, pass, hBaseline, rfl, hAttempted⟩ :=
    h before made result after' hT hMade fun e he => hLast e (List.mem_append_left _ he)
  exact ⟨baseline, between, done, later ++ es, pass, hBaseline, by simp,
    hAttempted.mono (List.subset_append_left _ _)⟩

/-- A trace whose last `setup` is known. -/
theorem leftMode_of_setup {before rest : List Event} {made : List Setting}
    {result : Except Raised Completed} (hBefore : LeftMode env before)
    (hQuiet : ∀ e ∈ rest, ¬ e.Changes)
    (hLeft : ∃ baseline between done later pass, Recorded baseline before ∧
        rest = between ++ .restore (.ok done) :: later ∧
          Attempted env .leave baseline ∅ later pass) :
    LeftMode env (before ++ .setup made result :: rest) := by
  by_cases hMade : made = []
  · refine hBefore.append fun e he => ?_
    rcases List.mem_cons.mp he with rfl | he
    · simp [Event.Changes, hMade]
    · exact hQuiet e he
  · intro before' made' result' after hSplit hMade' hLast
    have hChange : (Event.setup made result).Changes := hMade
    have hChange' : (Event.setup made' result').Changes := hMade'
    obtain ⟨rfl, -, rfl⟩ := last_unique hChange hChange' hQuiet hLast hSplit
    exact hLeft

omit [Unicode] in
/-- The same for the other property. -/
theorem entered_of_setup {before rest : List Event} {made : List Setting}
    {result : Except Raised Completed} (hBefore : Entered before)
    (hQuiet : ∀ e ∈ rest, ¬ e.Changes)
    (hGood : ∃ done name text rest', result = .ok done ∧ done.returncode = 0 ∧
      rest = .answered .body (.writeText name text) (.ok ()) :: rest') :
    Entered (before ++ .setup made result :: rest) := by
  intro before' made' result' after' hSplit hMade'
  have hChange' : (Event.setup made' result').Changes := hMade'
  rcases split_cases hQuiet hChange' hSplit with ⟨rfl, hEq, rfl⟩ | ⟨after, rfl, rfl⟩
  · cases hEq
    exact hGood
  · obtain ⟨done, name, text, rest', hOk, hZero, rfl⟩ :=
      hBefore before' made' result' after rfl hMade'
    exact ⟨done, name, text, rest' ++ .setup made result :: rest, hOk, hZero, by simp⟩

end Property

/-! ## What no step of a session can break -/

/-- An assertion that survives the calls of a session and changes of the rows. -/
structure StudyFrame (I : World Study → Prop) : Prop where
  calls : Frame .body I
  study : ∀ {w : World Study} {t : Study},
    t.entered = w.study.entered → t.baseline = w.study.baseline → I w → I { w with study := t }

namespace StudyFrame

variable {I I' : World Study → Prop}

theorem or (hI : StudyFrame I) (hI' : StudyFrame I') : StudyFrame fun w => I w ∨ I' w where
  calls _ _ _ := Or.imp (hI.calls _ _ _) (hI'.calls _ _ _)
  study hEntered hBaseline := Or.imp (hI.study hEntered hBaseline) (hI'.study hEntered hBaseline)

theorem modifyStudy (hI : StudyFrame I) (f : Study → Study)
    (hf : ∀ t, (f t).entered = t.entered ∧ (f t).baseline = t.baseline) :
    Keeps I (modifyStudy f) := by
  mvcgen [BenchRecord.modifyStudy]
  exact hI.study (hf _).1 (hf _).2 ‹_›

theorem dieIf (_hI : StudyFrame I) (condition : Bool) (message : String) :
    Keeps I (dieIf condition message) := by
  mvcgen [BenchRecord.dieIf, raiseIf]

theorem captureEnv (hI : StudyFrame I) (env : Environment) (name : String) :
    Keeps I (captureEnv env name) := by
  have hCall := hI.calls.call env
  mvcgen [BenchRecord.captureEnv, hCall]

variable [Unicode]

theorem one (hI : StudyFrame I) (env : Environment) (o : Design) (key : Key) (position : Nat)
    (cores : List Int) (measure : CpuSet) (moved : Nat) :
    Keeps I (one env o key position cores measure moved) := by
  have hCall := hI.calls.call env
  have hModify := hI.modifyStudy
  have hDie := hI.dieIf
  have hRaising := fun α => @keeps_raising Study I α
  mvcgen [BenchRecord.one, hCall, hModify, hDie, hRaising]
  all_goals simp

theorem launches (hI : StudyFrame I) (env : Environment) (o : Design) (s r : Nat)
    (condition : String) (order : List (String × Bool)) (baseline : Baseline)
    (cores : List Int) : Keeps I (launches env o s r condition order baseline cores) := by
  have hApply := hI.calls.applyAffinity env
  have hOne := hI.one env
  mvcgen [BenchRecord.launches, hApply, hOne] invariants
  · post⟨fun _ w => ⌜I w⌝, fun _ w => ⌜I w⌝⟩

theorem round (hI : StudyFrame I) (env : Environment) (o : Design) (s : Nat)
    (baseline : Baseline) (cores : List Int) (r : Nat) :
    Keeps I (round env o s baseline cores r) := by
  have hCall := hI.calls.call env
  have hModify := hI.modifyStudy
  have hRelease : ∀ p : Prop, [Decidable p] →
      Keeps I (if p then applyAffinity env .body baseline ∅ else pure {}) := by
    intro p _
    have hApply := hI.calls.applyAffinity env
    mvcgen [hApply]
  have hLaunches : ∀ condition order, Keeps I (tryFinally
      (BenchRecord.launches env o s r condition order baseline cores)
      (if condition = "cleared" then applyAffinity env .body baseline ∅ else pure {})) :=
    fun condition order => takes_tryFinally (hI.launches env o s r condition order baseline cores)
      (hRelease _) (hRelease _)
  mvcgen [BenchRecord.round, hCall, hModify, hLaunches]
  simp

theorem rounds (hI : StudyFrame I) (env : Environment) (o : Design) (s : Nat)
    (baseline : Baseline) (cores : List Int) : Keeps I (rounds env o s baseline cores) := by
  have hRound := hI.round env
  mvcgen [BenchRecord.rounds, hRound] invariants
  · post⟨fun _ w => ⌜I w⌝, fun _ w => ⌜I w⌝⟩

theorem measure (hI : StudyFrame I) (env : Environment) (o : Design) (s : Nat)
    (baseline : Baseline) : Keeps I (measure env o s baseline) := by
  have hCall := hI.calls.call env
  have hRaising := fun α => @keeps_raising Study I α
  have hDie := hI.dieIf
  have hCapture := hI.captureEnv env
  have hRounds := hI.rounds env
  mvcgen [BenchRecord.measure, hCall, hRaising, hDie, hCapture, hRounds]

end StudyFrame

/-! ## The phases of a run -/

section Phases

variable [Unicode] {env : Environment} {baseline : Baseline} {w : World Study}

/-- No session is in measurement mode, and none was left in it. -/
structure Clean (env : Environment) (w : World Study) : Prop where
  notEntered : w.study.entered = false
  entered : Entered w.trace
  left : LeftMode env w.trace

/-- A session is in measurement mode. -/
structure Measuring (env : Environment) (baseline : Baseline) (w : World Study) : Prop where
  isEntered : w.study.entered = true
  known : w.study.baseline = some baseline
  entered : Entered w.trace
  since : ∃ before made result after, w.trace = before ++ .setup made result :: after ∧
    Recorded baseline before ∧ LeftMode env before ∧ ∀ e ∈ after, e.IsAnswer

/-- The machine was changed by a `setup` that `self.entered` does not tell of. -/
structure Stranded (w : World Study) : Prop where
  notEntered : w.study.entered = false
  since : ∃ before made result after, w.trace = before ++ .setup made result :: after ∧
    made ≠ [] ∧ ∀ e ∈ after, e.IsAnswer
  notSound : ∀ more, ¬ Entered (w.trace ++ more)

/-- Something has kept a cleanup from going on. -/
structure Failing (w : World Study) : Prop where
  entered : Entered w.trace
  broken : w.Broken

/-- `restore` has run, the tasks have not been tried yet. -/
structure Restored (env : Environment) (baseline : Baseline) (w : World Study) : Prop where
  known : w.study.baseline = some baseline
  entered : Entered w.trace
  since : ∃ before made result after done later,
    w.trace = before ++ .setup made result :: (after ++ .restore (.ok done) :: later) ∧
      Recorded baseline before ∧ LeftMode env before ∧ (∀ e ∈ after, e.IsAnswer) ∧
        ∀ e ∈ later, e.IsAnswer

/-! What happens next does not change the phase. -/

omit [Unicode] in
theorem quiet_answer {site : Site} {c : Call} {answer : Except Raised c.Answer} :
    ∀ e ∈ [Event.answered site c answer], ¬ e.Changes := by
  simp [Event.Changes]

theorem Clean.frame (site : Site) : Frame site (Clean env) := fun _ _ _ h =>
  { notEntered := h.notEntered
    entered := h.entered.append quiet_answer
    left := h.left.append quiet_answer }

theorem Clean.study (h : Clean env w) {t : Study} (ht : t.entered = w.study.entered) :
    Clean env { w with study := t } :=
  { h with notEntered := ht.trans h.notEntered }

theorem Clean.studyFrame : StudyFrame (Clean env) where
  calls := Clean.frame .body
  study hEntered _ h := h.study hEntered

theorem Measuring.studyFrame : StudyFrame (Measuring env baseline) where
  calls := by
    rintro w c answer ⟨hEntered, hKnown, hSound, before, made, result, after, hTrace, hBaseline,
      hBefore, hAfter⟩
    refine ⟨hEntered, hKnown, hSound.append quiet_answer, before, made, result,
      after ++ [.answered .body c answer], by simp [hTrace], hBaseline, hBefore, ?_⟩
    simpa [or_imp, forall_and, Event.IsAnswer] using hAfter
  study hEntered hBaseline h :=
    { h with isEntered := hEntered.trans h.isEntered, known := hBaseline.trans h.known }

omit [Unicode] in
theorem Stranded.frame (site : Site) : Frame site Stranded := by
  rintro w c answer ⟨hEntered, ⟨before, made, result, after, hTrace, hMade, hAfter⟩, hNot⟩
  refine ⟨hEntered, ⟨before, made, result, after ++ [.answered site c answer], by simp [hTrace],
    hMade, ?_⟩, fun more => ?_⟩
  · simpa [or_imp, forall_and, Event.IsAnswer] using hAfter
  · simpa using hNot (.answered site c answer :: more)

omit [Unicode] in
theorem Failing.frame (site : Site) : Frame site Failing := fun w _ _ h =>
  { entered := h.entered.append quiet_answer
    broken := by
      obtain ⟨e, he, hStuck⟩ := h.broken
      exact ⟨e, List.mem_append_left _ he, hStuck⟩ }

theorem Restored.frame : Frame .leave (Restored env baseline) := by
  rintro w c answer ⟨hKnown, hSound, before, made, result, after, done, later, hTrace, hBaseline,
    hBefore, hAfter, hLater⟩
  refine ⟨hKnown, hSound.append quiet_answer, before, made, result, after, done,
    later ++ [.answered .leave c answer], by simp [hTrace], hBaseline, hBefore, hAfter, ?_⟩
  simpa [or_imp, forall_and, Event.IsAnswer] using hLater

/-- The world after every task was tried. -/
theorem Restored.clean (h : Restored env baseline w) (hEntered : w.study.entered = false)
    {es : List Event} {pass : Pass} (hQuiet : ∀ e ∈ es, ¬ e.Changes)
    (hAttempted : Attempted env .leave baseline ∅ es pass) : Clean env (w.after es) := by
  obtain ⟨-, hSound, before, made, result, after, done, later, hTrace, hBaseline, hBefore, hAfter,
    hLater⟩ := h
  refine ⟨hEntered, hSound.append hQuiet, ?_⟩
  have hSplit : w.trace ++ es =
      before ++ .setup made result :: (after ++ .restore (.ok done) :: (later ++ es)) := by
    simp [hTrace]
  show LeftMode env (w.trace ++ es)
  rw [hSplit]
  refine leftMode_of_setup hBefore ?_ ⟨baseline, after, done, later ++ es, pass, hBaseline, rfl,
    hAttempted.mono (List.subset_append_right _ _)⟩
  intro e he
  simp only [List.mem_append, List.mem_cons] at he
  rcases he with he | rfl | he | he
  · exact (hAfter e he).not_changes
  · simp [Event.Changes]
  · exact (hLater e he).not_changes
  · exact hQuiet e he

/-! ## Entering -/

/-- The baseline is on disk. -/
structure Prepared (env : Environment) (baseline : Baseline) (w : World Study) : Prop
    extends Clean env w where
  known : w.study.baseline = some baseline
  recorded : Recorded baseline w.trace

/-- `setup` has returned. -/
structure SetUp (env : Environment) (baseline : Baseline) (made : List Setting) (done : Completed)
    (after : List Event) (w : World Study) : Prop where
  notEntered : w.study.entered = false
  known : w.study.baseline = some baseline
  since : ∃ before, w.trace = before ++ .setup made (.ok done) :: after ∧
    Recorded baseline before ∧ Entered before ∧ LeftMode env before

theorem runSetup_spec (env : Environment) (baseline : Baseline) :
    ⦃fun w => ⌜Prepared env baseline w⌝⦄ runSetup env
      ⦃post⟨fun done w => ⌜∃ made, SetUp env baseline made done [] w⌝,
        fun _ w => ⌜Clean env w ∨ Stranded w⌝⟩⦄ := by
  refine spec_of_run fun w hw => ?_
  obtain ⟨made, result, machine, hRun, -⟩ := runSetup_run env w
  refine ⟨result, _, hRun, ?_, ?_⟩
  · rintro done rfl
    exact ⟨made, hw.notEntered, hw.known, w.trace, rfl, hw.recorded, hw.entered, hw.left⟩
  · rintro e rfl
    by_cases hMade : made = []
    · refine .inl ⟨hw.notEntered, hw.entered.append ?_, hw.left.append ?_⟩
      all_goals simp [Event.Changes, hMade]
    · refine .inr ⟨hw.notEntered, ⟨w.trace, made, .error e, [], rfl, hMade, by simp⟩, ?_⟩
      intro more hSound
      obtain ⟨done, name, text, rest, hOk, -⟩ := hSound w.trace made (.error e) more
        (by simp) hMade
      cases hOk

/-- A `setup` whose output is not written, or that failed, is not told of. -/
theorem SetUp.stopped {made : List Setting} {done : Completed} {after : List Event}
    (h : SetUp env baseline made done after w) (hAnswers : ∀ e ∈ after, e.IsAnswer)
    (hNot : ∀ more, ¬ (done.returncode = 0 ∧
      ∃ name text rest, after ++ more = .answered .body (.writeText name text) (.ok ()) :: rest)) :
    Clean env w ∨ Stranded w := by
  obtain ⟨hEntered, hKnown, before, hTrace, hBaseline, hSound, hLeft⟩ := h
  by_cases hMade : made = []
  · have hQuiet : ∀ e ∈ .setup made (.ok done) :: after, ¬ e.Changes := by
      intro e he
      rcases List.mem_cons.mp he with rfl | he
      · simp [Event.Changes, hMade]
      · exact (hAnswers e he).not_changes
    exact .inl ⟨hEntered, hTrace ▸ hSound.append hQuiet, hTrace ▸ hLeft.append hQuiet⟩
  · refine .inr ⟨hEntered, ⟨before, made, .ok done, after, hTrace, hMade, hAnswers⟩, ?_⟩
    intro more hAll
    obtain ⟨done', name, text, rest, hOk, hZero, hWritten⟩ :=
      hAll before made (.ok done) (after ++ more) (by simp [hTrace]) hMade
    cases hOk
    exact hNot more ⟨hZero, name, text, rest, hWritten⟩

theorem writeText_spec (env : Environment) (baseline : Baseline) (done : Completed)
    (name text : String) :
    ⦃fun w => ⌜∃ made, SetUp env baseline made done [] w⌝⦄ call env .body (.writeText name text)
      ⦃post⟨fun _ w => ⌜∃ made, SetUp env baseline made done
          [.answered .body (.writeText name text) (.ok ())] w⌝,
        fun _ w => ⌜Clean env w ∨ Stranded w⌝⟩⦄ := by
  refine spec_of_run fun w hw => ?_
  obtain ⟨made, hEntered, hKnown, before, hTrace, hBaseline, hSound, hLeft⟩ := hw
  refine ⟨_, _, call_run env .body (.writeText name text) w, ?_, ?_⟩
  · intro _ hAnswer
    rw [hAnswer]
    exact ⟨made, hEntered, hKnown, before, by simp [hTrace], hBaseline, hSound, hLeft⟩
  · intro e hAnswer
    rw [hAnswer]
    have hFailed : SetUp env baseline made done
        [.answered .body (.writeText name text) (.error e)]
        (w.after [.answered .body (.writeText name text) (.error e)]) :=
      ⟨hEntered, hKnown, before, by simp [hTrace], hBaseline, hSound, hLeft⟩
    refine hFailed.stopped (by simp [Event.IsAnswer]) ?_
    rintro more ⟨-, name', text', rest, hEq⟩
    simp at hEq

/-- The flag is set once the output of a successful `setup` is written. -/
theorem SetUp.measuring {made : List Setting} {done : Completed} {name text : String}
    (h : SetUp env baseline made done [.answered .body (.writeText name text) (.ok ())] w)
    (hZero : done.returncode = 0) :
    Measuring env baseline { w with study := { w.study with entered := true } } := by
  obtain ⟨hEntered, hKnown, before, hTrace, hBaseline, hSound, hLeft⟩ := h
  have hAnswers : ∀ e ∈ [Event.answered .body (.writeText name text) (.ok ())], e.IsAnswer := by
    simp [Event.IsAnswer]
  refine ⟨rfl, hKnown, ?_, before, made, .ok done, _, hTrace, hBaseline, hLeft, hAnswers⟩
  show Entered w.trace
  rw [hTrace]
  exact entered_of_setup hSound (fun e he => (hAnswers e he).not_changes)
    ⟨done, name, text, [], rfl, hZero, rfl⟩

theorem enter_spec (env : Environment) (o : Design) (s : Nat) :
    ⦃fun w => ⌜Clean env w⌝⦄ enter env o s
      ⦃post⟨fun baseline w => ⌜Clean env w ∨ Measuring env baseline w⌝,
        fun _ w => ⌜Clean env w ∨ Stranded w⌝⟩⦄ := by
  have hClean : Frame .body (Clean env) := Clean.frame .body
  have hBaseline := hClean.affinityBaseline env
  have hSetup := runSetup_spec env
  have hWrite := writeText_spec env
  have hRecovery : ∀ baseline,
      ⦃fun w => ⌜Clean env w ∧ w.study.baseline = some baseline⌝⦄
        call env .body (.writeRecovery baseline)
      ⦃post⟨fun _ w => ⌜Prepared env baseline w⌝, fun _ w => ⌜Clean env w⌝⟩⦄ := by
    intro baseline
    refine spec_of_run fun w hw => ⟨_, _, call_run env .body (.writeRecovery baseline) w, ?_, ?_⟩
    · intro _ hAnswer
      rw [hAnswer]
      exact ⟨Clean.frame _ _ _ _ hw.1, hw.2, by simp [Recorded]⟩
    · exact fun _ _ => Clean.frame _ _ _ _ hw.1
  mvcgen [enter, hBaseline, hSetup, hWrite, hRecovery, modifyStudy, dieIf, raiseIf]
  case vc2.post.success.pre =>
    have hClean : Clean env _ := ‹_›
    exact ⟨hClean.study rfl, rfl⟩
  case vc8.post.success.post.success.isTrue.post.success.post.success.isTrue hSetUp hFailed =>
    obtain ⟨made, hSetUp⟩ := hSetUp
    exact hSetUp.stopped (by simp [Event.IsAnswer]) fun _ hZero => of_decide_eq_true hFailed hZero.1
  case vc9.post.success.post.success.isTrue.post.success.post.success.isFalse hSetUp hZero _ =>
    obtain ⟨made, hSetUp⟩ := hSetUp
    exact .inr (hSetUp.measuring (by simpa using hZero))
  case vc10.post.success.post.success.isFalse hPrepared => exact .inl hPrepared.toClean
  all_goals exact .inl

/-! ## Leaving -/

/-- An assertion that survives what `leave` does after `restore`. -/
structure LeaveFrame (I : World Study → Prop) : Prop where
  calls : Frame .leave I
  study : ∀ {w : World Study} {t : Study}, t.entered = w.study.entered → I w →
    I { w with study := t }

theorem LeaveFrame.secondPass {I : World Study → Prop} (hI : LeaveFrame I) (env : Environment)
    (baseline : Baseline) : Keeps I (secondPass env baseline) := by
  have hCall := hI.calls.call env
  have hApply := hI.calls.applyAffinity env
  mvcgen [BenchRecord.secondPass, hCall, hApply, modifyStudy]
  exact hI.study rfl ‹_›

theorem LeaveFrame.returnTasks {I : World Study → Prop} (hI : LeaveFrame I) (env : Environment) :
    Keeps I (returnTasks env) := by
  have hCall := hI.calls.call env
  have hApply := hI.calls.applyAffinity env
  have hSecond := hI.secondPass env
  mvcgen [BenchRecord.returnTasks, firstPass, hCall, hApply, hSecond]

theorem Clean.leaveFrame : LeaveFrame (Clean env) := ⟨Clean.frame .leave, fun ht h => h.study ht⟩

omit [Unicode] in
theorem Stranded.leaveFrame : LeaveFrame Stranded :=
  ⟨Stranded.frame .leave, fun ht h => { h with notEntered := ht.trans h.notEntered }⟩

omit [Unicode] in
theorem Failing.leaveFrame : LeaveFrame Failing := ⟨Failing.frame .leave, fun _ h => { h with }⟩

/-- Outside measurement mode `leave` only returns the tasks. -/
theorem LeaveFrame.leave {I : World Study → Prop} (hI : LeaveFrame I)
    (hEntered : ∀ w, I w → w.study.entered = false) (env : Environment) :
    Keeps I (leave env) := by
  have hTasks := hI.returnTasks env
  have hMode : Keeps I (leaveMode env) := by
    mvcgen [leaveMode]
    case vc1.isTrue w hI hTrue =>
      rw [hEntered w hI] at hTrue
      cases hTrue
  mvcgen [BenchRecord.leave, hMode, hTasks]

/-- `restore` has run, or has kept the cleanup from going on. -/
theorem restore_spec (env : Environment) (baseline : Baseline) :
    ⦃fun w => ⌜Measuring env baseline w⌝⦄ runRestore env
      ⦃post⟨fun _ w => ⌜Restored env baseline w⌝, fun _ w => ⌜Failing w⌝⟩⦄ := by
  refine spec_of_run fun w hw => ?_
  obtain ⟨result, machine, hRun, -⟩ := runRestore_run env w
  have hQuiet : ∀ e ∈ [Event.restore result], ¬ e.Changes := by simp [Event.Changes]
  refine ⟨result, _, hRun, ?_, ?_⟩
  · rintro done rfl
    obtain ⟨before, made, result, after, hTrace, hBaseline, hLeft, hAfter⟩ := hw.since
    exact ⟨hw.known, hw.entered.append hQuiet, before, made, result, after, done, [],
      by simp [hTrace], hBaseline, hLeft, hAfter, by simp⟩
  · rintro e rfl
    exact ⟨hw.entered.append hQuiet, .restore (.error e), by simp, by simp [Event.GoesOn]⟩

/-- A call that raises breaks the cleanup. -/
theorem Restored.call (env : Environment) (baseline : Baseline) (c : Call) (hTask : ¬ c.OfTask) :
    ⦃fun w => ⌜Restored env baseline w ∧ w.study.entered = false⌝⦄ call env .leave c
      ⦃post⟨fun _ w => ⌜Restored env baseline w ∧ w.study.entered = false⌝,
        fun _ w => ⌜Failing w⌝⟩⦄ := by
  refine spec_of_run fun w hw => ⟨_, _, call_run env .leave c w, ?_, ?_⟩
  · exact fun _ _ => ⟨Restored.frame _ _ _ hw.1, hw.2⟩
  · intro e hAnswer
    rw [hAnswer]
    refine ⟨hw.1.entered.append quiet_answer, .answered .leave c (.error e), by simp, ?_⟩
    exact fun hGoes => hTask (hGoes e rfl).1

theorem leaveMode_spec (env : Environment) (baseline : Baseline) :
    ⦃fun w => ⌜Measuring env baseline w⌝⦄ leaveMode env
      ⦃post⟨fun _ w => ⌜Restored env baseline w ∧ w.study.entered = false⌝,
        fun _ w => ⌜Failing w⌝⟩⦄ := by
  have hRestore := restore_spec env
  have hCall := Restored.call env
  mvcgen [leaveMode, hRestore, hCall, modifyStudy]
  case vc3.hTask => exact id
  case vc4.isTrue.post.success.isTrue hRestored _ _ => exact ⟨{ hRestored with }, rfl⟩
  case vc5.isTrue.post.success.isFalse hRestored _ _ => exact ⟨{ hRestored with }, rfl⟩
  case vc6.isFalse hMeasuring hFalse => exact absurd hMeasuring.isEntered hFalse

/-- The first pass that returns has tried every task. -/
theorem applyAffinity_spec (env : Environment) (baseline : Baseline) :
    ⦃fun w => ⌜Restored env baseline w ∧ w.study.entered = false⌝⦄
      applyAffinity env .leave baseline ∅
      ⦃post⟨fun _ w => ⌜Clean env w⌝, fun _ w => ⌜Failing w⌝⟩⦄ := by
  have hFrame : Frame .leave (Restored env baseline) := Restored.frame
  refine takes_of_run ?_ ?_
  · rintro w pass w' ⟨hRestored, hEntered⟩ hRun
    obtain ⟨es, rfl, hAnswers, hAttempted⟩ := applyAffinity_answers hRun
    exact hRestored.clean hEntered (fun e he => (hAnswers e he).not_changes) hAttempted
  · rintro w e w' ⟨hRestored, -⟩ hRun
    exact ⟨((hFrame.applyAffinity env baseline ∅).error hRestored hRun).entered,
      (applyAffinity_raises env baseline ∅).error trivial hRun⟩

theorem returnTasks_spec (env : Environment) (baseline : Baseline) :
    ⦃fun w => ⌜Restored env baseline w ∧ w.study.entered = false⌝⦄ returnTasks env
      ⦃post⟨fun _ w => ⌜Clean env w⌝, fun _ w => ⌜Clean env w ∨ Failing w⌝⟩⦄ := by
  have hFirst := applyAffinity_spec env
  have hCall := Restored.call env
  have hClean : LeaveFrame (Clean env) := Clean.leaveFrame
  have hSecond := hClean.secondPass env
  mvcgen [returnTasks, firstPass, hFirst, hCall, hSecond]
  case vc1.h_1 hRestored hNone =>
    rw [hRestored.1.known] at hNone
    cases hNone
  case vc3.hTask => exact id
  case vc4.h_2.pre hRestored other hSome =>
    obtain rfl := Option.some.inj (hRestored.1.known.symm.trans hSome)
    exact hRestored
  case vc6.hTask => exact fun hTask => hTask rfl
  all_goals first | exact id | exact .inl | exact .inr

/-- `leave` ends a session in measurement mode. -/
theorem leave_measuring (env : Environment) (baseline : Baseline) :
    Takes (Measuring env baseline) (Clean env) (fun w => Clean env w ∨ Failing w) (leave env) := by
  have hMode := leaveMode_spec env baseline
  have hTasks := returnTasks_spec env baseline
  mvcgen [leave, hMode, hTasks]
  exact .inr

theorem leave_clean (env : Environment) : Keeps (Clean env) (leave env) :=
  Clean.leaveFrame.leave (fun _ h => h.notEntered) env

omit [Unicode] in
theorem Failing.runRestore (env : Environment) : Keeps Failing (runRestore env) := by
  refine spec_of_run fun w hw => ?_
  obtain ⟨result, machine, hRun, -⟩ := runRestore_run env w
  have hQuiet : ∀ e ∈ [Event.restore result], ¬ e.Changes := by simp [Event.Changes]
  have hAfter : Failing { w with machine, trace := w.trace ++ [.restore result] } := by
    obtain ⟨e, he, hStuck⟩ := hw.broken
    exact ⟨hw.entered.append hQuiet, e, List.mem_append_left _ he, hStuck⟩
  exact ⟨result, _, hRun, fun _ _ => hAfter, fun _ _ => hAfter⟩

theorem leave_failing (env : Environment) : Keeps Failing (leave env) := by
  have hRestore := Failing.runRestore env
  have hFrame : Frame .leave Failing := Failing.frame .leave
  have hCall := hFrame.call env
  have hMode : Keeps Failing (leaveMode env) := by
    mvcgen [leaveMode, hRestore, hCall, modifyStudy]
    case vc2.isTrue.post.success.isTrue hFailing _ _ => exact { hFailing with }
    case vc3.isTrue.post.success.isFalse hFailing _ _ => exact { hFailing with }
  have hTasks := Failing.leaveFrame.returnTasks env
  mvcgen [leave, hMode, hTasks]

/-! ## A whole run -/

/-- Where an exception can leave a session. -/
def Interrupted (env : Environment) (w : World Study) : Prop :=
  Clean env w ∨ (∃ baseline, Measuring env baseline w) ∨ Stranded w ∨ Failing w

/-- Where `leave` ends, however it ends. -/
def Ended (env : Environment) (w : World Study) : Prop := Clean env w ∨ Stranded w ∨ Failing w

theorem session_spec (env : Environment) (o : Design) (s : Nat) :
    Takes (Clean env) (Clean env) (Interrupted env) (session env o s) := by
  have hEnter := enter_spec env o s
  have hMeasure : ∀ baseline, Keeps (fun w => Clean env w ∨ Measuring env baseline w)
      (measure env o s baseline) :=
    fun baseline => (Clean.studyFrame.or Measuring.studyFrame).measure env o s baseline
  have hLeave : ∀ baseline, Takes (fun w => Clean env w ∨ Measuring env baseline w) (Clean env)
      (fun w => Clean env w ∨ Failing w) (leave env) :=
    fun baseline => ((leave_clean env).mono (fun _ => id) fun _ => .inl).or
      (leave_measuring env baseline)
  mvcgen [session, hEnter, hMeasure, hLeave, modifyStudy]
  case vc5.post.success.post.success.post.success hClean _ => exact hClean.study rfl
  case vc6.post.success.post.success.post.except.handle =>
    exact Or.imp id fun hFailing => .inr (.inr hFailing)
  case vc7.post.success.post.except.handle =>
    exact Or.imp id fun hMeasuring => .inl ⟨_, hMeasuring⟩
  case vc8.post.except.handle => exact Or.imp id fun hStranded => .inr (.inl hStranded)

theorem sessions_spec (env : Environment) (o : Design) :
    Takes (Clean env) (Clean env) (Interrupted env) (sessions env o) := by
  have hSession := session_spec env o
  mvcgen [sessions, hSession] invariants
  · post⟨fun _ w => ⌜Clean env w⌝, fun _ w => ⌜Interrupted env w⌝⟩

theorem leave_interrupted (env : Environment) :
    Takes (Interrupted env) (Ended env) (Ended env) (leave env) := by
  have hStranded : Keeps Stranded (leave env) :=
    Stranded.leaveFrame.leave (fun _ h => h.notEntered) env
  have hMeasuring : Takes (fun w => ∃ baseline, Measuring env baseline w) (Ended env) (Ended env)
      (leave env) := by
    intro w hw
    obtain ⟨baseline, hw⟩ := hw
    exact (leave_measuring env baseline).mono (fun _ => .inl) (fun _ => Or.imp id .inr) w hw
  exact ((leave_clean env).mono (fun _ => .inl) fun _ => .inl).or <| hMeasuring.or <|
    (hStranded.mono (fun _ h => .inr (.inl h)) fun _ h => .inr (.inl h)).or <|
      (leave_failing env).mono (fun _ h => .inr (.inr h)) fun _ h => .inr (.inr h)

theorem Ended.frame (site : Site) : Frame site (Ended env) := fun _ _ _ =>
  Or.imp (Clean.frame site _ _ _) (Or.imp (Stranded.frame site _ _ _) (Failing.frame site _ _ _))

theorem prepare_spec (env : Environment) (o : Design) : Keeps (Clean env) (prepare env o) := by
  have hClean : StudyFrame (Clean env) := Clean.studyFrame
  have hCall := hClean.calls.call env
  have hDie := hClean.dieIf
  mvcgen [prepare, hCall, hDie] invariants
  · post⟨fun _ w => ⌜Clean env w⌝, fun _ w => ⌜Clean env w⌝⟩

theorem main_spec (env : Environment) (o : Options) :
    Takes (Clean env) (Ended env) (Ended env) (main env o) := by
  have hClean : StudyFrame (Clean env) := Clean.studyFrame
  have hDie := hClean.dieIf
  have hPrepare := prepare_spec env o.design
  have hCall : ∀ c, Keeps (Ended env) (call env .body c) := (Ended.frame .body).call env
  have hApply : ∀ baseline exclude, Keeps (Ended env) (applyAffinity env .body baseline exclude) :=
    (Ended.frame .body).applyAffinity env
  have hSessions : Takes (Clean env) (Ended env) (Ended env)
      (tryFinally (sessions env o.design) (leave env)) :=
    takes_tryFinally (sessions_spec env o.design)
      ((leave_clean env).mono (fun _ => .inl) fun _ => .inl) (leave_interrupted env)
  mvcgen [main, hDie, hPrepare, hCall, hApply, hSessions]
  case vc1.h_1.pre => exact .inl ‹_›
  all_goals exact .inl

theorem Clean.initial (m : Machine) : Clean env { study := {}, machine := m } where
  notEntered := rfl
  entered := by
    intro before made result after hSplit
    simp at hSplit
  left := by
    intro before made result after hSplit
    simp at hSplit

theorem trace_ended (env : Environment) (o : Options) (m : Machine) :
    ∃ w, Ended env w ∧ w.trace = trace env o m := by
  have hMain := main_spec env o
  unfold trace
  cases hRun : (main env o).run { study := {}, machine := m } with
  | ok _ w => exact ⟨w, hMain.ok (Clean.initial m) hRun, rfl⟩
  | error _ w => exact ⟨w, hMain.error (Clean.initial m) hRun, rfl⟩

theorem Stranded.not_leftMode (h : Stranded w) : ¬ LeftMode env w.trace := by
  intro hLeft
  obtain ⟨-, ⟨before, made, result, after, hTrace, hMade, hAfter⟩, -⟩ := h
  obtain ⟨-, between, done, later, -, -, rfl, -⟩ :=
    hLeft before made result after hTrace hMade fun e he => (hAfter e he).not_changes
  simpa [Event.IsAnswer] using hAfter (.restore (.ok done)) (by simp)

/-- The property, for every run on every machine. -/
theorem trace_leftMode (env : Environment) (o : Options) (m : Machine) :
    (LeftMode env (trace env o m) → Entered (trace env o m)) ∧
      (Entered (trace env o m) → (∀ e ∈ trace env o m, e.GoesOn) →
        LeftMode env (trace env o m)) := by
  obtain ⟨w, hEnded, hTrace⟩ := trace_ended env o m
  rw [← hTrace]
  rcases hEnded with hClean | hStranded | hFailing
  · exact ⟨fun _ => hClean.entered, fun _ _ => hClean.left⟩
  · refine ⟨fun hLeft => absurd hLeft hStranded.not_leftMode, fun hEntered => ?_⟩
    exact absurd (by simpa using hEntered) (hStranded.notSound [])
  · obtain ⟨e, he, hStuck⟩ := hFailing.broken
    exact ⟨fun _ => hFailing.entered, fun _ hGoes => absurd (hGoes e he) hStuck⟩

end Phases

end BenchRecord

end MatchingMachine
