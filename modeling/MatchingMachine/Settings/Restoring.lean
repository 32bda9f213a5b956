import MatchingMachine.Model.MeasurementMode
import MatchingMachine.Settings.SavedState

/-!
# A restore undoes a setup

A setup may die or be killed anywhere behind its first operation, which saves the settings, and any
number of restores may die or be killed before one gets through.  `Mode` is what holds all the
while: the saved state is that of the original settings, a further setup refuses to start, and what
the commands have changed is what a restore will write back.  A restore that gets through without
a refused write leaves every setting as the setup found it (`undoesSetup`).

The kernel is constrained by `Kernel.Lawful`, and the settings that the setup finds by
`Machine.Valid`: they have the forms that `load_saved_state` accepts.  Others it saves and then
rejects, and a restore leaves them as the setup made them; for the `5` of a `perf_event_paranoid`
it writes 4.  Two facts of the kernel decide the order of a restore: taking a CPU offline or back
changes the affinities of interrupts and its governor, and the limits of `intel_pstate` bound each
other.
-/

namespace MatchingMachine

namespace BenchEnv

open Scripts (perform Exit)

/-! ## The kernel -/

/-- Everything but the topology. -/
def SysFile.IsSetting : SysFile → Prop
  | .siblings _ => False
  | _ => True

def IsOnline (s : Sysfs) (cpu : Text) : Prop :=
  s (.online cpu) = none ∨ rd s (.online cpu) = ascii "1"

/-- A write of `v` to `f` may change `g`.  Writing what a file holds changes nothing else. -/
def Disturbs (s : Sysfs) (f : SysFile) (v : Text) (g : SysFile) : Prop :=
  s f ≠ some v ∧
    match f, g with
    | .online c, .governor c' => c' = c
    | .online _, .affinity _ => True
    | .online _, .siblings _ => True
    -- without turbo the lower limit is squeezed below the base frequency
    | .noTurbo, .minPct => v = ascii "1"
    | _, _ => False

/-- The limits stay in order if `f` is set to `v`. -/
def InRange (s : Sysfs) (v : Text) : SysFile → Prop
  | .minPct => ∀ high, s .maxPct = some high → digitsVal v ≤ digitsVal high
  | .maxPct => ∀ low, s .minPct = some low → digitsVal low ≤ digitsVal v
  | _ => True

/-- What the commands rely on; `Possible` are the states the machine can be in. -/
structure Kernel.Lawful (k : Kernel) (Possible : Sysfs → Prop) : Prop where
  possible : ∀ {s s' f v}, Possible s → k.write f v s = some s' → Possible s'
  frame : ∀ {s s' f g v}, k.write f v s = some s' → g ≠ f → ¬Disturbs s f v g → s' g = s g
  /-- A file takes a value that it can show. -/
  shown : ∀ {s s' s₀ f v}, Possible s → Possible s₀ → s₀ f = some v → InRange s v f →
    k.write f v s = some s' → s' f = some v
  ordered : ∀ {s low high}, Possible s → s .minPct = some low → s .maxPct = some high →
    digitsVal low ≤ digitsVal high
  online_there : ∀ {s s'} c, Possible s → Possible s' →
    (s (.online c)).isSome = (s' (.online c)).isSome
  affinity_there : ∀ {s s'} i, Possible s → Possible s' →
    (s (.affinity i)).isSome = (s' (.affinity i)).isSome
  governor_there : ∀ {s s'} c, Possible s → Possible s' → IsOnline s c → IsOnline s' c →
    (s (.governor c)).isSome = (s' (.governor c)).isSome
  irqs_listed : ∀ {s} i, Possible s → (s (.affinity i)).isSome → i ∈ k.irqs

/-! ## What is read back -/

section

variable {m : Machine}

/-- What is appended to the state file does not matter. -/
theorem kvGet_append {lines : List Text} {key : Text} (hNewline : ∀ line ∈ lines, 10 ∉ line)
    (hMem : ∃ line ∈ lines, (key ++ ascii "=").isPrefixOf line = true) (t t' : Text) :
    kvGet (echoAll lines ++ t) key = kvGet (echoAll lines ++ t') key := by
  obtain ⟨found, hFound⟩ := Option.isSome_iff_exists.mp (List.find?_isSome.mpr hMem)
  rw [kvGet, kvGet, grepLines_echoAll hNewline, grepLines_echoAll hNewline, List.find?_append,
    List.find?_append, hFound]
  rfl

/-- The files are read back as they were saved, also where the last lines are missing. -/
theorem Machine.Valid.accepted_of_lines (h : m.Valid) {stateFile irqFile : Path} {t : Text}
    (hContent : stateFile.content = echoAll (savedLines m) ++ t) (hThere : irqFile.isThere = true)
    (hIrqs : irqFile.content = savedIrqs m) : accepted stateFile irqFile = m.restored := by
  obtain ⟨rest, hRest⟩ := savedState_eq m
  let full : Path := { stateFile with content := savedState m }
  have hSame : ∀ key : String, (∃ line ∈ savedLines m,
      (ascii key ++ ascii "=").isPrefixOf line = true) → saved stateFile key = saved full key := by
    intro key hMem
    show kvGet stateFile.content (ascii key) = kvGet (savedState m) (ascii key)
    rw [hContent, hRest]
    exact kvGet_append h.newline_not_mem hMem _ _
  have hFull : accepted full irqFile = m.restored := h.accepted_eq rfl hThere hIrqs
  rw [← hFull]
  unfold accepted
  rw [hSame "SAVED_PARANOID" ⟨_, List.mem_of_getElem? (i := 1) rfl, rfl⟩,
    hSame "SAVED_NO_TURBO" ⟨_, List.mem_of_getElem? (i := 2) rfl, rfl⟩,
    hSame "SAVED_MIN_PCT" ⟨_, List.mem_of_getElem? (i := 3) rfl, rfl⟩,
    hSame "SAVED_MAX_PCT" ⟨_, List.mem_of_getElem? (i := 4) rfl, rfl⟩,
    hSame "SAVED_GOVERNORS" ⟨_, List.mem_of_getElem? (i := 5) rfl, rfl⟩,
    hSame "SAVED_OFFLINED" ⟨_, List.mem_of_getElem? (i := 6) rfl, rfl⟩,
    hSame "SAVED_DEFAULT_IRQ_MASK" ⟨_, List.mem_of_getElem? (i := 7) rfl, rfl⟩]

end

/-! ## The operations of a restore -/

/-- The operation writes back the original value of its file, or the file is that of a CPU that
cannot go offline. -/
def Op.WritesBack (orig : Sysfs) : Op → Prop
  | .write file value guarded _ =>
      orig file = some value ∨ ∃ c, file = .online c ∧ guarded = true ∧ orig file = none
  | _ => False

/-- What `rd` reads was there if it is not what `rd` prints for a missing file. -/
theorem eq_some_of_rd {s : Sysfs} {file : SysFile} (h : rd s file ≠ ascii "?") :
    s file = some (rd s file) := by
  unfold rd at h ⊢
  cases hFile : s file with
  | none =>
      rw [hFile] at h
      exact absurd rfl h
  | some v => rfl

/-! What `rd` prints for a missing file is no valid value. -/

theorem IsNumber.ne_missing {k : Nat} {v : Text} (h : IsNumber k v) : v ≠ ascii "?" := by
  rintro rfl
  exact absurd (h.2 63 List.mem_cons_self) (by decide)

theorem IsGovernor.ne_missing {v : Text} (h : IsGovernor v) : v ≠ ascii "?" := by
  rintro rfl
  exact absurd (h.2 63 List.mem_cons_self) (by decide)

theorem IsParanoid.ne_missing {v : Text} (h : IsParanoid v) : v ≠ ascii "?" := by
  rintro rfl
  have hMatch := paranoidPattern_iff.mpr h.1
  revert hMatch
  decide +kernel

theorem IsMask.ne_missing {v : Text} (h : IsMask v) : v ≠ ascii "?" := by
  rintro rfl
  have hMatch := maskPattern_iff.mpr h
  revert hMatch
  decide +kernel

theorem IsMask.ne_nil {v : Text} (h : IsMask v) : v ≠ [] := by
  rintro rfl
  have hMatch := maskPattern_iff.mpr h
  revert hMatch
  decide +kernel

theorem percent_number {v : Text} (h : ∃ n ≤ 100, v = natText 10 n) : IsNumber 3 v := by
  obtain ⟨n, hn, rfl⟩ := h
  exact (percent_natText hn).1.1

section

variable {k : Kernel} {orig : Sysfs} {found : Found}

/-- The operations that bring the CPUs back. -/
def cpuOps (m : Machine) : List Op :=
  m.siblings.map fun c => echoIfThere (.online c) (ascii "1")

/-- The operations after them. -/
def restOps (m : Machine) : List Op :=
  m.irqs.map (fun i => tryEchoIfThere (.affinity i.1) i.2) ++
  [tryEcho .defaultIrqMask m.defaultIrqMask, echo .maxPct m.maxPct, echo .minPct m.minPct,
    echo .noTurbo m.noTurbo] ++
  m.governors.map (fun g => tryEchoIfThere (.governor g.1) g.2) ++
  [echo .paranoid m.paranoid]

theorem mem_restOps {m : Machine} {op : Op} :
    op ∈ restOps m ↔ (∃ i ∈ m.irqs, tryEchoIfThere (.affinity i.1) i.2 = op) ∨
      op = tryEcho .defaultIrqMask m.defaultIrqMask ∨ op = echo .maxPct m.maxPct ∨
      op = echo .minPct m.minPct ∨ op = echo .noTurbo m.noTurbo ∨
      (∃ g ∈ m.governors, tryEchoIfThere (.governor g.1) g.2 = op) ∨
      op = echo .paranoid m.paranoid := by
  simp only [restOps, List.mem_append, List.mem_map, List.mem_cons, List.not_mem_nil, or_false,
    or_assoc]

theorem ifSet_of_ne {value : Text} {op : Text → Op} (h : value ≠ []) : ifSet value op = [op value] :=
  if_neg h

theorem restoreOps_restored {m : Machine} (h : m.Valid) :
    restoreOps m.restored = cpuOps m ++ restOps m ++ [.remove] := by
  have hIrqs : (m.irqs.map fun i => i.1 ++ ascii " " ++ i.2).map (fun entry =>
      tryEchoIfThere (.affinity (beforeFirst 32 entry)) (afterFirst 32 entry)) =
        m.irqs.map fun i => tryEchoIfThere (.affinity i.1) i.2 := by
    rw [List.map_map]
    apply List.map_congr_left
    intro i hi
    have hBlank : 32 ∉ i.1 := (h.irqs i hi).1.not_mem (by decide)
    have hText : i.1 ++ ascii " " ++ i.2 = i.1 ++ 32 :: i.2 := List.append_assoc ..
    rw [Function.comp_apply, hText, beforeFirst_append_cons hBlank, afterFirst_append_cons hBlank]
  have hGovernors : (m.governors.map fun g => g.1 ++ ascii ":" ++ g.2).map (fun pair =>
      tryEchoIfThere (.governor (beforeFirst 58 pair)) (afterFirst 58 pair)) =
        m.governors.map fun g => tryEchoIfThere (.governor g.1) g.2 := by
    rw [List.map_map]
    apply List.map_congr_left
    intro g hg
    have hColon : 58 ∉ g.1 := (h.governors g hg).1.not_mem (by decide)
    have hText : g.1 ++ ascii ":" ++ g.2 = g.1 ++ 58 :: g.2 := List.append_assoc ..
    rw [Function.comp_apply, hText, beforeFirst_append_cons hColon, afterFirst_append_cons hColon]
  have hMask := h.mask.ne_nil
  have hMax := (percent_number h.maxPct).ne_nil
  have hMin := (percent_number h.minPct).ne_nil
  have hTurbo : m.noTurbo ≠ [] := by
    rcases h.noTurbo with hv | hv <;> rw [hv] <;> decide
  simp only [restoreOps, cpuOps, restOps, Machine.restored, ifSet_of_ne hMask, ifSet_of_ne hMax,
    ifSet_of_ne hMin, ifSet_of_ne hTurbo]
  rw [hIrqs, hGovernors]
  simp only [List.append_assoc, List.cons_append, List.nil_append]

theorem isOnline_of_mem {c : Text} (h : c ∈ k.onlineCpus orig) : IsOnline orig c := by
  have hFilter := (List.mem_filter.mp h).2
  simpa [IsOnline] using hFilter

theorem online_of_sibling {c : Text} (h : c ∈ k.siblingCpus orig) : c ∈ k.onlineCpus orig :=
  List.mem_of_mem_filter h

theorem cpuOps_writeBack : ∀ op ∈ cpuOps (k.machine orig found), op.WritesBack orig := by
  intro op hOp
  obtain ⟨c, hc, rfl⟩ := List.mem_map.mp hOp
  rcases isOnline_of_mem (online_of_sibling hc) with hNone | hOne
  · exact Or.inr ⟨c, rfl, rfl, hNone⟩
  · refine Or.inl ?_
    rw [← hOne]
    exact eq_some_of_rd (by rw [hOne]; decide)

theorem restOps_writeBack (h : (k.machine orig found).Valid) :
    ∀ op ∈ restOps (k.machine orig found), op.WritesBack orig := by
  intro op hOp
  rcases mem_restOps.mp hOp with ⟨i, hi, rfl⟩ | rfl | rfl | rfl | rfl | ⟨g, hg, rfl⟩ | rfl
  · obtain ⟨irq, -, hIrq⟩ := List.mem_filterMap.mp hi
    obtain ⟨cpus, hCpus, rfl⟩ := Option.map_eq_some_iff.mp hIrq
    exact Or.inl hCpus
  · exact Or.inl (eq_some_of_rd h.mask.ne_missing)
  · exact Or.inl (eq_some_of_rd (percent_number h.maxPct).ne_missing)
  · exact Or.inl (eq_some_of_rd (percent_number h.minPct).ne_missing)
  · refine Or.inl (eq_some_of_rd ?_)
    have hTurbo : rd orig .noTurbo = ascii "0" ∨ rd orig .noTurbo = ascii "1" := h.noTurbo
    rcases hTurbo with hv | hv <;> rw [hv] <;> decide
  · have hName := (h.governors g hg).2
    obtain ⟨c, -, rfl⟩ := List.mem_map.mp hg
    exact Or.inl (eq_some_of_rd hName.ne_missing)
  · exact Or.inl (eq_some_of_rd h.paranoid.ne_missing)

end

/-! ## While the measurement mode is on -/

/-- The measurement mode is on, for a machine that was as `orig` says. -/
structure Mode (k : Kernel) (Possible : Sysfs → Prop) (orig : Sysfs) (found : Found) (w : World) :
    Prop where
  possible : Possible w.sysfs
  maxPct : w.sysfs .maxPct = orig .maxPct
  noTurbo : orig .noTurbo = some (ascii "1") → w.sysfs .noTurbo = some (ascii "1")
  online : ∀ c ∉ k.siblingCpus orig, w.sysfs (.online c) = orig (.online c)
  governor : ∀ c ∉ k.onlineCpus orig, w.sysfs (.governor c) = orig (.governor c)
  stateFile : ∃ t, w.stateFile = some (echoAll (savedLines (k.machine orig found)) ++ t)
  irqFile : w.irqFile = some (savedIrqs (k.machine orig found))

/-- The operation stays within the measurement mode. -/
def Op.Within (k : Kernel) (orig : Sysfs) : Op → Prop
  | .write file value _ _ =>
      (file = .maxPct → orig .maxPct = some value) ∧
      (file = .noTurbo → orig .noTurbo = some (ascii "1") → value = ascii "1") ∧
      (∀ c, file = .online c → c ∈ k.siblingCpus orig) ∧
      (∀ c, file = .governor c → c ∈ k.onlineCpus orig)
  | .summary _ => True
  | .verify => True
  | _ => False

section

variable {k : Kernel} {Possible : Sysfs → Prop} {orig : Sysfs} {found : Found} {p p' : Process}
  {op : Op} {s s' : Sysfs} {f g : SysFile} {v : Text}

/-- What an accepted write leaves of the settings that no command touches. -/
theorem Mode.write (hk : k.Lawful Possible) (hOrig : Possible orig) {w : World}
    (h : Mode k Possible orig found w)
    (hWithin : (Op.write f v false false).Within k orig) (hWrite : k.write f v w.sysfs = some s') :
    Mode k Possible orig found { w with sysfs := s' } := by
  obtain ⟨hMax, hTurbo, hOnline, hGovernor⟩ := hWithin
  refine { h with
    possible := hk.possible h.possible hWrite
    maxPct := ?_
    noTurbo := fun hOne => ?_
    online := fun c hc => ?_
    governor := fun c hc => ?_ }
  · show s' .maxPct = orig .maxPct
    by_cases hFile : f = .maxPct
    · subst hFile
      have hValue := hMax rfl
      have hRange : InRange w.sysfs v .maxPct := fun low hLow =>
        hk.ordered h.possible hLow (h.maxPct.trans hValue)
      rw [hk.shown h.possible hOrig hValue hRange hWrite, hValue]
    · rw [hk.frame hWrite (Ne.symm hFile) ?_, h.maxPct]
      rintro ⟨-, hDisturbs⟩
      cases f <;> exact hDisturbs
  · show s' .noTurbo = some (ascii "1")
    by_cases hFile : f = .noTurbo
    · subst hFile
      obtain rfl := hTurbo rfl hOne
      exact hk.shown h.possible hOrig hOne trivial hWrite
    · rw [hk.frame hWrite (Ne.symm hFile) ?_]
      · exact h.noTurbo hOne
      · rintro ⟨-, hDisturbs⟩
        cases f <;> exact hDisturbs
  · show s' (.online c) = orig (.online c)
    rw [hk.frame hWrite (fun hFile => hc (hOnline c hFile.symm)) ?_, h.online c hc]
    rintro ⟨-, hDisturbs⟩
    cases f <;> exact hDisturbs
  · show s' (.governor c) = orig (.governor c)
    rw [hk.frame hWrite (fun hFile => hc (hGovernor c hFile.symm)) ?_, h.governor c hc]
    rintro ⟨-, hDisturbs⟩
    -- only a CPU that goes offline loses its governor, and that is a sibling
    cases f with
    | online c' =>
        obtain rfl : c = c' := hDisturbs
        exact hc (online_of_sibling (hOnline c rfl))
    | noTurbo => exact hDisturbs
    | governor c' => exact hDisturbs
    | minPct => exact hDisturbs
    | maxPct => exact hDisturbs
    | siblings c' => exact hDisturbs
    | paranoid => exact hDisturbs
    | defaultIrqMask => exact hDisturbs
    | affinity i => exact hDisturbs

/-- The ways an operation that writes can go. -/
theorem write_cases {guarded fatal : Bool}
    (hRun : Op.run k (.write f v guarded fatal) p = some p') :
    (guarded = true ∧ p.world.sysfs f = none ∧ p' = p) ∨
      (∃ s, (guarded = true → p.world.sysfs f ≠ none) ∧ k.write f v p.world.sysfs = some s ∧
        p' = { p with world := { p.world with sysfs := s }, accepted := p.accepted ++ [f] }) ∨
      (fatal = false ∧ p' = { p with refused := p.refused ++ [f] }) := by
  unfold Op.run at hRun
  dsimp only at hRun
  split at hRun
  · rename_i hSkip
    obtain ⟨hGuard, hNone⟩ := Bool.and_eq_true_iff.mp hSkip
    exact Or.inl ⟨hGuard, Option.isNone_iff_eq_none.mp hNone, (Option.some.inj hRun).symm⟩
  · rename_i hGoesOn
    cases hWrite : k.write f v p.world.sysfs with
    | some s =>
        rw [hWrite] at hRun
        refine Or.inr (Or.inl ⟨s, fun hGuard hNone => hGoesOn ?_, rfl, (Option.some.inj hRun).symm⟩)
        rw [hGuard, hNone]
        rfl
    | none =>
        rw [hWrite] at hRun
        cases fatal with
        | false => exact Or.inr (Or.inr ⟨rfl, (Option.some.inj hRun).symm⟩)
        | true => cases hRun

theorem Mode.run (hk : k.Lawful Possible) (hOrig : Possible orig)
    (h : Mode k Possible orig found p.world) (hWithin : op.Within k orig)
    (hRun : op.run k p = some p') : Mode k Possible orig found p'.world := by
  cases op with
  | save state irqs => exact hWithin.elim
  | write file value guarded fatal =>
      rcases write_cases hRun with ⟨-, -, rfl⟩ | ⟨s, -, hWrite, rfl⟩ | ⟨-, rfl⟩
      · exact h
      · exact h.write hk hOrig hWithin hWrite
      · exact h
  | summary residual =>
      obtain rfl := Option.some.inj hRun
      obtain ⟨t, ht⟩ := h.stateFile
      refine { h with stateFile := ?_ }
      rw [ht]
      exact ⟨_, congrArg some (List.append_assoc ..)⟩
  | verify =>
      have hSame : p = p' := by
        unfold Op.run at hRun
        dsimp only at hRun
        split at hRun
        · exact Option.some.inj hRun
        · cases hRun
      exact hSame ▸ h
  | remove => exact hWithin.elim

/-! ## Writing back -/

/-- The original value is back, unless a write has been refused. -/
def Settled (orig : Sysfs) (f : SysFile) (p : Process) : Prop :=
  p.refused ≠ [] ∨ p.world.sysfs f = orig f

/-- A CPU that comes back may change `f`. -/
def SysFile.FollowsCpus : SysFile → Prop
  | .governor _ => True
  | .affinity _ => True
  | .siblings _ => True
  | _ => False

def Op.OnCpu : Op → Prop
  | .write (.online _) _ _ _ => True
  | _ => False

/-- A write of an original value does not disturb a setting that does not follow the CPUs. -/
theorem Mode.not_disturbs (h : Mode k Possible orig found p.world)
    (hValue : orig g = some v) (hQuiet : f.FollowsCpus → ∀ c, g ≠ .online c) :
    ¬Disturbs p.world.sysfs g v f := by
  rintro ⟨hNew, hDisturbs⟩
  cases g with
  | online c =>
      cases f with
      | governor c' => exact hQuiet trivial c rfl
      | affinity i => exact hQuiet trivial c rfl
      | siblings c' => exact hQuiet trivial c rfl
      | noTurbo => exact hDisturbs
      | minPct => exact hDisturbs
      | maxPct => exact hDisturbs
      | online c' => exact hDisturbs
      | paranoid => exact hDisturbs
      | defaultIrqMask => exact hDisturbs
  | noTurbo =>
      cases f with
      | minPct =>
          -- turbo was off before, so it is off, and the write changes nothing
          obtain rfl : v = ascii "1" := hDisturbs
          exact hNew (h.noTurbo hValue)
      | noTurbo => exact hDisturbs
      | maxPct => exact hDisturbs
      | governor c => exact hDisturbs
      | online c => exact hDisturbs
      | siblings c => exact hDisturbs
      | paranoid => exact hDisturbs
      | defaultIrqMask => exact hDisturbs
      | affinity i => exact hDisturbs
  | governor c => exact hDisturbs
  | minPct => exact hDisturbs
  | maxPct => exact hDisturbs
  | siblings c => exact hDisturbs
  | paranoid => exact hDisturbs
  | defaultIrqMask => exact hDisturbs
  | affinity i => exact hDisturbs

/-- What is written back is back. -/
theorem Mode.written (hk : k.Lawful Possible) (hOrig : Possible orig)
    (h : Mode k Possible orig found p.world) (hValue : orig f = some v)
    (hWrite : k.write f v p.world.sysfs = some s) : s f = orig f := by
  have hRange : InRange p.world.sysfs v f := by
    cases f with
    | minPct =>
        intro high hHigh
        exact hk.ordered hOrig hValue (h.maxPct.symm.trans hHigh)
    | maxPct =>
        intro low hLow
        exact hk.ordered h.possible hLow (h.maxPct.trans hValue)
    | noTurbo => trivial
    | governor c => trivial
    | online c => trivial
    | siblings c => trivial
    | paranoid => trivial
    | defaultIrqMask => trivial
    | affinity i => trivial
  rw [hk.shown h.possible hOrig hValue hRange hWrite, hValue]

/-- A setting that is settled stays so. -/
theorem Mode.stays (hk : k.Lawful Possible) (hOrig : Possible orig)
    (h : Mode k Possible orig found p.world) (hBack : op.WritesBack orig)
    (hQuiet : f.FollowsCpus → ¬op.OnCpu) (hSettled : Settled orig f p)
    (hRun : op.run k p = some p') : Settled orig f p' := by
  cases op with
  | write file value guarded fatal =>
      rcases write_cases hRun with ⟨-, -, rfl⟩ | ⟨s, hThere, hWrite, rfl⟩ | ⟨-, rfl⟩
      · exact hSettled
      · rcases hSettled with hRefused | hSame
        · exact Or.inl hRefused
        · refine Or.inr ?_
          have hValue : orig file = some value := by
            rcases hBack with hValue | ⟨c, rfl, hGuard, hNone⟩
            · exact hValue
            · -- the file is not there, so nothing has been written
              have hSame := hk.online_there c h.possible hOrig
              rw [hNone, Option.isSome_none, Option.isSome_eq_false_iff,
                Option.isNone_iff_eq_none] at hSame
              exact absurd hSame (hThere hGuard)
          show s f = orig f
          by_cases hFile : f = file
          · subst hFile
            exact h.written hk hOrig hValue hWrite
          · rw [hk.frame hWrite hFile (h.not_disturbs hValue ?_)]
            · exact hSame
            · rintro hFollows c rfl
              exact hQuiet hFollows trivial
      · exact Or.inl (by simp)
  | save state irqs => exact hBack.elim
  | summary residual => exact hBack.elim
  | verify => exact hBack.elim
  | remove => exact hBack.elim

/-- The operation that writes a setting back settles it. -/
theorem Mode.brings (hk : k.Lawful Possible) (hOrig : Possible orig) {guarded fatal : Bool}
    (h : Mode k Possible orig found p.world) (hValue : orig f = some v)
    (hThere : guarded = true → p.refused = [] → p.world.sysfs f ≠ none)
    (hRun : Op.run k (.write f v guarded fatal) p = some p') : Settled orig f p' := by
  rcases write_cases hRun with ⟨hGuard, hNone, rfl⟩ | ⟨s, -, hWrite, rfl⟩ | ⟨-, rfl⟩
  · by_cases hRefused : p'.refused = []
    · exact absurd hNone (hThere hGuard hRefused)
    · exact Or.inl hRefused
  · exact Or.inr (h.written hk hOrig hValue hWrite)
  · exact Or.inl (by simp)

/-! ## Commands -/

theorem cpuOps_within : ∀ op ∈ cpuOps (k.machine orig found), op.Within k orig := by
  intro op hOp
  obtain ⟨c, hc, rfl⟩ := List.mem_map.mp hOp
  refine ⟨nofun, nofun, fun c' hSame => ?_, nofun⟩
  obtain rfl := SysFile.online.inj hSame
  exact hc

theorem restOps_within (hValid : (k.machine orig found).Valid) :
    ∀ op ∈ restOps (k.machine orig found), op.Within k orig ∧ ¬op.OnCpu := by
  intro op hOp
  rcases mem_restOps.mp hOp with ⟨i, -, rfl⟩ | rfl | rfl | rfl | rfl | ⟨g, hg, rfl⟩ | rfl
  · exact ⟨⟨nofun, nofun, nofun, nofun⟩, id⟩
  · exact ⟨⟨nofun, nofun, nofun, nofun⟩, id⟩
  · exact ⟨⟨fun _ => eq_some_of_rd (percent_number hValid.maxPct).ne_missing, nofun, nofun,
      nofun⟩, id⟩
  · exact ⟨⟨nofun, nofun, nofun, nofun⟩, id⟩
  · refine ⟨⟨nofun, fun _ hOne => ?_, nofun, nofun⟩, id⟩
    show rd orig .noTurbo = _
    rw [rd, hOne]
    rfl
  · refine ⟨⟨nofun, nofun, nofun, fun c hSame => ?_⟩, id⟩
    obtain ⟨c', hc, rfl⟩ := List.mem_map.mp hg
    obtain rfl := SysFile.governor.inj hSame
    exact hc
  · exact ⟨⟨nofun, nofun, nofun, nofun⟩, id⟩

/-- What a setup does after it has saved the settings. -/
theorem setupOps_within {k : Kernel} {orig : Sysfs} {found : Found} :
    ∀ op ∈ (k.setupOps orig found).tail, op.Within k orig := by
  intro op hOp
  simp only [Kernel.setupOps, List.cons_append, List.nil_append, List.tail_cons, List.mem_append,
    List.mem_map, List.mem_cons, List.not_mem_nil, or_false] at hOp
  rcases hOp with ((((⟨c, hc, rfl⟩ | rfl | rfl) | ⟨c, hc, rfl⟩) | rfl) | hSteer) | rfl | rfl
  · refine ⟨nofun, nofun, nofun, fun c' hSame => ?_⟩
    obtain rfl := SysFile.governor.inj hSame
    exact hc
  · exact ⟨nofun, fun _ _ => rfl, nofun, nofun⟩
  · exact ⟨nofun, nofun, nofun, nofun⟩
  · refine ⟨nofun, nofun, fun c' hSame => ?_, nofun⟩
    obtain rfl := SysFile.online.inj hSame
    exact hc
  · exact ⟨nofun, nofun, nofun, nofun⟩
  · split at hSteer
    · cases hSteer
    · rcases List.mem_cons.mp hSteer with rfl | hIrq
      · exact ⟨nofun, nofun, nofun, nofun⟩
      · obtain ⟨i, -, rfl⟩ := List.mem_map.mp hIrq
        exact ⟨nofun, nofun, nofun, nofun⟩
  · trivial
  · trivial

variable {w : World} {n : Nat}

/-- A setup that gets past its saving turns the measurement mode on. -/
theorem mode_setup (hk : k.Lawful Possible) (hOrig : Possible w.sysfs) (hIdle : w.stateFile = none)
    (hPstate : k.intelPstate = true) (hSaved : 0 < n) :
    Mode k Possible w.sysfs found (k.setup found n w).1.world := by
  obtain ⟨n, rfl⟩ := Nat.exists_eq_succ_of_ne_zero hSaved.ne'
  have hSetup : k.setup found (n + 1) w =
      perform (Op.run k) (n + 1) (k.setupOps w.sysfs found) { world := w } := by
    unfold Kernel.setup
    rw [hIdle, if_neg (by simp), if_neg (by simp [hPstate])]
  have hOps : k.setupOps w.sysfs found = .save (savedHead (k.machine w.sysfs found))
      (savedIrqs (k.machine w.sysfs found)) :: (k.setupOps w.sysfs found).tail := rfl
  rw [hSetup, hOps, Scripts.perform_cons rfl]
  refine Scripts.perform_inv (P := fun p => Mode k Possible w.sysfs found p.world)
    (fun op hOp p p' hMode hRun => hMode.run hk hOrig (setupOps_within op hOp) hRun) ?_
  exact
    { possible := hOrig
      maxPct := rfl
      noTurbo := id
      online := fun _ _ => rfl
      governor := fun _ _ => rfl
      stateFile := ⟨_, rfl⟩
      irqFile := rfl }

/-- While it is on, a further setup refuses to start. -/
theorem Mode.setup (h : Mode k Possible orig found w) (found' : Found) :
    k.setup found' n w = ({ world := w }, .died) := by
  obtain ⟨t, ht⟩ := h.stateFile
  unfold Kernel.setup
  rw [ht, Option.isSome_some, if_pos rfl]

/-- A restore performs the operations for what was saved. -/
theorem Mode.restore_eq (h : Mode k Possible orig found w)
    (hValid : (k.machine orig found).Valid) :
    k.restore n w = perform (Op.run k) n
      (cpuOps (k.machine orig found) ++ restOps (k.machine orig found) ++ [.remove])
      { world := w } := by
  obtain ⟨t, ht⟩ := h.stateFile
  have hTrusted : Trusted 0 stateDir
      (statePath (echoAll (savedLines (k.machine orig found)) ++ t)) (irqPath w.irqFile) := by
    refine ⟨by decide, rfl, ?_, rfl, fun _ => ⟨?_, rfl⟩⟩
    · simp [requireTrusted, statePath, pure, Except.pure]
    · simp [requireTrusted, irqPath, h.irqFile, pure, Except.pure]
  have hAccepted : accepted (statePath (echoAll (savedLines (k.machine orig found)) ++ t))
      (irqPath w.irqFile) = (k.machine orig found).restored :=
    hValid.accepted_of_lines rfl (by rw [h.irqFile]; rfl) (by rw [h.irqFile]; rfl)
  have hLoad := hTrusted.loadSavedState_eq
  rw [hAccepted] at hLoad
  unfold Kernel.restore
  rw [ht]
  dsimp only
  rw [hLoad]
  dsimp only
  rw [restoreOps_restored hValid]

theorem restore_within (hValid : (k.machine orig found).Valid) :
    ∀ op ∈ cpuOps (k.machine orig found) ++ restOps (k.machine orig found), op.Within k orig := by
  intro op hOp
  rcases List.mem_append.mp hOp with hCpu | hRest
  · exact cpuOps_within op hCpu
  · exact (restOps_within hValid op hRest).1

/-- A restore that does not get through leaves the mode on. -/
theorem Mode.restore_unfinished (hk : k.Lawful Possible) (hOrig : Possible orig)
    (hValid : (k.machine orig found).Valid) (h : Mode k Possible orig found w)
    (hExit : (k.restore n w).2 ≠ .finished) :
    Mode k Possible orig found (k.restore n w).1.world := by
  rw [h.restore_eq hValid] at hExit ⊢
  exact Scripts.perform_unfinished (P := fun p => Mode k Possible orig found p.world)
    (fun op hOp p p' hMode hRun => hMode.run hk hOrig (restore_within hValid op hOp) hRun) h hExit

/-- Once the CPUs are back, nothing that is written back disturbs what follows them. -/
structure CpusBack (k : Kernel) (Possible : Sysfs → Prop) (orig : Sysfs) (found : Found)
    (p : Process) : Prop where
  mode : Mode k Possible orig found p.world
  online : ∀ c, Settled orig (.online c) p

theorem Mode.cpusBack (hk : k.Lawful Possible) (hOrig : Possible orig)
    (h : Mode k Possible orig found p.world)
    (hEnd : perform (Op.run k) n (cpuOps (k.machine orig found)) p = (p', .finished)) :
    CpusBack k Possible orig found p' := by
  have hKeeps : ∀ op ∈ cpuOps (k.machine orig found), ∀ p p' : Process,
      Mode k Possible orig found p.world → op.run k p = some p' →
        Mode k Possible orig found p'.world :=
    fun op hOp p p' hMode hRun => hMode.run hk hOrig (cpuOps_within op hOp) hRun
  have hMode := Scripts.perform_finished_inv
    (P := fun p => Mode k Possible orig found p.world) hKeeps h hEnd
  refine ⟨hMode, fun c => ?_⟩
  -- only the siblings were taken offline, and they were online before
  by_cases hSibling : c ∈ k.siblingCpus orig
  · have hThere : ∀ p : Process, Mode k Possible orig found p.world →
        (p.world.sysfs (.online c)).isSome = (orig (.online c)).isSome :=
      fun p hMode => hk.online_there c hMode.possible hOrig
    cases hValue : orig (.online c) with
    | none =>
        have hSame := hThere p' hMode
        rw [hValue, Option.isSome_none, Option.isSome_eq_false_iff,
          Option.isNone_iff_eq_none] at hSame
        exact Or.inr (hSame.trans hValue.symm)
    | some v =>
        obtain rfl : v = ascii "1" := by
          rcases isOnline_of_mem (online_of_sibling hSibling) with hNone | hOne
          · rw [hValue] at hNone
            cases hNone
          · rw [rd, hValue] at hOne
            exact hOne
        refine Scripts.perform_establishes (P := fun p => Mode k Possible orig found p.world)
          hKeeps h hEnd (List.mem_map.mpr ⟨c, hSibling, rfl⟩) ?_ ?_
        · intro p p' hMode hRun
          refine hMode.brings hk hOrig hValue (fun _ _ hNone => ?_) hRun
          have hSame := hThere p hMode
          rw [hNone, hValue] at hSame
          cases hSame
        · intro op hOp p p' hMode hSettled hRun
          exact hMode.stays hk hOrig (cpuOps_writeBack op hOp) False.elim hSettled hRun
  · exact Or.inr (hMode.online c hSibling)

theorem CpusBack.run (hk : k.Lawful Possible) (hOrig : Possible orig)
    (hValid : (k.machine orig found).Valid) (h : CpusBack k Possible orig found p)
    (hOp : op ∈ restOps (k.machine orig found)) (hRun : op.run k p = some p') :
    CpusBack k Possible orig found p' where
  mode := h.mode.run hk hOrig (restOps_within hValid op hOp).1 hRun
  online c := h.mode.stays hk hOrig (restOps_writeBack hValid op hOp) False.elim (h.online c) hRun

/-- A CPU that was online is so again. -/
theorem CpusBack.isOnline (h : CpusBack k Possible orig found p) (hAccepted : p.refused = [])
    {c : Text} (hOnline : IsOnline orig c) : IsOnline p.world.sysfs c := by
  rcases h.online c with hRefused | hSame
  · exact absurd hAccepted hRefused
  · unfold IsOnline rd at hOnline ⊢
    rwa [hSame]

/-- The rest of a restore settles every setting. -/
theorem CpusBack.settles (hk : k.Lawful Possible) (hOrig : Possible orig)
    (hValid : (k.machine orig found).Valid) (h : CpusBack k Possible orig found p)
    (hEnd : perform (Op.run k) n (restOps (k.machine orig found)) p = (p', .finished))
    (hSetting : f.IsSetting) : Settled orig f p' := by
  have hKeeps : ∀ op ∈ restOps (k.machine orig found), ∀ p p' : Process,
      CpusBack k Possible orig found p → op.run k p = some p' →
        CpusBack k Possible orig found p' :=
    fun op hOp p p' hBack hRun => hBack.run hk hOrig hValid hOp hRun
  have hLast : CpusBack k Possible orig found p' := Scripts.perform_finished_inv hKeeps h hEnd
  have hSettles : ∀ {f : SysFile} {v : Text} {guarded fatal : Bool},
      Op.write f v guarded fatal ∈ restOps (k.machine orig found) → orig f = some v →
      (∀ p, CpusBack k Possible orig found p → guarded = true → p.refused = [] →
        p.world.sysfs f ≠ none) → Settled orig f p' := by
    intro f v guarded fatal hOp hValue hThere
    refine Scripts.perform_establishes hKeeps h hEnd hOp ?_ ?_
    · intro p p' hBack hRun
      exact hBack.mode.brings hk hOrig hValue (hThere p hBack) hRun
    · intro op hOp p p' hBack hSettled hRun
      exact hBack.mode.stays hk hOrig (restOps_writeBack hValid op hOp)
        (fun _ => (restOps_within hValid op hOp).2) hSettled hRun
  -- a write without a guard always takes place
  have hPlain : ∀ {f : SysFile} {v : Text} {fatal : Bool},
      Op.write f v false fatal ∈ restOps (k.machine orig found) → Settled orig f p' := by
    intro f v fatal hOp
    rcases restOps_writeBack hValid _ hOp with hValue | ⟨-, -, hGuard, -⟩
    · exact hSettles hOp hValue nofun
    · cases hGuard
  cases f with
  | siblings c => exact hSetting.elim
  | online c => exact hLast.online c
  | governor c =>
      by_cases hOnline : c ∈ k.onlineCpus orig
      · have hGovernor : (c, rd orig (.governor c)) ∈ (k.machine orig found).governors :=
          List.mem_map.mpr ⟨c, hOnline, rfl⟩
        have hValue := eq_some_of_rd (hValid.governors _ hGovernor).2.ne_missing
        have hOp := mem_restOps.mpr (Or.inr (Or.inr (Or.inr (Or.inr (Or.inr (Or.inl
          ⟨_, hGovernor, rfl⟩))))))
        refine hSettles hOp hValue fun p hBack _ hAccepted hNone => ?_
        have hThere := hk.governor_there c hBack.mode.possible hOrig
          (hBack.isOnline hAccepted (isOnline_of_mem hOnline)) (isOnline_of_mem hOnline)
        rw [hNone, hValue] at hThere
        cases hThere
      · exact Or.inr (hLast.mode.governor c hOnline)
  | affinity i =>
      have hThere : ∀ p, CpusBack k Possible orig found p →
          (p.world.sysfs (.affinity i)).isSome = (orig (.affinity i)).isSome :=
        fun p hBack => hk.affinity_there i hBack.mode.possible hOrig
      cases hValue : orig (.affinity i) with
      | none =>
          have hSame := hThere p' hLast
          rw [hValue, Option.isSome_none, Option.isSome_eq_false_iff,
            Option.isNone_iff_eq_none] at hSame
          exact Or.inr (hSame.trans hValue.symm)
      | some cpus =>
          have hListed : i ∈ k.irqs := hk.irqs_listed i hOrig (by rw [hValue]; rfl)
          have hIrq : (i, cpus) ∈ (k.machine orig found).irqs :=
            List.mem_filterMap.mpr ⟨i, hListed, by rw [hValue]; rfl⟩
          refine hSettles (mem_restOps.mpr (Or.inl ⟨_, hIrq, rfl⟩)) hValue
            fun p hBack _ _ hNone => ?_
          have hSame := hThere p hBack
          rw [hNone, hValue] at hSame
          cases hSame
  | noTurbo => exact hPlain (mem_restOps.mpr (.inr (.inr (.inr (.inr (.inl rfl))))))
  | minPct => exact hPlain (mem_restOps.mpr (.inr (.inr (.inr (.inl rfl)))))
  | maxPct => exact hPlain (mem_restOps.mpr (.inr (.inr (.inl rfl))))
  | paranoid => exact hPlain (mem_restOps.mpr (.inr (.inr (.inr (.inr (.inr (.inr rfl)))))))
  | defaultIrqMask => exact hPlain (mem_restOps.mpr (.inr (.inl rfl)))

/-- A restore that gets through with no write refused has settled everything. -/
theorem Mode.restore_finished (hk : k.Lawful Possible) (hOrig : Possible orig)
    (hValid : (k.machine orig found).Valid) (h : Mode k Possible orig found w)
    (hEnd : k.restore n w = (p, .finished)) (hAccepted : p.refused = []) :
    (∀ f : SysFile, f.IsSetting → p.world.sysfs f = orig f) ∧
      p.world.stateFile = none ∧ p.world.irqFile = none := by
  rw [h.restore_eq hValid] at hEnd
  obtain ⟨before, i, j, hOps, hLast⟩ := Scripts.perform_finished_append hEnd
  obtain ⟨back, i', j', hCpus, hRest⟩ := Scripts.perform_finished_append hOps
  obtain ⟨removed, m, hRemove, hNil⟩ := Scripts.perform_finished_cons hLast
  obtain rfl : removed = p := by
    cases m <;> exact congrArg Prod.fst hNil
  obtain rfl := Option.some.inj hRemove
  have hMode : Mode k Possible orig found ({ world := w } : Process).world := h
  have hBack := hMode.cpusBack hk hOrig hCpus
  refine ⟨fun f hSetting => ?_, rfl, rfl⟩
  rcases hBack.settles hk hOrig hValid hRest hSetting with hRefused | hSame
  · exact absurd hAccepted hRefused
  · exact hSame

end

/-! ## Runs -/

/-- Commands that leave the measurement mode on: setups, and restores that do not get through. -/
inductive Attempts (k : Kernel) (w : World) : World → Prop
  | none : Attempts k w w
  | setup {w' : World} (found : Found) (n : Nat) (h : Attempts k w w') :
      Attempts k w (k.setup found n w').1.world
  | restore {w' : World} (n : Nat) (h : Attempts k w w')
      (hExit : (k.restore n w').2 ≠ .finished) : Attempts k w (k.restore n w').1.world

theorem Mode.attempts {k : Kernel} {Possible : Sysfs → Prop} {orig : Sysfs} {found : Found}
    {w w' : World} (hk : k.Lawful Possible) (hOrig : Possible orig)
    (hValid : (k.machine orig found).Valid) (h : Mode k Possible orig found w)
    (hAttempts : Attempts k w w') : Mode k Possible orig found w' := by
  induction hAttempts with
  | none => exact h
  | setup found' n _ ih =>
      rw [ih.setup found']
      exact ih
  | restore n _ hExit ih => exact ih.restore_unfinished hk hOrig hValid hExit

/-- A setup on a machine whose settings have the forms that can be restored gets past its saving,
and then succeeds, dies or is killed; setups, and restores that die or are killed, follow.  All the
while the saved state is there and a further setup changes nothing.  As soon as a restore gets
through without a refused write, every setting is what it was before the setup, and the saved state
is gone. -/
theorem undoesSetup {k : Kernel} {Possible : Sysfs → Prop} (hk : k.Lawful Possible) {w : World}
    (hOrig : Possible w.sysfs) (hIdle : w.stateFile = none) (hPstate : k.intelPstate = true)
    {found : Found} (hValid : (k.machine w.sysfs found).Valid) {n : Nat} (hSaved : 0 < n)
    {w' : World} (hAttempts : Attempts k (k.setup found n w).1.world w') :
    w'.stateFile.isSome = true ∧
    (∀ found' m, k.setup found' m w' = ({ world := w' }, .died)) ∧
    ∀ m p, k.restore m w' = (p, .finished) → p.refused = [] →
      (∀ f : SysFile, f.IsSetting → p.world.sysfs f = w.sysfs f) ∧
        p.world.stateFile = none ∧ p.world.irqFile = none := by
  have hStart : Mode k Possible w.sysfs found (k.setup found n w).1.world :=
    mode_setup hk hOrig hIdle hPstate hSaved
  have hMode := hStart.attempts hk hOrig hValid hAttempts
  refine ⟨?_, fun found' m => hMode.setup found', fun m p hEnd hAccepted => ?_⟩
  · obtain ⟨t, ht⟩ := hMode.stateFile
    rw [ht]
    rfl
  · exact hMode.restore_finished hk hOrig hValid hEnd hAccepted

/-! ### A laptop with one sibling -/

/-- CPU 4 goes offline or comes back: its governor is gone or a fresh one, and interrupt 9 moves. -/
def replug (s : Sysfs) (value : Text) : Sysfs
  | .online c => if c = ascii "4" then some value else s (.online c)
  | .governor c =>
      if c ≠ ascii "4" then s (.governor c)
      else if value = ascii "1" then some (ascii "schedutil") else none
  | .affinity i => if i = ascii "9" then some (ascii "0-2") else s (.affinity i)
  | file => s file

/-- Turning turbo off takes the lower limit down to 44. -/
def setTurbo (s : Sysfs) (value : Text) : Sysfs
  | .noTurbo => some value
  | .minPct =>
      if value = ascii "1" ∧ s .noTurbo ≠ some value ∧ 44 < digitsVal (rd s .minPct) then
        some (ascii "44")
      else s .minPct
  | file => s file

def laptop : Kernel where
  cpus := [ascii "0", ascii "1", ascii "2", ascii "4"]
  irqs := [ascii "0", ascii "9"]
  write file value s :=
    match file with
    | .minPct =>
        if digitsVal value ≤ digitsVal (rd s .maxPct) then
          some (Function.update s .minPct (some value))
        else none
    | .maxPct =>
        if digitsVal (rd s .minPct) ≤ digitsVal value then
          some (Function.update s .maxPct (some value))
        else none
    | .online c =>
        if c ≠ ascii "4" ∨ (value ≠ ascii "0" ∧ value ≠ ascii "1") then none
        else if s (.online c) = some value then some s
        else some (replug s value)
    | .noTurbo => if (s .noTurbo).isNone then none else some (setTurbo s value)
    | .siblings _ => none
    | file => if (s file).isNone then none else some (Function.update s file (some value))

def laptopFiles : Sysfs
  | .governor c => if laptop.cpus.contains c then some (ascii "powersave") else none
  | .noTurbo => some (ascii "0")
  | .minPct => some (ascii "60")
  | .maxPct => some (ascii "100")
  | .online c => if c = ascii "4" then some (ascii "1") else none
  | .siblings c => if c = ascii "0" ∨ c = ascii "4" then some (ascii "0,4") else some c
  | .paranoid => some (ascii "4")
  | .defaultIrqMask => some (ascii "17")
  | .affinity i => if i = ascii "9" then some (ascii "0-2,4") else none

def laptopFound : Found where
  date := ascii "2026-10-30T15:55:52+00:00"
  measure := ascii "1 2"
  selection := ascii "pinned"
  rationale := ascii "none"
  script := ascii "bench_env.sh"
  scriptSha256 := ascii "00"
  residual := []

/-- The states of the laptop. -/
structure LaptopState (s : Sysfs) : Prop where
  online : ∀ c, (s (.online c)).isSome ↔ c = ascii "4"
  online_value : ∀ v, s (.online (ascii "4")) = some v → v = ascii "0" ∨ v = ascii "1"
  governor : ∀ c, (s (.governor c)).isSome ↔
    c ∈ laptop.cpus ∧ (c = ascii "4" → s (.online c) = some (ascii "1"))
  affinity : ∀ i, (s (.affinity i)).isSome ↔ i = ascii "9"
  limits : digitsVal (rd s .minPct) ≤ digitsVal (rd s .maxPct)

/-- What a write on the laptop does. -/
theorem laptop_write {s s' : Sysfs} {f : SysFile} {v : Text} (h : laptop.write f v s = some s') :
    (f = .online (ascii "4") ∧ (v = ascii "0" ∨ v = ascii "1") ∧
      (s f = some v ∧ s' = s ∨ s f ≠ some v ∧ s' = replug s v)) ∨
    (f = .noTurbo ∧ s' = setTurbo s v) ∨
    ((∀ c, f ≠ .online c) ∧ (f ≠ .minPct → f ≠ .maxPct → (s f).isSome = true) ∧
      (f = .minPct → digitsVal v ≤ digitsVal (rd s .maxPct)) ∧
      (f = .maxPct → digitsVal (rd s .minPct) ≤ digitsVal v) ∧
      s' = Function.update s f (some v)) := by
  -- the files whose only rule is that they are there
  have hPlain : ∀ {t : Sysfs}, (if (s f).isNone then none else some t) = some s' →
      (s f).isSome = true ∧ s' = t := by
    intro t hSome
    split at hSome
    · cases hSome
    · rename_i hThere
      exact ⟨by simpa [Option.isSome_iff_ne_none] using hThere, (Option.some.inj hSome).symm⟩
  cases f with
  | online c =>
      simp only [laptop] at h
      split at h
      · cases h
      · rename_i hValue
        obtain ⟨rfl, hv⟩ : c = ascii "4" ∧ (v ≠ ascii "0" → v = ascii "1") := by
          simpa [not_or] using hValue
        refine Or.inl ⟨rfl, ?_, ?_⟩
        · by_cases hZero : v = ascii "0"
          · exact Or.inl hZero
          · exact Or.inr (hv hZero)
        · split at h
          · rename_i hSame
            exact Or.inl ⟨hSame, (Option.some.inj h).symm⟩
          · rename_i hNew
            exact Or.inr ⟨hNew, (Option.some.inj h).symm⟩
  | noTurbo =>
      exact Or.inr (Or.inl ⟨rfl, (hPlain h).2⟩)
  | minPct =>
      simp only [laptop] at h
      split at h
      · rename_i hRange
        exact Or.inr (Or.inr ⟨nofun, fun hNe => absurd rfl hNe, fun _ => hRange, nofun,
          (Option.some.inj h).symm⟩)
      · cases h
  | maxPct =>
      simp only [laptop] at h
      split at h
      · rename_i hRange
        exact Or.inr (Or.inr ⟨nofun, fun _ hNe => absurd rfl hNe, nofun, fun _ => hRange,
          (Option.some.inj h).symm⟩)
      · cases h
  | siblings c => cases h
  | governor c =>
      obtain ⟨hThere, hSame⟩ := hPlain h
      exact Or.inr (Or.inr ⟨nofun, fun _ _ => hThere, nofun, nofun, hSame⟩)
  | paranoid =>
      obtain ⟨hThere, hSame⟩ := hPlain h
      exact Or.inr (Or.inr ⟨nofun, fun _ _ => hThere, nofun, nofun, hSame⟩)
  | defaultIrqMask =>
      obtain ⟨hThere, hSame⟩ := hPlain h
      exact Or.inr (Or.inr ⟨nofun, fun _ _ => hThere, nofun, nofun, hSame⟩)
  | affinity i =>
      obtain ⟨hThere, hSame⟩ := hPlain h
      exact Or.inr (Or.inr ⟨nofun, fun _ _ => hThere, nofun, nofun, hSame⟩)

theorem LaptopState.replug {s : Sysfs} {v : Text} (h : LaptopState s)
    (hv : v = ascii "0" ∨ v = ascii "1") : LaptopState (replug s v) where
  online c := by
    have hOnline := h.online c
    by_cases hc : c = ascii "4" <;> simp [BenchEnv.replug, hc, hOnline]
  online_value v' hv' := by
    have hSame : v = v' := by simpa [BenchEnv.replug] using hv'
    exact hSame ▸ hv
  governor c := by
    have hGovernor := h.governor c
    by_cases hc : c = ascii "4"
    · subst hc
      rcases hv with rfl | rfl <;> simp [BenchEnv.replug] <;> decide
    · simpa [BenchEnv.replug, hc] using hGovernor
  affinity i := by
    have hAffinity := h.affinity i
    by_cases hi : i = ascii "9" <;> simp [BenchEnv.replug, hi, hAffinity]
  limits := h.limits

theorem LaptopState.setTurbo {s : Sysfs} {v : Text} (h : LaptopState s) :
    LaptopState (setTurbo s v) where
  online := h.online
  online_value := h.online_value
  governor := h.governor
  affinity := h.affinity
  limits := by
    have hLimits := h.limits
    unfold rd BenchEnv.setTurbo
    dsimp only
    split
    · rename_i hLow
      have hDigits : digitsVal (ascii "44") = 44 := by decide
      exact hDigits.trans_le (hLow.2.2.le.trans hLimits)
    · exact hLimits

theorem LaptopState.write {s s' : Sysfs} {f : SysFile} {v : Text} (h : LaptopState s)
    (hWrite : laptop.write f v s = some s') : LaptopState s' := by
  rcases laptop_write hWrite with ⟨rfl, hv, ⟨-, rfl⟩ | ⟨-, rfl⟩⟩ | ⟨rfl, rfl⟩ |
    ⟨hCpu, hThere, hMin, hMax, rfl⟩
  · exact h
  · exact h.replug hv
  · exact h.setTurbo
  · refine ⟨fun c => ?_, fun v' hv' => ?_, fun c => ?_, fun i => ?_, ?_⟩
    · rw [Function.update_of_ne (hCpu c).symm]
      exact h.online c
    · rw [Function.update_of_ne (hCpu _).symm] at hv'
      exact h.online_value v' hv'
    · rw [Function.update_of_ne (hCpu c).symm]
      by_cases hFile : f = .governor c
      · subst hFile
        rw [Function.update_self, ← h.governor c, hThere nofun nofun]
        rfl
      · rw [Function.update_of_ne (Ne.symm hFile)]
        exact h.governor c
    · by_cases hFile : f = .affinity i
      · subst hFile
        rw [Function.update_self, ← h.affinity i, hThere nofun nofun]
        rfl
      · rw [Function.update_of_ne (Ne.symm hFile)]
        exact h.affinity i
    · have hLimits := h.limits
      unfold rd at hLimits hMin hMax ⊢
      by_cases hLow : f = .minPct
      · subst hLow
        simpa [Function.update_apply] using hMin rfl
      · by_cases hHigh : f = .maxPct
        · subst hHigh
          simpa [Function.update_apply] using hMax rfl
        · rwa [Function.update_of_ne (Ne.symm hLow), Function.update_of_ne (Ne.symm hHigh)]

/-- Plugging changes what the kernel may change. -/
theorem replug_frame {s : Sysfs} {v : Text} {g : SysFile}
    (hNew : s (.online (ascii "4")) ≠ some v) (hNe : g ≠ .online (ascii "4"))
    (hQuiet : ¬Disturbs s (.online (ascii "4")) v g) : replug s v g = s g := by
  cases g with
  | online c =>
      have hc : c ≠ ascii "4" := fun hEq => hNe (congrArg SysFile.online hEq)
      exact if_neg hc
  | governor c =>
      have hc : c ≠ ascii "4" := fun hEq => hQuiet ⟨hNew, hEq⟩
      exact if_pos hc
  | affinity i => exact absurd ⟨hNew, trivial⟩ hQuiet
  | _ => rfl

theorem setTurbo_frame {s : Sysfs} {v : Text} {g : SysFile} (hNe : g ≠ .noTurbo)
    (hQuiet : ¬Disturbs s .noTurbo v g) : setTurbo s v g = s g := by
  cases g with
  | noTurbo => exact absurd rfl hNe
  | minPct => exact if_neg fun hOff => hQuiet ⟨hOff.2.1, hOff.1⟩
  | _ => rfl

theorem laptop_lawful : laptop.Lawful LaptopState where
  possible h hWrite := h.write hWrite
  frame := by
    intro s s' f g v hWrite hNe hQuiet
    rcases laptop_write hWrite with ⟨rfl, -, ⟨-, rfl⟩ | ⟨hNew, rfl⟩⟩ | ⟨rfl, rfl⟩ |
      ⟨-, -, -, -, rfl⟩
    · rfl
    · exact replug_frame hNew hNe hQuiet
    · exact setTurbo_frame hNe hQuiet
    · rw [Function.update_of_ne hNe]
  shown := by
    intro s s' s₀ f v _ _ _ _ hWrite
    rcases laptop_write hWrite with ⟨rfl, -, ⟨hSame, rfl⟩ | ⟨-, rfl⟩⟩ | ⟨rfl, rfl⟩ |
      ⟨-, -, -, -, rfl⟩
    · exact hSame
    · simp [replug]
    · rfl
    · rw [Function.update_self]
  ordered := by
    intro s low high h hLow hHigh
    have hLimits := h.limits
    rwa [rd, rd, hLow, hHigh] at hLimits
  online_there c h h' := Bool.eq_iff_iff.mpr ((h.online c).trans (h'.online c).symm)
  affinity_there i h h' := Bool.eq_iff_iff.mpr ((h.affinity i).trans (h'.affinity i).symm)
  governor_there := by
    intro s s' c h h' hOnline hOnline'
    have hOne : ∀ {s : Sysfs}, LaptopState s → IsOnline s c → c = ascii "4" →
        s (.online c) = some (ascii "1") := by
      rintro s hState (hNone | hValue) rfl
      · have hThere := (hState.online _).mpr rfl
        rw [hNone] at hThere
        cases hThere
      · rw [← hValue]
        exact eq_some_of_rd (by rw [hValue]; decide)
    have hIff : (s (.governor c)).isSome ↔ c ∈ laptop.cpus := by
      rw [h.governor c]
      exact and_iff_left (hOne h hOnline)
    have hIff' : (s' (.governor c)).isSome ↔ c ∈ laptop.cpus := by
      rw [h'.governor c]
      exact and_iff_left (hOne h' hOnline')
    exact Bool.eq_iff_iff.mpr (hIff.trans hIff'.symm)
  irqs_listed := by
    intro s i h hThere
    rw [(h.affinity i).mp hThere]
    decide

theorem laptopFiles_state : LaptopState laptopFiles where
  online c := by
    by_cases hc : c = ascii "4" <;> simp [laptopFiles, hc]
  online_value v hv := by
    have hOne : ascii "1" = v := by simpa [laptopFiles] using hv
    exact Or.inr hOne.symm
  governor c := by
    by_cases hc : c = ascii "4"
    · subst hc
      decide
    · by_cases hMem : c ∈ laptop.cpus <;> simp [laptopFiles, hc, hMem]
  affinity i := by
    by_cases hi : i = ascii "9" <;> simp [laptopFiles, hi]
  limits := by decide +kernel

theorem laptop_valid : (laptop.machine laptopFiles laptopFound).Valid where
  date := by decide +kernel
  paranoid := ⟨⟨52, rfl, .inl rfl⟩, 4, by decide +kernel, by decide, by decide⟩
  noTurbo := .inl rfl
  minPct := ⟨60, by decide, by decide +kernel⟩
  maxPct := ⟨100, by decide, by decide +kernel⟩
  governors := by unfold IsNumber IsGovernor; decide +kernel
  siblings := by unfold IsNumber; decide +kernel
  mask := by unfold IsMask; decide +kernel
  irqs := by
    have hIrqs : (laptop.machine laptopFiles laptopFound).irqs = [(ascii "9", ascii "0-2,4")] := by
      decide +kernel
    have hNumbers : IsNumber 5 (ascii "9") ∧ IsNumber 4 (ascii "0") ∧ IsNumber 4 (ascii "2") ∧
        IsNumber 4 (ascii "4") := by
      unfold IsNumber
      decide +kernel
    obtain ⟨h9, h0, h2, h4⟩ := hNumbers
    have hList : (ascii "0-2,4").splitOn 44 = [ascii "0-2", ascii "4"] := by decide +kernel
    simp only [hIrqs, List.forall_mem_cons, List.not_mem_nil, false_implies, implies_true,
      and_true, IsCpuList, hList]
    exact ⟨h9, .inr ⟨_, _, rfl, h0, h2⟩, .inl h4⟩

/-- The setup gets through, past the drop of the lower limit.  The first restore is killed when it
has brought back CPU 4, which moved the interrupt; the second one gets through. -/
theorem undoesSetup_laptop :
    let start : World := { sysfs := laptopFiles }
    let entered := (laptop.setup laptopFound 100 start).1.world
    let killed := (laptop.restore 1 entered).1.world
    (laptop.setup laptopFound 6 start).1.world.sysfs .minPct = some (ascii "44") ∧
      entered.sysfs (.affinity (ascii "9")) = some (ascii "0") ∧
      killed.sysfs (.affinity (ascii "9")) = some (ascii "0-2") ∧
      killed.stateFile.isSome = true ∧
      ∃ p, laptop.restore 100 killed = (p, .finished) ∧
        ∀ f : SysFile, f.IsSetting → p.world.sysfs f = laptopFiles f := by
  intro start entered killed
  have hKilled : (laptop.restore 1 entered).2 ≠ .finished := by decide +kernel
  have hUndoes := undoesSetup laptop_lawful laptopFiles_state rfl rfl laptop_valid
    (n := 100) (by decide) (.restore 1 .none hKilled)
  have hEnd : (laptop.restore 100 killed).2 = .finished ∧
      (laptop.restore 100 killed).1.refused = [] := by decide +kernel
  exact ⟨by decide +kernel, by decide +kernel, by decide +kernel, hUndoes.1, _,
    Prod.ext rfl hEnd.1, (hUndoes.2.2 100 _ (Prod.ext rfl hEnd.1) hEnd.2).1⟩

end BenchEnv

end MatchingMachine
