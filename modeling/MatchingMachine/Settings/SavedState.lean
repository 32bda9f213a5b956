import MatchingMachine.Model.BenchEnv

/-!
# What `restore` reads of a saved state

First the grammar of each value in plain terms, and that the patterns accept just that.  The loops
then keep the sublist of the entries that match and report the others.  At the end, what `cmd_setup`
writes is read back.
-/

namespace MatchingMachine

namespace BenchEnv

/-! ## Words -/

/-- A character that is no separator is in one of the pieces. -/
theorem exists_mem_splitOnP {p : UInt8 → Bool} {c : UInt8} {t : Text} (hc : c ∈ t)
    (hNot : p c = false) : ∃ w ∈ t.splitOnP p, c ∈ w := by
  induction t with
  | nil => cases hc
  | cons d t ih =>
      rw [List.splitOnP_cons_eq_if_modifyHead]
      rcases List.mem_cons.mp hc with rfl | hc
      · rw [if_neg (by simp [hNot])]
        obtain ⟨w, ws, hSplit⟩ := List.exists_cons_of_ne_nil (List.splitOnP_ne_nil p t)
        exact ⟨c :: w, by simp [hSplit], by simp⟩
      · obtain ⟨w, hw, hcw⟩ := ih hc
        split
        · exact ⟨w, by simp [hw], hcw⟩
        · obtain ⟨v, vs, hSplit⟩ := List.exists_cons_of_ne_nil (List.splitOnP_ne_nil p t)
          rw [hSplit] at hw ⊢
          rcases List.mem_cons.mp hw with rfl | hw
          · exact ⟨d :: w, by simp, by simp [hcw]⟩
          · exact ⟨w, by simp [hw], hcw⟩

theorem words_nil : words [] = [] := rfl

/-- A separator separates. -/
theorem words_append_cons {b : UInt8} (hb : isBlank b = true) (s t : Text) :
    words (s ++ b :: t) = words s ++ words t := by
  simp only [words, List.splitOnP_append_cons s t hb, List.filter_append]

theorem words_cons_blank {b : UInt8} (hb : isBlank b = true) (t : Text) :
    words (b :: t) = words t := by
  have h := words_append_cons hb [] t
  rwa [List.nil_append, words_nil, List.nil_append] at h

theorem words_word {w : Text} (hNe : w ≠ []) (hw : ∀ c ∈ w, isBlank c = false) :
    words w = [w] := by
  simp [words, List.splitOnP_eq_singleton hw, hNe]

theorem words_eq_nil_iff {t : Text} : words t = [] ↔ ∀ c ∈ t, isBlank c = true := by
  constructor
  · intro h c hc
    by_contra hNot
    rw [Bool.not_eq_true] at hNot
    obtain ⟨w, hw, hcw⟩ := exists_mem_splitOnP hc hNot
    have hIn : w ∈ words t :=
      List.mem_filter.mpr ⟨hw, by simpa using List.ne_nil_of_mem hcw⟩
    rw [h] at hIn
    cases hIn
  · intro h
    induction t with
    | nil => rfl
    | cons c t ih =>
        rw [words_cons_blank (h c List.mem_cons_self)]
        exact ih fun d hd => h d (List.mem_cons_of_mem _ hd)

/-- `words` takes one word after another. -/
theorem words_eq (t : Text) :
    words t = if (nextWord t).1 = [] then [] else (nextWord t).1 :: words (nextWord t).2 := by
  have hLead : words t = words (t.dropWhile isBlank) := by
    induction t with
    | nil => rfl
    | cons c t ih =>
        by_cases hc : isBlank c = true
        · rw [words_cons_blank hc, List.dropWhile_cons_of_pos hc, ih]
        · rw [List.dropWhile_cons_of_neg hc]
  cases hText : t.dropWhile isBlank with
  | nil => rw [hLead, hText, words_nil, if_pos (by simp [nextWord, hText])]
  | cons c rest =>
      have hc : isBlank c = false := by
        have h := List.head?_dropWhile_not isBlank t
        rw [hText] at h
        simpa using h
      have hNext : nextWord t = (c :: rest.takeWhile (fun c => !isBlank c),
          rest.dropWhile fun c => !isBlank c) := by
        simp [nextWord, hText, hc]
      have hWord : ∀ d ∈ c :: rest.takeWhile (fun c => !isBlank c), isBlank d = false := by
        intro d hd
        rcases List.mem_cons.mp hd with rfl | hd
        · exact hc
        · simpa using List.mem_takeWhile_imp hd
      have hSplit : c :: rest = (c :: rest.takeWhile fun c => !isBlank c) ++
          rest.dropWhile fun c => !isBlank c := by
        rw [List.cons_append, List.takeWhile_append_dropWhile]
      rw [hLead, hText, hNext, if_neg (List.cons_ne_nil _ _), hSplit]
      cases hRest : rest.dropWhile fun c => !isBlank c with
      | nil => rw [List.append_nil, words_word (List.cons_ne_nil _ _) hWord, words_nil]
      | cons d rest' =>
          have hd : isBlank d = true := by
            have h := List.head?_dropWhile_not (fun c => !isBlank c) rest
            rw [hRest] at h
            simpa using h
          rw [words_append_cons hd, words_word (List.cons_ne_nil _ _) hWord, words_cons_blank hd]
          rfl

/-- The three variables hold two words and nothing else. -/
theorem words_eq_pair_iff (line irq aff : Text) :
    words line = [irq, aff] ↔
      irq ≠ [] ∧ aff ≠ [] ∧ readFields line = { irq := irq, aff := aff, extra := [] } := by
  have hExtra : ∀ t : Text, (t.dropWhile isBlank).rdropWhile isBlank = [] ↔ words t = [] := by
    intro t
    rw [words_eq_nil_iff, List.rdropWhile_eq_nil_iff]
    constructor
    · intro h c hc
      rw [← List.takeWhile_append_dropWhile (p := isBlank) (l := t), List.mem_append] at hc
      rcases hc with hc | hc
      · exact List.mem_takeWhile_imp hc
      · exact h c hc
    · intro h c hc
      exact h c ((List.dropWhile_suffix isBlank).subset hc)
  have hFields : readFields line = { irq := irq, aff := aff, extra := [] } ↔
      (nextWord line).1 = irq ∧ (nextWord (nextWord line).2).1 = aff ∧
        words (nextWord (nextWord line).2).2 = [] := by
    rw [← hExtra]
    simp [readFields]
  rw [hFields, words_eq line, words_eq (nextWord line).2]
  constructor
  · intro h
    split at h
    case isTrue => cases h
    case isFalse hIrq =>
      split at h
      case isTrue => cases h
      case isFalse hAff =>
        simp only [List.cons.injEq] at h
        obtain ⟨rfl, rfl, hRest⟩ := h
        exact ⟨hIrq, hAff, rfl, rfl, hRest⟩
  · rintro ⟨hIrq, hAff, rfl, rfl, hRest⟩
    rw [if_neg hIrq, if_neg hAff, hRest]

/-! ## Cuts -/

section

variable {c : UInt8} {s t : Text}

theorem beforeFirst_eq_self (h : c ∉ t) : beforeFirst c t = t := by
  rw [beforeFirst, List.takeWhile_eq_self_iff]
  intro d hd
  simp only [decide_eq_true_eq]
  rintro rfl
  exact h hd

theorem beforeFirst_append_cons (h : c ∉ s) : beforeFirst c (s ++ c :: t) = s := by
  have hAll : ∀ d ∈ s, decide (d ≠ c) = true := by
    intro d hd
    simp only [decide_eq_true_eq]
    rintro rfl
    exact h hd
  rw [beforeFirst, List.takeWhile_append_of_pos hAll, List.takeWhile_cons_of_neg (by simp),
    List.append_nil]

theorem afterFirst_append_cons (h : c ∉ s) : afterFirst c (s ++ c :: t) = t := by
  have hAll : ∀ d ∈ s, decide (d ≠ c) = true := by
    intro d hd
    simp only [decide_eq_true_eq]
    rintro rfl
    exact h hd
  rw [afterFirst, if_pos (by simp), List.dropWhile_append_of_pos hAll,
    List.dropWhile_cons_of_neg (by simp), List.tail_cons]

theorem beforeFirst_append_afterFirst (h : c ∈ t) : beforeFirst c t ++ c :: afterFirst c t = t := by
  obtain ⟨s, u, rfl, hs⟩ := List.eq_append_cons_of_mem h
  rw [beforeFirst_append_cons hs, afterFirst_append_cons hs]

end

/-! ## The grammar -/

/-- One to `k` digits. -/
def IsNumber (k : Nat) (v : Text) : Prop :=
  (1 ≤ v.length ∧ v.length ≤ k) ∧ ∀ c ∈ v, isDigit c = true

/-- One digit with an optional minus sign, between -1 and 4. -/
def IsParanoid (v : Text) : Prop :=
  (∃ d, isDigit d = true ∧ (v = [d] ∨ v = [45, d])) ∧
    ∃ n : Int, decimal v = some n ∧ -1 ≤ n ∧ n ≤ 4

/-- One to three digits, at most 100. -/
def IsPercent (v : Text) : Prop := IsNumber 3 v ∧ digitsVal v ≤ 100

def IsGovernor (v : Text) : Prop :=
  (1 ≤ v.length ∧ v.length ≤ 32) ∧ ∀ c ∈ v, isNameChar c = true

/-- A CPU, a colon and a governor. -/
def IsGovernorEntry (entry : Text) : Prop :=
  ∃ c g, entry = c ++ 58 :: g ∧ IsNumber 4 c ∧ IsGovernor g

/-- Groups of one to sixteen hex digits, separated by commas. -/
def IsMask (v : Text) : Prop :=
  ∀ group ∈ v.splitOn 44, (1 ≤ group.length ∧ group.length ≤ 16) ∧
    ∀ c ∈ group, isHexDigit c = true

/-- CPUs and ranges of CPUs, separated by commas. -/
def IsCpuList (v : Text) : Prop :=
  ∀ part ∈ v.splitOn 44, IsNumber 4 part ∨
    ∃ a b, part = a ++ 45 :: b ∧ IsNumber 4 a ∧ IsNumber 4 b

/-- An IRQ number and a CPU list, and nothing after them. -/
def IsIrqEntry (line : Text) : Prop :=
  ∃ irq aff, words line = [irq, aff] ∧ IsNumber 5 irq ∧ IsCpuList aff

section

variable {v : Text} {k : Nat} {c : UInt8}

theorem IsNumber.ne_nil (h : IsNumber k v) : v ≠ [] := by
  rintro rfl
  simp [IsNumber] at h

theorem isDigit_iff : isDigit c = true ↔ 48 ≤ c ∧ c ≤ 57 := by simp [isDigit]

theorem IsNumber.not_mem (h : IsNumber k v) (hc : isDigit c = false) : c ∉ v := by
  intro hMem
  rw [h.2 c hMem] at hc
  cases hc

theorem between_digits (hk : 1 ≤ k) :
    (Regex.between isDigit 1 k).fullMatch v = true ↔ IsNumber k v := by
  rw [Regex.fullMatch_iff (Regex.plain_between 1 k), Regex.mem_lang_between hk]
  exact Iff.rfl

theorem cpuPattern_iff : cpuPattern.fullMatch v = true ↔ IsNumber 4 v := between_digits (by decide)

theorem irqPattern_iff : irqPattern.fullMatch v = true ↔ IsNumber 5 v := between_digits (by decide)

theorem percentPattern_iff : percentPattern.fullMatch v = true ↔ IsNumber 3 v :=
  between_digits (by decide)

theorem governorPattern_iff : governorPattern.fullMatch v = true ↔ IsGovernor v := by
  rw [governorPattern, Regex.fullMatch_iff (Regex.plain_between 1 32),
    Regex.mem_lang_between (by decide)]
  exact Iff.rfl

theorem noTurboPattern_iff : noTurboPattern.fullMatch v = true ↔ v = ascii "0" ∨ v = ascii "1" := by
  have hPlain : noTurboPattern.Plain := trivial
  rw [Regex.fullMatch_iff hPlain]
  constructor
  · rintro ⟨c, hc, rfl⟩
    simp only [Bool.or_eq_true, decide_eq_true_eq] at hc
    rcases hc with rfl | rfl
    · exact .inl rfl
    · exact .inr rfl
  · rintro (rfl | rfl)
    · exact ⟨48, rfl, rfl⟩
    · exact ⟨49, rfl, rfl⟩

theorem paranoidPattern_iff :
    paranoidPattern.fullMatch v = true ↔ ∃ d, isDigit d = true ∧ (v = [d] ∨ v = [45, d]) := by
  have hPlain : paranoidPattern.Plain := ⟨Regex.plain_opt trivial, trivial⟩
  rw [Regex.fullMatch_iff hPlain]
  constructor
  · intro h
    obtain ⟨sign, hSign, digit, ⟨d, hd, rfl⟩, rfl⟩ := Language.mem_mul.mp h
    rcases Regex.mem_lang_opt.mp hSign with ⟨c, hc, rfl⟩ | rfl
    · obtain rfl : c = 45 := by simpa using hc
      exact ⟨d, hd, .inr rfl⟩
    · exact ⟨d, hd, .inl rfl⟩
  · rintro ⟨d, hd, rfl | rfl⟩
    · exact Language.append_mem_mul (a := []) (Regex.mem_lang_opt.mpr (.inr rfl)) ⟨d, hd, rfl⟩
    · exact Language.append_mem_mul (a := [45]) (Regex.mem_lang_opt.mpr (.inl ⟨45, rfl, rfl⟩))
        ⟨d, hd, rfl⟩

theorem maskPattern_iff : maskPattern.fullMatch v = true ↔ IsMask v := by
  have hMem : ∀ group : Text, group ∈ (Regex.between isHexDigit 1 16).lang ↔
      (1 ≤ group.length ∧ group.length ≤ 16) ∧ ∀ c ∈ group, isHexDigit c = true :=
    fun group => Regex.mem_lang_between (by decide)
  rw [maskPattern, Regex.fullMatch_iff (Regex.plain_sepBy (Regex.plain_between 1 16)),
    Regex.mem_lang_sepBy]
  · simp only [hMem]
    exact Iff.rfl
  · intro w hw hComma
    have hc := ((hMem w).mp hw).2 44 hComma
    exact absurd hc (by decide)

theorem cpuListPattern_iff : cpuListPattern.fullMatch v = true ↔ IsCpuList v := by
  have hCpu : ∀ part : Text, part ∈ cpuPattern.lang ↔ IsNumber 4 part := by
    intro part
    have hPlain : cpuPattern.Plain := Regex.plain_between 1 4
    rw [← cpuPattern_iff, Regex.fullMatch_iff hPlain]
  have hMem : ∀ part : Text, part ∈ (Regex.seq cpuPattern
      (Regex.opt (Regex.seq (Regex.char fun c => c = 45) cpuPattern))).lang ↔
      IsNumber 4 part ∨ ∃ a b, part = a ++ 45 :: b ∧ IsNumber 4 a ∧ IsNumber 4 b := by
    intro part
    constructor
    · intro h
      obtain ⟨a, ha, t, ht, rfl⟩ := Language.mem_mul.mp h
      rw [hCpu] at ha
      rcases Regex.mem_lang_opt.mp ht with ht | rfl
      · obtain ⟨dash, ⟨c, hc, rfl⟩, b, hb, rfl⟩ := Language.mem_mul.mp ht
        obtain rfl : c = 45 := by simpa using hc
        exact .inr ⟨a, b, rfl, ha, (hCpu b).mp hb⟩
      · rw [List.append_nil]
        exact .inl ha
    · rintro (h | ⟨a, b, rfl, ha, hb⟩)
      · have hSeq := Language.append_mem_mul ((hCpu part).mpr h)
          (Regex.mem_lang_opt (r := Regex.seq (Regex.char fun c => c = 45) cpuPattern).mpr
            (.inr rfl))
        rwa [List.append_nil] at hSeq
      · exact Language.append_mem_mul ((hCpu a).mpr ha) (Regex.mem_lang_opt.mpr
          (.inl (Language.append_mem_mul (a := [45]) ⟨45, rfl, rfl⟩ ((hCpu b).mpr hb))))
  have hPlain : cpuListPattern.Plain :=
    Regex.plain_sepBy (r := Regex.seq cpuPattern
      (Regex.opt (Regex.seq (Regex.char fun c => c = 45) cpuPattern)))
      ⟨Regex.plain_between 1 4, Regex.plain_opt ⟨trivial, Regex.plain_between 1 4⟩⟩
  rw [Regex.fullMatch_iff hPlain, cpuListPattern, Regex.mem_lang_sepBy]
  · simp only [hMem]
    exact Iff.rfl
  -- neither a number nor a range has a comma in it
  · intro w hw hComma
    rcases (hMem w).mp hw with h | ⟨a, b, rfl, ha, hb⟩
    · exact h.not_mem (by decide) hComma
    · simp only [List.mem_append, List.mem_cons] at hComma
      rcases hComma with h | h | h
      · exact ha.not_mem (by decide) h
      · exact absurd h (by decide)
      · exact hb.not_mem (by decide) h

/-- Cutting an entry at its first colon finds the CPU and the governor. -/
theorem governorEntry_iff :
    (cpuPattern.fullMatch (beforeFirst 58 v) = true ∧
      governorPattern.fullMatch (afterFirst 58 v) = true) ↔ IsGovernorEntry v := by
  rw [cpuPattern_iff, governorPattern_iff]
  constructor
  · rintro ⟨hc, hg⟩
    by_cases hColon : (58 : UInt8) ∈ v
    · exact ⟨_, _, (beforeFirst_append_afterFirst hColon).symm, hc, hg⟩
    · -- without a colon the whole entry would be both digits and letters
      rw [beforeFirst_eq_self hColon] at hc
      rw [afterFirst, if_neg hColon] at hg
      obtain ⟨d, ds, rfl⟩ := List.exists_cons_of_ne_nil hc.ne_nil
      have hDigit := isDigit_iff.mp (hc.2 d (by simp))
      have hName := hg.2 d (by simp)
      simp only [isNameChar, Bool.or_eq_true, Bool.and_eq_true, decide_eq_true_eq,
        UInt8.le_iff_toNat_le] at hName hDigit
      rcases hName with ⟨h, -⟩ | rfl
      · have h57 : (57 : UInt8).toNat = 57 := rfl
        have h97 : (97 : UInt8).toNat = 97 := rfl
        omega
      · exact absurd hDigit.2 (by decide)
  · rintro ⟨c, g, rfl, hc, hg⟩
    have hNot : (58 : UInt8) ∉ c := hc.not_mem (by decide)
    rw [beforeFirst_append_cons hNot, afterFirst_append_cons hNot]
    exact ⟨hc, hg⟩

theorem governorEntry_eq (h : IsGovernorEntry v) :
    beforeFirst 58 v ++ ascii ":" ++ afterFirst 58 v = v := by
  obtain ⟨c, g, rfl, hc, hg⟩ := h
  rw [List.append_assoc]
  exact beforeFirst_append_afterFirst (by simp)

theorem IsCpuList.ne_nil (h : IsCpuList v) : v ≠ [] := by
  rintro rfl
  rcases h [] (by simp) with h | ⟨a, b, h, -⟩
  · exact h.ne_nil rfl
  · simp at h

/-- The three variables of an IRQ line. -/
theorem irqEntry_iff (line : Text) :
    (irqPattern.fullMatch (readFields line).irq = true ∧
      cpuListPattern.fullMatch (readFields line).aff = true ∧ (readFields line).extra = []) ↔
      IsIrqEntry line := by
  rw [irqPattern_iff, cpuListPattern_iff]
  constructor
  · rintro ⟨hIrq, hAff, hExtra⟩
    refine ⟨_, _, (words_eq_pair_iff line _ _).mpr ⟨hIrq.ne_nil, hAff.ne_nil, ?_⟩, hIrq, hAff⟩
    rw [← hExtra]
  · rintro ⟨irq, aff, hWords, hIrq, hAff⟩
    obtain ⟨-, -, hFields⟩ := (words_eq_pair_iff line irq aff).mp hWords
    rw [hFields]
    exact ⟨hIrq, hAff, rfl⟩

end

/-! ## Loading -/

/-- The files pass the checks that are made before they are read. -/
structure Trusted (uid : Nat) (stateDir stateFile irqFile : Path) : Prop where
  dir : requireTrusted stateDir uid = .ok ()
  dir_kind : stateDir.kind = .directory
  state : requireTrusted stateFile uid = .ok ()
  state_kind : stateFile.kind = .regular
  irq : irqFile.isThere ∨ irqFile.isSymlink →
    requireTrusted irqFile uid = .ok () ∧ irqFile.kind = .regular

/-- The lines of the IRQ file, if there is one. -/
def irqLines (irqFile : Path) : List Text :=
  if irqFile.isThere ∨ irqFile.isSymlink then readLines irqFile.content else []

/-- The value saved under a key. -/
def saved (stateFile : Path) (key : String) : Text := kvGet stateFile.content (ascii key)

open Classical in
/-- What is in the grammar, and for everything else what is reported. -/
noncomputable def accepted (stateFile irqFile : Path) : Restored :=
  let paranoid := saved stateFile "SAVED_PARANOID"
  let noTurbo := saved stateFile "SAVED_NO_TURBO"
  let minPct := saved stateFile "SAVED_MIN_PCT"
  let maxPct := saved stateFile "SAVED_MAX_PCT"
  let governors := words (saved stateFile "SAVED_GOVERNORS")
  let offlined := words (saved stateFile "SAVED_OFFLINED")
  let mask := saved stateFile "SAVED_DEFAULT_IRQ_MASK"
  { paranoid := if IsParanoid paranoid then paranoid else ascii "4"
    noTurbo := if noTurbo = ascii "0" ∨ noTurbo = ascii "1" then noTurbo else []
    minPct := if IsPercent minPct then natText 10 (digitsVal minPct) else []
    maxPct := if IsPercent maxPct then natText 10 (digitsVal maxPct) else []
    governors := governors.filter IsGovernorEntry
    offlined := offlined.filter (IsNumber 4)
    defaultIrqMask := if IsMask mask then mask else []
    irqs := ((irqLines irqFile).filter IsIrqEntry).map fun line =>
      (ascii " ").intercalate (words line)
    rejected :=
      (if IsParanoid paranoid then [] else [ascii "SAVED_PARANOID=" ++ quoted paranoid ++
        ascii " (restoring the most restrictive value, 4)"]) ++
      (if noTurbo = ascii "0" ∨ noTurbo = ascii "1" then []
        else [ascii "SAVED_NO_TURBO=" ++ quoted noTurbo]) ++
      (if IsPercent minPct then [] else [ascii "SAVED_MIN_PCT" ++ ascii "=" ++ quoted minPct]) ++
      (if IsPercent maxPct then [] else [ascii "SAVED_MAX_PCT" ++ ascii "=" ++ quoted maxPct]) ++
      (governors.filter fun e => ¬IsGovernorEntry e).map
        (fun e => ascii "governor entry " ++ quoted e) ++
      (offlined.filter fun c => ¬IsNumber 4 c).map (fun c => ascii "offlined CPU " ++ quoted c) ++
      (if IsMask mask then [] else [ascii "SAVED_DEFAULT_IRQ_MASK=" ++ quoted mask]) ++
      ((irqLines irqFile).filter fun line => ¬IsIrqEntry line).map
        (fun line => irqRejection (readFields line)) }

section

open Classical

variable {v : Text} {r : Restored}

theorem loadParanoid_eq : loadParanoid v r =
    { r with
      paranoid := if IsParanoid v then v else ascii "4"
      rejected := r.rejected ++ if IsParanoid v then [] else [ascii "SAVED_PARANOID=" ++ quoted v ++
        ascii " (restoring the most restrictive value, 4)"] } := by
  have hIff : (paranoidPattern.fullMatch v = true ∧
      ((decimal v).any fun n => -1 ≤ n ∧ n ≤ 4) = true) ↔ IsParanoid v := by
    rw [paranoidPattern_iff]
    apply and_congr_right'
    simp [Option.any_eq_true]
  unfold loadParanoid
  by_cases h : IsParanoid v
  · rw [if_pos (hIff.mpr h), if_pos h, if_pos h, List.append_nil]
  · rw [if_neg (mt hIff.mp h), if_neg h, if_neg h]

theorem loadNoTurbo_eq : loadNoTurbo v r =
    { r with
      noTurbo := if v = ascii "0" ∨ v = ascii "1" then v else []
      rejected := r.rejected ++ if v = ascii "0" ∨ v = ascii "1" then []
        else [ascii "SAVED_NO_TURBO=" ++ quoted v] } := by
  unfold loadNoTurbo
  by_cases h : v = ascii "0" ∨ v = ascii "1"
  · rw [if_pos (noTurboPattern_iff.mpr h), if_pos h, if_pos h, List.append_nil]
  · rw [if_neg (mt noTurboPattern_iff.mp h), if_neg h, if_neg h]

theorem loadPercent_eq (key : Text) : loadPercent key v =
    (if IsPercent v then natText 10 (digitsVal v) else [],
      if IsPercent v then [] else [key ++ ascii "=" ++ quoted v]) := by
  have hIff : (percentPattern.fullMatch v = true ∧ digitsVal v ≤ 100) ↔ IsPercent v :=
    and_congr_left' percentPattern_iff
  unfold loadPercent
  by_cases h : IsPercent v
  · rw [if_pos (hIff.mpr h), if_pos h, if_pos h]
  · rw [if_neg (mt hIff.mp h), if_neg h, if_neg h]

theorem loadMinPct_eq : loadMinPct v r =
    { r with
      minPct := if IsPercent v then natText 10 (digitsVal v) else []
      rejected := r.rejected ++ if IsPercent v then []
        else [ascii "SAVED_MIN_PCT" ++ ascii "=" ++ quoted v] } := by
  rw [loadMinPct, loadPercent_eq]

theorem loadMaxPct_eq : loadMaxPct v r =
    { r with
      maxPct := if IsPercent v then natText 10 (digitsVal v) else []
      rejected := r.rejected ++ if IsPercent v then []
        else [ascii "SAVED_MAX_PCT" ++ ascii "=" ++ quoted v] } := by
  rw [loadMaxPct, loadPercent_eq]

theorem loadMask_eq : loadMask v r =
    { r with
      defaultIrqMask := if IsMask v then v else []
      rejected := r.rejected ++ if IsMask v then []
        else [ascii "SAVED_DEFAULT_IRQ_MASK=" ++ quoted v] } := by
  unfold loadMask
  by_cases h : IsMask v
  · rw [if_pos (maskPattern_iff.mpr h), if_pos h, if_pos h, List.append_nil]
  · rw [if_neg (mt maskPattern_iff.mp h), if_neg h, if_neg h]

/-- A loop that puts what it accepts into one list and reports the rest: `put` adds to both. -/
theorem foldl_eq_put (step : Restored → Text → Restored)
    (put : Restored → List Text → List Text → Restored) (P : Text → Prop) (f g : Text → Text)
    (hNil : ∀ r, put r [] [] = r)
    (hAppend : ∀ r as bs as' bs', put (put r as bs) as' bs' = put r (as ++ as') (bs ++ bs'))
    (hStep : ∀ r x, step r x = put r (if P x then [f x] else []) (if P x then [] else [g x]))
    (xs : List Text) (r : Restored) :
    xs.foldl step r = put r ((xs.filter P).map f) ((xs.filter fun x => ¬P x).map g) := by
  induction xs generalizing r with
  | nil => simp [hNil]
  | cons x xs ih =>
      rw [List.foldl_cons, ih, hStep, hAppend]
      by_cases hx : P x <;> simp [hx]

theorem foldl_addGovernor (entries : List Text) : entries.foldl addGovernor r =
    { r with
      governors := r.governors ++ entries.filter IsGovernorEntry
      rejected := r.rejected ++ (entries.filter fun e => ¬IsGovernorEntry e).map
        (fun e => ascii "governor entry " ++ quoted e) } := by
  have h := foldl_eq_put addGovernor
    (fun r as bs => { r with governors := r.governors ++ as, rejected := r.rejected ++ bs })
    IsGovernorEntry id (fun e => ascii "governor entry " ++ quoted e) (by simp) (by simp) ?_
    entries r
  · simpa using h
  · intro r e
    unfold addGovernor
    by_cases he : IsGovernorEntry e
    · rw [if_pos (governorEntry_iff.mpr he), governorEntry_eq he]
      simp [he]
    · rw [if_neg (mt governorEntry_iff.mp he)]
      simp [he]

theorem foldl_addOfflined (cpus : List Text) : cpus.foldl addOfflined r =
    { r with
      offlined := r.offlined ++ cpus.filter (IsNumber 4)
      rejected := r.rejected ++ (cpus.filter fun c => ¬IsNumber 4 c).map
        (fun c => ascii "offlined CPU " ++ quoted c) } := by
  have h := foldl_eq_put addOfflined
    (fun r as bs => { r with offlined := r.offlined ++ as, rejected := r.rejected ++ bs })
    (IsNumber 4) id (fun c => ascii "offlined CPU " ++ quoted c) (by simp) (by simp) ?_ cpus r
  · simpa using h
  · intro r c
    unfold addOfflined
    by_cases hc : IsNumber 4 c
    · rw [if_pos (cpuPattern_iff.mpr hc)]
      simp [hc]
    · rw [if_neg (mt cpuPattern_iff.mp hc)]
      simp [hc]

theorem irqEntry_text {line : Text} (h : IsIrqEntry line) :
    (readFields line).irq ++ ascii " " ++ (readFields line).aff =
      (ascii " ").intercalate (words line) := by
  obtain ⟨irq, aff, hWords, -, -⟩ := h
  obtain ⟨-, -, hFields⟩ := (words_eq_pair_iff line irq aff).mp hWords
  rw [hFields, hWords]
  simp [List.intercalate]

theorem foldl_addIrq (lines : List Text) : lines.foldl addIrq r =
    { r with
      irqs := r.irqs ++ (lines.filter IsIrqEntry).map fun line =>
        (ascii " ").intercalate (words line)
      rejected := r.rejected ++ (lines.filter fun line => ¬IsIrqEntry line).map
        (fun line => irqRejection (readFields line)) } := by
  apply foldl_eq_put addIrq
    (fun r as bs => { r with irqs := r.irqs ++ as, rejected := r.rejected ++ bs }) IsIrqEntry
    (fun line => (ascii " ").intercalate (words line)) (fun line => irqRejection (readFields line))
    (by simp) (by simp)
  intro r line
  unfold addIrq
  by_cases hLine : IsIrqEntry line
  · rw [if_pos ((irqEntry_iff line).mpr hLine), irqEntry_text hLine]
    simp [hLine]
  · rw [if_neg (mt (irqEntry_iff line).mp hLine)]
    simp [hLine]

end

/-- The parser accepts its grammar and reports everything else. -/
theorem Trusted.loadSavedState_eq {uid : Nat} {stateDir stateFile irqFile : Path}
    (h : Trusted uid stateDir stateFile irqFile) :
    loadSavedState uid stateDir stateFile irqFile = .ok (accepted stateFile irqFile) := by
  unfold loadSavedState
  simp only [h.dir, h.dir_kind, h.state, h.state_kind, bind, Except.bind, ne_eq,
    not_true_eq_false, if_false]
  have hRecord : accepted stateFile irqFile = (irqLines irqFile).foldl addIrq
      (loadMask (saved stateFile "SAVED_DEFAULT_IRQ_MASK")
        ((words (saved stateFile "SAVED_OFFLINED")).foldl addOfflined
          ((words (saved stateFile "SAVED_GOVERNORS")).foldl addGovernor
            (loadMaxPct (saved stateFile "SAVED_MAX_PCT")
              (loadMinPct (saved stateFile "SAVED_MIN_PCT")
                (loadNoTurbo (saved stateFile "SAVED_NO_TURBO")
                  (loadParanoid (saved stateFile "SAVED_PARANOID") {}))))))) := by
    -- from the inside out, so that each step sees a record whose fields are known
    simp only [loadParanoid_eq, loadNoTurbo_eq, loadMinPct_eq, loadMaxPct_eq, foldl_addGovernor,
      foldl_addOfflined, loadMask_eq, foldl_addIrq, List.nil_append]
    rfl
  rw [hRecord]
  by_cases hThere : irqFile.isThere ∨ irqFile.isSymlink
  · obtain ⟨hTrust, hKind⟩ := h.irq hThere
    simp only [hThere, hTrust, hKind, if_true, irqLines]
    rfl
  · simp only [hThere, if_false, irqLines]
    rfl

/-! ## Saving -/

/-- What the machine reports is of the forms that can be restored. -/
structure Machine.Valid (m : Machine) : Prop where
  /-- `date` prints one line. -/
  date : 10 ∉ m.date
  paranoid : IsParanoid m.paranoid
  noTurbo : m.noTurbo = ascii "0" ∨ m.noTurbo = ascii "1"
  minPct : ∃ n ≤ 100, m.minPct = natText 10 n
  maxPct : ∃ n ≤ 100, m.maxPct = natText 10 n
  governors : ∀ g ∈ m.governors, IsNumber 4 g.1 ∧ IsGovernor g.2
  siblings : ∀ c ∈ m.siblings, IsNumber 4 c
  mask : IsMask m.defaultIrqMask
  irqs : ∀ i ∈ m.irqs, IsNumber 5 i.1 ∧ IsCpuList i.2

/-- No separators and no quotes. -/
def Clean (v : Text) : Prop := ∀ c ∈ v, isBlank c = false ∧ c ≠ 34

section

variable {v : Text}

theorem Clean.not_newline (h : Clean v) : 10 ∉ v := fun hMem =>
  absurd (h 10 hMem).1 (by decide)

theorem Clean.append {u : Text} (hu : Clean u) (hv : Clean v) : Clean (u ++ v) := by
  intro c hc
  rcases List.mem_append.mp hc with hc | hc
  · exact hu c hc
  · exact hv c hc

/-- A class of characters without separators and quotes. -/
theorem clean_of_class {p : UInt8 → Bool} (h : p 32 = false ∧ p 9 = false ∧ p 10 = false ∧
    p 34 = false) (hv : ∀ c ∈ v, p c = true) : Clean v := by
  obtain ⟨h32, h9, h10, h34⟩ := h
  intro c hc
  have hp := hv c hc
  constructor
  · by_contra hBlank
    simp only [isBlank, Bool.not_eq_false, Bool.or_eq_true, decide_eq_true_eq] at hBlank
    rcases hBlank with (rfl | rfl) | rfl
    · rw [h32] at hp
      cases hp
    · rw [h9] at hp
      cases hp
    · rw [h10] at hp
      cases hp
  · rintro rfl
    rw [h34] at hp
    cases hp

/-- Pieces between commas. -/
theorem clean_of_pieces (h : ∀ piece ∈ v.splitOn 44, Clean piece) : Clean v := by
  intro c hc
  by_cases hComma : c = 44
  · subst hComma
    exact ⟨by decide, by decide⟩
  · have hNot : (c == (44 : UInt8)) = false := by simpa using hComma
    obtain ⟨piece, hPiece, hcp⟩ := exists_mem_splitOnP (p := fun d => d == 44) hc hNot
    exact h piece (by rwa [List.splitOn_eq_splitOnP]) c hcp

theorem IsNumber.clean {k : Nat} (h : IsNumber k v) : Clean v :=
  clean_of_class (by decide) h.2

theorem IsGovernor.clean (h : IsGovernor v) : Clean v := clean_of_class (by decide) h.2

theorem IsMask.clean (h : IsMask v) : Clean v :=
  clean_of_pieces fun piece hPiece => clean_of_class (by decide) (h piece hPiece).2

theorem IsCpuList.clean (h : IsCpuList v) : Clean v := by
  apply clean_of_pieces
  intro piece hPiece
  rcases h piece hPiece with h | ⟨a, b, rfl, ha, hb⟩
  · exact h.clean
  · have hDash : Clean [45] := by
      intro c hc
      obtain rfl := List.mem_singleton.mp hc
      exact ⟨by decide, by decide⟩
    exact ha.clean.append (hDash.append hb.clean)

theorem IsParanoid.clean (h : IsParanoid v) : Clean v := by
  obtain ⟨⟨d, hd, hv⟩, -⟩ := h
  apply clean_of_class (p := fun c => isDigit c || c = 45) (by decide)
  rcases hv with rfl | rfl <;> simp [hd]

/-- A percentage in decimal is read back. -/
theorem percent_natText {n : Nat} (hn : n ≤ 100) :
    IsPercent (natText 10 n) ∧ digitsVal (natText 10 n) = n := by
  have hAll : ∀ n < 101, ((1 ≤ (natText 10 n).length ∧ (natText 10 n).length ≤ 3) ∧
      ((natText 10 n).all isDigit = true)) ∧ digitsVal (natText 10 n) = n := by decide +kernel
  obtain ⟨⟨hLength, hDigits⟩, hVal⟩ := hAll n (by omega)
  exact ⟨⟨⟨hLength, List.all_eq_true.mp hDigits⟩, by omega⟩, hVal⟩

/-! ### Lines -/

theorem splitOn_newline {line : Text} (h : 10 ∉ line) (t : Text) :
    (line ++ 10 :: t).splitOn 10 = line :: t.splitOn 10 := by
  rw [List.splitOn_eq_splitOnP, List.splitOn_eq_splitOnP]
  apply List.splitOnP_append_cons_of_forall_mem _ _ (by rfl)
  intro c hc
  simp only [beq_eq_false_iff_ne, ne_eq]
  rintro rfl
  exact h hc

theorem grepLines_append {line : Text} (h : 10 ∉ line) (t : Text) :
    grepLines (line ++ 10 :: t) = line :: grepLines t := by
  obtain ⟨x, xs, hSplit⟩ := List.exists_cons_of_ne_nil (List.splitOn_ne_nil (10 : UInt8) t)
  simp only [grepLines, splitOn_newline h, hSplit, List.getLast?_cons_cons]
  split <;> rfl

theorem grepLines_echoAll {lines : List Text} (h : ∀ line ∈ lines, 10 ∉ line) (t : Text) :
    grepLines (echoAll lines ++ t) = lines ++ grepLines t := by
  induction lines with
  | nil => rfl
  | cons line lines ih =>
      rw [List.forall_mem_cons] at h
      have hText : echoAll (line :: lines) ++ t = line ++ 10 :: (echoAll lines ++ t) := by
        simp [echoAll]
      rw [hText, grepLines_append h.1, ih h.2, List.cons_append]

theorem readLines_echoAll {lines : List Text} (h : ∀ line ∈ lines, 10 ∉ line) :
    readLines (echoAll lines) = lines := by
  induction lines with
  | nil => rfl
  | cons line lines ih =>
      rw [List.forall_mem_cons] at h
      have hText : echoAll (line :: lines) = line ++ 10 :: echoAll lines := by simp [echoAll]
      have hRest := ih h.2
      rw [readLines] at hRest ⊢
      rw [hText, splitOn_newline h.1, List.dropLast_cons_of_ne_nil (List.splitOn_ne_nil _ _), hRest]

/-- The first line of a key counts. -/
theorem kvGet_echoAll {before after : List Text} {t key v : Text}
    (hNewline : ∀ line ∈ before ++ (key ++ ascii "=" ++ v) :: after, 10 ∉ line)
    (hBefore : ∀ line ∈ before, (key ++ ascii "=").isPrefixOf line = false) (hKey : 61 ∉ key) :
    kvGet (echoAll (before ++ (key ++ ascii "=" ++ v) :: after) ++ t) key =
      dropTrailing 34 (dropLeading 34 v) := by
  have hFind : ((before ++ (key ++ ascii "=" ++ v) :: after) ++ grepLines t).find?
      (fun line => (key ++ ascii "=").isPrefixOf line) = some (key ++ ascii "=" ++ v) := by
    have hNone : before.find? (fun line => (key ++ ascii "=").isPrefixOf line) = none := by
      rw [List.find?_eq_none]
      intro line hLine
      rw [hBefore line hLine]
      exact Bool.false_ne_true
    rw [List.append_assoc, List.find?_append, hNone]
    simp
  have hAfter : afterFirst 61 (key ++ ascii "=" ++ v) = v := by
    rw [List.append_assoc]
    exact afterFirst_append_cons hKey
  rw [kvGet, grepLines_echoAll hNewline, hFind, Option.getD_some, hAfter]

theorem unquote_clean (h : Clean v) : dropTrailing 34 (dropLeading 34 v) = v := by
  have hHead : v.head? ≠ some 34 := fun hEq => (h 34 (List.mem_of_head? hEq)).2 rfl
  have hLast : v.getLast? ≠ some 34 := fun hEq => (h 34 (List.mem_of_getLast? hEq)).2 rfl
  rw [dropLeading, if_neg hHead, dropTrailing, if_neg hLast]

theorem unquote_quotes (v : Text) :
    dropTrailing 34 (dropLeading 34 (ascii "\x22" ++ v ++ ascii "\x22")) = v := by
  have hLead : dropLeading 34 (ascii "\x22" ++ v ++ ascii "\x22") = v ++ [34] := rfl
  rw [hLead, dropTrailing, if_pos (by simp), List.dropLast_concat]

/-! ### Lists in a line -/

theorem words_flatMap {items : List Text} (h : ∀ w ∈ items, w ≠ [] ∧ Clean w) :
    words (items.flatMap fun w => w ++ [32]) = items := by
  induction items with
  | nil => rfl
  | cons w items ih =>
      rw [List.forall_mem_cons] at h
      rw [List.flatMap_cons, List.append_assoc, List.singleton_append,
        words_append_cons (by rfl), words_word h.1.1 (fun c hc => (h.1.2 c hc).1), ih h.2]
      rfl

theorem words_siblingList {cpus : List Text} (h : ∀ c ∈ cpus, IsNumber 4 c) :
    words (siblingList cpus) = cpus := by
  have hWords : words (cpus.flatMap fun c => c ++ [32]) = cpus :=
    words_flatMap fun c hc => ⟨(h c hc).ne_nil, (h c hc).clean⟩
  rw [siblingList, dropTrailing]
  split
  case isFalse => exact hWords
  case isTrue hLast =>
    obtain ⟨text, hText⟩ := List.getLast?_eq_some_iff.mp hLast
    rw [hText, words_append_cons (by rfl), words_nil, List.append_nil] at hWords
    rw [hText, List.dropLast_concat, hWords]

theorem words_irqLine {irq aff : Text} (hIrq : IsNumber 5 irq) (hAff : IsCpuList aff) :
    words (irq ++ ascii " " ++ aff) = [irq, aff] := by
  rw [List.append_assoc]
  have h := words_append_cons (b := 32) rfl irq aff
  rw [words_word hIrq.ne_nil fun c hc => (hIrq.clean c hc).1,
    words_word hAff.ne_nil fun c hc => (hAff.clean c hc).1] at h
  exact h

/-! ### The files -/

variable {m : Machine}

/-- The text of `SAVED_GOVERNORS`. -/
def governorList (m : Machine) : Text :=
  m.governors.flatMap fun g => g.1 ++ ascii ":" ++ g.2 ++ ascii " "

/-- The lines that are read back. -/
def savedLines (m : Machine) : List Text :=
  [ascii "# saved by bench_env.sh at " ++ m.date,
    ascii "SAVED_PARANOID=" ++ m.paranoid,
    ascii "SAVED_NO_TURBO=" ++ m.noTurbo,
    ascii "SAVED_MIN_PCT=" ++ m.minPct,
    ascii "SAVED_MAX_PCT=" ++ m.maxPct,
    quotedLine "SAVED_GOVERNORS" (governorList m),
    quotedLine "SAVED_OFFLINED" (siblingList m.siblings),
    ascii "SAVED_DEFAULT_IRQ_MASK=" ++ m.defaultIrqMask]

theorem savedState_eq (m : Machine) : ∃ t, savedState m = echoAll (savedLines m) ++ t :=
  ⟨_, List.append_assoc _ _ _⟩

theorem Machine.Valid.clean_noTurbo (h : m.Valid) : Clean m.noTurbo := by
  rcases h.noTurbo with hv | hv <;> rw [hv] <;> unfold Clean <;> decide +kernel

theorem clean_pct (h : ∃ n ≤ 100, v = natText 10 n) : Clean v := by
  obtain ⟨n, hn, rfl⟩ := h
  exact (percent_natText hn).1.1.clean

/-- `cpu:governor`. -/
def governorItems (m : Machine) : List Text := m.governors.map fun g => g.1 ++ ascii ":" ++ g.2

theorem governorList_eq (m : Machine) :
    governorList m = (governorItems m).flatMap fun w => w ++ [32] := by
  rw [governorItems, List.flatMap_map]
  rfl

theorem Machine.Valid.governorItems_clean (h : m.Valid) :
    ∀ w ∈ governorItems m, w ≠ [] ∧ Clean w := by
  intro w hw
  obtain ⟨g, hg, rfl⟩ := List.mem_map.mp hw
  obtain ⟨hc, hName⟩ := h.governors g hg
  have hColon : Clean (ascii ":") := by
    unfold Clean
    decide +kernel
  exact ⟨by simp [hc.ne_nil], (hc.clean.append hColon).append hName.clean⟩

theorem newline_not_mem_flatMap {items : List Text} (h : ∀ w ∈ items, Clean w) :
    (10 : UInt8) ∉ items.flatMap fun w => w ++ [32] := by
  intro hMem
  obtain ⟨w, hw, hc⟩ := List.mem_flatMap.mp hMem
  rcases List.mem_append.mp hc with hc | hc
  · exact (h w hw).not_newline hc
  · exact absurd (List.mem_singleton.mp hc) (by decide)

theorem Machine.Valid.newline_not_mem (h : m.Valid) : ∀ line ∈ savedLines m, 10 ∉ line := by
  have hKey : ∀ {key v : Text}, 10 ∉ key → 10 ∉ v → (10 : UInt8) ∉ key ++ v := by
    intro key v hKey hv hMem
    exact (List.mem_append.mp hMem).elim hKey hv
  have hGovernors : (10 : UInt8) ∉ governorList m := by
    rw [governorList_eq]
    exact newline_not_mem_flatMap fun w hw => (h.governorItems_clean w hw).2
  have hSiblings : (10 : UInt8) ∉ siblingList m.siblings := by
    have hAll := newline_not_mem_flatMap fun c hc => (h.siblings c hc).clean
    unfold siblingList dropTrailing
    split
    · exact fun hMem => hAll (List.mem_of_mem_dropLast hMem)
    · exact hAll
  simp only [savedLines, List.forall_mem_cons, List.not_mem_nil, false_implies, implies_true,
    and_true]
  refine ⟨hKey (by decide) h.date, hKey (by decide) h.paranoid.clean.not_newline,
    hKey (by decide) h.clean_noTurbo.not_newline, hKey (by decide) (clean_pct h.minPct).not_newline,
    hKey (by decide) (clean_pct h.maxPct).not_newline,
    hKey (hKey (by decide) hGovernors) (by decide), hKey (hKey (by decide) hSiblings) (by decide),
    hKey (by decide) h.mask.clean.not_newline⟩

/-- What was saved. -/
def Machine.restored (m : Machine) : Restored where
  paranoid := m.paranoid
  noTurbo := m.noTurbo
  minPct := m.minPct
  maxPct := m.maxPct
  governors := m.governors.map fun g => g.1 ++ ascii ":" ++ g.2
  offlined := m.siblings
  defaultIrqMask := m.defaultIrqMask
  irqs := m.irqs.map fun i => i.1 ++ ascii " " ++ i.2
  rejected := []

/-- The values of the keys in the state file. -/
structure Holds (m : Machine) (stateFile : Path) : Prop where
  paranoid : saved stateFile "SAVED_PARANOID" = m.paranoid
  noTurbo : saved stateFile "SAVED_NO_TURBO" = m.noTurbo
  minPct : saved stateFile "SAVED_MIN_PCT" = m.minPct
  maxPct : saved stateFile "SAVED_MAX_PCT" = m.maxPct
  governors : saved stateFile "SAVED_GOVERNORS" = governorList m
  offlined : saved stateFile "SAVED_OFFLINED" = siblingList m.siblings
  mask : saved stateFile "SAVED_DEFAULT_IRQ_MASK" = m.defaultIrqMask

/-- Line `k` of the state file gives its key the value that follows it. -/
theorem Machine.Valid.saved_eq (h : m.Valid) {stateFile : Path}
    (hContent : stateFile.content = savedState m) (key : String) (k : Nat)
    (hLine : (savedLines m)[k]? = some (ascii key ++ ascii "=" ++ v))
    (hBefore : ∀ line ∈ (savedLines m).take k, (ascii key ++ ascii "=").isPrefixOf line = false)
    (hKey : 61 ∉ ascii key) :
    saved stateFile key = dropTrailing 34 (dropLeading 34 v) := by
  obtain ⟨t, ht⟩ := savedState_eq m
  obtain ⟨hk, hGet⟩ := List.getElem?_eq_some_iff.mp hLine
  have hLines : savedLines m =
      (savedLines m).take k ++ (ascii key ++ ascii "=" ++ v) :: (savedLines m).drop (k + 1) := by
    rw [← hGet, List.getElem_cons_drop, List.take_append_drop]
  rw [saved, hContent, ht, hLines]
  apply kvGet_echoAll _ hBefore hKey
  rw [← hLines]
  exact h.newline_not_mem

theorem Machine.Valid.holds (h : m.Valid) {stateFile : Path}
    (hContent : stateFile.content = savedState m) : Holds m stateFile := by
  have hOther : ∀ {key : Text} {lines : List Text},
      lines.all (fun line => !key.isPrefixOf line) = true →
        ∀ line ∈ lines, key.isPrefixOf line = false := by
    intro key lines hAll line hLine
    simpa using List.all_eq_true.mp hAll line hLine
  constructor
  case paranoid =>
    rw [h.saved_eq hContent "SAVED_PARANOID" 1 rfl (hOther rfl) (by decide)]
    exact unquote_clean h.paranoid.clean
  case noTurbo =>
    rw [h.saved_eq hContent "SAVED_NO_TURBO" 2 rfl (hOther rfl) (by decide)]
    exact unquote_clean h.clean_noTurbo
  case minPct =>
    rw [h.saved_eq hContent "SAVED_MIN_PCT" 3 rfl (hOther rfl) (by decide)]
    exact unquote_clean (clean_pct h.minPct)
  case maxPct =>
    rw [h.saved_eq hContent "SAVED_MAX_PCT" 4 rfl (hOther rfl) (by decide)]
    exact unquote_clean (clean_pct h.maxPct)
  case governors =>
    rw [h.saved_eq hContent "SAVED_GOVERNORS" 5 rfl (hOther rfl) (by decide)]
    exact unquote_quotes _
  case offlined =>
    rw [h.saved_eq hContent "SAVED_OFFLINED" 6 rfl (hOther rfl) (by decide)]
    exact unquote_quotes _
  case mask =>
    rw [h.saved_eq hContent "SAVED_DEFAULT_IRQ_MASK" 7 rfl (hOther rfl) (by decide)]
    exact unquote_clean h.mask.clean

theorem percent_restored {n : Nat} (hn : n ≤ 100) (hv : v = natText 10 n) :
    IsPercent v ∧ natText 10 (digitsVal v) = v := by
  obtain ⟨hPercent, hVal⟩ := percent_natText hn
  rw [hv, hVal]
  exact ⟨hPercent, rfl⟩

/-- The files of a setup lie in the grammar, value by value. -/
theorem Machine.Valid.accepted_eq (h : m.Valid) {stateFile irqFile : Path}
    (hContent : stateFile.content = savedState m) (hThere : irqFile.isThere = true)
    (hIrqs : irqFile.content = savedIrqs m) : accepted stateFile irqFile = m.restored := by
  have hHolds := h.holds hContent
  obtain ⟨low, hLow, hMin⟩ := h.minPct
  obtain ⟨high, hHigh, hMax⟩ := h.maxPct
  obtain ⟨hMin, hMinText⟩ := percent_restored hLow hMin
  obtain ⟨hMax, hMaxText⟩ := percent_restored hHigh hMax
  have hGovernors : words (governorList m) = governorItems m := by
    rw [governorList_eq]
    exact words_flatMap h.governorItems_clean
  have hEntries : ∀ e ∈ governorItems m, IsGovernorEntry e := by
    intro e he
    obtain ⟨g, hg, rfl⟩ := List.mem_map.mp he
    obtain ⟨hc, hName⟩ := h.governors g hg
    exact ⟨g.1, g.2, by rw [List.append_assoc]; rfl, hc, hName⟩
  have hLines : irqLines irqFile = m.irqs.map fun i => i.1 ++ ascii " " ++ i.2 := by
    rw [irqLines, if_pos (.inl hThere), hIrqs]
    apply readLines_echoAll
    intro line hLine
    obtain ⟨i, hi, rfl⟩ := List.mem_map.mp hLine
    obtain ⟨hIrq, hAff⟩ := h.irqs i hi
    simp only [List.mem_append, not_or]
    exact ⟨⟨hIrq.clean.not_newline, by decide⟩, hAff.clean.not_newline⟩
  have hWords : ∀ i ∈ m.irqs, words (i.1 ++ ascii " " ++ i.2) = [i.1, i.2] := by
    intro i hi
    exact words_irqLine (h.irqs i hi).1 (h.irqs i hi).2
  have hIrqEntries : ∀ line ∈ irqLines irqFile, IsIrqEntry line := by
    rw [hLines]
    intro line hLine
    obtain ⟨i, hi, rfl⟩ := List.mem_map.mp hLine
    exact ⟨i.1, i.2, hWords i hi, (h.irqs i hi).1, (h.irqs i hi).2⟩
  have hIrqTexts : (irqLines irqFile).map (fun line => (ascii " ").intercalate (words line)) =
      m.irqs.map fun i => i.1 ++ ascii " " ++ i.2 := by
    rw [hLines, List.map_map]
    apply List.map_congr_left
    intro i hi
    simp only [Function.comp_apply, hWords i hi]
    simp [List.intercalate]
  -- a list whose entries all pass is kept whole, and nothing of it is rejected
  have hKeep : ∀ {P : Text → Prop} [DecidablePred P] {xs : List Text}, (∀ x ∈ xs, P x) →
      xs.filter P = xs ∧ (xs.filter fun x => ¬P x) = [] := by
    intro P _ xs hAll
    constructor
    · rw [List.filter_eq_self]
      simpa using hAll
    · rw [List.filter_eq_nil_iff]
      simpa using hAll
  classical
  simp only [accepted, hHolds.paranoid, hHolds.noTurbo, hHolds.minPct, hHolds.maxPct,
    hHolds.governors, hHolds.offlined, hHolds.mask, if_pos h.paranoid, if_pos h.noTurbo,
    if_pos hMin, if_pos hMax, if_pos h.mask, hMinText, hMaxText, hGovernors,
    words_siblingList h.siblings, (hKeep hEntries).1, (hKeep hEntries).2, (hKeep h.siblings).1,
    (hKeep h.siblings).2, (hKeep hIrqEntries).1, (hKeep hIrqEntries).2, hIrqTexts]
  rfl

end

/-- `load_saved_state` accepts exactly the grammar and reports the rest; the files that a setup
writes are read back as they were saved. -/
theorem loadSavedState_exact (uid : Nat) (stateDir stateFile irqFile : Path)
    (hTrusted : Trusted uid stateDir stateFile irqFile) :
    loadSavedState uid stateDir stateFile irqFile = .ok (accepted stateFile irqFile) ∧
      ∀ m : Machine, m.Valid → stateFile.content = savedState m → irqFile.isThere = true →
        irqFile.content = savedIrqs m →
          loadSavedState uid stateDir stateFile irqFile = .ok m.restored := by
  constructor
  · exact hTrusted.loadSavedState_eq
  · intro m hValid hContent hThere hIrqs
    rw [hTrusted.loadSavedState_eq, hValid.accepted_eq hContent hThere hIrqs]

/-- A laptop with one core and its sibling. -/
def oneCore : Machine where
  date := ascii "2026-10-30T15:55:52+00:00"
  paranoid := ascii "4"
  noTurbo := ascii "0"
  minPct := ascii "9"
  maxPct := ascii "100"
  governors := [(ascii "0", ascii "powersave"), (ascii "4", ascii "powersave")]
  siblings := [ascii "4"]
  defaultIrqMask := ascii "ff"
  irqs := [(ascii "9", ascii "0-7"), (ascii "148", ascii "0,2")]
  measure := ascii "0 1"
  selection := ascii "pinned"
  rationale := ascii "none"
  housekeeping := []
  script := ascii "bench_env.sh"
  scriptSha256 := ascii "00"
  moved := 0
  refused := 0
  residual := []

theorem oneCore_valid : oneCore.Valid where
  date := by decide +kernel
  paranoid := ⟨⟨52, rfl, .inl rfl⟩, 4, by decide +kernel, by decide, by decide⟩
  noTurbo := .inl rfl
  minPct := ⟨9, by decide, by decide +kernel⟩
  maxPct := ⟨100, by decide, by decide +kernel⟩
  governors := by unfold IsNumber IsGovernor; decide +kernel
  siblings := by unfold IsNumber; decide +kernel
  mask := by unfold IsMask; decide +kernel
  irqs := by
    have hNumbers : IsNumber 5 (ascii "9") ∧ IsNumber 5 (ascii "148") ∧ IsNumber 4 (ascii "0") ∧
        IsNumber 4 (ascii "7") ∧ IsNumber 4 (ascii "2") := by
      unfold IsNumber
      decide +kernel
    obtain ⟨h9, h148, h0, h7, h2⟩ := hNumbers
    have hRange : (ascii "0-7").splitOn 44 = [ascii "0-7"] := by decide +kernel
    have hList : (ascii "0,2").splitOn 44 = [ascii "0", ascii "2"] := by decide +kernel
    simp only [oneCore, List.forall_mem_cons, List.not_mem_nil, false_implies, implies_true,
      and_true, IsCpuList, hRange, hList]
    exact ⟨⟨h9, .inr ⟨_, _, rfl, h0, h7⟩⟩, h148, .inl h0, .inl h2⟩

/-- A path that only root can write. -/
def rootPath (name : String) (kind : Kind) (content : Text) : Path where
  name := ascii name
  owner := 0
  mode := 420
  kind := kind
  content := content

theorem requireTrusted_rootPath (name : String) (kind : Kind) (content : Text) :
    requireTrusted (rootPath name kind content) 0 = .ok () := by
  simp [requireTrusted, rootPath, pure, Except.pure]

theorem loadSavedState_exact_oneCore :
    let stateDir := rootPath "/run/matching-machine-bench" .directory []
    let stateFile := rootPath "/run/matching-machine-bench/state" .regular (savedState oneCore)
    let irqFile := rootPath "/run/matching-machine-bench/irq" .regular (savedIrqs oneCore)
    loadSavedState 0 stateDir stateFile irqFile = .ok (accepted stateFile irqFile) ∧
      loadSavedState 0 stateDir stateFile irqFile = .ok oneCore.restored := by
  intro stateDir stateFile irqFile
  have hTrusted : Trusted 0 stateDir stateFile irqFile :=
    ⟨requireTrusted_rootPath _ _ _, rfl, requireTrusted_rootPath _ _ _, rfl,
      fun _ => ⟨requireTrusted_rootPath _ _ _, rfl⟩⟩
  obtain ⟨hAccepted, hRestored⟩ := loadSavedState_exact 0 stateDir stateFile irqFile hTrusted
  exact ⟨hAccepted, hRestored oneCore oneCore_valid rfl rfl rfl⟩

end BenchEnv

end MatchingMachine
