import MatchingMachine.Model.LatencyReports

/-!
# The text of a latency report

The header and the lines of a report as words of the two expressions that read them: what the
header takes, why no header straddles the start of a report, and which percentiles are found in the
text up to a blank line.
-/

namespace MatchingMachine

namespace BenchRecord

open Regex LatencyRecorder

open Unicode hiding isSpace

/-! ## Characters and numbers -/

theorem isDigit_of_mem_digits {n : Nat} {c : Char} (h : c ∈ digits n) : c.isDigit = true :=
  Nat.isDigit_of_mem_toDigits (by decide) (by decide) h

theorem toNat_of_isDigit {c : Char} (h : c.isDigit = true) : 48 ≤ c.toNat ∧ c.toNat ≤ 57 := by
  simp only [Char.isDigit, Bool.and_eq_true, decide_eq_true_eq] at h
  exact h

theorem digits_ne_nil (n : Nat) : digits n ≠ [] := Nat.toDigits_ne_nil

variable [Unicode]

theorem isWord_of_ascii {c : Char} {b : Bool}
    (h : c.toNat < 128 ∧ (c.isAlphanum || c == '_') = b) : isWord c = b := by
  rw [isWord_ascii c h.1, h.2]

theorem isDecimal_of_ascii {c : Char} {b : Bool} (h : c.toNat < 128 ∧ c.isDigit = b) :
    isDecimal c = b := by
  rw [isDecimal_ascii c h.1, h.2]

theorem isDecimal_of_mem_digits {n : Nat} : ∀ c ∈ digits n, isDecimal c = true := by
  intro c hc
  have hDigit := isDigit_of_mem_digits hc
  have hRange := toNat_of_isDigit hDigit
  exact isDecimal_of_ascii ⟨by omega, hDigit⟩

theorem foldl_digit (text : Text) (h : ∀ c ∈ text, c.isDigit = true) (k : Nat) :
    text.foldl (fun n c => 10 * n + digit c) k = Nat.ofDigitChars 10 text k := by
  induction text generalizing k with
  | nil => rfl
  | cons c text ih =>
      rw [List.forall_mem_cons] at h
      rw [List.foldl_cons, ih h.2, digit_ascii c h.1, Nat.ofDigitChars_cons]

/-- What `int` makes of a printed value. -/
theorem int_digits (v : UInt64) : int (digits v.toNat) = .ok v.toNat := by
  have hLength : (digits v.toNat).length ≤ 20 := by
    apply Nat.toDigits_length 10 v.toNat 20 (by decide)
    have hBound := v.toNat_lt
    omega
  have hShort : ¬(maxStrDigits < (digits v.toNat).length) := by
    unfold maxStrDigits
    omega
  rw [int, if_neg hShort, foldl_digit _ fun c => isDigit_of_mem_digits, digits,
    Nat.ofDigitChars_ten_toDigits]
  rfl

/-! ## The header -/

/-- The line that a report begins with. -/
def title (r : Report) : Text :=
  "=== Latency Report".toList ++ ((": ".toList ++ r.quantity) ++ (" (".toList ++
    (digits r.count ++ (" samples".toList ++ (", TSC ticks".toList ++ ") ===\n".toList)))))

/-- Letters, digits, underscores and hyphens. -/
def IsQuantity (quantity : Text) : Prop := quantity ≠ [] ∧ ∀ c ∈ quantity, isQuantityChar c = true

theorem isQuantityChar_of_ascii {c : Char} {b : Bool}
    (h : c.toNat < 128 ∧ (c.isAlphanum || c == '_' || c == '-') = b) : isQuantityChar c = b := by
  rw [isQuantityChar, isWord_ascii c h.1, h.2]

theorem takes_title {r : Report} (h : IsQuantity r.quantity) (before t : Text) :
    Takes latencyHeader before (title r) [r.quantity] t := by
  have hQuantity : isQuantityChar ' ' = false := isQuantityChar_of_ascii (by decide)
  have hDecimal : isDecimal ' ' = false := isDecimal_of_ascii (by decide)
  apply (takes_literal _).then
  apply Takes.first
  · apply Takes.opt
    apply (takes_literal _).then
    exact (takes_many1 h.1 h.2 (by simp [hQuantity])).group
  · apply (takes_literal _).then
    apply (takes_many1 (digits_ne_nil _) isDecimal_of_mem_digits (by simp [hDecimal])).then
    apply (takes_literal _).then
    exact (takes_literal _).opt.then (takes_literal _)

theorem plain_latencyHeader : latencyHeader.Plain :=
  ⟨plain_literal _, plain_opt ⟨plain_literal _, plain_many1⟩, plain_literal _, plain_many1,
    plain_literal _, plain_opt (plain_literal _), plain_literal _⟩

/-- A header begins and ends with three equals signs, and has no others. -/
theorem exists_of_mem_latencyHeader {w : Text} (h : w ∈ latencyHeader.lang) :
    ∃ inner : Text, w = "===".toList ++ inner ++ "===\n".toList ∧ '=' ∉ inner ∧
      2 ≤ inner.length := by
  have hQuantity : isQuantityChar '=' = false := isQuantityChar_of_ascii (by decide)
  have hDecimal : isDecimal '=' = false := isDecimal_of_ascii (by decide)
  obtain ⟨a, ha, w₁, h₁, rfl⟩ := Language.mem_mul.mp h
  obtain ⟨q, hq, w₂, h₂, rfl⟩ := Language.mem_mul.mp h₁
  obtain ⟨b, hb, w₃, h₃, rfl⟩ := Language.mem_mul.mp h₂
  obtain ⟨n, hn, w₄, h₄, rfl⟩ := Language.mem_mul.mp h₃
  obtain ⟨c, hc, w₅, h₅, rfl⟩ := Language.mem_mul.mp h₄
  obtain ⟨d, hd, e, he, rfl⟩ := Language.mem_mul.mp h₅
  rw [mem_lang_literal] at ha hb hc he
  rw [mem_lang_opt, mem_lang_literal] at hd
  have hq' : '=' ∉ q := by
    rcases hq with hq | rfl
    · obtain ⟨u, hu, v, hv, rfl⟩ := Language.mem_mul.mp hq
      rw [mem_lang_literal] at hu
      obtain ⟨-, hAll⟩ := mem_lang_many1.mp hv
      intro hMem
      rcases List.mem_append.mp hMem with hMem | hMem
      · simp [hu] at hMem
      · rw [hAll _ hMem] at hQuantity
        cases hQuantity
    · simp
  have hn' : '=' ∉ n := fun hMem => by
    rw [(mem_lang_many1.mp hn).2 _ hMem] at hDecimal
    cases hDecimal
  have hd' : '=' ∉ d := by
    rcases hd with rfl | rfl <;> simp
  refine ⟨" Latency Report".toList ++ q ++ b ++ n ++ c ++ d ++ ") ".toList, ?_, ?_, by simp⟩
  · subst ha he
    simp
  · subst hb hc
    simp [hq', hn', hd']

/-- No header reaches from the text before a report into the report. -/
theorem not_across {a b d t : Text} (h : a ++ b ∈ latencyHeader.lang) (ha : a ≠ []) (hb : b ≠ []) :
    b ++ d ≠ "=== ".toList ++ t := by
  intro hEq
  obtain ⟨inner, hWord, hInner, hLength⟩ := exists_of_mem_latencyHeader h
  have hText : "===".toList ++ inner ++ "===\n".toList ++ d = a ++ ("=== ".toList ++ t) := by
    rw [← hWord, List.append_assoc, hEq]
  have hLengths : a.length + b.length = 7 + inner.length := by
    rw [← List.length_append, hWord]
    simp
    omega
  have hPosA := List.length_pos_iff.mpr ha
  have hPosB := List.length_pos_iff.mpr hb
  -- Where the text has equals signs, from both sides.
  have hRight : ∀ j, ("===".toList ++ inner ++ "===\n".toList ++ d)[a.length + j]? =
      ("=== ".toList ++ t)[j]? := fun j => by
    rw [hText, List.getElem?_append_right (by omega), Nat.add_sub_cancel_left]
  have hInside : ∀ i, i < inner.length →
      ("===".toList ++ inner ++ "===\n".toList ++ d)[3 + i]? ≠ some '=' := fun i hi hGet => by
    rw [List.append_assoc, List.append_assoc, List.getElem?_append_right (by simp),
      List.getElem?_append_left (by simpa using hi)] at hGet
    exact hInner (List.mem_of_getElem? hGet)
  have hEnd : ("===".toList ++ inner ++ "===\n".toList ++ d)[6 + inner.length]? = some '\n' := by
    have hThree : ("===".toList ++ inner).length = 3 + inner.length := by
      simp
      omega
    have hSub : 6 + inner.length - (3 + inner.length) = 3 := by omega
    rw [List.append_assoc, List.getElem?_append_right (by omega), hThree, hSub]
    rfl
  by_cases hStart : a.length ≤ 2
  · apply hInside (a.length - 1) (by omega)
    rw [show 3 + (a.length - 1) = a.length + 2 by omega, hRight]
    rfl
  · by_cases hMiddle : a.length < 3 + inner.length
    · apply hInside (a.length - 3) (by omega)
      rw [show 3 + (a.length - 3) = a.length + 0 by omega, hRight]
      rfl
    · obtain ⟨j, hj, hLast⟩ : ∃ j < 4, 6 + inner.length = a.length + j :=
        ⟨6 + inner.length - a.length, by omega, by omega⟩
      rw [hLast, hRight] at hEnd
      interval_cases j <;> simp at hEnd

/-! ## The lines of a report -/

omit [Unicode] in
/-- What `report` prints of samples is the text of a report. -/
theorem report_eq_text (index : ℚ → Nat → Nat) (quantity : Text) {samples : List UInt64}
    (h : samples ≠ []) : report index quantity samples = (reported index quantity samples).text := by
  rw [report, if_neg (by simpa using h)]

/-- A line: its label, the blanks after that, and the value. -/
structure Line where
  label : Text
  blanks : Nat
  value : UInt64

def Line.text (l : Line) : Text :=
  l.label ++ (List.replicate l.blanks ' ' ++ (":".toList ++
    (List.replicate (1 + (6 - (digits l.value.toNat).length)) ' ' ++
      (digits l.value.toNat ++ (" ".toList ++ ("ticks".toList ++ []))))))

/-- The captured groups, last one first. -/
def Line.groups (l : Line) : List Text := [digits l.value.toNat, l.label]

structure Line.Readable (l : Line) : Prop where
  label_ne_nil : l.label ≠ []
  label_ascii : ∀ c ∈ l.label, c.toNat < 128 ∧ (c.isAlphanum || c == '_') = true

def lines (r : Report) : List Line :=
  [⟨"P50".toList, 2, r.p50⟩, ⟨"P95".toList, 2, r.p95⟩, ⟨"P99".toList, 2, r.p99⟩,
    ⟨"P999".toList, 1, r.p999⟩, ⟨"Max".toList, 2, r.pmax⟩]

omit [Unicode] in
theorem line_eq (head : String) (label : Text) (blanks : Nat)
    (h : head.toList = label ++ (List.replicate blanks ' ' ++ ": ".toList)) (v : UInt64) :
    line head v = Line.text ⟨label, blanks, v⟩ ++ ['\n'] := by
  simp [line, h, Line.text, padded, List.leftpad, List.replicate_add]

omit [Unicode] in
theorem flatMap_lines (r : Report) :
    ((lines r).flatMap fun l => l.text ++ ['\n']) =
      line "P50  : " r.p50 ++ line "P95  : " r.p95 ++ line "P99  : " r.p99 ++
        line "P999 : " r.p999 ++ line "Max  : " r.pmax := by
  have h50 := line_eq "P50  : " "P50".toList 2 (by decide +kernel) r.p50
  have h95 := line_eq "P95  : " "P95".toList 2 (by decide +kernel) r.p95
  have h99 := line_eq "P99  : " "P99".toList 2 (by decide +kernel) r.p99
  have h999 := line_eq "P999 : " "P999".toList 1 (by decide +kernel) r.p999
  have hMax := line_eq "Max  : " "Max".toList 2 (by decide +kernel) r.pmax
  rw [h50, h95, h99, h999, hMax]
  simp only [lines, List.flatMap_cons, List.flatMap_nil, List.append_nil, List.append_assoc]

omit [Unicode] in
theorem text_eq (r : Report) :
    r.text = title r ++ (lines r).flatMap fun l => l.text ++ ['\n'] := by
  have hTitle : "=== Latency Report: ".toList = "=== Latency Report".toList ++ ": ".toList := by
    decide +kernel
  have hCount : " samples, TSC ticks) ===\n".toList =
      " samples".toList ++ (", TSC ticks".toList ++ ") ===\n".toList) := by
    decide +kernel
  rw [flatMap_lines]
  unfold Report.text title
  rw [hTitle, hCount]
  generalize line "P50  : " r.p50 ++ line "P95  : " r.p95 ++ line "P99  : " r.p99 ++
    line "P999 : " r.p999 ++ line "Max  : " r.pmax = body
  simp only [List.append_assoc]

omit [Unicode] in
theorem readable_mk {label : Text}
    (h : label ≠ [] ∧ ∀ c ∈ label, c.toNat < 128 ∧ (c.isAlphanum || c == '_') = true)
    (blanks : Nat) (v : UInt64) : Line.Readable ⟨label, blanks, v⟩ :=
  ⟨h.1, h.2⟩

omit [Unicode] in
theorem readable_of_mem_lines {r : Report} : ∀ l ∈ lines r, l.Readable := by
  intro l hl
  simp only [lines, List.mem_cons, List.not_mem_nil, or_false] at hl
  rcases hl with rfl | rfl | rfl | rfl | rfl <;> exact readable_mk (by simp) _ _

theorem isSpace_of_isDigit' {c : Char} (h : c.isDigit = true) : Unicode.isSpace c = false := by
  have hRange := toNat_of_isDigit h
  have hBlank : c ≠ ' ' := by
    rintro rfl
    revert hRange
    decide
  rw [isSpace_ascii c (by omega)]
  simp [hBlank]
  omega

theorem takes_line {l : Line} (hLine : l.Readable) {before t : Text}
    (hBefore : lineStart before.head? none = true) (ht : t.head?.any isWord = false) :
    Takes percentilePattern before l.text l.groups t := by
  have hWord : isWord ' ' = false := isWord_of_ascii (by decide)
  have hColon : isWord ':' = false := isWord_of_ascii (by decide)
  have hDecimal : isDecimal ' ' = false := isDecimal_of_ascii (by decide)
  have hBlank : Unicode.isSpace ' ' = true := isSpace_ascii ' ' (by decide)
  have hBlank' : Unicode.isSpace ':' = false := isSpace_ascii ':' (by decide)
  have hLetter : isWord 's' = true := isWord_of_ascii (by decide)
  change Takes percentilePattern before l.text ([digits l.value.toNat] ++ [l.label]) t
  apply (takes_assert hBefore).then (u := [])
  apply Takes.seq
  · apply Takes.group
    apply takes_many1 hLine.label_ne_nil fun c hc => isWord_of_ascii (hLine.label_ascii c hc)
    cases l.blanks <;> simp [hWord, hColon, List.replicate_succ]
  apply (takes_star_char (by simp [hBlank]) (by simp [hBlank'])).then
  apply (takes_literal _).then
  apply Takes.then
  · apply takes_star_char (by simp [hBlank])
    obtain ⟨d, ds, hDigits⟩ := List.exists_cons_of_ne_nil (digits_ne_nil l.value.toNat)
    have hDigit : d.isDigit = true := isDigit_of_mem_digits (by rw [hDigits]; simp)
    simp [hDigits, isSpace_of_isDigit' hDigit]
  apply Takes.first
  · exact (takes_many1 (digits_ne_nil _) isDecimal_of_mem_digits (by simp [hDecimal])).group
  apply (takes_literal _).then
  apply (takes_literal _).alt_left.then
  apply takes_assert
  simp [wordBoundary, hLetter, ht]

/-! ## The lines up to a blank one -/

section BlankLines

omit [Unicode]

theorem beforeBlankLine_cons {c : Char} {cs : Text} (h : c ≠ '\n' ∨ cs.head? ≠ some '\n') :
    beforeBlankLine (c :: cs) = c :: beforeBlankLine cs := by
  rw [beforeBlankLine]
  rintro tail rfl rfl
  simp at h

theorem beforeBlankLine_append {u : Text} (h : '\n' ∉ u) (t : Text) :
    beforeBlankLine (u ++ t) = u ++ beforeBlankLine t := by
  induction u with
  | nil => rfl
  | cons c u ih =>
      rw [List.mem_cons, not_or] at h
      rw [List.cons_append, beforeBlankLine_cons (.inl (Ne.symm h.1)), ih h.2, List.cons_append]

/-- What is cut off begins in front of a newline. -/
theorem beforeBlankLine_newline (t : Text) :
    beforeBlankLine ('\n' :: t) = [] ∨ beforeBlankLine ('\n' :: t) = '\n' :: beforeBlankLine t := by
  by_cases h : t.head? = some '\n'
  · obtain ⟨cs, rfl⟩ := List.head?_eq_some_iff.mp h
    exact .inl rfl
  · exact .inr (beforeBlankLine_cons (.inr h))

theorem newline_not_mem_text {l : Line} (h : l.Readable) : '\n' ∉ l.text := by
  have hLabel : '\n' ∉ l.label := fun hMem => by simpa using h.label_ascii _ hMem
  have hDigits : '\n' ∉ digits l.value.toNat := fun hMem => by
    simpa using isDigit_of_mem_digits hMem
  simp [Line.text, hLabel, hDigits]

theorem text_eq_cons {l : Line} (hLine : l.Readable) : ∃ c cs, l.text = c :: cs ∧ c ≠ '\n' := by
  obtain ⟨c, cs, hLabel⟩ := List.exists_cons_of_ne_nil hLine.label_ne_nil
  refine ⟨c, _, by rw [Line.text, hLabel]; rfl, ?_⟩
  rintro rfl
  apply newline_not_mem_text hLine
  simp [Line.text, hLabel]

/-- A line, and what follows it up to a blank line. -/
theorem beforeBlankLine_line {l : Line} (hLine : l.Readable) (t : Text) :
    beforeBlankLine (l.text ++ ['\n'] ++ t) = l.text ++ beforeBlankLine ('\n' :: t) := by
  rw [List.append_assoc, beforeBlankLine_append (newline_not_mem_text hLine)]
  rfl

end BlankLines

/-- After a report that `y` follows, no percentile is found up to the first blank line. -/
def NoPercentiles (y : Text) : Prop :=
  search percentilePattern [] (beforeBlankLine ('\n' :: y)) = none

/-- A percentile begins with a word. -/
theorem run_percentilePattern_eq_nil {m : Place Char} (h : ∀ c ∈ m.rest.head?, isWord c = false) :
    percentilePattern.run m = [] := by
  have hChar : (char isWord).run m = [] := by
    cases hRest : m.rest with
    | nil => simp [run, hRest]
    | cons c cs => simp [run, hRest, h c (by simp [hRest])]
  rw [percentilePattern, run]
  apply List.flatMap_eq_nil_iff.mpr
  intro m' hm'
  obtain rfl : m' = m := by
    simp only [run] at hm'
    split at hm'
    case isTrue => exact List.mem_singleton.mp hm'
    case isFalse => cases hm'
  simp only [run, many1] at hChar ⊢
  simp [hChar]

theorem passed_newline (t : Text) : Passed percentilePattern ['\n'] t := by
  intro before p c q h
  obtain ⟨rfl, rfl, rfl⟩ : p = [] ∧ c = '\n' ∧ q = [] := by
    cases p with
    | nil => simpa [eq_comm] using h
    | cons d p => simp at h
  apply run_percentilePattern_eq_nil
  simp [isWord_of_ascii (c := '\n') (b := false) (by decide)]

theorem search_of_noPercentiles {y : Text} (h : NoPercentiles y) (before : Text) :
    search percentilePattern before (beforeBlankLine ('\n' :: y)) = none := by
  have hSkip : ∀ before, search percentilePattern before ('\n' :: beforeBlankLine y) =
      (search percentilePattern ('\n' :: before) (beforeBlankLine y)).map
        fun found => ('\n' :: found.1, found.2) := fun before =>
    search_append (passed_newline (beforeBlankLine y) before)
  unfold NoPercentiles at h
  rcases beforeBlankLine_newline y with hCut | hCut
  · rw [hCut, search, run_percentilePattern_eq_nil (by simp)]
    rfl
  · rw [hCut, hSkip, Option.map_eq_none_iff] at h ⊢
    have hHead : ['\n'].head? = ('\n' :: before).head? := rfl
    exact search_eq_none_of_alike hHead h

theorem head?_beforeBlankLine_newline (t : Text) :
    (beforeBlankLine ('\n' :: t)).head?.any isWord = false := by
  have hWord : isWord '\n' = false := isWord_of_ascii (by decide)
  rcases beforeBlankLine_newline t with hCut | hCut <;> simp [hCut, hWord]

theorem findAllFrom_lines {ls : List Line} (hLines : ∀ l ∈ ls, l.Readable) {y : Text}
    (hy : NoPercentiles y) {n : Nat} {before : Text}
    (hn : (beforeBlankLine ('\n' :: ((ls.flatMap fun l => l.text ++ ['\n']) ++ y))).length ≤ n) :
    findAllFrom percentilePattern n before
        (beforeBlankLine ('\n' :: ((ls.flatMap fun l => l.text ++ ['\n']) ++ y))) =
      ls.map Line.groups := by
  induction ls generalizing n before with
  | nil =>
      cases n with
      | zero => rfl
      | succ n => simp [findAllFrom, search_of_noPercentiles hy]
  | cons l ls ih =>
      rw [List.forall_mem_cons] at hLines
      have hCut : beforeBlankLine ('\n' :: (((l :: ls).flatMap fun l => l.text ++ ['\n']) ++ y)) =
          ['\n'] ++ (l.text ++ beforeBlankLine
            ('\n' :: ((ls.flatMap fun l => l.text ++ ['\n']) ++ y))) := by
        rw [beforeBlankLine_cons, List.flatMap_cons, List.append_assoc,
          beforeBlankLine_line hLines.1]
        · rfl
        · obtain ⟨c, cs, hText, hc⟩ := text_eq_cons hLines.1
          simp [hText, hc]
      rw [hCut] at hn ⊢
      obtain ⟨n, rfl⟩ : ∃ k, n = k + 1 := ⟨n - 1, by simp at hn; omega⟩
      rw [findAllFrom_append (passed_newline _)
        (takes_line hLines.1 rfl (head?_beforeBlankLine_newline _)), ih hLines.2]
      · rfl
      · simp only [List.length_append, List.length_singleton] at hn
        omega

/-- The lines of a report are found, whatever follows the blank line after it. -/
theorem findAll_lines {ls : List Line} (hLines : ∀ l ∈ ls, l.Readable) (hNe : ls ≠ []) {y : Text}
    (hy : NoPercentiles y) :
    findAll percentilePattern (beforeBlankLine ((ls.flatMap fun l => l.text ++ ['\n']) ++ y)) =
      ls.map Line.groups := by
  obtain ⟨l, ls, rfl⟩ := List.exists_cons_of_ne_nil hNe
  rw [List.forall_mem_cons] at hLines
  rw [List.flatMap_cons, List.append_assoc, beforeBlankLine_line hLines.1, findAll]
  obtain ⟨c, cs, hText, -⟩ := text_eq_cons hLines.1
  obtain ⟨n, hn⟩ : ∃ n, (l.text ++ beforeBlankLine
      ('\n' :: ((ls.flatMap fun l => l.text ++ ['\n']) ++ y))).length = n + 1 := by
    rw [hText]
    exact ⟨_, rfl⟩
  have hTakes : Takes percentilePattern [] l.text l.groups _ := takes_line hLines.1 rfl
    (head?_beforeBlankLine_newline ((ls.flatMap fun l => l.text ++ ['\n']) ++ y))
  have hFirst := findAllFrom_append (n := n) passed_nil hTakes
  rw [List.nil_append] at hFirst
  rw [hn, hFirst, findAllFrom_lines hLines.2 hy]
  · rfl
  · rw [List.length_append, hText, List.length_cons] at hn
    omega

end BenchRecord

end MatchingMachine
