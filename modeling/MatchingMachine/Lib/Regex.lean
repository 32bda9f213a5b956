import Mathlib.Computability.Language

/-!
# Regular expressions, matched by backtracking

Expressions over an arbitrary alphabet with character classes, greedy repetition, groups and
assertions.  `run` lists the ways to match from a place on, preferred ones first.  `lang` is what an
expression means: `run_sound` and `run_complete` say that `run` finds exactly the words in it.
-/

inductive Regex (α : Type) where
  | empty
  | char (p : α → Bool)
  | seq (r s : Regex α)
  /-- `r|s`, preferring `r`. -/
  | alt (r s : Regex α)
  /-- `r*`, as often as possible. -/
  | star (r : Regex α)
  | group (r : Regex α)
  /-- A condition on the characters before and after a place. -/
  | assert (p : Option α → Option α → Bool)

namespace Regex

variable {α : Type}

/-- A place in a text: what is before it, last character first, what is after it, and what the
groups matched so far, last one first. -/
structure Place (α : Type) where
  before : List α := []
  rest : List α
  groups : List (List α) := []

/-- The place after `word`. -/
def Place.after (m : Place α) (word : List α) : Place α :=
  { m with before := word.reverse ++ m.before, rest := m.rest.drop word.length }

/-- `f` again and again, at most `n` times, never without progress. -/
def repeated (f : Place α → List (Place α)) : Nat → Place α → List (Place α)
  | 0, m => [m]
  | n + 1, m =>
      ((f m).filter fun m' => m'.rest.length < m.rest.length).flatMap (repeated f n) ++ [m]

def run : Regex α → Place α → List (Place α)
  | empty, m => [m]
  | char p, m =>
      match m.rest with
      | [] => []
      | c :: _ => if p c then [m.after [c]] else []
  | seq r s, m => (run r m).flatMap (run s)
  | alt r s, m => run r m ++ run s m
  | star r, m => repeated (run r) m.rest.length m
  | group r, m => (run r m).map fun m' =>
      { m' with groups := m.rest.take (m.rest.length - m'.rest.length) :: m'.groups }
  | assert p, m => if p m.before.head? m.rest.head? then [m] else []

/-- The whole of a text matches. -/
def fullMatch (r : Regex α) (text : List α) : Bool :=
  (r.run { rest := text }).any fun m => m.rest.isEmpty

/-! ## Common expressions -/

def literal [DecidableEq α] : List α → Regex α
  | [] => empty
  | c :: cs => seq (char fun c' => c' = c) (literal cs)

/-- `r?` -/
def opt (r : Regex α) : Regex α := alt r empty

/-- `p+` -/
def many1 (p : α → Bool) : Regex α := seq (char p) (star (char p))

def exactly (p : α → Bool) : Nat → Regex α
  | 0 => empty
  | n + 1 => seq (char p) (exactly p n)

def upTo (p : α → Bool) : Nat → Regex α
  | 0 => empty
  | n + 1 => opt (seq (char p) (upTo p n))

/-- `p{low,high}` -/
def between (p : α → Bool) (low high : Nat) : Regex α := seq (exactly p low) (upTo p (high - low))

/-- `r(,r)*` for a separator. -/
def sepBy [DecidableEq α] (sep : α) (r : Regex α) : Regex α :=
  seq r (star (seq (char fun c => c = sep) r))

/-! ## Meaning -/

/-- The words that an expression matches, if its assertions hold. -/
def lang : Regex α → Language α
  | empty => 1
  | char p => {w | ∃ c, p c = true ∧ w = [c]}
  | seq r s => lang r * lang s
  | alt r s => lang r + lang s
  | star r => KStar.kstar (lang r)
  | group r => lang r
  | assert _ => 1

/-- Without assertions. -/
def Plain : Regex α → Prop
  | empty | char _ => True
  | seq r s | alt r s => Plain r ∧ Plain s
  | star r | group r => Plain r
  | assert _ => False

/-- One place follows from another by reading a word. -/
def Reads (m : Place α) (w : List α) (m' : Place α) : Prop :=
  m.rest = w ++ m'.rest ∧ m'.before = w.reverse ++ m.before

theorem Reads.refl (m : Place α) : Reads m [] m := ⟨rfl, rfl⟩

theorem Reads.trans {m m' m'' : Place α} {u v : List α} (h : Reads m u m') (h' : Reads m' v m'') :
    Reads m (u ++ v) m'' := by
  constructor
  · rw [h.1, h'.1, List.append_assoc]
  · rw [h'.2, h.2, List.reverse_append, List.append_assoc]

theorem reads_after {m : Place α} {w t : List α} (h : m.rest = w ++ t) : Reads m w (m.after w) := by
  constructor
  · simp [Place.after, h]
  · rfl

theorem repeated_sound {f : Place α → List (Place α)} {L : Language α}
    (hf : ∀ m, ∀ m' ∈ f m, ∃ w ∈ L, Reads m w m') (n : Nat) (m : Place α) :
    ∀ m' ∈ repeated f n m, ∃ w ∈ KStar.kstar L, Reads m w m' := by
  induction n generalizing m with
  | zero =>
      intro m' hm'
      obtain rfl := List.mem_singleton.mp hm'
      exact ⟨[], Language.nil_mem_kstar L, Reads.refl m'⟩
  | succ n ih =>
      intro m' hm'
      rcases List.mem_append.mp hm' with hm' | hm'
      · obtain ⟨m₁, hm₁, hm'⟩ := List.mem_flatMap.mp hm'
        obtain ⟨u, hu, hReads⟩ := hf m m₁ (List.mem_filter.mp hm₁).1
        obtain ⟨v, hv, hReads'⟩ := ih m₁ m' hm'
        refine ⟨u ++ v, ?_, hReads.trans hReads'⟩
        rw [← Language.one_add_self_mul_kstar_eq_kstar]
        exact .inr (Language.append_mem_mul hu hv)
      · obtain rfl := List.mem_singleton.mp hm'
        exact ⟨[], Language.nil_mem_kstar L, Reads.refl m'⟩

/-- What `run` finds is a word of the language. -/
theorem run_sound (r : Regex α) (m : Place α) : ∀ m' ∈ r.run m, ∃ w ∈ r.lang, Reads m w m' := by
  induction r generalizing m with
  | empty =>
      intro m' hm'
      obtain rfl := List.mem_singleton.mp hm'
      exact ⟨[], rfl, Reads.refl m'⟩
  | char p =>
      intro m' hm'
      simp only [run] at hm'
      split at hm'
      case h_1 => cases hm'
      case h_2 c cs hRest =>
        split at hm'
        case isTrue hp =>
          obtain rfl := List.mem_singleton.mp hm'
          exact ⟨[c], ⟨c, hp, rfl⟩, reads_after (t := cs) hRest⟩
        case isFalse => cases hm'
  | seq r s ihr ihs =>
      intro m' hm'
      obtain ⟨m₁, hm₁, hm'⟩ := List.mem_flatMap.mp hm'
      obtain ⟨u, hu, hReads⟩ := ihr m m₁ hm₁
      obtain ⟨v, hv, hReads'⟩ := ihs m₁ m' hm'
      exact ⟨u ++ v, Language.append_mem_mul hu hv, hReads.trans hReads'⟩
  | alt r s ihr ihs =>
      intro m' hm'
      rcases List.mem_append.mp hm' with hm' | hm'
      · obtain ⟨w, hw, hReads⟩ := ihr m m' hm'
        exact ⟨w, .inl hw, hReads⟩
      · obtain ⟨w, hw, hReads⟩ := ihs m m' hm'
        exact ⟨w, .inr hw, hReads⟩
  -- what remains of the text bounds the number of repetitions
  | star r ih => exact repeated_sound ih m.rest.length m
  | group r ih =>
      intro m' hm'
      obtain ⟨m₁, hm₁, rfl⟩ := List.mem_map.mp hm'
      exact ih m m₁ hm₁
  | assert p =>
      intro m' hm'
      simp only [run] at hm'
      split at hm'
      case isTrue =>
        obtain rfl := List.mem_singleton.mp hm'
        exact ⟨[], rfl, Reads.refl m'⟩
      case isFalse => cases hm'

/-- Words that are read piece by piece are found, however often a piece is read. -/
theorem repeated_complete {f : Place α → List (Place α)} {L : Language α}
    (hf : ∀ m, ∀ w ∈ L, ∀ t, m.rest = w ++ t → ∃ m' ∈ f m, m'.rest = t) (pieces : List (List α))
    (n : Nat) (m : Place α) (hPieces : ∀ w ∈ pieces, w ∈ L ∧ w ≠ []) (t : List α)
    (hRest : m.rest = pieces.flatten ++ t) (hn : pieces.flatten.length ≤ n) :
    ∃ m' ∈ repeated f n m, m'.rest = t := by
  induction pieces generalizing n m with
  | nil =>
      refine ⟨m, ?_, hRest⟩
      cases n <;> simp [repeated]
  | cons w pieces ih =>
      obtain ⟨hw, hNe⟩ := hPieces w List.mem_cons_self
      have hPos : 0 < w.length := List.length_pos_iff.mpr hNe
      rw [List.flatten_cons, List.length_append] at hn
      rw [List.flatten_cons, List.append_assoc] at hRest
      obtain ⟨n, rfl⟩ : ∃ k, n = k + 1 := ⟨n - 1, by omega⟩
      obtain ⟨m₁, hm₁, hRest₁⟩ := hf m w hw _ hRest
      obtain ⟨m', hm', hRest'⟩ := ih n m₁ (fun v hv => hPieces v (List.mem_cons_of_mem _ hv))
        hRest₁ (by omega)
      refine ⟨m', ?_, hRest'⟩
      apply List.mem_append_left
      refine List.mem_flatMap.mpr ⟨m₁, List.mem_filter.mpr ⟨hm₁, ?_⟩, hm'⟩
      simp only [hRest, hRest₁, List.length_append, decide_eq_true_eq]
      omega

/-- A word of the language is found. -/
theorem run_complete {r : Regex α} (hr : r.Plain) (m : Place α) :
    ∀ w ∈ r.lang, ∀ t, m.rest = w ++ t → ∃ m' ∈ r.run m, m'.rest = t := by
  induction r generalizing m with
  | empty =>
      rintro w rfl t hRest
      exact ⟨m, List.mem_singleton_self m, hRest⟩
  | char p =>
      rintro w ⟨c, hp, rfl⟩ t hRest
      refine ⟨m.after [c], ?_, by simp [Place.after, hRest]⟩
      simp [run, hRest, hp]
  | seq r s ihr ihs =>
      intro w hw t hRest
      obtain ⟨u, hu, v, hv, rfl⟩ := Language.mem_mul.mp hw
      rw [List.append_assoc] at hRest
      obtain ⟨m₁, hm₁, hRest₁⟩ := ihr hr.1 m u hu _ hRest
      obtain ⟨m', hm', hRest'⟩ := ihs hr.2 m₁ v hv t hRest₁
      exact ⟨m', List.mem_flatMap.mpr ⟨m₁, hm₁, hm'⟩, hRest'⟩
  | alt r s ihr ihs =>
      rintro w (hw | hw) t hRest
      · obtain ⟨m', hm', hRest'⟩ := ihr hr.1 m w hw t hRest
        exact ⟨m', List.mem_append_left _ hm', hRest'⟩
      · obtain ⟨m', hm', hRest'⟩ := ihs hr.2 m w hw t hRest
        exact ⟨m', List.mem_append_right _ hm', hRest'⟩
  | star r ih =>
      intro w hw t hRest
      obtain ⟨pieces, rfl, hPieces⟩ := Language.mem_kstar_iff_exists_nonempty.mp hw
      exact repeated_complete (ih hr) pieces _ m hPieces t hRest (by simp [hRest])
  | group r ih =>
      intro w hw t hRest
      obtain ⟨m', hm', hRest'⟩ := ih hr m w hw t hRest
      exact ⟨_, List.mem_map.mpr ⟨m', hm', rfl⟩, hRest'⟩
  | assert p => exact hr.elim

theorem fullMatch_iff {r : Regex α} (hr : r.Plain) (text : List α) :
    r.fullMatch text = true ↔ text ∈ r.lang := by
  unfold fullMatch
  rw [List.any_eq_true]
  constructor
  · rintro ⟨m', hm', hEnd⟩
    obtain ⟨w, hw, hReads⟩ := run_sound r _ m' hm'
    have hRest : m'.rest = [] := List.isEmpty_iff.mp hEnd
    have hText : text = w ++ m'.rest := hReads.1
    rw [hText, hRest, List.append_nil]
    exact hw
  · intro h
    obtain ⟨m', hm', hRest⟩ := run_complete hr { rest := text } text h [] (by simp)
    exact ⟨m', hm', by simp [hRest]⟩

/-! ## The meaning of the common expressions -/

variable {p : α → Bool} {w : List α}

theorem mem_lang_opt {r : Regex α} : w ∈ (opt r).lang ↔ w ∈ r.lang ∨ w = [] := Iff.rfl

theorem plain_opt {r : Regex α} (h : r.Plain) : (opt r).Plain := ⟨h, trivial⟩

section

variable [DecidableEq α]

theorem mem_lang_literal {text : List α} : w ∈ (literal text).lang ↔ w = text := by
  induction text generalizing w with
  | nil => exact Iff.rfl
  | cons c cs ih =>
      constructor
      · intro h
        obtain ⟨u, ⟨c', hc, rfl⟩, v, hv, rfl⟩ := Language.mem_mul.mp h
        obtain rfl : c' = c := by simpa using hc
        rw [ih.mp hv]
        rfl
      · rintro rfl
        exact Language.append_mem_mul (a := [c]) ⟨c, by simp, rfl⟩ (ih.mpr rfl)

theorem plain_literal (text : List α) : (literal text).Plain := by
  induction text with
  | nil => trivial
  | cons c cs ih => exact ⟨trivial, ih⟩

end

theorem mem_lang_star_char : w ∈ (star (char p)).lang ↔ ∀ c ∈ w, p c = true := by
  constructor
  · intro h
    obtain ⟨pieces, rfl, hPieces⟩ := Language.mem_kstar.mp h
    intro c hc
    obtain ⟨piece, hPiece, hc⟩ := List.mem_flatten.mp hc
    obtain ⟨c', hp, rfl⟩ := hPieces piece hPiece
    rwa [List.mem_singleton.mp hc]
  · intro h
    have hFlatten : (w.map fun c => [c]).flatten = w := by
      rw [← List.flatMap_def, List.flatMap_singleton']
    refine Language.mem_kstar.mpr ⟨w.map fun c => [c], hFlatten.symm, ?_⟩
    intro piece hPiece
    obtain ⟨c, hc, rfl⟩ := List.mem_map.mp hPiece
    exact ⟨c, h c hc, rfl⟩

theorem mem_lang_many1 : w ∈ (many1 p).lang ↔ w ≠ [] ∧ ∀ c ∈ w, p c = true := by
  constructor
  · intro h
    obtain ⟨u, ⟨c, hp, rfl⟩, v, hv, rfl⟩ := Language.mem_mul.mp h
    have hAll := mem_lang_star_char.mp hv
    simp [hp]
    exact hAll
  · rintro ⟨hNe, hAll⟩
    obtain ⟨c, cs, rfl⟩ := List.exists_cons_of_ne_nil hNe
    rw [List.forall_mem_cons] at hAll
    exact Language.append_mem_mul (a := [c]) ⟨c, hAll.1, rfl⟩ (mem_lang_star_char.mpr hAll.2)

theorem plain_many1 : (many1 p).Plain := ⟨trivial, trivial⟩

theorem mem_lang_exactly {n : Nat} :
    w ∈ (exactly p n).lang ↔ w.length = n ∧ ∀ c ∈ w, p c = true := by
  induction n generalizing w with
  | zero =>
      rw [List.length_eq_zero_iff]
      constructor
      · rintro rfl
        simp
      · rintro ⟨rfl, -⟩
        rfl
  | succ n ih =>
      constructor
      · intro h
        obtain ⟨u, ⟨c, hp, rfl⟩, v, hv, rfl⟩ := Language.mem_mul.mp h
        obtain ⟨hLength, hAll⟩ := ih.mp hv
        simp [hLength, hp]
        exact hAll
      · rintro ⟨hLength, hAll⟩
        obtain ⟨c, cs, rfl⟩ := List.exists_cons_of_length_eq_add_one hLength
        rw [List.forall_mem_cons] at hAll
        exact Language.append_mem_mul (a := [c]) ⟨c, hAll.1, rfl⟩
          (ih.mpr ⟨by simpa using hLength, hAll.2⟩)

theorem mem_lang_upTo {n : Nat} : w ∈ (upTo p n).lang ↔ w.length ≤ n ∧ ∀ c ∈ w, p c = true := by
  induction n generalizing w with
  | zero =>
      rw [Nat.le_zero, List.length_eq_zero_iff]
      constructor
      · rintro rfl
        simp
      · rintro ⟨rfl, -⟩
        rfl
  | succ n ih =>
      rw [upTo, mem_lang_opt]
      constructor
      · rintro (h | rfl)
        · obtain ⟨u, ⟨c, hp, rfl⟩, v, hv, rfl⟩ := Language.mem_mul.mp h
          obtain ⟨hLength, hAll⟩ := ih.mp hv
          simp [hLength, hp]
          exact hAll
        · simp
      · rintro ⟨hLength, hAll⟩
        rcases w with _ | ⟨c, cs⟩
        · exact .inr rfl
        · rw [List.forall_mem_cons] at hAll
          exact .inl (Language.append_mem_mul (a := [c]) ⟨c, hAll.1, rfl⟩
            (ih.mpr ⟨by simpa using hLength, hAll.2⟩))

theorem plain_exactly (n : Nat) : (exactly p n).Plain := by
  induction n with
  | zero => trivial
  | succ n ih => exact ⟨trivial, ih⟩

theorem plain_upTo (n : Nat) : (upTo p n).Plain := by
  induction n with
  | zero => trivial
  | succ n ih => exact plain_opt ⟨trivial, ih⟩

theorem mem_lang_between {low high : Nat} (h : low ≤ high) :
    w ∈ (between p low high).lang ↔
      (low ≤ w.length ∧ w.length ≤ high) ∧ ∀ c ∈ w, p c = true := by
  constructor
  · intro hw
    obtain ⟨u, hu, v, hv, rfl⟩ := Language.mem_mul.mp hw
    obtain ⟨hu, hAllU⟩ := mem_lang_exactly.mp hu
    obtain ⟨hv, hAllV⟩ := mem_lang_upTo.mp hv
    refine ⟨by rw [List.length_append]; omega, ?_⟩
    intro c hc
    rcases List.mem_append.mp hc with hc | hc
    · exact hAllU c hc
    · exact hAllV c hc
  · rintro ⟨⟨hLow, hHigh⟩, hAll⟩
    rw [← List.take_append_drop low w]
    apply Language.append_mem_mul
    · refine mem_lang_exactly.mpr ⟨by simp [hLow], fun c hc => hAll c (List.mem_of_mem_take hc)⟩
    · refine mem_lang_upTo.mpr ⟨?_, fun c hc => hAll c (List.mem_of_mem_drop hc)⟩
      rw [List.length_drop]
      omega

theorem plain_between (low high : Nat) : (between p low high).Plain :=
  ⟨plain_exactly low, plain_upTo _⟩

/-- Words separated by a character that is in none of them. -/
theorem mem_lang_sepBy [DecidableEq α] {sep : α} {r : Regex α} (hr : ∀ w ∈ r.lang, sep ∉ w) :
    w ∈ (sepBy sep r).lang ↔ ∀ part ∈ w.splitOn sep, part ∈ r.lang := by
  have hFlatten : ∀ (u : List α) (vs : List (List α)),
      [sep].intercalate (u :: vs) = u ++ (vs.map fun v => [sep] ++ v).flatten := by
    intro u vs
    induction vs generalizing u with
    | nil => simp [List.intercalate]
    | cons v vs ih =>
        have h := ih v
        simp only [List.intercalate, List.intersperse_cons_cons, List.flatten_cons, List.map_cons,
          List.append_assoc] at h ⊢
        rw [h]
  constructor
  · intro hw
    obtain ⟨u, hu, v, hv, rfl⟩ := Language.mem_mul.mp hw
    obtain ⟨pieces, rfl, hPieces⟩ := Language.mem_kstar.mp hv
    obtain ⟨vs, rfl, hvs⟩ : ∃ vs : List (List α),
        pieces = vs.map (fun v => [sep] ++ v) ∧ ∀ v ∈ vs, v ∈ r.lang := by
      clear hv hw
      induction pieces with
      | nil => exact ⟨[], rfl, by simp⟩
      | cons piece pieces ih =>
          obtain ⟨vs, rfl, hvs⟩ := ih fun x hx => hPieces x (List.mem_cons_of_mem _ hx)
          obtain ⟨a, ⟨c, hc, rfl⟩, b, hb, rfl⟩ :=
            Language.mem_mul.mp (hPieces piece List.mem_cons_self)
          obtain rfl : c = sep := by simpa using hc
          exact ⟨b :: vs, rfl, List.forall_mem_cons.mpr ⟨hb, hvs⟩⟩
    have hAll : ∀ part ∈ u :: vs, part ∈ r.lang := List.forall_mem_cons.mpr ⟨hu, hvs⟩
    rw [← hFlatten, List.splitOn_intercalate sep (fun part hPart => hr part (hAll part hPart))
      (by simp)]
    exact hAll
  · intro hParts
    have hWord : [sep].intercalate (w.splitOn sep) = w := List.intercalate_splitOn sep
    obtain ⟨u, vs, hSplit⟩ := List.exists_cons_of_ne_nil (List.splitOn_ne_nil sep w)
    rw [hSplit] at hParts hWord
    rw [← hWord, hFlatten]
    rw [List.forall_mem_cons] at hParts
    apply Language.append_mem_mul hParts.1
    refine Language.mem_kstar.mpr ⟨_, rfl, ?_⟩
    intro piece hPiece
    obtain ⟨v, hv, rfl⟩ := List.mem_map.mp hPiece
    exact Language.append_mem_mul (a := [sep]) ⟨sep, by simp, rfl⟩ (hParts.2 v hv)

theorem plain_sepBy [DecidableEq α] {sep : α} {r : Regex α} (h : r.Plain) : (sepBy sep r).Plain :=
  ⟨h, trivial, h⟩

end Regex
