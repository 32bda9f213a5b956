import MatchingMachine.Lib.Regex

/-!
# Searching a text

The first match in a text, splitting a text at its matches, and all matches.  The lemmas say what
the search does with a text that is put together from pieces: a piece without a match is passed over,
and where a class cannot be followed by more of itself only the longest repetition counts.
-/

namespace Regex

variable {α : Type}

/-- The first match from a place on: what is passed over, and the place after the match. -/
def search (r : Regex α) (before : List α) : List α → Option (List α × Place α)
  | [] => (r.run { before := before, rest := [] }).head?.map fun m => ([], m)
  | c :: cs =>
      match r.run { before := before, rest := c :: cs } with
      | m :: _ => some ([], m)
      | [] => (search r (c :: before) cs).map fun found => (c :: found.1, found.2)

/-- At most `n` matches: the text before the first one, and for each its groups and the text up to
the next one. -/
def splitFrom (r : Regex α) : Nat → List α → List α → List α × List (List (List α) × List α)
  | 0, _, text => (text, [])
  | n + 1, before, text =>
      match search r before text with
      | none => (text, [])
      | some (passed, m) =>
          let (piece, more) := splitFrom r n m.before m.rest
          (passed, (m.groups, piece) :: more)

/-- `re.split` for an expression that matches no empty text. -/
def split (r : Regex α) (text : List α) : List α × List (List (List α) × List α) :=
  splitFrom r text.length [] text

def findAllFrom (r : Regex α) : Nat → List α → List α → List (List (List α))
  | 0, _, _ => []
  | n + 1, before, text =>
      match search r before text with
      | none => []
      | some (_, m) => m.groups :: findAllFrom r n m.before m.rest

/-- The groups of all matches, for an expression that matches no empty text. -/
def findAll (r : Regex α) (text : List α) : List (List (List α)) :=
  findAllFrom r text.length [] text

/-- No part of a text matches. -/
def NoPart (r : Regex α) (text : List α) : Prop :=
  ∀ u w v, text = u ++ w ++ v → r.fullMatch w = false

variable {r s : Regex α}

/-! ## Single steps -/

theorem search_cons_of_nil {before cs : List α} {c : α}
    (h : r.run { before := before, rest := c :: cs } = []) :
    search r before (c :: cs) =
      (search r (c :: before) cs).map fun found => (c :: found.1, found.2) := by
  simp [search, h]

/-- Between `before` and `t`, an expression first tries to take the word `w`, with the groups
`gs`. -/
def Takes (r : Regex α) (before w : List α) (gs : List (List α)) (t : List α) : Prop :=
  ∀ groups, (r.run { before := before, rest := w ++ t, groups := groups }).head? =
    some { before := w.reverse ++ before, rest := t, groups := gs ++ groups }

theorem search_of_takes {before w t : List α} {gs : List (List α)} (h : Takes r before w gs t) :
    search r before (w ++ t) =
      some ([], { before := w.reverse ++ before, rest := t, groups := gs }) := by
  obtain ⟨ms, hRun⟩ := List.head?_eq_some_iff.mp (h [])
  cases hText : w ++ t with
  | nil =>
      rw [hText] at hRun
      simp [search, hRun]
  | cons c cs =>
      rw [hText] at hRun
      simp [search, hRun]

/-- A part of a text where no match starts is passed over. -/
theorem search_append {before u v : List α}
    (h : ∀ p c q, u = p ++ c :: q →
      r.run { before := p.reverse ++ before, rest := c :: q ++ v } = []) :
    search r before (u ++ v) =
      (search r (u.reverse ++ before) v).map fun found => (u ++ found.1, found.2) := by
  induction u generalizing before with
  | nil => simp
  | cons c u ih =>
      have hHead := h [] c u rfl
      rw [List.cons_append, search_cons_of_nil (by simpa using hHead), ih]
      · simp [Function.comp_def]
      · intro p d q hu
        have hNext := h (c :: p) d q (by simp [hu])
        simpa using hNext

theorem search_eq_none {before u : List α}
    (h : ∀ p q, u = p ++ q → r.run { before := p.reverse ++ before, rest := q } = []) :
    search r before u = none := by
  have hEnd : r.run { before := u.reverse ++ before, rest := [] } = [] := h u [] (by simp)
  have hSearch : search r before (u ++ []) = _ := search_append fun p c q hu => by
    simpa using h p (c :: q) hu
  rw [List.append_nil] at hSearch
  simp [hSearch, search, hEnd]

/-! ## What an expression takes -/

variable {before u v w t : List α} {gs gs' : List (List α)}

theorem Takes.seq (h : Takes r before u gs (v ++ t))
    (h' : Takes s (u.reverse ++ before) v gs' t) :
    Takes (seq r s) before (u ++ v) (gs' ++ gs) t := by
  intro groups
  obtain ⟨ms, hRun⟩ := List.head?_eq_some_iff.mp (h groups)
  obtain ⟨ms', hRun'⟩ := List.head?_eq_some_iff.mp (h' (gs ++ groups))
  simp [run, hRun, hRun']

/-- First a word without groups. -/
theorem Takes.then (h : Takes r before u [] (v ++ t)) (h' : Takes s (u.reverse ++ before) v gs t) :
    Takes (Regex.seq r s) before (u ++ v) gs t := by
  have hSeq := h.seq h'
  rwa [List.append_nil] at hSeq

/-- Last a word without groups. -/
theorem Takes.first (h : Takes r before u gs (v ++ t))
    (h' : Takes s (u.reverse ++ before) v [] t) : Takes (Regex.seq r s) before (u ++ v) gs t :=
  h.seq h'

theorem Takes.alt_left (h : Takes r before w gs t) : Takes (alt r s) before w gs t := by
  intro groups
  obtain ⟨ms, hRun⟩ := List.head?_eq_some_iff.mp (h groups)
  simp [run, hRun]

theorem Takes.opt (h : Takes r before w gs t) : Takes (opt r) before w gs t := h.alt_left

theorem Takes.group (h : Takes r before w gs t) : Takes (group r) before w (w :: gs) t := by
  intro groups
  obtain ⟨ms, hRun⟩ := List.head?_eq_some_iff.mp (h groups)
  simp [run, hRun]

theorem takes_assert {p : Option α → Option α → Bool} (h : p before.head? t.head? = true) :
    Takes (assert p) before [] [] t := by
  intro groups
  simp [run, h]

theorem takes_char {p : α → Bool} {c : α} (hc : p c = true) : Takes (char p) before [c] [] t := by
  intro groups
  simp [run, hc, Place.after]

theorem takes_literal [DecidableEq α] (text : List α) : Takes (literal text) before text [] t := by
  induction text generalizing before with
  | nil =>
      intro groups
      simp [literal, run]
  | cons c cs ih => exact (takes_char (by simp)).seq ih

theorem head?_repeated_char {p : α → Bool} (hw : ∀ c ∈ w, p c = true)
    (ht : ∀ c ∈ t.head?, p c = false) {n : Nat} (hn : w.length ≤ n) (before : List α)
    (groups : List (List α)) :
    (repeated (char p).run n { before := before, rest := w ++ t, groups := groups }).head? =
      some { before := w.reverse ++ before, rest := t, groups := groups } := by
  induction w generalizing n before with
  | nil =>
      have hChar : (char p).run { before := before, rest := t, groups := groups } = [] := by
        cases t with
        | nil => simp [run]
        | cons c t => simp [run, ht c rfl]
      cases n with
      | zero => simp [repeated]
      | succ n => simp [repeated, hChar]
  | cons c w ih =>
      rw [List.forall_mem_cons] at hw
      obtain ⟨n, rfl⟩ : ∃ k, n = k + 1 := ⟨n - 1, by simp at hn; omega⟩
      have hHead := ih hw.2 (by simpa using hn : w.length ≤ n) (c :: before)
      have hChar : (char p).run { before := before, rest := c :: w ++ t, groups := groups } =
          [{ before := c :: before, rest := w ++ t, groups := groups }] := by
        simp [run, hw.1, Place.after]
      rw [repeated, hChar]
      simp [hHead]

/-- A repeated class takes all it can, before it tries less. -/
theorem takes_star_char {p : α → Bool} (hw : ∀ c ∈ w, p c = true)
    (ht : ∀ c ∈ t.head?, p c = false) : Takes (star (char p)) before w [] t := by
  intro groups
  exact head?_repeated_char hw ht (by simp) before groups

theorem takes_many1 {p : α → Bool} (hNe : w ≠ []) (hw : ∀ c ∈ w, p c = true)
    (ht : ∀ c ∈ t.head?, p c = false) : Takes (many1 p) before w [] t := by
  obtain ⟨c, w, rfl⟩ := List.exists_cons_of_ne_nil hNe
  rw [List.forall_mem_cons] at hw
  exact (takes_char hw.1).seq (takes_star_char hw.2 ht)

/-! ## Texts put together from pieces -/

/-- No match starts within `u` when `t` follows it. -/
def Passed (r : Regex α) (u t : List α) : Prop :=
  ∀ before p c q, u = p ++ c :: q →
    r.run { before := p.reverse ++ before, rest := c :: q ++ t } = []

/-- A text without a match is passed over when no match reaches from it into what follows. -/
theorem passed_of_noPart (hr : r.Plain) (hNo : NoPart r u)
    (hAcross : ∀ a b d, a ++ b ∈ r.lang → a ≠ [] → b ≠ [] → b ++ d ≠ t) : Passed r u t := by
  intro before p c q hu
  apply List.eq_nil_iff_forall_not_mem.mpr
  intro m hm
  obtain ⟨w, hw, hReads⟩ := run_sound r _ m hm
  have hText : (c :: q) ++ t = w ++ m.rest := hReads.1
  -- The match ends after `u`, or in it.
  rcases List.append_eq_append_iff.mp hText with ⟨b, rfl, hRest⟩ | ⟨z, hIn, hRest⟩
  · by_cases hb : b = []
    · rw [hb, List.append_nil] at hw
      have hMatch := (fullMatch_iff hr _).mpr hw
      have hPart := hNo p (c :: q) [] (by simp [hu])
      rw [hMatch] at hPart
      cases hPart
    · exact hAcross (c :: q) b m.rest hw (by simp) hb hRest.symm
  · have hMatch := (fullMatch_iff hr w).mpr hw
    have hPart := hNo p w z (by simp [hu, hIn])
    rw [hMatch] at hPart
    cases hPart

/-- A match, its groups, and what follows it up to the next one. -/
structure Piece (α : Type) where
  word : List α
  groups : List (List α)
  rest : List α

def Piece.text (piece : Piece α) : List α := piece.word ++ piece.rest

theorem splitFrom_pieces (pieces : List (Piece α)) {n : Nat} (hn : pieces.length ≤ n)
    (hEnd : [] ∉ r.lang)
    (hTakes : ∀ piece ∈ pieces, ∀ before t, Takes r before piece.word piece.groups t)
    (hPassed : ∀ v ∈ u :: pieces.map Piece.rest, ∀ t,
      (t = [] ∨ ∃ piece ∈ pieces, piece.word <+: t) → Passed r v t) :
    splitFrom r n before (u ++ pieces.flatMap Piece.text) =
      (u, pieces.map fun piece => (piece.groups, piece.rest)) := by
  induction pieces generalizing n u before with
  | nil =>
      have hNone : search r before u = none := by
        apply search_eq_none
        intro p q hu
        cases q with
        | nil =>
            apply List.eq_nil_iff_forall_not_mem.mpr
            intro m hm
            obtain ⟨w, hw, hReads⟩ := run_sound r _ m hm
            obtain rfl : w = [] := (List.append_eq_nil_iff.mp hReads.1.symm).1
            exact hEnd hw
        | cons c q =>
            have hRun := hPassed u (by simp) [] (.inl rfl) before p c q hu
            simpa using hRun
      cases n with
      | zero => simp [splitFrom]
      | succ n => simp [splitFrom, hNone]
  | cons piece pieces ih =>
      obtain ⟨n, rfl⟩ : ∃ k, n = k + 1 := ⟨n - 1, by simp at hn; omega⟩
      have hPass : Passed r u (piece.word ++ (piece.rest ++ pieces.flatMap Piece.text)) :=
        hPassed u (by simp) _ (.inr ⟨piece, by simp, List.prefix_append _ _⟩)
      -- the first match begins right after the filler, at the word of the first piece
      have hSearch : search r before
          (u ++ (piece.word ++ (piece.rest ++ pieces.flatMap Piece.text))) = _ :=
        search_append (hPass before)
      rw [search_of_takes (hTakes piece (by simp) _ _)] at hSearch
      have hMore : splitFrom r n (piece.word.reverse ++ (u.reverse ++ before))
          (piece.rest ++ pieces.flatMap Piece.text) =
            (piece.rest, pieces.map fun piece => (piece.groups, piece.rest)) := by
        apply ih (by simpa using hn)
        · exact fun piece' h => hTakes piece' (List.mem_cons_of_mem _ h)
        · intro v hv t ht
          apply hPassed v (List.mem_cons_of_mem _ hv) t
          apply ht.imp_right
          rintro ⟨piece', h, hPrefix⟩
          exact ⟨piece', List.mem_cons_of_mem _ h, hPrefix⟩
      rw [List.flatMap_cons, Piece.text, List.append_assoc]
      simp only [splitFrom, hSearch, Option.map_some, hMore, List.append_nil, List.map_cons]

theorem passed_nil : Passed r [] t := by
  intro before p c q h
  simp at h

theorem findAllFrom_append {n : Nat} (hPassed : Passed r u (w ++ t))
    (hTakes : Takes r (u.reverse ++ before) w gs t) :
    findAllFrom r (n + 1) before (u ++ (w ++ t)) =
      gs :: findAllFrom r n (w.reverse ++ (u.reverse ++ before)) t := by
  have hSearch : search r before (u ++ (w ++ t)) = _ := search_append (hPassed before)
  rw [search_of_takes hTakes] at hSearch
  simp [findAllFrom, hSearch]

/-! ## Context -/

/-- Two places that look the same to an expression. -/
def Alike (m m' : Place α) : Prop :=
  m.rest = m'.rest ∧ m.groups = m'.groups ∧ m.before.head? = m'.before.head?

theorem forall₂_flatMap {f : Place α → List (Place α)} {ms ms' : List (Place α)}
    (h : List.Forall₂ Alike ms ms')
    (hf : ∀ m m', Alike m m' → List.Forall₂ Alike (f m) (f m')) :
    List.Forall₂ Alike (ms.flatMap f) (ms'.flatMap f) := by
  induction h with
  | nil => exact .nil
  | cons hm hms ih =>
      rw [List.flatMap_cons, List.flatMap_cons]
      exact List.rel_append (hf _ _ hm) ih

theorem repeated_alike {f : Place α → List (Place α)}
    (hf : ∀ m m', Alike m m' → List.Forall₂ Alike (f m) (f m')) (n : Nat) {m m' : Place α}
    (h : Alike m m') : List.Forall₂ Alike (repeated f n m) (repeated f n m') := by
  induction n generalizing m m' with
  | zero => exact .cons h .nil
  | succ n ih =>
      apply List.rel_append _ (.cons h .nil)
      apply forall₂_flatMap _ fun m m' h => ih h
      refine List.rel_filter ?_ (hf m m' h)
      intro a b hab
      simp [h.1, hab.1]

/-- An expression looks at one character of what is before a place. -/
theorem run_alike (r : Regex α) {m m' : Place α} (h : Alike m m') :
    List.Forall₂ Alike (r.run m) (r.run m') := by
  induction r generalizing m m' with
  | empty => exact .cons h .nil
  | char p =>
      obtain ⟨hRest, hGroups, hBefore⟩ := h
      cases hm : m.rest with
      | nil => simp [run, hm, ← hRest]
      | cons c cs =>
          by_cases hc : p c = true
          · simp [run, hm, ← hRest, hc, Alike, Place.after, hGroups]
          · simp [run, hm, ← hRest, hc]
  | seq r s ihr ihs => exact forall₂_flatMap (ihr h) fun _ _ h => ihs h
  | alt r s ihr ihs => exact List.rel_append (ihr h) (ihs h)
  | star r ih =>
      rw [run, run, h.1]
      exact repeated_alike (fun _ _ h => ih h) _ h
  | group r ih =>
      rw [run, run, List.forall₂_map_left_iff, List.forall₂_map_right_iff]
      apply (ih h).imp
      intro a b hab
      exact ⟨hab.1, by simp [h.1, hab.1, hab.2.1], hab.2.2⟩
  | assert p =>
      obtain ⟨hRest, hGroups, hBefore⟩ := h
      simp only [run, hRest, hBefore]
      split
      · exact .cons ⟨hRest, hGroups, hBefore⟩ .nil
      · exact .nil

theorem run_eq_nil_of_alike {m m' : Place α} (h : Alike m m') (hm : r.run m = []) :
    r.run m' = [] := by
  have hForall := run_alike r h
  rw [hm] at hForall
  exact List.forall₂_nil_left_iff.mp hForall

theorem search_eq_none_of_alike {before before' text : List α}
    (h : before.head? = before'.head?) (hSearch : search r before text = none) :
    search r before' text = none := by
  induction text generalizing before before' with
  | nil =>
      have hNil : r.run { before := before, rest := [] } = [] := by
        simpa [search] using hSearch
      have hNil' : r.run { before := before', rest := [] } = [] :=
        run_eq_nil_of_alike (m := { before := before, rest := [] }) ⟨rfl, rfl, h⟩ hNil
      simp [search, hNil']
  | cons c cs ih =>
      have hNil : r.run { before := before, rest := c :: cs } = [] := by
        cases hRun : r.run { before := before, rest := c :: cs } with
        | nil => rfl
        | cons m ms =>
            simp [search, hRun] at hSearch
      have hNil' : r.run { before := before', rest := c :: cs } = [] :=
        run_eq_nil_of_alike (m := { before := before, rest := c :: cs }) ⟨rfl, rfl, h⟩ hNil
      rw [search_cons_of_nil hNil, Option.map_eq_none_iff] at hSearch
      rw [search_cons_of_nil hNil', Option.map_eq_none_iff]
      have hHead : (c :: before).head? = (c :: before').head? := rfl
      exact ih hHead hSearch

end Regex
