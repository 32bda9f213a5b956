import Mathlib

/-!
# Where a trace is split

Properties of a trace are often about what follows its last event of some kind.  The lemmas here
say where an event of that kind can stand in a trace that has grown by events of other kinds.
-/

namespace Traces

variable {α : Type} {P : α → Prop} {t es before before' after after' : List α} {e e' : α}

/-- What is found in a longer trace, but not in what was added, is in the part before. -/
theorem split_left (hQuiet : ∀ x ∈ es, ¬ P x) (he : P e) (h : t ++ es = before ++ e :: after) :
    ∃ rest, t = before ++ e :: rest ∧ after = rest ++ es := by
  rcases List.append_eq_append_iff.mp h with ⟨mid, hBefore, hEs⟩ | ⟨mid, hT, hRest⟩
  · have hMem : e ∈ es := by simp [hEs]
    exact absurd he (hQuiet e hMem)
  · cases mid with
    | nil =>
        obtain rfl : e :: after = es := hRest
        exact absurd he (hQuiet e List.mem_cons_self)
    | cons e' mid =>
        obtain ⟨rfl, rfl⟩ := List.cons.inj hRest
        exact ⟨mid, hT, rfl⟩

/-- It is the first event that was added, or in the part before. -/
theorem split_cases (hQuiet : ∀ x ∈ es, ¬ P x) (he : P e)
    (h : t ++ e' :: es = before ++ e :: after) :
    (before = t ∧ e = e' ∧ after = es) ∨
      ∃ rest, t = before ++ e :: rest ∧ after = rest ++ e' :: es := by
  rw [List.append_cons] at h
  obtain ⟨rest, hFront, rfl⟩ := split_left hQuiet he h
  rcases List.eq_nil_or_concat rest with rfl | ⟨rest, x, rfl⟩
  · obtain ⟨rfl, hEq⟩ := List.append_inj' hFront rfl
    cases hEq
    exact .inl ⟨rfl, rfl, rfl⟩
  · rw [List.concat_eq_append, ← List.cons_append, ← List.append_assoc] at hFront
    obtain ⟨rfl, hEq⟩ := List.append_inj' hFront rfl
    cases hEq
    exact .inr ⟨rest, rfl, by simp⟩

/-- The last event of a kind has one place. -/
theorem last_unique (he : P e) (he' : P e') (hAfter : ∀ x ∈ after, ¬ P x)
    (hAfter' : ∀ x ∈ after', ¬ P x) (h : before ++ e :: after = before' ++ e' :: after') :
    before = before' ∧ e = e' ∧ after = after' := by
  rcases split_cases hAfter he' h with ⟨rfl, rfl, rfl⟩ | ⟨rest, -, rfl⟩
  · exact ⟨rfl, rfl, rfl⟩
  · exact absurd he (hAfter' e (by simp))

end Traces
