import Mathlib.Data.List.Forall2
import Mathlib.Control.Basic

/-!
# Computations that may fail

What a computation in `Except` returned, part by part, and lists of such computations.
-/

namespace MatchingMachine

theorem Except.bind_eq_ok {α β ε : Type} {x : Except ε α} {f : α → Except ε β} {b : β}
    (h : x >>= f = .ok b) : ∃ a, x = .ok a ∧ f a = .ok b := by
  cases x with
  | error e => cases h
  | ok a => exact ⟨a, rfl, h⟩

/-- `mapM` succeeds when it does so on every element. -/
theorem mapM_eq_ok_iff {α β ε : Type} {f : α → Except ε β} {xs : List α} {ys : List β} :
    xs.mapM f = .ok ys ↔ List.Forall₂ (fun x y => f x = .ok y) xs ys := by
  induction xs generalizing ys with
  | nil =>
      rw [List.forall₂_nil_left_iff]
      exact ⟨fun h => (Except.ok.inj h).symm, fun h => congrArg Except.ok h.symm⟩
  | cons x xs ih =>
      rw [List.mapM_cons, List.forall₂_cons_left_iff]
      constructor
      · intro h
        obtain ⟨y, hy, h⟩ := Except.bind_eq_ok h
        obtain ⟨zs, hzs, h⟩ := Except.bind_eq_ok h
        exact ⟨y, zs, hy, ih.mp hzs, (Except.ok.inj h).symm⟩
      · rintro ⟨y, zs, hy, hzs, rfl⟩
        rw [hy, ih.mpr hzs]
        rfl

/-- A list of computations succeeds when each of them does. -/
theorem exists_mapM_ok_iff {α β ε : Type} {f : α → Except ε β} {xs : List α} :
    (∃ ys, xs.mapM f = .ok ys) ↔ ∀ x ∈ xs, ∃ y, f x = .ok y := by
  induction xs with
  | nil => simp [pure, Except.pure]
  | cons x xs ih =>
      simp only [List.mem_cons, forall_eq_or_imp, ← ih]
      constructor
      · rintro ⟨ys, h⟩
        rw [List.mapM_cons] at h
        obtain ⟨y, hy, h⟩ := Except.bind_eq_ok h
        obtain ⟨zs, hzs, -⟩ := Except.bind_eq_ok h
        exact ⟨⟨y, hy⟩, zs, hzs⟩
      · rintro ⟨⟨y, hy⟩, zs, hzs⟩
        refine ⟨y :: zs, ?_⟩
        rw [List.mapM_cons, hy, hzs]
        rfl

/-- The error of a list of computations is the error of one of them. -/
theorem mapM_eq_error {α β ε : Type} {f : α → Except ε β} {xs : List α} {e : ε}
    (h : xs.mapM f = .error e) : ∃ x ∈ xs, f x = .error e := by
  induction xs with
  | nil => simp [pure, Except.pure] at h
  | cons x xs ih =>
      rw [List.mapM_cons] at h
      cases hx : f x with
      | error e' =>
          rw [hx] at h
          obtain rfl : e' = e := Except.error.inj h
          exact ⟨x, by simp, hx⟩
      | ok y =>
          rw [hx] at h
          cases hxs : xs.mapM f with
          | ok ys =>
              rw [hxs] at h
              cases h
          | error e' =>
              rw [hxs] at h
              obtain rfl : e' = e := Except.error.inj h
              obtain ⟨x', hx', hError⟩ := ih hxs
              exact ⟨x', by simp [hx'], hError⟩

end MatchingMachine
