import Mathlib

/-!
# Termination under fair scheduling

Threads take turns.  A schedule says which action comes next, and an action that is not possible
changes nothing.  A thread may wait in a loop of steps that get nothing done, so no measure goes
down with every step.  The rule here asks for a measure that no step raises, and for each thread for
the number of turns it needs to lower it, unless it waits for another one.
-/

namespace Fairness

variable {Thread Action State : Type} {perform : State → Action → Option State}
  {thread : Action → Thread} {schedule : Nat → Action} {s s' : State}

/-! ## Schedules -/

/-- One turn. -/
def follow (perform : State → Action → Option State) (s : State) (a : Action) : State :=
  (perform s a).getD s

/-- The state after `n` turns. -/
def stateAt (perform : State → Action → Option State) (schedule : Nat → Action) (s : State) :
    Nat → State
  | 0 => s
  | n + 1 => follow perform (stateAt perform schedule s n) (schedule n)

/-- Every thread gets its turn again and again. -/
def Fair (thread : Action → Thread) (schedule : Nat → Action) : Prop :=
  ∀ t n, ∃ m, n ≤ m ∧ thread (schedule m) = t

/-- The rest of a schedule. -/
def later (schedule : Nat → Action) (n : Nat) : Nat → Action := fun i => schedule (n + i)

theorem stateAt_add (n m : Nat) :
    stateAt perform schedule s (n + m) =
      stateAt perform (later schedule n) (stateAt perform schedule s n) m := by
  induction m with
  | zero => rfl
  | succ m ih =>
      show follow perform (stateAt perform schedule s (n + m)) (schedule (n + m)) = _
      rw [ih]
      rfl

theorem stateAt_one_add (m : Nat) :
    stateAt perform schedule s (m + 1) =
      stateAt perform (later schedule 1) (follow perform s (schedule 0)) m := by
  rw [Nat.add_comm]
  exact stateAt_add 1 m

theorem Fair.later (h : Fair thread schedule) (n : Nat) : Fair thread (later schedule n) := by
  intro t k
  obtain ⟨m, hLe, hTurn⟩ := h t (n + k)
  refine ⟨m - n, by omega, ?_⟩
  rw [Fairness.later, show n + (m - n) = m by omega]
  exact hTurn

/-- What every step keeps holds at all times. -/
theorem stateAt_inv {Inv : State → Prop}
    (hStep : ∀ s a s', Inv s → perform s a = some s' → Inv s') (h : Inv s) (n : Nat) :
    Inv (stateAt perform schedule s n) := by
  induction n with
  | zero => exact h
  | succ n ih =>
      show Inv (follow perform (stateAt perform schedule s n) (schedule n))
      unfold follow
      cases hPerform : perform (stateAt perform schedule s n) (schedule n) with
      | none => exact ih
      | some s' => exact hStep _ _ _ ih hPerform

/-! ## The rule -/

/-- What keeps a system going as long as `Final` does not hold. -/
structure Progress (thread : Action → Thread) (perform : State → Action → Option State)
    (Inv Final : State → Prop) where
  work : State → Nat
  /-- How many turns a thread may need before the one that lowers `work`. -/
  turns : Thread → State → Option Nat
  inv : ∀ s a s', Inv s → perform s a = some s' → Inv s'
  step : ∀ s a s', Inv s → perform s a = some s' → work s' < work s ∨ (work s' = work s ∧
    ∀ t k, turns t s = some k →
      ∃ k', turns t s' = some k' ∧ k' ≤ k ∧ (thread a = t → k' < k))
  possible : ∀ s a k, Inv s → turns (thread a) s = some k → ∃ s', perform s a = some s'
  someone : ∀ s, Inv s → ¬ Final s → ∃ t k, turns t s = some k

namespace Progress

variable {Inv Final : State → Prop} (P : Progress thread perform Inv Final)

include P

/-- A thread that does not wait lowers the measure, unless another one does. -/
theorem lowers {t : Thread} {k : Nat} (hInv : Inv s) (hTurns : P.turns t s = some k)
    (hFair : Fair thread schedule) : ∃ n, P.work (stateAt perform schedule s n) < P.work s := by
  induction k using Nat.strong_induction_on generalizing s schedule with
  | _ k ihTurns =>
      obtain ⟨m, -, hTurn⟩ := hFair t 0
      -- up to the next turn of the thread
      induction m generalizing s schedule with
      | zero =>
          subst hTurn
          obtain ⟨s', hPerform⟩ := P.possible s (schedule 0) k hInv hTurns
          have hFollow : follow perform s (schedule 0) = s' := by rw [follow, hPerform]; rfl
          rcases P.step s (schedule 0) s' hInv hPerform with hLess | ⟨hSame, hNext⟩
          · exact ⟨1, by rw [stateAt, stateAt, hFollow]; exact hLess⟩
          · obtain ⟨k', hTurns', -, hLess⟩ := hNext _ k hTurns
            obtain ⟨n, hn⟩ := ihTurns k' (hLess rfl) (P.inv s _ s' hInv hPerform) hTurns'
              (hFair.later 1)
            exact ⟨n + 1, by rw [stateAt_one_add, hFollow, ← hSame]; exact hn⟩
      | succ m ih =>
          have hTurn' : thread (later schedule 1 m) = t := by
            rw [later, Nat.add_comm]
            exact hTurn
          cases hPerform : perform s (schedule 0) with
          | none =>
              have hFollow : follow perform s (schedule 0) = s := by rw [follow, hPerform]; rfl
              obtain ⟨n, hn⟩ := ih hInv hTurns (hFair.later 1) hTurn'
              exact ⟨n + 1, by rw [stateAt_one_add, hFollow]; exact hn⟩
          | some s' =>
              have hFollow : follow perform s (schedule 0) = s' := by rw [follow, hPerform]; rfl
              have hInv' := P.inv s _ s' hInv hPerform
              rcases P.step s (schedule 0) s' hInv hPerform with hLess | ⟨hSame, hNext⟩
              · exact ⟨1, by rw [stateAt, stateAt, hFollow]; exact hLess⟩
              · obtain ⟨k', hTurns', hLe, -⟩ := hNext t k hTurns
                have hLater : ∃ n, P.work (stateAt perform (later schedule 1) s' n) < P.work s' := by
                  rcases hLe.lt_or_eq with hLess | rfl
                  · exact ihTurns k' hLess hInv' hTurns' (hFair.later 1)
                  · exact ih hInv' hTurns' (hFair.later 1) hTurn'
                obtain ⟨n, hn⟩ := hLater
                exact ⟨n + 1, by rw [stateAt_one_add, hFollow, ← hSame]; exact hn⟩

/-- Every fair schedule gets to a final state. -/
theorem eventually (hInv : Inv s) (hFair : Fair thread schedule) :
    ∃ n, Final (stateAt perform schedule s n) := by
  induction hWork : P.work s using Nat.strong_induction_on generalizing s schedule with
  | _ w ih =>
      subst hWork
      by_cases hFinal : Final s
      · exact ⟨0, hFinal⟩
      · obtain ⟨t, k, hTurns⟩ := P.someone s hInv hFinal
        obtain ⟨n, hLess⟩ := P.lowers hInv hTurns hFair
        obtain ⟨m, hm⟩ := ih _ hLess (stateAt_inv P.inv hInv n) (hFair.later n) rfl
        exact ⟨n + m, by rw [stateAt_add]; exact hm⟩

end Progress

end Fairness
