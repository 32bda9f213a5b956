import Mathlib.Data.List.Basic

/-!
# Scripts that may be cut off

A script is a list of operations, each of which may fail.  It ends when its list does, dies at an
operation that fails, or is killed before one.  The rules say what such a script keeps whatever
happens to it, and what it has brought about once it is finished.
-/

namespace Scripts

inductive Exit where
  | finished | died | killed
  deriving DecidableEq, Repr

variable {σ Op : Type}

/-- Perform the operations, at most `n` of them. -/
def perform (run : Op → σ → Option σ) : Nat → List Op → σ → σ × Exit
  | _, [], s => (s, .finished)
  | 0, _ :: _, s => (s, .killed)
  | n + 1, op :: ops, s =>
    match run op s with
    | some s' => perform run n ops s'
    | none => (s, .died)

variable {run : Op → σ → Option σ} {P Q : σ → Prop} {n : Nat} {ops xs ys : List Op} {op : Op}
  {s t : σ}

theorem perform_cons {s' : σ} (hRun : run op s = some s') :
    perform run (n + 1) (op :: ops) s = perform run n ops s' := by
  rw [perform, hRun]

/-- What every operation keeps holds wherever the script ends. -/
theorem perform_inv (hKeeps : ∀ op ∈ ops, ∀ s s', P s → run op s = some s' → P s') (hStart : P s) :
    P (perform run n ops s).1 := by
  induction ops generalizing n s with
  | nil => cases n <;> exact hStart
  | cons op ops ih =>
      cases n with
      | zero => exact hStart
      | succ n =>
          cases hRun : run op s with
          | none =>
              rw [perform, hRun]
              exact hStart
          | some s' =>
              rw [perform_cons hRun]
              exact ih (fun op hOp => hKeeps op (List.mem_cons_of_mem _ hOp))
                (hKeeps op List.mem_cons_self s s' hStart hRun)

/-- A script that is not finished has not performed its last operation. -/
theorem perform_unfinished (hKeeps : ∀ op ∈ ops, ∀ s s', P s → run op s = some s' → P s')
    (hStart : P s) (hExit : (perform run n (ops ++ [op]) s).2 ≠ .finished) :
    P (perform run n (ops ++ [op]) s).1 := by
  induction ops generalizing n s with
  | nil =>
      cases n with
      | zero => exact hStart
      | succ n =>
          cases hRun : run op s with
          | none =>
              rw [List.nil_append, perform, hRun]
              exact hStart
          | some s' =>
              rw [List.nil_append, perform_cons hRun] at hExit
              cases n <;> exact absurd rfl hExit
  | cons first ops ih =>
      cases n with
      | zero => exact hStart
      | succ n =>
          cases hRun : run first s with
          | none =>
              rw [List.cons_append, perform, hRun]
              exact hStart
          | some s' =>
              rw [List.cons_append, perform_cons hRun] at hExit ⊢
              exact ih (fun op hOp => hKeeps op (List.mem_cons_of_mem _ hOp))
                (hKeeps first List.mem_cons_self s s' hStart hRun) hExit

/-- The state of a finished script follows from its operations in turn. -/
theorem perform_finished_cons (hEnd : perform run n (op :: ops) s = (t, .finished)) :
    ∃ s' m, run op s = some s' ∧ perform run m ops s' = (t, .finished) := by
  cases n with
  | zero => cases hEnd
  | succ n =>
      cases hRun : run op s with
      | none =>
          rw [perform, hRun] at hEnd
          cases hEnd
      | some s' =>
          rw [perform_cons hRun] at hEnd
          exact ⟨s', n, rfl, hEnd⟩

theorem perform_finished_append (hEnd : perform run n (xs ++ ys) s = (t, .finished)) :
    ∃ u k m, perform run k xs s = (u, .finished) ∧ perform run m ys u = (t, .finished) := by
  induction xs generalizing n s with
  | nil => exact ⟨s, 0, n, rfl, hEnd⟩
  | cons op xs ih =>
      obtain ⟨s', m, hRun, hRest⟩ := perform_finished_cons hEnd
      obtain ⟨u, k, m', hFirst, hSecond⟩ := ih hRest
      exact ⟨u, k + 1, m', (perform_cons hRun).trans hFirst, hSecond⟩

theorem perform_finished_inv (hKeeps : ∀ op ∈ ops, ∀ s s', P s → run op s = some s' → P s')
    (hStart : P s) (hEnd : perform run n ops s = (t, .finished)) : P t := by
  have hInv := perform_inv (n := n) hKeeps hStart
  rwa [hEnd] at hInv

/-- What one operation brings about and none takes away holds once the script is finished. -/
theorem perform_establishes (hKeeps : ∀ op ∈ ops, ∀ s s', P s → run op s = some s' → P s')
    (hStart : P s) (hEnd : perform run n ops s = (t, .finished)) (hOp : op ∈ ops)
    (hBrings : ∀ s s', P s → run op s = some s' → Q s')
    (hStays : ∀ op ∈ ops, ∀ s s', P s → Q s → run op s = some s' → Q s') : Q t := by
  induction ops generalizing n s with
  | nil => cases hOp
  | cons first ops ih =>
      obtain ⟨s', m, hRun, hRest⟩ := perform_finished_cons hEnd
      have hNext : P s' := hKeeps first List.mem_cons_self s s' hStart hRun
      have hKeepsRest : ∀ op ∈ ops, ∀ s s', P s → run op s = some s' → P s' :=
        fun op hOp => hKeeps op (List.mem_cons_of_mem _ hOp)
      rcases List.mem_cons.mp hOp with rfl | hLater
      · have hBoth : ∀ next ∈ ops, ∀ s s', P s ∧ Q s → run next s = some s' → P s' ∧ Q s' := by
          rintro next hMem s s' ⟨hP, hQ⟩ hStep
          exact ⟨hKeepsRest next hMem s s' hP hStep,
            hStays next (List.mem_cons_of_mem _ hMem) s s' hP hQ hStep⟩
        exact (perform_finished_inv hBoth ⟨hNext, hBrings s s' hStart hRun⟩ hRest).2
      · exact ih hKeepsRest hNext hRest hLater
          fun next hMem => hStays next (List.mem_cons_of_mem _ hMem)

end Scripts
