import Mathlib

/-!
# Programs that raise

Rules for programs in `EStateM`, which keep their state when they raise, as Python programs do.
Triples with one assertion for both ways of ending say what a cleanup has to deal with; a program
that returned is taken apart by inversion.
-/

open Std.Do

namespace Raising

variable {ε σ α β : Type}

/-! ## Triples -/

/-- The program takes states with `I` to states with `J` when it returns, and with `K` when it
raises. -/
abbrev Takes (I J K : σ → Prop) (x : EStateM ε σ α) : Prop :=
  ⦃fun s => ⌜I s⌝⦄ x ⦃post⟨fun _ s => ⌜J s⌝, fun _ s => ⌜K s⌝⟩⦄

abbrev Keeps (I : σ → Prop) (x : EStateM ε σ α) : Prop := Takes I I I x

theorem Takes.ok {I J K : σ → Prop} {x : EStateM ε σ α} (h : Takes I J K x) {s s' : σ} {a : α}
    (hs : I s) (hx : x.run s = .ok a s') : J s' := by
  have hEnd := h s hs
  simpa [wp, PredTrans.apply, hx] using hEnd

theorem Takes.error {I J K : σ → Prop} {x : EStateM ε σ α} (h : Takes I J K x) {s s' : σ} {e : ε}
    (hs : I s) (hx : x.run s = .error e s') : K s' := by
  have hEnd := h s hs
  simpa [wp, PredTrans.apply, hx] using hEnd

/-- A triple from what holds of the two ways of ending. -/
theorem takes_of_run {I J K : σ → Prop} {x : EStateM ε σ α}
    (hOk : ∀ s a s', I s → x.run s = .ok a s' → J s')
    (hError : ∀ s e s', I s → x.run s = .error e s' → K s') : Takes I J K x := by
  intro s hs
  simp only [wp, PredTrans.apply]
  cases hx : x.run s with
  | ok a s' => simpa using hOk s a s' hs hx
  | error e s' => simpa using hError s e s' hs hx

theorem Takes.mono {I J J' K K' : σ → Prop} {x : EStateM ε σ α} (h : Takes I J K x)
    (hOk : ∀ s, J s → J' s) (hError : ∀ s, K s → K' s) : Takes I J' K' x :=
  takes_of_run (fun _ _ _ hs hx => hOk _ (h.ok hs hx)) fun _ _ _ hs hx => hError _ (h.error hs hx)

/-- Cases on where a program starts. -/
theorem Takes.or {I I' J K : σ → Prop} {x : EStateM ε σ α} (h : Takes I J K x)
    (h' : Takes I' J K x) : Takes (fun s => I s ∨ I' s) J K x := by
  intro s hs
  rcases hs with hs | hs
  · exact h s hs
  · exact h' s hs

/-- A program ends in a state, and returns or raises. -/
def ending (r : Except ε α) (s : σ) : EStateM.Result ε σ α :=
  match r with
  | .ok a => .ok a s
  | .error e => .error e s

/-- A triple for a program whose runs are known. -/
theorem spec_of_run {P : σ → Prop} {Q : α → σ → Prop} {E : ε → σ → Prop} {x : EStateM ε σ α}
    (h : ∀ s, P s → ∃ r s', x.run s = ending r s' ∧ (∀ a, r = .ok a → Q a s') ∧
      ∀ e, r = .error e → E e s') :
    ⦃fun s => ⌜P s⌝⦄ x ⦃post⟨fun a s => ⌜Q a s⌝, fun e s => ⌜E e s⌝⟩⦄ := by
  intro s hs
  obtain ⟨r, s', hRun, hOk, hError⟩ := h s hs
  simp only [wp, PredTrans.apply, hRun]
  cases r with
  | ok a => simpa [ending] using hOk a rfl
  | error e => simpa [ending] using hError e rfl

/-- The finalizer runs however the body ended.  What it raises replaces what the body raised. -/
theorem takes_tryFinally {I J K J' K' : σ → Prop} {x : EStateM ε σ α} {h : EStateM ε σ β}
    (hx : Takes I J K x) (hOk : Takes J J' K' h) (hError : Takes K K' K' h) :
    Takes I J' K' (tryFinally x h) := by
  intro s hs
  simp only [wp, PredTrans.apply, tryFinally, tryFinally', Functor.map, EStateM.map, EStateM.run]
  cases hxs : x s with
  | ok a s' =>
      cases hhs : h s' with
      | ok b s'' => simpa [hhs] using hOk.ok (hx.ok hs hxs) hhs
      | error e s'' => simpa [hhs] using hOk.error (hx.ok hs hxs) hhs
  | error e s' =>
      cases hhs : h s' with
      | ok b s'' => simpa [hhs] using hError.ok (hx.error hs hxs) hhs
      | error e' s'' => simpa [hhs] using hError.error (hx.error hs hxs) hhs

/-! ## Inversion -/

theorem bind_ok {x : EStateM ε σ α} {f : α → EStateM ε σ β} {s s'' : σ} {b : β} :
    (x >>= f).run s = .ok b s'' ↔
      ∃ a s', x.run s = .ok a s' ∧ (f a).run s' = .ok b s'' := by
  simp only [bind, EStateM.bind, EStateM.run]
  cases x s <;> simp

theorem bind_error {x : EStateM ε σ α} {f : α → EStateM ε σ β} {s s'' : σ} {e : ε} :
    (x >>= f).run s = .error e s'' ↔ x.run s = .error e s'' ∨
      ∃ a s', x.run s = .ok a s' ∧ (f a).run s' = .error e s'' := by
  simp only [bind, EStateM.bind, EStateM.run]
  cases x s <;> simp

theorem pure_ok {s s' : σ} {a b : α} :
    (pure a : EStateM ε σ α).run s = .ok b s' ↔ b = a ∧ s' = s := by
  simp [pure, EStateM.pure, EStateM.run, eq_comm]

theorem map_ok {x : EStateM ε σ α} {f : α → β} {s s' : σ} {b : β} :
    (f <$> x).run s = .ok b s' ↔ ∃ a, x.run s = .ok a s' ∧ f a = b := by
  simp only [Functor.map, EStateM.map, EStateM.run]
  cases x s <;> simp [and_comm]

theorem map_error {x : EStateM ε σ α} {f : α → β} {s s' : σ} {e : ε} :
    (f <$> x).run s = .error e s' ↔ x.run s = .error e s' := by
  simp only [Functor.map, EStateM.map, EStateM.run]
  cases x s <;> simp

theorem pure_error {s s' : σ} {a : α} {e : ε} :
    ¬ (pure a : EStateM ε σ α).run s = .error e s' := by
  simp [pure, EStateM.pure, EStateM.run]

theorem throw_ok {s s' : σ} {e : ε} {a : α} :
    ¬ (throw e : EStateM ε σ α).run s = .ok a s' := by
  simp [throw, throwThe, MonadExceptOf.throw, EStateM.throw, EStateM.run]

theorem tryCatch_ok {x : EStateM ε σ α} {h : ε → EStateM ε σ α} {s s' : σ} {a : α} :
    (tryCatch x h).run s = .ok a s' ↔
      x.run s = .ok a s' ∨ ∃ e s'', x.run s = .error e s'' ∧ (h e).run s'' = .ok a s' := by
  simp only [tryCatch, tryCatchThe, MonadExceptOf.tryCatch, EStateM.tryCatch, EStateM.run]
  cases x s <;> simp [EStateM.Backtrackable.restore, EStateM.dummyRestore]

end Raising
