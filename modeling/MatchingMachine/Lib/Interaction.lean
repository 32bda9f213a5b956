import Mathlib

/-!
# Programs that call back into their environment

An `Interaction` is the tree of a sequential program that now and then hands control to its
environment: it returns, or it makes a call and goes on with the memory the environment
gives back, or it has exhausted the bound of one of its loops.  The environment is not part
of the tree, so one program can be run against a fixed handler, compared between two
handlers, or kept suspended at a call while another thread works.

* `loop` is a bounded loop with `break`, for any monad;
* `run` executes an interaction against a handler that sees the calls made so far, and
  `exec` against one that leaves the memory alone;
* `wp` is total correctness under a protocol: what the program guarantees at each call and
  what it relies on when the call returns.  `wp_bind`, `wp_loop` and `wp_call` are its rules
  and `run_of_wp` connects it with `run`;
* `within` says what the program may do to the memory between two calls, with rules of the same
  form.
-/

/-- A program over memory `σ` that makes calls `α` and returns a `β`.  A call records the
memory at the time of the call; `stuck` is an exhausted loop bound. -/
inductive Interaction (α σ β : Type) where
  | ret (b : β)
  | call (a : α) (s : σ) (k : σ → Interaction α σ β)
  | stuck

/-- Run `body` until it leaves the loop with `.done`, for at most `n` rounds; `out` is the
outcome when the bound is too small. -/
def loop {m : Type → Type} [Monad m] {σ : Type} (out : m σ) (body : σ → m (ForInStep σ)) :
    Nat → σ → m σ
  | 0, _ => out
  | n + 1, s => do
      match ← body s with
      | .done s' => pure s'
      | .yield s' => loop out body n s'

namespace Interaction

variable {α σ β γ : Type}

/-- Sequencing. -/
def bind : Interaction α σ β → (β → Interaction α σ γ) → Interaction α σ γ
  | ret b, f => f b
  | call a s k, f => call a s fun s' => (k s').bind f
  | stuck, _ => stuck

instance : Monad (Interaction α σ) where
  pure := ret
  bind := bind

@[simp] theorem pure_eq (b : β) : (pure b : Interaction α σ β) = ret b := rfl

@[simp] theorem ret_bind (b : β) (f : β → Interaction α σ γ) : (ret b >>= f) = f b := rfl

@[simp] theorem call_bind (a : α) (s : σ) (k : σ → Interaction α σ β)
    (f : β → Interaction α σ γ) :
    (call a s k >>= f) = call a s fun s' => k s' >>= f := rfl

@[simp] theorem stuck_bind (f : β → Interaction α σ γ) :
    ((stuck : Interaction α σ β) >>= f) = stuck := rfl

/-! ## Running against a handler -/

/-- Execute a program.  The handler answers a call with the memory to go on with; it sees
the calls made before.  The result is the list of all calls and the returned value. -/
def run (handler : List α → α → σ → σ) : List α → Interaction α σ β → Option (List α × β)
  | log, ret b => some (log, b)
  | log, call a s k => run handler (log ++ [a]) (k (handler log a s))
  | _, stuck => none

/-- Execute a program whose calls return the memory unchanged. -/
def exec : Interaction α σ β → Option β
  | ret b => some b
  | call _ s k => exec (k s)
  | stuck => none

@[simp] theorem exec_ret (b : β) : (ret b : Interaction α σ β).exec = some b := rfl

@[simp] theorem exec_call (a : α) (s : σ) (k : σ → Interaction α σ β) :
    (call a s k).exec = (k s).exec := rfl

theorem run_inert (log : List α) (p : Interaction α σ β) :
    (run (fun _ _ s => s) log p).map Prod.snd = p.exec := by
  induction p generalizing log with
  | ret b => rfl
  | call a s k ih => exact ih s _
  | stuck => rfl

theorem exec_bind (p : Interaction α σ β) (f : β → Interaction α σ γ) :
    (p >>= f).exec = p.exec.bind fun b => (f b).exec := by
  induction p with
  | ret b => rfl
  | call a s k ih => exact ih s
  | stuck => rfl

/-- Map the state a round of a loop ends in. -/
def mapStep {σ' : Type} (g : σ' → σ) : ForInStep σ' → ForInStep σ
  | .done s => .done (g s)
  | .yield s => .yield (g s)

/-- Two loops go in lockstep if their bodies do, up to a map `g` between their states. -/
theorem exec_loop {σ' : Type} (g : σ' → σ) {body : σ → Interaction α σ (ForInStep σ)}
    {body' : σ' → Option (ForInStep σ')}
    (hBody : ∀ s, (body (g s)).exec = (body' s).map (mapStep g)) (n : Nat) (s : σ') :
    (loop stuck body n (g s)).exec = (loop none body' n s).map g := by
  induction n generalizing s with
  | zero => rfl
  | succ n ih =>
      rw [loop, exec_bind, hBody, loop]
      cases hs : body' s with
      | none => rfl
      | some r =>
          cases r with
          | done s' => rfl
          | yield s' => exact ih s'

/-- What one round of a loop with outcome in `Option` owes: it leaves with the postcondition, or
goes on with the invariant and a smaller measure. -/
def stepPost (inv Q : σ → Prop) (measure : σ → Nat) (s : σ) : ForInStep σ → Prop
  | .done s' => Q s'
  | .yield s' => inv s' ∧ measure s' < measure s

/-- Two loops that do the same, up to a map `g` between their states, end in the same state
whatever their bounds are, as long as these exceed the measure. -/
theorem loop_map {σ' : Type} (g : σ → σ') (inv : σ → Prop) {Q : σ → Prop} (measure : σ → Nat)
    {body : σ → Option (ForInStep σ)} {body' : σ' → Option (ForInStep σ')}
    (hBody : ∀ s, inv s → ∃ r, body s = some r ∧ body' (g s) = some (mapStep g r) ∧
      stepPost inv Q measure s r)
    {n n' : Nat} {s : σ} (hn : measure s < n) (hn' : measure s < n') (hs : inv s) :
    ∃ t, loop none body n s = some t ∧ loop none body' n' (g s) = some (g t) ∧ Q t := by
  induction n generalizing s n' with
  | zero => exact absurd hn (Nat.not_lt_zero _)
  | succ n ih =>
      obtain ⟨n', rfl⟩ := Nat.exists_eq_succ_of_ne_zero (Nat.ne_zero_of_lt hn')
      obtain ⟨r, hr, hr', hPost⟩ := hBody s hs
      cases r with
      | done t =>
          refine ⟨t, ?_, ?_, hPost⟩
          · rw [loop, hr]
            rfl
          · rw [loop, hr']
            rfl
      | yield t =>
          obtain ⟨u, hu, hu', hQ⟩ := ih (lt_of_lt_of_le hPost.2 (Nat.lt_succ_iff.mp hn))
            (lt_of_lt_of_le hPost.2 (Nat.lt_succ_iff.mp hn')) hPost.1
          refine ⟨u, ?_, ?_, hQ⟩
          · rw [loop, hr]
            exact hu
          · rw [loop, hr']
            exact hu'

/-! ## Total correctness under a protocol -/

/-- What a program and its environment owe each other at a call: `guar log a s` holds when
the program makes call `a` with memory `s` after the calls `log`, and the environment may
then go on with any `s'` such that `rely log a s s'`. -/
structure Protocol (α σ : Type) where
  guar : List α → α → σ → Prop
  rely : List α → α → σ → σ → Prop

/-- The program, having made the calls `log`, keeps its guarantee at every call, terminates
whatever the environment does within the protocol, and returns a value satisfying `Q`. -/
def wp (P : Protocol α σ) (Q : List α → β → Prop) : List α → Interaction α σ β → Prop
  | log, ret b => Q log b
  | log, call a s k => P.guar log a s ∧ ∀ s', P.rely log a s s' → wp P Q (log ++ [a]) (k s')
  | _, stuck => False

variable {P : Protocol α σ}

@[simp] theorem wp_ret {Q : List α → β → Prop} {log : List α} {b : β} :
    wp P Q log (ret b) ↔ Q log b := Iff.rfl

@[simp] theorem wp_call {Q : List α → β → Prop} {log : List α} {a : α} {s : σ}
    {k : σ → Interaction α σ β} :
    wp P Q log (call a s k) ↔
      P.guar log a s ∧ ∀ s', P.rely log a s s' → wp P Q (log ++ [a]) (k s') := Iff.rfl

theorem wp_mono {Q Q' : List α → β → Prop} (hQ : ∀ log b, Q log b → Q' log b)
    {p : Interaction α σ β} {log : List α} (h : wp P Q log p) : wp P Q' log p := by
  induction p generalizing log with
  | ret b => exact hQ log b h
  | call a s k ih => exact ⟨h.1, fun s' hs' => ih s' (h.2 s' hs')⟩
  | stuck => exact h

theorem wp_bind {Q : List α → γ → Prop} {p : Interaction α σ β} {f : β → Interaction α σ γ}
    {log : List α} (h : wp P (fun log' b => wp P Q log' (f b)) log p) :
    wp P Q log (p >>= f) := by
  induction p generalizing log with
  | ret b => exact h
  | call a s k ih => exact ⟨h.1, fun s' hs' => ih s' (h.2 s' hs')⟩
  | stuck => exact h

/-- What one round of a loop owes: it leaves with the postcondition, or goes on with the
invariant and a smaller measure. -/
def roundPost (inv Q : List α → σ → Prop) (measure : σ → Nat) (s : σ) :
    List α → ForInStep σ → Prop
  | log, .done s' => Q log s'
  | log, .yield s' => inv log s' ∧ measure s' < measure s

/-- The loop rule: an invariant that every round keeps or leaves with the postcondition,
and a measure that every continuing round decreases. -/
theorem wp_loop (inv : List α → σ → Prop) (measure : σ → Nat) {Q : List α → σ → Prop}
    {body : σ → Interaction α σ (ForInStep σ)}
    (hBody : ∀ log s, inv log s → wp P (roundPost inv Q measure s) log (body s))
    {n : Nat} {s : σ} {log : List α} (hn : measure s < n) (hs : inv log s) :
    wp P Q log (loop stuck body n s) := by
  induction n generalizing s log with
  | zero => exact absurd hn (Nat.not_lt_zero _)
  | succ n ih =>
      refine wp_bind (wp_mono (fun log' r hr => ?_) (hBody log s hs))
      cases r with
      | done s' => exact hr
      | yield s' => exact ih (lt_of_lt_of_le hr.2 (Nat.lt_succ_iff.mp hn)) hr.1

/-- A program that is correct under a protocol terminates against every handler that
respects it. -/
theorem run_of_wp {handler : List α → α → σ → σ} {Q : List α → β → Prop}
    (hRely : ∀ log a s, P.guar log a s → P.rely log a s (handler log a s))
    {p : Interaction α σ β} {log : List α} (h : wp P Q log p) :
    ∃ log' b, run handler log p = some (log', b) ∧ Q log' b := by
  induction p generalizing log with
  | ret b => exact ⟨log, b, rfl, h⟩
  | call a s k ih => exact ih _ (h.2 _ (hRely log a s h.1))
  | stuck => exact h.elim

/-! ## Work between two calls -/

/-- Every stretch of the program, from its start or the return of a call to the next call or
the end, takes the memory from `s₀` to `s` with `R s₀ s`, whatever memory a call gives back.
`memory` is the memory a result carries. -/
def within (R : σ → σ → Prop) (memory : β → σ) : σ → Interaction α σ β → Prop
  | s₀, ret b => R s₀ (memory b)
  | s₀, call _ s k => R s₀ s ∧ ∀ s', within R memory s' (k s')
  | _, stuck => True

variable {R : σ → σ → Prop} [IsTrans σ R] {memory : β → σ}

/-- A stretch may start earlier. -/
theorem within_trans {s₀ s : σ} {p : Interaction α σ β} (h : R s₀ s)
    (hp : within R memory s p) : within R memory s₀ p := by
  cases p with
  | ret b => exact IsTrans.trans _ _ _ h hp
  | call a s' k => exact ⟨IsTrans.trans _ _ _ h hp.1, hp.2⟩
  | stuck => trivial

theorem within_bind {memory' : γ → σ} {s₀ : σ} {p : Interaction α σ β}
    {f : β → Interaction α σ γ} (hp : within R memory s₀ p)
    (hf : ∀ b, within R memory' (memory b) (f b)) : within R memory' s₀ (p >>= f) := by
  induction p generalizing s₀ with
  | ret b => exact within_trans hp (hf b)
  | call a s k ih => exact ⟨hp.1, fun s' => ih s' (hp.2 s')⟩
  | stuck => trivial

theorem within_loop (hRefl : ∀ s, R s s) {body : σ → Interaction α σ (ForInStep σ)}
    (hBody : ∀ s, within R ForInStep.value s (body s)) (n : Nat) (s : σ) :
    within R id s (loop stuck body n s) := by
  induction n generalizing s with
  | zero => trivial
  | succ n ih =>
      refine within_bind (hBody s) fun r => ?_
      cases r with
      | done s' => exact hRefl s'
      | yield s' => exact ih s'

/-- From `s` to `t` the invariant is not lost. -/
def Keeps (I : σ → Prop) (s t : σ) : Prop := I s → I t

instance keepsTrans (I : σ → Prop) : IsTrans σ (Keeps I) := ⟨fun _ _ _ h h' hs => h' (h hs)⟩

/-- If every stretch of a program and the handler keep an invariant, a run ends with it. -/
theorem run_keeps {I : σ → Prop} {handler : List α → α → σ → σ}
    (hHandler : ∀ log a s, I s → I (handler log a s)) {p : Interaction α σ β} {s₀ : σ}
    (hp : within (Keeps I) memory s₀ p) (hs : I s₀) {log log' : List α} {b : β}
    (hRun : run handler log p = some (log', b)) : I (memory b) := by
  induction p generalizing s₀ log with
  | ret b' =>
      obtain ⟨-, rfl⟩ : log = log' ∧ b' = b := by simpa [run] using hRun
      exact hp hs
  | call a s k ih => exact ih _ (hp.2 _) (hHandler log a s (hp.1 hs)) hRun
  | stuck => cases hRun

/-- The same for calls that return the memory unchanged. -/
theorem exec_keeps {I : σ → Prop} {p : Interaction α σ β} {s₀ : σ}
    (hp : within (Keeps I) memory s₀ p) (hs : I s₀) {b : β} (hExec : p.exec = some b) :
    I (memory b) := by
  rw [← run_inert []] at hExec
  obtain ⟨⟨log, _⟩, hRun, rfl⟩ := Option.map_eq_some_iff.mp hExec
  exact run_keeps (fun _ _ _ h => h) hp hs hRun

/-! ## The last call -/

/-- No call is the call `a₀`, as long as the calls give back memory with `I`. -/
def avoids (I : σ → Prop) (a₀ : α) (memory : β → σ) : Interaction α σ β → Prop
  | ret b => I (memory b)
  | call a _ k => a ≠ a₀ ∧ ∀ s', I s' → avoids I a₀ memory (k s')
  | stuck => True

/-- After the call `a₀` the program returns the memory it is given back and does nothing else,
as long as the calls before give back memory with `I`. -/
def lastCall (I : σ → Prop) (a₀ : α) : Interaction α σ σ → Prop
  | ret _ => True
  | call a _ k =>
      (a = a₀ → ∀ s', k s' = ret s') ∧ (a ≠ a₀ → ∀ s', I s' → lastCall I a₀ (k s'))
  | stuck => True

variable {I : σ → Prop} {a₀ : α}

theorem avoids_bind {memory' : γ → σ} {p : Interaction α σ β} {f : β → Interaction α σ γ}
    (hp : avoids I a₀ memory p) (hf : ∀ b, I (memory b) → avoids I a₀ memory' (f b)) :
    avoids I a₀ memory' (p >>= f) := by
  induction p with
  | ret b => exact hf b hp
  | call a s k ih => exact ⟨hp.1, fun s' hs' => ih s' (hp.2 s' hs')⟩
  | stuck => trivial

theorem avoids_loop {body : σ → Interaction α σ (ForInStep σ)}
    (hBody : ∀ s, I s → avoids I a₀ ForInStep.value (body s)) (n : Nat) {s : σ} (hs : I s) :
    avoids I a₀ id (loop stuck body n s) := by
  induction n generalizing s with
  | zero => trivial
  | succ n ih =>
      refine avoids_bind (hBody s hs) fun r hr => ?_
      cases r with
      | done s' => exact hr
      | yield s' => exact ih hr

/-- Something without the call, followed by something that ends with it. -/
theorem lastCall_bind {p : Interaction α σ β} {f : β → Interaction α σ σ}
    (hp : avoids I a₀ memory p) (hf : ∀ b, I (memory b) → lastCall I a₀ (f b)) :
    lastCall I a₀ (p >>= f) := by
  induction p with
  | ret b => exact hf b hp
  | call a s k ih => exact ⟨fun hEq => absurd hEq hp.1, fun _ s' hs' => ih s' (hp.2 s' hs')⟩
  | stuck => trivial

end Interaction
