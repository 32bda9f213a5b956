import MatchingMachine.Lib.Fairness
import MatchingMachine.Pipeline.Work

/-!
# Every fair run ends or exhausts the pool

`Pipeline.Progress` is about single states: unless the book holds all slots, a thread has a way
out.  A way out can be missed while the other thread takes its turns, and both loops spin, so that
alone does not bring a run to its end.  With the measure of `Pipeline.Work` it does, for every
schedule that gives each thread its turn again and again (`fairRun_exits`).
-/

namespace MatchingMachine

/-- The thread that makes a step. -/
inductive Worker
  | producer
  | consumer

def PipelineAction.worker : PipelineAction → Worker
  | .producer _ _ => .producer
  | .consumer _ => .consumer

namespace Pipeline

variable {config : RunConfig} {cap : Nat} {buf : TradeRingBuffer kTradeBufBits} {p p' : Pipeline}

/-! ## When the pool is used up -/

/-- All slots rest in the book, both queues are empty and both threads wait. -/
structure Exhausted (cap : Nat) (p : Pipeline) : Prop where
  waits : p.waitsForSlot = true
  polls : p.consumer = .pop ∨ p.consumer = .loadDone
  orders : p.orderQueue = []
  returns : p.returnQueue = []
  resting : p.resting.Perm (List.range cap)

theorem Exhausted.freeSlots_eq (hExhausted : p.Exhausted cap) (h : p.Inv config cap buf) :
    p.pool.freeSlots = [] := by
  have hSlots := h.slots_length
  have hResting := hExhausted.resting.length_eq
  rw [List.length_range] at hResting
  exact List.length_eq_zero_iff.mp (by omega)

/-- A producer that waits for a slot has not finished the stream. -/
theorem Inv.of_waitsForSlot (h : p.Inv config cap buf) (hWaits : p.waitsForSlot = true) :
    (p.producer = .drain .slotWait ∨ p.producer = .allocate) ∧ p.producerDone = false := by
  have hAt := h.producerAt
  unfold waitsForSlot at hWaits
  split at hWaits
  · rename_i hEq
    rw [hEq] at hAt
    exact ⟨Or.inl hEq, hAt.2⟩
  · rename_i hEq
    rw [hEq] at hAt
    exact ⟨Or.inr hEq, hAt.2⟩
  · exact nomatch hWaits

/-- Nothing happens any more. -/
theorem Exhausted.perform (hExhausted : p.Exhausted cap) (h : p.Inv config cap buf)
    {a : PipelineAction} (hStep : p.perform a = some p') : p'.Exhausted cap := by
  obtain ⟨hPc, hDone⟩ := h.of_waitsForSlot hExhausted.waits
  cases a with
  | producer d now =>
      change p.producerStep d now = some p' at hStep
      rcases hPc with hPc | hPc
      · have hp' : p' = { p with producer := .allocate } := by
          simp only [producerStep, hPc, drain, hExhausted.returns, tryPop, afterDrain] at hStep
          rw [← hExhausted.returns] at hStep
          exact (Option.some.inj hStep).symm
        rw [hp']
        exact { hExhausted with waits := rfl }
      · have hp' : p' = { p with producer := .drain .slotWait } := by
          have hFree := h.freeList
          rw [hExhausted.freeSlots_eq h] at hFree
          simp only [producerStep, hPc, allocate, hFree.allocate_nil] at hStep
          exact (Option.some.inj hStep).symm
        rw [hp']
        exact { hExhausted with waits := rfl }
  | consumer now =>
      change p.consumerStep now = some p' at hStep
      rcases hExhausted.polls with hPolls | hPolls
      · have hp' : p' = { p with consumer := .loadDone } := by
          simp only [consumerStep, hPolls, popOrder, hExhausted.orders, tryPop] at hStep
          rw [← hExhausted.orders] at hStep
          exact (Option.some.inj hStep).symm
        rw [hp']
        exact { hExhausted with polls := Or.inr rfl }
      · have hp' : p' = { p with consumer := .pop } := by
          rw [consumerStep, hPolls] at hStep
          obtain rfl := Option.some.inj hStep
          rw [loadProducerDone, if_neg (Bool.eq_false_iff.mp hDone)]
        rw [hp']
        exact { hExhausted with polls := Or.inl rfl }

/-! ## Fair schedules -/

/-- The number of steps a thread with a way out may take without getting anything done. -/
def turns (p : Pipeline) : Worker → Option Nat
  | .producer =>
      if p.producerProceeds then some (if p.producerIdles then 1 else 0) else none
  | .consumer =>
      if p.consumerProceeds then some (if p.consumerIdles then 1 else 0) else none

theorem turns_producer {k : Nat} (hTurns : p.turns .producer = some k) :
    p.producerProceeds = true ∧ k = if p.producerIdles then 1 else 0 := by
  change (if p.producerProceeds then some (if p.producerIdles then 1 else 0) else none) = some k
    at hTurns
  by_cases hOut : p.producerProceeds = true
  · rw [if_pos hOut] at hTurns
    exact ⟨hOut, (Option.some.inj hTurns).symm⟩
  · rw [if_neg hOut] at hTurns
    exact nomatch hTurns

theorem turns_consumer {k : Nat} (hTurns : p.turns .consumer = some k) :
    p.consumerProceeds = true ∧ k = if p.consumerIdles then 1 else 0 := by
  change (if p.consumerProceeds then some (if p.consumerIdles then 1 else 0) else none) = some k
    at hTurns
  by_cases hOut : p.consumerProceeds = true
  · rw [if_pos hOut] at hTurns
    exact ⟨hOut, (Option.some.inj hTurns).symm⟩
  · rw [if_neg hOut] at hTurns
    exact nomatch hTurns

/-- A turn of the producer's waiting loop does not change what the consumer may do. -/
theorem ProducerTurns.turns_le (h : p.ProducerTurns p') {t : Worker} {k : Nat}
    (hTurns : p.turns t = some k) :
    ∃ k', p'.turns t = some k' ∧ k' ≤ k ∧ (Worker.producer = t → k' < k) := by
  obtain ⟨hIdles, ⟨pc, hp'⟩, -, hOut⟩ := h
  cases t with
  | producer =>
      obtain ⟨hProceeds, rfl⟩ := turns_producer hTurns
      obtain ⟨hProceeds', hIdles'⟩ := hOut hProceeds
      refine ⟨0, ?_, Nat.zero_le _, fun _ => ?_⟩
      · simp [turns, hProceeds', hIdles']
      · simp [hIdles]
  | consumer =>
      refine ⟨k, ?_, le_rfl, nofun⟩
      rw [← hTurns, hp']
      rfl

theorem ConsumerTurns.turns_le (h : p.ConsumerTurns p') {t : Worker} {k : Nat}
    (hTurns : p.turns t = some k) :
    ∃ k', p'.turns t = some k' ∧ k' ≤ k ∧ (Worker.consumer = t → k' < k) := by
  obtain ⟨hIdles, ⟨pc, hp'⟩, -, hOut⟩ := h
  cases t with
  | producer =>
      refine ⟨k, ?_, le_rfl, nofun⟩
      rw [← hTurns, hp']
      rfl
  | consumer =>
      obtain ⟨hProceeds, rfl⟩ := turns_consumer hTurns
      obtain ⟨hProceeds', hIdles'⟩ := hOut hProceeds
      refine ⟨0, ?_, Nat.zero_le _, fun _ => ?_⟩
      · simp [turns, hProceeds', hIdles']
      · simp [hIdles]

/-- A thread with a way out can make a step. -/
theorem perform_of_turns {a : PipelineAction} {k : Nat} (hTurns : p.turns a.worker = some k) :
    ∃ p', p.perform a = some p' := by
  cases a with
  | producer d now =>
      obtain ⟨hOut, -⟩ := turns_producer hTurns
      show ∃ p', p.producerStep d now = some p'
      unfold producerStep
      cases hPc : p.producer with
      | exited => simp [producerProceeds, hPc] at hOut
      | _ => exact ⟨_, rfl⟩
  | consumer now =>
      obtain ⟨hOut, -⟩ := turns_consumer hTurns
      show ∃ p', p.consumerStep now = some p'
      unfold consumerStep
      cases hPc : p.consumer with
      | exited => simp [consumerProceeds, hPc] at hOut
      | stuck => simp [consumerProceeds, hPc] at hOut
      | _ => exact ⟨_, rfl⟩

/-- Unless both threads have exited or the pool is used up, one of them has a way out. -/
theorem Inv.someone (h : p.Inv config cap buf) (hEnd : ¬ (p.exited = true ∨ p.Exhausted cap)) :
    ∃ t k, p.turns t = some k := by
  cases hProducer : p.producerProceeds with
  | true => exact ⟨.producer, _, if_pos hProducer⟩
  | false =>
      cases hConsumer : p.consumerProceeds with
      | true => exact ⟨.consumer, _, if_pos hConsumer⟩
      | false =>
          have hExit : p.exited = false := Bool.eq_false_iff.mpr fun hExit => hEnd (Or.inl hExit)
          obtain ⟨hSlot, hPc, hOrders, hReturns, hFree⟩ := h.stuck_spec hExit hProducer hConsumer
          obtain ⟨hRest, -⟩ := h.resting_of_stuck hSlot hPc hOrders hReturns hFree
          exact absurd (Or.inr ⟨hSlot, hPc, hOrders, hReturns, hRest⟩) hEnd

/-- The two threads keep the pipeline going. -/
def progress (config : RunConfig) (cap : Nat) (buf : TradeRingBuffer kTradeBufBits) :
    Fairness.Progress PipelineAction.worker perform (Inv config cap buf)
      (fun p => p.exited = true ∨ p.Exhausted cap) where
  work := work
  turns t p := p.turns t
  inv p a p' h hStep := h.perform hStep
  step p a p' h hStep := by
    cases a with
    | producer d now =>
        rcases h.producerStep_work hStep with hLess | hTurn
        · exact Or.inl hLess
        · exact Or.inr ⟨hTurn.2.2.1, fun t k hTurns => hTurn.turns_le hTurns⟩
    | consumer now =>
        rcases h.consumerStep_work hStep with hLess | hTurn
        · exact Or.inl hLess
        · exact Or.inr ⟨hTurn.2.2.1, fun t k hTurns => hTurn.turns_le hTurns⟩
  possible p a k h hTurns := perform_of_turns hTurns
  someone p h hEnd := h.someone hEnd

/-- Threads that have exited make no step. -/
theorem perform_exited (hExit : p.exited = true) (a : PipelineAction) : p.perform a = none := by
  obtain ⟨hProducer, hConsumer⟩ := exited_eq hExit
  cases a with
  | producer d now =>
      show p.producerStep d now = none
      rw [producerStep, hProducer]
  | consumer now =>
      show p.consumerStep now = none
      rw [consumerStep, hConsumer]

end Pipeline

/-! ## Every fair run -/

section Run

open Fairness

variable {cap : Nat} {e : MatchingEngine} {config : RunConfig} {consumer producer : ThreadId}
  {p₀ : Pipeline} {schedule : Nat → PipelineAction}

/-- However the threads take turns, as long as each gets its turn again and again, both exit with
every order of the stream consumed and nothing left in a queue.  The only other end is that the
pool has fewer slots than there are orders and the book comes to hold them all; then the threads
spin for ever. -/
theorem fairRun_exits (hPos : 0 < cap) (hLt : cap < 2 ^ 64) (he : Idle cap e)
    (hStart : e.start config (some consumer) (some producer) = .started p₀)
    (hFair : Fair PipelineAction.worker schedule) :
    (∃ n, ∀ m, n ≤ m →
      (stateAt Pipeline.perform schedule p₀ m).exited = true ∧
      (stateAt Pipeline.perform schedule p₀ m).consumedCount = config.orderCount ∧
      (stateAt Pipeline.perform schedule p₀ m).orderQueue = [] ∧
      (stateAt Pipeline.perform schedule p₀ m).returnQueue = []) ∨
    (cap < config.orderCount ∧
      ∃ n, ∀ m, n ≤ m → (stateAt Pipeline.perform schedule p₀ m).Exhausted cap) := by
  have hNone : p₀.performAll [] = some p₀ := rfl
  obtain ⟨h₀, -⟩ := he.inv hPos hLt hStart hNone
  have hInv : ∀ n, (stateAt Pipeline.perform schedule p₀ n).Inv config cap p₀.mem.buf :=
    fun n => stateAt_inv (fun p a p' h hStep => h.perform hStep) h₀ n
  obtain ⟨n, hEnd⟩ := (Pipeline.progress config cap p₀.mem.buf).eventually h₀ hFair
  have h := hInv n
  rcases hEnd with hExit | hExhausted
  · left
    refine ⟨n, fun m hm => ?_⟩
    obtain ⟨d, rfl⟩ := Nat.exists_eq_add_of_le hm
    -- both threads have exited: no later step is possible
    have hSame : stateAt Pipeline.perform schedule p₀ (n + d) =
        stateAt Pipeline.perform schedule p₀ n := by
      induction d with
      | zero => rfl
      | succ d ih =>
          rw [← Nat.add_assoc, stateAt, ih (by omega), follow, Pipeline.perform_exited hExit]
          rfl
    rw [hSame]
    obtain ⟨-, -, hQueue, hReturns⟩ := h.exited_spec hExit
    exact ⟨hExit, h.consumed_of_exited hExit, hQueue, hReturns⟩
  · right
    obtain ⟨-, hLess⟩ := h.resting_of_stuck hExhausted.waits hExhausted.polls hExhausted.orders
      hExhausted.returns (hExhausted.freeSlots_eq h)
    refine ⟨hLess, n, fun m hm => ?_⟩
    obtain ⟨d, rfl⟩ := Nat.exists_eq_add_of_le hm
    -- the threads turn for ever, and every turn keeps the state exhausted
    induction d with
    | zero => exact hExhausted
    | succ d ih =>
        have hPrev := ih (by omega)
        rw [← Nat.add_assoc, stateAt, follow]
        cases hPerform : Pipeline.perform (stateAt Pipeline.perform schedule p₀ (n + d))
            (schedule (n + d)) with
        | none => exact hPrev
        | some p' => exact hPrev.perform (hInv _) hPerform

/-- The threads of the crossing run, one after the other. -/
def takingTurns (n : Nat) : PipelineAction :=
  if n % 2 = 0 then .producer { buy := n % 4 = 0 } 7 else .consumer 9

theorem fair_takingTurns : Fair PipelineAction.worker takingTurns := by
  intro t n
  cases t with
  | producer =>
      refine ⟨2 * n, by omega, ?_⟩
      rw [takingTurns, if_pos (by omega)]
      rfl
  | consumer =>
      refine ⟨2 * n + 1, by omega, ?_⟩
      rw [takingTurns, if_neg (by omega)]
      rfl

/-- Two slots are enough for two orders. -/
theorem fairRun_exits_crossing :
    (∃ n, ∀ m, n ≤ m →
      (stateAt Pipeline.perform takingTurns crossingStart m).exited = true ∧
      (stateAt Pipeline.perform takingTurns crossingStart m).consumedCount = 2 ∧
      (stateAt Pipeline.perform takingTurns crossingStart m).orderQueue = [] ∧
      (stateAt Pipeline.perform takingTurns crossingStart m).returnQueue = []) ∨
    (2 < 2 ∧ ∃ n, ∀ m, n ≤ m →
      (stateAt Pipeline.perform takingTurns crossingStart m).Exhausted 2) :=
  fairRun_exits (by decide) (by decide) .new rfl fair_takingTurns

end Run

end MatchingMachine
