import MatchingMachine.Baseline.StarterSteps

/-!
# The mutex baseline loses no wake-up and no order

Along a run of any length and interleaving, and no thread waits for a notification that does not
come.
-/

namespace MatchingMachine

namespace MutexMatchingEngine

variable {s s' : MutexMatchingEngine} {n : Nat}

/-! ## Runs -/

theorem Inv.perform (h : s.Inv n) {a : Action} (hStep : s.perform a = some s') : s'.Inv n := by
  cases a with
  | starter created => exact h.starterStep hStep
  | producer d now => exact h.producerStep hStep
  | consumer tPop now tDone => exact h.consumerStep hStep
  | wake =>
      rw [MutexMatchingEngine.perform] at hStep
      split at hStep
      case isTrue hBlocked =>
        obtain rfl := Option.some.inj hStep
        exact h.wake hBlocked
      case isFalse => cases hStep

theorem Inv.performAll (h : s.Inv n) {actions : List Action} (hRun : s.performAll actions = some s') :
    s'.Inv n := by
  induction actions generalizing s with
  | nil =>
      obtain rfl := Option.some.inj hRun
      exact h
  | cons a actions ih =>
      obtain ⟨s₁, hStep, hRun⟩ := Option.bind_eq_some_iff.mp hRun
      exact ih (h.perform hStep) hRun

/-- The orders that were produced, oldest first. -/
def produced (s : MutexMatchingEngine) : List OrderPtr := List.range (s.producer.generated s.i)

/-- When both threads have ended, the orders were processed as they were produced. -/
theorem Inv.processed_eq (h : s.Inv n) (hExited : s.exited) : s.processed = s.produced := by
  obtain ⟨hProducer, hConsumer⟩ := hExited
  have hKnown := h.known
  have hStream := h.stream (by simp [hConsumer])
  simp only [hConsumer, ConsumerPc.KnownAt] at hKnown
  rcases hProducer with hProducer | hProducer <;>
    simpa [produced, hConsumer, hProducer, hKnown.1] using hStream

theorem Inv.produced_eq (h : s.Inv n) (hProducer : s.producer = .exited) :
    s.produced = List.range n := by
  have hRound := h.round
  simp only [hProducer, ProducerPc.RoundAt] at hRound
  simp [produced, hProducer, hRound, h.count]

/-- In every state of a run: a consumer that is blocked while there is an order in the queue, or while
the flag is set, has the notification still coming to it; and when both threads have ended, the
orders have been processed as they were produced. -/
theorem losesNothing (hBegins : s.Begins) {actions : List Action}
    (hRun : s.performAll actions = some s') :
    (s'.consumer = .blocked → s'.sharedQueue ≠ [] → s'.producer.notifiesOrder = true) ∧
      (s'.consumer = .blocked → s'.producerDone = true →
        s'.producer.notifiesDone = true ∨ s'.starter.notifiesDone = true) ∧
      (s'.exited → s'.processed = s'.produced) ∧
      (s'.producer = .exited → s'.produced = List.range s.config.orderCount) := by
  have h := hBegins.inv.performAll hRun
  constructor
  · exact h.orderAhead
  constructor
  · exact h.doneAhead
  constructor
  · exact h.processed_eq
  · exact h.produced_eq

/-- An engine with what an earlier run may have left, and a run of three orders. -/
def threeOrders : MutexMatchingEngine where
  config := { symbol := [65], basePrice := 1000, orderCount := 3, orderCount_lt := by decide }
  sharedQueue := [7]
  producerDone := true
  running := false
  mem := { heap := fun _ => {}, book := {} }
  sim := { symbol := [], basePrice := 0 }

/-- The consumer waits and is notified of a sell order; before it has the lock, a buy order at the
same price is in the queue too.  What is left of that is cancelled. -/
def threeOrdersRun : List Action :=
  let starter : Action := .starter (some ⟨1, Nat.one_ne_zero⟩)
  let sell : Action := .producer { quantity := 2 } 17
  let buy : Action := .producer { buy := true, quantity := 4 } 18
  let cancel : Action := .producer { cancel := true, cancelId := 1 } 19
  let consumer : Action := .consumer 20 21 22
  List.replicate 7 starter ++ List.replicate 4 consumer ++ List.replicate 7 sell ++
    List.replicate 7 buy ++ List.replicate 10 consumer ++ List.replicate 7 cancel ++
    List.replicate 5 consumer ++ List.replicate 5 cancel ++ List.replicate 6 consumer ++
    [starter, starter]

theorem losesNothing_three_orders :
    ∃ s', threeOrders.performAll threeOrdersRun = some s' ∧ s'.exited ∧ s'.processed = [0, 1, 2] := by
  have hBegins : threeOrders.Begins := ⟨rfl, rfl, rfl, rfl, rfl, rfl, rfl⟩
  have hEnd : (threeOrders.performAll threeOrdersRun).any (fun s' =>
      decide (s'.producer = .exited ∧ s'.consumer = .exited)) = true := by
    decide +kernel
  rw [Option.any_eq_true] at hEnd
  obtain ⟨s', hRun, hPcs⟩ := hEnd
  obtain ⟨hProducer, hConsumer⟩ := of_decide_eq_true hPcs
  obtain ⟨-, -, hProcessed, hProduced⟩ := losesNothing hBegins hRun
  refine ⟨s', hRun, ⟨.inl hProducer, hConsumer⟩, ?_⟩
  rw [hProcessed ⟨.inl hProducer, hConsumer⟩, hProduced hProducer]
  rfl

/-! ## No thread waits forever -/

theorem exists_starterStep (h : s.starter.holdsLock = true) :
    ∃ s', s.starterStep none = some s' := by
  cases hPc : s.starter <;> simp [hPc] at h <;> simp [MutexMatchingEngine.starterStep, hPc]

theorem exists_producerStep (h : s.producer.holdsLock = true) (d : Draws) (now : UInt64) :
    ∃ s', s.producerStep d now = some s' := by
  cases hPc : s.producer <;> simp [hPc] at h <;> simp [MutexMatchingEngine.producerStep, hPc]

theorem exists_consumerStep (h : s.consumer.holdsLock = true) (tPop now tDone : UInt64) :
    ∃ s', s.consumerStep tPop now tDone = some s' := by
  cases hPc : s.consumer <;> simp [hPc] at h <;>
    simp [MutexMatchingEngine.consumerStep, hPc]
  cases s.sharedQueue <;> simp

/-- No thread can take a step; a spurious wake-up is not waited for. -/
structure Blocked (s : MutexMatchingEngine) : Prop where
  starter : ∀ created, s.starterStep created = none
  producer : ∀ d now, s.producerStep d now = none
  consumer : ∀ tPop now tDone, s.consumerStep tPop now tDone = none

theorem Inv.unlocked (h : s.Inv n) (hBlocked : s.Blocked) : s.queueMtx = none := by
  cases hMtx : s.queueMtx with
  | none => rfl
  | some t =>
      have hHolds := (h.mutex t).mpr hMtx
      cases t with
      | starter =>
          obtain ⟨s', hStep⟩ := exists_starterStep hHolds
          rw [hBlocked.starter] at hStep
          cases hStep
      | producer =>
          obtain ⟨s', hStep⟩ := exists_producerStep hHolds {} 0
          rw [hBlocked.producer] at hStep
          cases hStep
      | consumer =>
          obtain ⟨s', hStep⟩ := exists_consumerStep hHolds 0 0 0
          rw [hBlocked.consumer] at hStep
          cases hStep

theorem Inv.producer_of_blocked (h : s.Inv n) (hBlocked : s.Blocked) :
    s.producer = .notStarted ∨ s.producer = .exited := by
  have hFree := h.unlocked hBlocked
  have hStep := hBlocked.producer {} 0
  cases hPc : s.producer <;>
    simp [MutexMatchingEngine.producerStep, hPc, acquire, hFree] at hStep ⊢

theorem Inv.consumer_of_blocked (h : s.Inv n) (hBlocked : s.Blocked)
    (hBook : ∀ order, s.consumer ≠ .stuck order) :
    s.consumer = .notStarted ∨ s.consumer = .blocked ∨ s.consumer = .exited := by
  have hFree := h.unlocked hBlocked
  have hStep := hBlocked.consumer 0 0 0
  cases hPc : s.consumer
  case stuck order => exact absurd hPc (hBook order)
  case pop =>
    simp only [MutexMatchingEngine.consumerStep, hPc] at hStep
    split at hStep <;> cases hStep
  all_goals simp [MutexMatchingEngine.consumerStep, hPc, acquire, hFree] at hStep ⊢

/-- A consumer that waits when the flag is set can still be woken. -/
theorem Inv.not_waiting (h : s.Inv n) (hProducer : s.producer = .notStarted ∨ s.producer = .exited)
    (hDone : s.producer.storedDone = true ∨ s.starter.storedDone = true)
    (hStarter : s.starter.notifiesDone = false) : s.consumer ≠ .blocked := by
  intro hWaits
  have hSet := (h.done_iff (by simp [hWaits])).mpr hDone
  rcases h.doneAhead hWaits hSet with hAhead | hAhead
  · rcases hProducer with hPc | hPc <;> simp [hPc] at hAhead
  · rw [hStarter] at hAhead
    cases hAhead

/-- When no thread can go on, `start` has thrown or `stop` has returned. -/
theorem Inv.ended (h : s.Inv n) (hBlocked : s.Blocked)
    (hBook : ∀ order, s.consumer ≠ .stuck order) : s.starter = .thrown ∨ s.starter = .stopped := by
  have hFree := h.unlocked hBlocked
  have hProducer := h.producer_of_blocked hBlocked
  have hConsumer := h.consumer_of_blocked hBlocked hBook
  have hStep := hBlocked.starter none
  cases hPc : s.starter
  case thrown => exact .inl rfl
  case stopped => exact .inr rfl
  case joinStarted =>
    have hAwake := h.not_waiting hProducer (by simp [hPc]) (by simp [hPc])
    simp only [MutexMatchingEngine.starterStep, hPc] at hStep
    split at hStep
    case isTrue hThread =>
      have hRuns := h.consumerRuns hThread
      simp [hAwake, hRuns] at hConsumer
      simp [hConsumer] at hStep
    case isFalse => cases hStep
  case joinProducer =>
    have hExited := hProducer.resolve_left (h.lateRuns (by simp [hPc]))
    simp only [MutexMatchingEngine.starterStep, hPc, hExited] at hStep
    split at hStep <;> cases hStep
  case joinConsumer =>
    have hExited := hProducer.resolve_left (h.lateRuns (by simp [hPc]))
    have hAwake := h.not_waiting hProducer (by simp [hExited]) (by simp [hPc])
    simp only [MutexMatchingEngine.starterStep, hPc] at hStep
    split at hStep
    case isTrue hThread =>
      have hRuns := h.consumerRuns hThread
      simp [hAwake, hRuns] at hConsumer
      simp [hConsumer] at hStep
    case isFalse => cases hStep
  all_goals simp [MutexMatchingEngine.starterStep, hPc, acquire, hFree] at hStep

end MutexMatchingEngine

end MatchingMachine
