import MatchingMachine.Baseline.Consistency

/-!
# Every run of the mutex baseline ends

No thread of the baseline spins: a thread that has nothing to do waits for the lock, for a
notification or for another thread's end.  So every step gets the run closer to its end, apart from
a spurious wake-up, which costs the consumer another look at the queue (`Inv.work_lt`).  A run that
cannot go on has ended (`Inv.ended`), and hence all of them do.
-/

namespace MatchingMachine

namespace MutexMatchingEngine

/-! ## What is left to be done -/

/-- The steps of `start` and `stop`.  A notification may set the consumer going again, and creating
the threads adds what they have to do for `n` orders. -/
@[simp] def starterRank (n : Nat) : StarterPc → Nat
  | .checkRunning => 35 + 20 * n
  | .lockQueue => 34 + 20 * n
  | .popAll => 33 + 20 * n
  | .unlockQueue => 32 + 20 * n
  | .reset => 31 + 20 * n
  | .createConsumer => 30 + 20 * n
  | .createProducer => 23 + 20 * n
  | .lockDone => 11
  | .storeDone => 10
  | .unlockDone => 9
  | .notifyAll => 8
  | .joinProducer => 2
  | .joinStarted => 1
  | .joinConsumer => 1
  | .thrown => 0
  | .stopped => 0

/-- The steps of the producer with `left` orders still to be generated. -/
@[simp] def producerRank (left : Nat) : ProducerPc → Nat
  | .loop => 20 * left + 11
  | .generate => 20 * left + 10
  | .stamp _ => 20 * left + 9
  | .lock _ => 20 * left + 8
  | .push _ => 20 * left + 7
  | .unlock => 20 * left
  | .notifyOne => 20 * left - 1
  | .lockDone => 10
  | .storeDone => 9
  | .unlockDone => 8
  | .notifyAll => 7
  | .exited => 0
  | .notStarted => 0

/-- The steps of the consumer up to the end of its round. -/
@[simp] def consumerRank : ConsumerPc → Nat
  | .unlock _ => 8
  | .process _ => 7
  | .lock => 6
  | .relock => 6
  | .testEmpty => 5
  | .testDone => 4
  | .pop => 3
  | .unlockBreak => 2
  | .wait => 1
  | .clear => 1
  | .blocked => 0
  | .stuck _ => 0
  | .exited => 0
  | .notStarted => 0

/-- The measure.  An order in the queue is another round of the consumer; what an earlier run has
left there is not. -/
def work (s : MutexMatchingEngine) : Nat :=
  starterRank s.config.orderCount s.starter + producerRank (s.config.orderCount - s.i) s.producer +
    consumerRank s.consumer + if s.consumer = .notStarted then 0 else 6 * s.sharedQueue.length

variable {s s' : MutexMatchingEngine} {n : Nat}

@[simp] theorem sharedQueue_notify (s : MutexMatchingEngine) :
    s.notify.sharedQueue = s.sharedQueue := by
  unfold MutexMatchingEngine.notify
  split <;> rfl

/-- A notification is worth a wake-up. -/
theorem work_notify (s : MutexMatchingEngine) : s.notify.work ≤ s.work + 6 := by
  unfold MutexMatchingEngine.notify
  split
  case isTrue hBlocked =>
    have hRelock : consumerRank .relock = 6 := rfl
    have hNone : consumerRank .blocked = 0 := rfl
    simp only [work, hBlocked, hRelock, hNone, reduceCtorEq, if_false]
    omega
  case isFalse => omega

/-! ## Steps -/

theorem Inv.work_starterStep (h : s.Inv n) {created : Option ThreadId}
    (hStep : s.starterStep created = some s') : s'.work < s.work := by
  unfold MutexMatchingEngine.starterStep at hStep
  split at hStep
  case h_1 hPc =>
    obtain rfl := Option.some.inj hStep
    by_cases hRunning : s.running = true <;> simp [work, hPc, hRunning]
  case h_2 hPc | h_8 hPc =>
    obtain ⟨s₁, hAcquire, hStep⟩ := Option.bind_eq_some_iff.mp hStep
    obtain ⟨-, rfl⟩ := acquire_eq hAcquire
    obtain rfl := Option.some.inj hStep
    simp [work, hPc]
  case h_3 hPc =>
    obtain rfl := Option.some.inj hStep
    have hConsumer := h.early (by simp [hPc])
    simp [work, hPc, hConsumer]
  case h_6 hPc =>
    split at hStep
    case h_1 =>
      obtain rfl := Option.some.inj hStep
      simp [work, hPc]
      omega
    case h_2 id =>
      obtain ⟨t, -, hStep⟩ := Option.bind_eq_some_iff.mp hStep
      obtain rfl := Option.some.inj hStep
      -- the queue has been emptied
      have hEmpty := h.cleared (by simp [hPc])
      have hConsumer := h.early (by simp [hPc])
      simp [work, hPc, hConsumer, hEmpty]
      omega
  case h_7 hPc =>
    split at hStep
    case h_1 =>
      obtain rfl := Option.some.inj hStep
      simp [work, hPc]
      omega
    case h_2 id =>
      obtain ⟨t, -, hStep⟩ := Option.bind_eq_some_iff.mp hStep
      obtain rfl := Option.some.inj hStep
      have hProducer : s.producer = .notStarted := by
        by_contra hNot
        have hLate := h.late hNot
        rw [hPc] at hLate
        cases hLate
      simp [work, hPc, hProducer]
      omega
  case h_11 hPc =>
    obtain rfl := Option.some.inj hStep
    have hNotify := work_notify s
    simp [work, hPc] at hNotify ⊢
    omega
  case h_12 hPc | h_13 hPc | h_14 hPc =>
    split at hStep
    case isTrue =>
      split at hStep
      case isTrue =>
        obtain rfl := Option.some.inj hStep
        simp [work, hPc]
      case isFalse => cases hStep
    case isFalse =>
      obtain rfl := Option.some.inj hStep
      simp [work, hPc]
  case h_15 | h_16 => cases hStep
  all_goals
    rename_i hPc
    obtain rfl := Option.some.inj hStep
    simp [work, hPc, release]

theorem Inv.work_producerStep (h : s.Inv n) {d : Draws} {now : UInt64}
    (hStep : s.producerStep d now = some s') : s'.work < s.work := by
  have hRound := h.round
  unfold MutexMatchingEngine.producerStep at hStep
  split at hStep
  case h_1 | h_13 => cases hStep
  case h_2 hPc =>
    obtain rfl := Option.some.inj hStep
    by_cases hMore : s.i < s.config.orderCount <;> simp [work, hPc, hMore]
  case h_5 hPc | h_9 hPc =>
    obtain ⟨s₁, hAcquire, hStep⟩ := Option.bind_eq_some_iff.mp hStep
    obtain ⟨-, rfl⟩ := acquire_eq hAcquire
    obtain rfl := Option.some.inj hStep
    simp [work, hPc]
  -- a push makes work for the consumer, and the round that it ends pays for it
  case h_6 order hPc =>
    obtain rfl := Option.some.inj hStep
    have hStarted := h.started (by simp [hPc])
    simp [work, hPc, hStarted]
    omega
  case h_7 hPc =>
    obtain rfl := Option.some.inj hStep
    simp only [hPc, ProducerPc.RoundAt] at hRound
    have hMore : 0 < s.config.orderCount - s.i := by omega
    simp [work, hPc, release, hMore]
  -- so does the notify, when it wakes the consumer
  case h_8 hPc =>
    obtain rfl := Option.some.inj hStep
    have hNotify := work_notify s
    simp only [hPc, ProducerPc.RoundAt] at hRound
    simp [work, hPc] at hNotify ⊢
    omega
  case h_12 hPc =>
    obtain rfl := Option.some.inj hStep
    have hNotify := work_notify s
    simp [work, hPc] at hNotify ⊢
    omega
  all_goals
    rename_i hPc
    obtain rfl := Option.some.inj hStep
    simp [work, hPc, release, generateOrder, stampOrder]

theorem work_consumerStep {tPop now tDone : UInt64}
    (hStep : s.consumerStep tPop now tDone = some s') : s'.work < s.work := by
  unfold MutexMatchingEngine.consumerStep at hStep
  split at hStep
  case h_1 | h_6 | h_12 | h_14 => cases hStep
  case h_2 hPc | h_7 hPc =>
    obtain ⟨s₁, hAcquire, hStep⟩ := Option.bind_eq_some_iff.mp hStep
    obtain ⟨-, rfl⟩ := acquire_eq hAcquire
    obtain rfl := Option.some.inj hStep
    simp [work, hPc]
  case h_3 hPc =>
    obtain rfl := Option.some.inj hStep
    by_cases hEmpty : s.sharedQueue.isEmpty = true <;> simp [work, hPc, hEmpty]
  case h_4 hPc =>
    obtain rfl := Option.some.inj hStep
    by_cases hDone : s.producerDone = true <;> simp [work, hPc, hDone]
  case h_8 hPc =>
    split at hStep
    case h_1 hQueue =>
      obtain rfl := Option.some.inj hStep
      simp [work, hPc]
    case h_2 order queue hQueue =>
      obtain rfl := Option.some.inj hStep
      simp [work, hPc, hQueue]
      omega
  case h_11 order hPc =>
    obtain rfl := Option.some.inj hStep
    unfold processOrder
    split <;> simp [work, hPc]
  all_goals
    rename_i hPc
    obtain rfl := Option.some.inj hStep
    simp [work, hPc, release]

/-! ## Runs -/

@[simp] def Action.isWake : Action → Bool
  | .wake => true
  | _ => false

/-- Every step but a spurious wake-up gets something done. -/
theorem Inv.work_perform (h : s.Inv n) {a : Action} (hStep : s.perform a = some s') :
    s'.work < s.work + if a.isWake then 7 else 0 := by
  cases a with
  | starter created => exact h.work_starterStep hStep
  | producer d now => exact h.work_producerStep hStep
  | consumer tPop now tDone => exact work_consumerStep hStep
  | wake =>
      have hNotify := work_notify s
      rw [MutexMatchingEngine.notify] at hNotify
      rw [MutexMatchingEngine.perform] at hStep
      split at hStep
      case isTrue hBlocked =>
        obtain rfl := Option.some.inj hStep
        rw [if_pos hBlocked] at hNotify
        exact Nat.lt_succ_of_le hNotify
      case isFalse => cases hStep

theorem Inv.length_le (h : s.Inv n) {actions : List Action} (hRun : s.performAll actions = some s') :
    actions.length + s'.work ≤ s.work + 7 * actions.countP Action.isWake := by
  induction actions generalizing s with
  | nil =>
      obtain rfl := Option.some.inj hRun
      simp
  | cons a actions ih =>
      obtain ⟨s₁, hStep, hRun⟩ := Option.bind_eq_some_iff.mp hRun
      have hFirst := h.work_perform hStep
      have hRest := ih (h.perform hStep) hRun
      rw [List.length_cons, List.countP_cons]
      by_cases hWake : a.isWake = true
      · rw [if_pos hWake] at hFirst ⊢
        omega
      · rw [if_neg hWake] at hFirst ⊢
        omega

/-- When nothing can go on, no thread is left behind. -/
theorem Inv.threads_of_blocked (h : s.Inv n) (hBlocked : s.Blocked)
    (hBook : ∀ order, s.consumer ≠ .stuck order) :
    (s.starter = .stopped ∧ s.producer = .exited ∧ s.consumer = .exited) ∨
      (s.starter = .thrown ∧ s.producer = .notStarted ∧
        (s.consumer = .notStarted ∨ s.consumer = .exited)) := by
  have hProducer := h.producer_of_blocked hBlocked
  have hConsumer := h.consumer_of_blocked hBlocked hBook
  rcases h.ended hBlocked hBook with hPc | hPc
  · right
    have hAwake := h.not_waiting hProducer (by simp [hPc]) (by simp [hPc])
    refine ⟨hPc, ?_, by simpa [hAwake] using hConsumer⟩
    by_contra hNot
    have hLate := h.late hNot
    rw [hPc] at hLate
    cases hLate
  · left
    have hExited := hProducer.resolve_left (h.lateRuns (by simp [hPc]))
    have hAwake := h.not_waiting hProducer (by simp [hExited]) (by simp [hPc])
    have hStarted := h.started (by simp [hExited])
    exact ⟨hPc, hExited, by simpa [hAwake, hStarted] using hConsumer⟩

/-- Every run of the baseline ends, however the threads and their notifications interleave.  Each
order takes at most 20 steps and a spurious wake-up 7, so that a run has a bounded length; and when
no thread can take a step any more, either `stop` has returned, both threads have ended and every
order has been processed, or `start` has thrown and no thread runs. -/
theorem alwaysEnds (hBegins : s.Begins) {actions : List Action}
    (hRun : s.performAll actions = some s') :
    actions.length ≤ 35 + 20 * s.config.orderCount + 7 * actions.countP Action.isWake ∧
      (s'.Blocked →
        (s'.starter = .stopped ∧ s'.producer = .exited ∧ s'.consumer = .exited ∧
          s'.processed = List.range s.config.orderCount) ∨
        (s'.starter = .thrown ∧ s'.producer = .notStarted ∧
          (s'.consumer = .notStarted ∨ s'.consumer = .exited) ∧ s'.processed = [])) := by
  have hInv := hBegins.inv.performAll hRun
  constructor
  · have hLength := hBegins.inv.length_le hRun
    have hWork : s.work = 35 + 20 * s.config.orderCount := by
      simp [work, hBegins.starter, hBegins.producer, hBegins.consumer]
    omega
  · intro hBlocked
    have hSerial := (hBegins.serial fun _ => {}).performAll hBegins.inv hRun
    rcases hInv.threads_of_blocked hBlocked hSerial.unstuck with
      ⟨hPc, hProducer, hConsumer⟩ | ⟨hPc, hProducer, hConsumer⟩
    · refine Or.inl ⟨hPc, hProducer, hConsumer, ?_⟩
      rw [hInv.processed_eq ⟨.inl hProducer, hConsumer⟩, hInv.produced_eq hProducer]
    · refine Or.inr ⟨hPc, hProducer, hConsumer, ?_⟩
      rcases hConsumer with hConsumer | hConsumer
      · exact (hInv.unstarted hConsumer).2
      · rw [hInv.processed_eq ⟨.inr hProducer, hConsumer⟩, produced, hProducer]
        rfl

/-- The consumer waits once, and the run of three orders is over after 60 of 95 steps. -/
theorem alwaysEnds_three_orders :
    ∃ s', threeOrders.performAll threeOrdersRun = some s' ∧ threeOrdersRun.length ≤ 95 ∧ s'.Blocked ∧
      s'.processed = [0, 1, 2] := by
  have hBegins : threeOrders.Begins := ⟨rfl, rfl, rfl, rfl, rfl, rfl, rfl⟩
  have hEnd : (threeOrders.performAll threeOrdersRun).any (fun s' =>
      decide (s'.starter = .stopped ∧ s'.producer = .exited ∧ s'.consumer = .exited)) = true := by
    decide +kernel
  rw [Option.any_eq_true] at hEnd
  obtain ⟨s', hRun, hPcs⟩ := hEnd
  obtain ⟨hStarter, hProducer, hConsumer⟩ := of_decide_eq_true hPcs
  obtain ⟨hLength, hEnds⟩ := alwaysEnds hBegins hRun
  have hBlocked : s'.Blocked :=
    { starter := fun _ => by simp [MutexMatchingEngine.starterStep, hStarter]
      producer := fun _ _ => by simp [MutexMatchingEngine.producerStep, hProducer]
      consumer := fun _ _ _ => by simp [MutexMatchingEngine.consumerStep, hConsumer] }
  refine ⟨s', hRun, hLength, hBlocked, ?_⟩
  rcases hEnds hBlocked with ⟨-, -, -, hProcessed⟩ | ⟨hThrown, -⟩
  · exact hProcessed
  · rw [hStarter] at hThrown
    cases hThrown

end MutexMatchingEngine

end MatchingMachine
