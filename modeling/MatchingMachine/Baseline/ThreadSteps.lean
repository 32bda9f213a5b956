import MatchingMachine.Baseline.Invariant

/-!
# The steps of the two threads

Most steps only move a program counter and the lock (`moveProducer`, `moveConsumer`); those that
touch the queue, the flag or the orders have a lemma each.
-/

namespace MatchingMachine

namespace MutexMatchingEngine

variable {s s' : MutexMatchingEngine} {n : Nat}

/-! ## The producer -/

theorem Inv.started (h : s.Inv n) (hProducer : s.producer ≠ .notStarted) :
    s.consumer ≠ .notStarted :=
  fun hConsumer => hProducer (h.unstarted hConsumer).1

/-- Before the producer sets the flag nobody has. -/
theorem Inv.not_done (h : s.Inv n) (hProducer : s.producer ≠ .notStarted)
    (hStored : s.producer.storedDone = false) : s.producerDone = false := by
  have hLate := h.late hProducer
  have hStarter : s.starter.storedDone = false := by
    revert hLate
    cases s.starter <;> simp
  have hDone := h.done_iff (h.started hProducer)
  rw [hStored, hStarter] at hDone
  simpa using hDone

/-- The producer holds the lock and the consumer does not, or the other way round. -/
theorem Inv.consumer_unlocked (h : s.Inv n) (hProducer : s.producer.holdsLock = true) :
    s.consumer.holdsLock = false := by
  by_contra hConsumer
  have hSame : ThreadName.producer = .consumer := h.holds_unique hProducer (by simpa using hConsumer)
  cases hSame

/-- A step from `pc₀` to `pc` that changes nothing else than the lock. -/
theorem Inv.moveProducer (h : s.Inv n) {pc₀ pc : ProducerPc} {mtx : Option ThreadName}
    (hPc : s.producer = pc₀)
    (hMutex : ∀ t, ({ s with producer := pc, queueMtx := mtx } : MutexMatchingEngine).holds t =
      true ↔ mtx = some t)
    (hRound : pc.RoundAt s.i s.config.orderCount)
    (hSame : (pc₀ ≠ .notStarted ∧ pc ≠ .notStarted) ∧ pc.storedDone = pc₀.storedDone ∧
      pc.inHand = pc₀.inHand ∧ pc.generated s.i = pc₀.generated s.i)
    (hAhead : s.consumer = .blocked → (pc₀.notifiesOrder = true → pc.notifiesOrder = true) ∧
      (pc₀.notifiesDone = true → pc.notifiesDone = true)) :
    Inv n { s with producer := pc, queueMtx := mtx } := by
  subst hPc
  obtain ⟨⟨hStarted, hStarted'⟩, hDone, hHand, hGenerated⟩ := hSame
  exact { h with
    mutex := hMutex
    late := fun _ => h.late hStarted
    unstarted := fun hConsumer => absurd hConsumer (h.started hStarted)
    round := hRound
    done_iff := fun hConsumer => by
      rw [hDone]
      exact h.done_iff hConsumer
    stream := fun hConsumer => by
      rw [hHand, hGenerated]
      exact h.stream hConsumer
    orderAhead := fun hBlocked hQueue => (hAhead hBlocked).1 (h.orderAhead hBlocked hQueue)
    doneAhead := fun hBlocked hSet =>
      (h.doneAhead hBlocked hSet).imp_left (hAhead hBlocked).2
    producerRuns := fun _ => hStarted'
    lateRuns := fun _ => hStarted' }

/-- A blocked consumer wakes. -/
theorem Inv.wake (h : s.Inv n) (hBlocked : s.consumer = .blocked) :
    Inv n { s with consumer := .relock } := by
  have hStarted : s.consumer ≠ .notStarted := by simp [hBlocked]
  exact { h with
    mutex := mutex_keep h rfl fun t => by cases t <;> simp [hBlocked]
    early := fun hEarly => absurd (h.early hEarly) hStarted
    created := by simp
    unstarted := by simp
    known := trivial
    done_iff := fun _ => h.done_iff hStarted
    stream := fun _ => by simpa [hBlocked] using h.stream hStarted
    orderAhead := by simp
    doneAhead := by simp
    consumerRuns := by simp }

theorem Inv.notify (h : s.Inv n) : s.notify.Inv n := by
  unfold MutexMatchingEngine.notify
  split
  case isTrue hBlocked => exact h.wake hBlocked
  case isFalse => exact h

theorem notify_not_blocked (s : MutexMatchingEngine) : s.notify.consumer ≠ .blocked := by
  unfold MutexMatchingEngine.notify
  split
  case isTrue => simp
  case isFalse hNot => exact hNot

@[simp] theorem producer_notify (s : MutexMatchingEngine) : s.notify.producer = s.producer := by
  unfold MutexMatchingEngine.notify
  split <;> rfl

@[simp] theorem starter_notify (s : MutexMatchingEngine) : s.notify.starter = s.starter := by
  unfold MutexMatchingEngine.notify
  split <;> rfl

@[simp] theorem i_notify (s : MutexMatchingEngine) : s.notify.i = s.i := by
  unfold MutexMatchingEngine.notify
  split <;> rfl

@[simp] theorem config_notify (s : MutexMatchingEngine) : s.notify.config = s.config := by
  unfold MutexMatchingEngine.notify
  split <;> rfl

theorem Inv.generate (h : s.Inv n) (hPc : s.producer = .generate) (d : Draws) :
    Inv n { s.generateOrder d with producer := .stamp s.i } := by
  have hStarted : s.producer ≠ .notStarted := by simp [hPc]
  have hRound := h.round
  rw [hPc] at hRound
  exact { h with
    mutex := mutex_keep h rfl fun t => by cases t <;> simp [hPc, generateOrder]
    late := fun _ => h.late hStarted
    unstarted := fun hConsumer => absurd hConsumer (h.started hStarted)
    round := hRound
    done_iff := fun hConsumer => by
      have hDone := h.done_iff hConsumer
      rwa [hPc] at hDone
    stream := fun hConsumer => by
      have hStream := h.stream hConsumer
      simp only [hPc, ProducerPc.inHand, List.append_nil] at hStream
      exact (congrArg (· ++ [s.i]) hStream).trans List.range_succ.symm
    orderAhead := fun hBlocked hQueue => by
      have hAhead := h.orderAhead hBlocked hQueue
      rw [hPc] at hAhead
      exact hAhead
    doneAhead := fun hBlocked hSet => by
      have hAhead := h.doneAhead hBlocked hSet
      rw [hPc] at hAhead
      exact hAhead
    producerRuns := by simp
    lateRuns := by simp }

theorem Inv.push (h : s.Inv n) {order : OrderPtr} (hPc : s.producer = .push order) :
    Inv n { s with sharedQueue := s.sharedQueue ++ [order], producer := .unlock } := by
  have hStarted : s.producer ≠ .notStarted := by simp [hPc]
  have hLate := h.late hStarted
  have hNotDone := h.not_done hStarted (by rw [hPc]; rfl)
  have hUnlocked := h.consumer_unlocked (by rw [hPc]; rfl)
  have hRound := h.round
  rw [hPc] at hRound
  exact { h with
    mutex := mutex_keep h rfl fun t => by cases t <;> simp [hPc]
    late := fun _ => hLate
    cleared := fun hStarter => by
      rcases StarterPc.eq_of_late hLate with hEq | hEq | hEq <;> simp [hEq] at hStarter
    unstarted := fun hConsumer => absurd hConsumer (h.started hStarted)
    round := hRound
    known := by
      -- Without the lock the consumer knows nothing of the queue before the flag is set.
      have hKnown := h.known
      revert hUnlocked hKnown
      rw [hNotDone]
      cases s.consumer <;> simp
    done_iff := fun hConsumer => by
      have hDone := h.done_iff hConsumer
      rwa [hPc] at hDone
    stream := fun hConsumer => by
      have hStream := h.stream hConsumer
      rw [hPc] at hStream
      simpa using hStream
    orderAhead := fun _ _ => rfl
    doneAhead := fun _ hSet => by
      rw [hNotDone] at hSet
      cases hSet
    producerRuns := by simp
    lateRuns := by simp }

theorem Inv.nextRound (h : s.Inv n) (hPc : s.producer = .notifyOne) :
    Inv n { s.notify with i := s.i + 1, producer := .loop } := by
  have h' := h.notify
  have hPc' : s.notify.producer = .notifyOne := by rw [producer_notify, hPc]
  have hStarted : s.notify.producer ≠ .notStarted := by simp [hPc]
  have hRound := h'.round
  rw [hPc', i_notify] at hRound
  exact { h' with
    mutex := mutex_keep h' rfl fun t => by cases t <;> simp [hPc]
    late := fun _ => h'.late hStarted
    unstarted := fun hConsumer => absurd hConsumer (h'.started hStarted)
    round := Nat.succ_le_of_lt hRound
    done_iff := fun hConsumer => by
      have hDone := h'.done_iff hConsumer
      rwa [hPc'] at hDone
    stream := fun hConsumer => by
      have hStream := h'.stream hConsumer
      rwa [hPc', i_notify] at hStream
    orderAhead := fun hBlocked => absurd hBlocked (notify_not_blocked s)
    doneAhead := fun hBlocked => absurd hBlocked (notify_not_blocked s)
    producerRuns := by simp
    lateRuns := by simp }

theorem Inv.setDone (h : s.Inv n) (hPc : s.producer = .storeDone) :
    Inv n { s with producerDone := true, producer := .unlockDone } := by
  have hStarted : s.producer ≠ .notStarted := by simp [hPc]
  have hLate := h.late hStarted
  have hNotDone := h.not_done hStarted (by rw [hPc]; rfl)
  have hUnlocked := h.consumer_unlocked (by rw [hPc]; rfl)
  have hRound := h.round
  rw [hPc] at hRound
  exact { h with
    mutex := mutex_keep h rfl fun t => by cases t <;> simp [hPc]
    late := fun _ => hLate
    undone := fun hStarter => by
      rcases StarterPc.eq_of_late hLate with hEq | hEq | hEq <;> simp [hEq] at hStarter
    unstarted := fun hConsumer => absurd hConsumer (h.started hStarted)
    round := hRound
    known := by
      have hKnown := h.known
      revert hUnlocked hKnown
      rw [hNotDone]
      cases s.consumer <;> simp
    done_iff := fun _ => by simp
    stream := fun hConsumer => by
      have hStream := h.stream hConsumer
      rwa [hPc] at hStream
    orderAhead := fun hBlocked hQueue => by
      have hAhead := h.orderAhead hBlocked hQueue
      rw [hPc] at hAhead
      cases hAhead
    doneAhead := fun _ _ => .inl rfl
    producerRuns := by simp
    lateRuns := by simp }

theorem Inv.stamp (h : s.Inv n) (order : OrderPtr) (now : UInt64) : (s.stampOrder order now).Inv n :=
  { h with mutex := mutex_keep h rfl fun t => by cases t <;> rfl }

theorem Inv.producerStep (h : s.Inv n) {d : Draws} {now : UInt64}
    (hStep : s.producerStep d now = some s') : s'.Inv n := by
  unfold MutexMatchingEngine.producerStep at hStep
  have hRound := h.round
  split at hStep
  case h_1 => cases hStep
  -- the loop ends exactly when every order is out
  case h_2 hPc =>
    obtain rfl := Option.some.inj hStep
    simp only [hPc, ProducerPc.RoundAt] at hRound
    split
    case isTrue hMore =>
      exact h.moveProducer hPc (mutex_keep h rfl fun t => by cases t <;> simp [hPc]) hMore
        (by simp) (by simp)
    case isFalse hLast =>
      have hAll : s.i = s.config.orderCount := by omega
      exact h.moveProducer hPc (mutex_keep h rfl fun t => by cases t <;> simp [hPc]) hAll
        (by simp) (by simp)
  case h_3 hPc =>
    obtain rfl := Option.some.inj hStep
    exact h.generate hPc d
  case h_4 order hPc =>
    obtain rfl := Option.some.inj hStep
    rw [hPc] at hRound
    have h' := h.stamp order now
    exact h'.moveProducer hPc
      (mutex_keep h' rfl fun t => by cases t <;> simp [hPc, stampOrder]) hRound (by simp) (by simp)
  case h_5 order hPc =>
    obtain ⟨s₁, hAcquire, hStep⟩ := Option.bind_eq_some_iff.mp hStep
    obtain ⟨hFree, rfl⟩ := acquire_eq hAcquire
    obtain rfl := Option.some.inj hStep
    rw [hPc] at hRound
    exact h.moveProducer hPc
      (mutex_acquire h .producer hFree rfl rfl fun t ht => by cases t <;> simp at ht ⊢) hRound
      (by simp) (by simp)
  -- the consumer cannot be blocked on an empty queue unnoticed: the notify is still to come
  case h_6 order hPc =>
    obtain rfl := Option.some.inj hStep
    exact h.push hPc
  case h_7 hPc =>
    obtain rfl := Option.some.inj hStep
    rw [hPc] at hRound
    exact h.moveProducer hPc
      (mutex_release h .producer (by simp [hPc]) rfl rfl fun t ht => by
        cases t <;> simp [release] at ht ⊢) hRound (by simp) (by simp)
  case h_8 hPc =>
    obtain rfl := Option.some.inj hStep
    exact h.nextRound hPc
  case h_9 hPc =>
    obtain ⟨s₁, hAcquire, hStep⟩ := Option.bind_eq_some_iff.mp hStep
    obtain ⟨hFree, rfl⟩ := acquire_eq hAcquire
    obtain rfl := Option.some.inj hStep
    rw [hPc] at hRound
    exact h.moveProducer hPc
      (mutex_acquire h .producer hFree rfl rfl fun t ht => by cases t <;> simp at ht ⊢) hRound
      (by simp) (by simp)
  case h_10 hPc =>
    obtain rfl := Option.some.inj hStep
    exact h.setDone hPc
  case h_11 hPc =>
    obtain rfl := Option.some.inj hStep
    rw [hPc] at hRound
    exact h.moveProducer hPc
      (mutex_release h .producer (by simp [hPc]) rfl rfl fun t ht => by
        cases t <;> simp [release] at ht ⊢) hRound (by simp) (by simp)
  -- after the last notify nobody is blocked
  case h_12 hPc =>
    obtain rfl := Option.some.inj hStep
    rw [hPc] at hRound
    exact h.notify.moveProducer (by rw [producer_notify, hPc])
      (mutex_keep h.notify rfl fun t => by cases t <;> simp [hPc])
      (by rw [i_notify, config_notify]; exact hRound) (by simp)
      (fun hBlocked => absurd hBlocked (notify_not_blocked s))
  case h_13 => cases hStep

/-! ## The consumer -/

/-- A step from `pc₀` to `pc` that changes nothing else than the lock. -/
theorem Inv.moveConsumer (h : s.Inv n) {pc₀ pc : ConsumerPc} {mtx : Option ThreadName}
    (hPc : s.consumer = pc₀)
    (hMutex : ∀ t, ({ s with consumer := pc, queueMtx := mtx } : MutexMatchingEngine).holds t =
      true ↔ mtx = some t)
    (hKnown : pc.KnownAt s.sharedQueue s.producerDone)
    (hSame : pc₀ ≠ .notStarted ∧ pc ≠ .notStarted ∧ pc.inHand = pc₀.inHand)
    (hBlocked : pc = .blocked → s.sharedQueue = [] ∧ s.producerDone = false) :
    Inv n { s with consumer := pc, queueMtx := mtx } := by
  subst hPc
  obtain ⟨hStarted, hStarted', hHand⟩ := hSame
  exact { h with
    mutex := hMutex
    early := fun hEarly => absurd (h.early hEarly) hStarted
    created := fun _ => hStarted'
    unstarted := fun hConsumer => absurd hConsumer hStarted'
    known := hKnown
    done_iff := fun _ => h.done_iff hStarted
    stream := fun _ => by
      rw [hHand]
      exact h.stream hStarted
    orderAhead := fun hWaits hQueue => absurd (hBlocked hWaits).1 hQueue
    doneAhead := fun hWaits hSet => by
      rw [(hBlocked hWaits).2] at hSet
      cases hSet
    consumerRuns := fun _ => hStarted' }

theorem Inv.popOrder (h : s.Inv n) (hPc : s.consumer = .pop) {order : OrderPtr}
    {queue : List OrderPtr} (hQueue : s.sharedQueue = order :: queue) :
    Inv n { s with sharedQueue := queue, consumer := .unlock order } := by
  have hStarted : s.consumer ≠ .notStarted := by simp [hPc]
  exact { h with
    mutex := mutex_keep h rfl fun t => by cases t <;> simp [hPc]
    early := fun hEarly => absurd (h.early hEarly) hStarted
    cleared := fun hStarter => by
      have hEmpty := h.cleared hStarter
      rw [hQueue] at hEmpty
      cases hEmpty
    created := by simp
    unstarted := by simp
    known := trivial
    done_iff := fun _ => h.done_iff hStarted
    stream := fun _ => by
      have hStream := h.stream hStarted
      rw [hPc, hQueue] at hStream
      simpa using hStream
    orderAhead := by simp
    doneAhead := by simp
    consumerRuns := by simp }

theorem Inv.process (h : s.Inv n) {order : OrderPtr} (hPc : s.consumer = .process order)
    (tPop now tDone : UInt64) : (s.processOrder order tPop now tDone).Inv n := by
  have hStarted : s.consumer ≠ .notStarted := by simp [hPc]
  unfold processOrder
  split
  case h_1 =>
    exact h.moveConsumer hPc (mutex_keep h rfl fun t => by cases t <;> simp [hPc]) trivial
      (by simp) (by simp)
  case h_2 =>
    exact { h with
      mutex := mutex_keep h rfl fun t => by cases t <;> simp [hPc]
      early := fun hEarly => absurd (h.early hEarly) hStarted
      created := by simp
      unstarted := by simp
      known := trivial
      done_iff := fun _ => h.done_iff hStarted
      stream := fun _ => by
        have hStream := h.stream hStarted
        rw [hPc] at hStream
        simpa using hStream
      orderAhead := by simp
      doneAhead := by simp
      consumerRuns := by simp }

theorem Inv.clearBook (h : s.Inv n) : Inv n { s with mem := s.mem.clear, alive := [] } :=
  { h with mutex := mutex_keep h rfl fun t => by cases t <;> rfl }

theorem Inv.consumerStep (h : s.Inv n) {tPop now tDone : UInt64}
    (hStep : s.consumerStep tPop now tDone = some s') : s'.Inv n := by
  unfold MutexMatchingEngine.consumerStep at hStep
  have hKnown := h.known
  split at hStep
  case h_1 => cases hStep
  case h_2 hPc =>
    obtain ⟨s₁, hAcquire, hStep⟩ := Option.bind_eq_some_iff.mp hStep
    obtain ⟨hFree, rfl⟩ := acquire_eq hAcquire
    obtain rfl := Option.some.inj hStep
    exact h.moveConsumer hPc
      (mutex_acquire h .consumer hFree rfl rfl fun t ht => by cases t <;> simp at ht ⊢) trivial
      (by simp) (by simp)
  -- the wait looks at the queue first and only then at the flag, both under the lock
  case h_3 hPc =>
    obtain rfl := Option.some.inj hStep
    split
    case isTrue hEmpty =>
      exact h.moveConsumer hPc (mutex_keep h rfl fun t => by cases t <;> simp [hPc])
        (List.isEmpty_iff.mp hEmpty) (by simp) (by simp)
    case isFalse hNot =>
      exact h.moveConsumer hPc (mutex_keep h rfl fun t => by cases t <;> simp [hPc])
        (fun hEmpty => absurd (List.isEmpty_iff.mpr hEmpty) hNot) (by simp) (by simp)
  case h_4 hPc =>
    obtain rfl := Option.some.inj hStep
    rw [hPc] at hKnown
    split
    case isTrue hSet =>
      exact h.moveConsumer hPc (mutex_keep h rfl fun t => by cases t <;> simp [hPc])
        (fun _ => hSet) (by simp) (by simp)
    case isFalse hNot =>
      exact h.moveConsumer hPc (mutex_keep h rfl fun t => by cases t <;> simp [hPc])
        ⟨hKnown, by simpa using hNot⟩ (by simp) (by simp)
  -- it blocks only when it has seen an empty queue and the flag unset
  case h_5 hPc =>
    obtain rfl := Option.some.inj hStep
    rw [hPc] at hKnown
    exact h.moveConsumer hPc
      (mutex_release h .consumer (by simp [hPc]) rfl rfl fun t ht => by
        cases t <;> simp [release] at ht ⊢) trivial (by simp) (fun _ => hKnown)
  case h_6 => cases hStep
  -- woken, or spuriously awake, it needs the lock again
  case h_7 hPc =>
    obtain ⟨s₁, hAcquire, hStep⟩ := Option.bind_eq_some_iff.mp hStep
    obtain ⟨hFree, rfl⟩ := acquire_eq hAcquire
    obtain rfl := Option.some.inj hStep
    exact h.moveConsumer hPc
      (mutex_acquire h .consumer hFree rfl rfl fun t ht => by cases t <;> simp at ht ⊢) trivial
      (by simp) (by simp)
  case h_8 hPc =>
    rw [hPc] at hKnown
    split at hStep
    case h_1 hQueue =>
      obtain rfl := Option.some.inj hStep
      exact h.moveConsumer hPc (mutex_keep h rfl fun t => by cases t <;> simp [hPc])
        ⟨hQueue, hKnown hQueue⟩ (by simp) (by simp)
    case h_2 order queue hQueue =>
      obtain rfl := Option.some.inj hStep
      exact h.popOrder hPc hQueue
  case h_9 order hPc =>
    obtain rfl := Option.some.inj hStep
    exact h.moveConsumer hPc
      (mutex_release h .consumer (by simp [hPc]) rfl rfl fun t ht => by
        cases t <;> simp [release] at ht ⊢) trivial (by simp) (by simp)
  case h_10 hPc =>
    obtain rfl := Option.some.inj hStep
    rw [hPc] at hKnown
    exact h.moveConsumer hPc
      (mutex_release h .consumer (by simp [hPc]) rfl rfl fun t ht => by
        cases t <;> simp [release] at ht ⊢) hKnown (by simp) (by simp)
  -- no lock is held while an order is matched
  case h_11 order hPc =>
    obtain rfl := Option.some.inj hStep
    exact h.process hPc tPop now tDone
  case h_12 => cases hStep
  case h_13 hPc =>
    obtain rfl := Option.some.inj hStep
    rw [hPc] at hKnown
    exact h.clearBook.moveConsumer hPc
      (mutex_keep h.clearBook rfl fun t => by cases t <;> simp [hPc]) hKnown (by simp) (by simp)
  case h_14 => cases hStep

end MutexMatchingEngine

end MatchingMachine
