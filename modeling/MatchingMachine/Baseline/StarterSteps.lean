import MatchingMachine.Baseline.ThreadSteps

/-!
# The steps of `start` and `stop`

Until the consumer is created there is no other thread.  The handler of `start` sets the flag as the
producer would; there is no producer then.
-/

namespace MatchingMachine

namespace MutexMatchingEngine

variable {s s' : MutexMatchingEngine} {n : Nat}

/-! ## The starter -/

/-- A step from `pc₀` to `pc` that changes nothing else than the lock. -/
theorem Inv.moveStarter (h : s.Inv n) {pc₀ pc : StarterPc} {mtx : Option ThreadName}
    (hPc : s.starter = pc₀)
    (hMutex : ∀ t, ({ s with starter := pc, queueMtx := mtx } : MutexMatchingEngine).holds t =
      true ↔ mtx = some t)
    (hStage : (pc.early = true → pc₀.early = true) ∧ pc.late = pc₀.late ∧
      pc ≠ .createConsumer ∧ pc ≠ .createProducer)
    (hCleared : pc = .unlockQueue ∨ pc = .reset → s.sharedQueue = [])
    (hDone : s.consumer ≠ .notStarted → pc.storedDone = pc₀.storedDone)
    (hAhead : s.consumer = .blocked → pc₀.notifiesDone = true → pc.notifiesDone = true) :
    Inv n { s with starter := pc, queueMtx := mtx } := by
  subst hPc
  obtain ⟨hEarly, hLate, hNotConsumer, hNotProducer⟩ := hStage
  exact { h with
    mutex := hMutex
    early := fun hStarter => h.early (hEarly hStarter)
    late := fun hStarted => hLate.trans (h.late hStarted)
    lateRuns := fun hStarter => h.lateRuns (hLate.symm.trans hStarter)
    cleared := fun hStarter => hCleared (hStarter.imp_right fun hReset =>
      hReset.resolve_right hNotConsumer)
    undone := fun hStarter => absurd hStarter hNotConsumer
    created := fun hStarter => absurd hStarter hNotProducer
    done_iff := fun hConsumer => by
      rw [hDone hConsumer]
      exact h.done_iff hConsumer
    doneAhead := fun hBlocked hSet => (h.doneAhead hBlocked hSet).imp_right (hAhead hBlocked) }

/-- Before the threads are created. -/
theorem Inv.nobody (h : s.Inv n) (hEarly : s.starter.early = true) :
    s.consumer = .notStarted ∧ s.producer = .notStarted ∧ s.processed = [] := by
  have hConsumer := h.early hEarly
  exact ⟨hConsumer, h.unstarted hConsumer⟩

theorem Inv.popAll (h : s.Inv n) (hPc : s.starter = .popAll) :
    Inv n { s with sharedQueue := [], starter := .unlockQueue } := by
  obtain ⟨hConsumer, hProducer, -⟩ := h.nobody (by rw [hPc]; rfl)
  exact { h with
    mutex := mutex_keep h rfl fun t => by cases t <;> simp [hPc]
    early := fun _ => hConsumer
    late := fun hStarted => absurd hProducer hStarted
    lateRuns := by simp
    cleared := fun _ => rfl
    undone := by simp
    created := by simp
    known := by simp [hConsumer]
    done_iff := fun hStarted => absurd hConsumer hStarted
    stream := fun hStarted => absurd hConsumer hStarted
    orderAhead := by simp
    doneAhead := by simp [hConsumer] }

theorem Inv.reset (h : s.Inv n) (hPc : s.starter = .reset) :
    Inv n { s with
      producerDone := false, queueLatency := [], serviceLatency := [], running := true
      starter := .createConsumer } := by
  obtain ⟨hConsumer, hProducer, -⟩ := h.nobody (by rw [hPc]; rfl)
  exact { h with
    mutex := mutex_keep h rfl fun t => by cases t <;> simp [hPc]
    early := fun _ => hConsumer
    late := fun hStarted => absurd hProducer hStarted
    lateRuns := by simp
    cleared := fun _ => h.cleared (by simp [hPc])
    undone := fun _ => rfl
    created := by simp
    known := by simp [hConsumer]
    done_iff := fun hStarted => absurd hConsumer hStarted
    stream := fun hStarted => absurd hConsumer hStarted
    orderAhead := by simp [hConsumer]
    doneAhead := by simp }

theorem Inv.createConsumer (h : s.Inv n) (hPc : s.starter = .createConsumer) (thread : PinnedThread) :
    Inv n { s with
      consumerThread := thread, consumer := .lock, mem := { s.mem with book := {} }
      starter := .createProducer } := by
  obtain ⟨hConsumer, hProducer, hProcessed⟩ := h.nobody (by rw [hPc]; rfl)
  have hEmpty := h.cleared (by simp [hPc])
  have hUndone := h.undone hPc
  exact { h with
    mutex := mutex_keep h rfl fun t => by cases t <;> simp [hPc, hConsumer]
    early := by simp
    late := fun hStarted => absurd hProducer hStarted
    lateRuns := by simp
    cleared := by simp
    undone := by simp
    created := by simp
    unstarted := by simp
    known := trivial
    done_iff := by simp [hUndone, hProducer]
    stream := by simp [hProcessed, hEmpty, hProducer]
    orderAhead := by simp
    doneAhead := by simp
    consumerRuns := by simp }

theorem Inv.createProducer (h : s.Inv n) (hPc : s.starter = .createProducer) (thread : PinnedThread)
    (sim : FeedSimulator) :
    Inv n { s with
      producerThread := thread, producer := .loop, i := 0, sim := sim
      starter := .joinProducer } := by
  have hStarted := h.created hPc
  have hProducer : s.producer = .notStarted := by
    by_contra hNot
    have hLate := h.late hNot
    rw [hPc] at hLate
    cases hLate
  exact { h with
    mutex := mutex_keep h rfl fun t => by cases t <;> simp [hPc, hProducer]
    early := by simp
    late := fun _ => rfl
    cleared := by simp
    undone := by simp
    created := by simp
    unstarted := fun hConsumer => absurd hConsumer hStarted
    round := Nat.zero_le _
    done_iff := fun _ => by simpa [hPc, hProducer] using h.done_iff hStarted
    stream := fun _ => by simpa [hProducer] using h.stream hStarted
    orderAhead := fun hBlocked hQueue => by simpa [hProducer] using h.orderAhead hBlocked hQueue
    doneAhead := fun hBlocked hSet => by
      simpa [hPc, hProducer] using h.doneAhead hBlocked hSet
    producerRuns := by simp
    lateRuns := by simp }

theorem Inv.storeDone (h : s.Inv n) (hPc : s.starter = .storeDone) :
    Inv n { s with producerDone := true, starter := .unlockDone } := by
  have hProducer : s.producer = .notStarted := by
    by_contra hNot
    have hLate := h.late hNot
    rw [hPc] at hLate
    cases hLate
  have hUnlocked : s.consumer.holdsLock = false := by
    by_contra hConsumer
    have hSame : ThreadName.starter = .consumer :=
      h.holds_unique (by simp [hPc]) (by simpa using hConsumer)
    cases hSame
  exact { h with
    mutex := mutex_keep h rfl fun t => by cases t <;> simp [hPc]
    early := by simp
    late := fun hStarted => absurd hProducer hStarted
    lateRuns := by simp
    cleared := by simp
    undone := by simp
    created := by simp
    known := by
      have hKnown := h.known
      revert hUnlocked hKnown
      cases s.consumer <;> simp
      all_goals exact fun hEmpty _ => hEmpty
    done_iff := by simp
    doneAhead := fun _ _ => .inr rfl }

/-- A thread that was joined, and the end of `start` or `stop`. -/
theorem Inv.joined (h : s.Inv n) {pc₀ pc : StarterPc} {producerThread consumerThread : PinnedThread}
    {running : Bool} (hPc : s.starter = pc₀)
    (hProducer : producerThread.joinable = true → s.producerThread.joinable = true)
    (hConsumer : consumerThread.joinable = true → s.consumerThread.joinable = true)
    (hStage : pc.early = false ∧ pc.late = pc₀.late ∧ pc ≠ .createProducer)
    (hLock : pc.holdsLock = pc₀.holdsLock) (hDone : pc.storedDone = pc₀.storedDone)
    (hAhead : pc₀.notifiesDone = false) :
    Inv n { s with
      producerThread := producerThread, consumerThread := consumerThread, running := running
      starter := pc } := by
  subst hPc
  obtain ⟨hEarly, hLate, hNot⟩ := hStage
  exact { h with
    mutex := mutex_keep h rfl fun t => by cases t <;> first | rfl | exact hLock
    early := fun hStarter => by
      rw [hEarly] at hStarter
      cases hStarter
    late := fun hStarted => hLate.trans (h.late hStarted)
    lateRuns := fun hStarter => h.lateRuns (hLate.symm.trans hStarter)
    cleared := fun hStarter => by
      rcases hStarter with rfl | rfl | rfl <;> cases hEarly
    undone := fun hStarter => by
      subst hStarter
      cases hEarly
    created := fun hStarter => absurd hStarter hNot
    done_iff := fun hStarted => by
      rw [hDone]
      exact h.done_iff hStarted
    doneAhead := fun hBlocked hSet => (h.doneAhead hBlocked hSet).imp_right fun hNotifies => by
      rw [hAhead] at hNotifies
      cases hNotifies
    consumerRuns := fun hJoinable => h.consumerRuns (hConsumer hJoinable)
    producerRuns := fun hJoinable => h.producerRuns (hProducer hJoinable) }

theorem joinable_join (t : PinnedThread) : t.join.joinable = false := rfl

theorem Inv.starterStep (h : s.Inv n) {thread : Option ThreadId}
    (hStep : s.starterStep thread = some s') : s'.Inv n := by
  unfold MutexMatchingEngine.starterStep at hStep
  split at hStep
  -- a start while the engine runs throws and changes nothing else
  case h_1 hPc =>
    obtain rfl := Option.some.inj hStep
    have hConsumer := h.early (by rw [hPc]; rfl)
    split
    · exact h.moveStarter hPc (mutex_keep h rfl fun t => by cases t <;> simp [hPc]) (by simp)
        (by simp) (fun hStarted => absurd hConsumer hStarted) (by simp)
    · exact h.moveStarter hPc (mutex_keep h rfl fun t => by cases t <;> simp [hPc]) (by simp)
        (by simp) (by simp) (by simp)
  case h_2 hPc =>
    obtain ⟨s₁, hAcquire, hStep⟩ := Option.bind_eq_some_iff.mp hStep
    obtain ⟨hFree, rfl⟩ := acquire_eq hAcquire
    obtain rfl := Option.some.inj hStep
    exact h.moveStarter hPc
      (mutex_acquire h .starter hFree rfl rfl fun t ht => by cases t <;> simp at ht ⊢) (by simp)
      (by simp) (by simp) (by simp)
  case h_3 hPc =>
    obtain rfl := Option.some.inj hStep
    exact h.popAll hPc
  case h_4 hPc =>
    obtain rfl := Option.some.inj hStep
    exact h.moveStarter hPc
      (mutex_release h .starter (by simp [hPc]) rfl rfl fun t ht => by
        cases t <;> simp [release] at ht ⊢) (by simp) (fun _ => h.cleared (by simp [hPc]))
      (by simp) (by simp)
  case h_5 hPc =>
    obtain rfl := Option.some.inj hStep
    exact h.reset hPc
  -- the creation may throw, and the handler then finds no thread to stop
  case h_6 hPc =>
    split at hStep
    case h_1 =>
      obtain rfl := Option.some.inj hStep
      exact h.moveStarter hPc (mutex_keep h rfl fun t => by cases t <;> simp [hPc]) (by simp)
        (by simp) (by simp) (by simp)
    case h_2 id =>
      obtain ⟨t, -, hStep⟩ := Option.bind_eq_some_iff.mp hStep
      obtain rfl := Option.some.inj hStep
      exact h.createConsumer hPc t
  -- the creation may throw, and the handler then finds the consumer to stop
  case h_7 hPc =>
    split at hStep
    case h_1 =>
      obtain rfl := Option.some.inj hStep
      exact h.moveStarter hPc (mutex_keep h rfl fun t => by cases t <;> simp [hPc]) (by simp)
        (by simp) (by simp) (by simp)
    case h_2 id =>
      obtain ⟨t, -, hStep⟩ := Option.bind_eq_some_iff.mp hStep
      obtain rfl := Option.some.inj hStep
      exact h.createProducer hPc t _
  case h_8 hPc =>
    obtain ⟨s₁, hAcquire, hStep⟩ := Option.bind_eq_some_iff.mp hStep
    obtain ⟨hFree, rfl⟩ := acquire_eq hAcquire
    obtain rfl := Option.some.inj hStep
    exact h.moveStarter hPc
      (mutex_acquire h .starter hFree rfl rfl fun t ht => by cases t <;> simp at ht ⊢) (by simp)
      (by simp) (by simp) (by simp)
  case h_9 hPc =>
    obtain rfl := Option.some.inj hStep
    exact h.storeDone hPc
  case h_10 hPc =>
    obtain rfl := Option.some.inj hStep
    exact h.moveStarter hPc
      (mutex_release h .starter (by simp [hPc]) rfl rfl fun t ht => by
        cases t <;> simp [release] at ht ⊢) (by simp) (by simp) (by simp) (by simp)
  case h_11 hPc =>
    obtain rfl := Option.some.inj hStep
    exact h.notify.moveStarter (by rw [starter_notify, hPc])
      (mutex_keep h.notify rfl fun t => by cases t <;> simp [hPc]) (by simp) (by simp) (by simp)
      (fun hBlocked => absurd hBlocked (notify_not_blocked s))
  -- a join waits until its thread has exited
  case h_12 hPc =>
    split at hStep
    case isTrue =>
      split at hStep
      case isTrue =>
        obtain rfl := Option.some.inj hStep
        exact h.joined hPc id (by simp [joinable_join]) (by simp) rfl rfl rfl
      case isFalse => cases hStep
    case isFalse =>
      obtain rfl := Option.some.inj hStep
      exact h.joined hPc id id (by simp) rfl rfl rfl
  case h_13 hPc =>
    split at hStep
    case isTrue =>
      split at hStep
      case isTrue =>
        obtain rfl := Option.some.inj hStep
        exact h.joined hPc (by simp [joinable_join]) id (by simp) rfl rfl rfl
      case isFalse => cases hStep
    case isFalse =>
      obtain rfl := Option.some.inj hStep
      exact h.joined hPc id id (by simp) rfl rfl rfl
  case h_14 hPc =>
    split at hStep
    case isTrue =>
      split at hStep
      case isTrue =>
        obtain rfl := Option.some.inj hStep
        exact h.joined hPc id (by simp [joinable_join]) (by simp) rfl rfl rfl
      case isFalse => cases hStep
    case isFalse =>
      obtain rfl := Option.some.inj hStep
      exact h.joined hPc id id (by simp) rfl rfl rfl
  case h_15 => cases hStep
  case h_16 => cases hStep

end MutexMatchingEngine

end MatchingMachine
