import MatchingMachine.Model.MutexMatchingEngine

/-!
# The invariant of the mutex baseline

`Inv` holds of every state of a run.  Who holds the lock can be read off the program counters, so
nothing changes between the consumer's test and its `wait`.  While the consumer is blocked, an order
in the queue or the flag is news, and the notification that goes with it is still to come.  What
was processed, what is in the consumer's hand, in the queue and in the producer's hand is, together
and in this order, what was produced.
-/

namespace MatchingMachine

namespace MutexMatchingEngine

attribute [simp] StarterPc.holdsLock ProducerPc.holdsLock ConsumerPc.holdsLock

/-! ## The invariant -/

def holds (s : MutexMatchingEngine) : ThreadName → Bool
  | .starter => s.starter.holdsLock
  | .producer => s.producer.holdsLock
  | .consumer => s.consumer.holdsLock

@[simp] theorem holds_starter (s : MutexMatchingEngine) :
    s.holds .starter = s.starter.holdsLock := rfl

@[simp] theorem holds_producer (s : MutexMatchingEngine) :
    s.holds .producer = s.producer.holdsLock := rfl

@[simp] theorem holds_consumer (s : MutexMatchingEngine) :
    s.holds .consumer = s.consumer.holdsLock := rfl

/-- No thread has been created. -/
@[simp] def StarterPc.early : StarterPc → Bool
  | .checkRunning | .lockQueue | .popAll | .unlockQueue | .reset | .createConsumer => true
  | _ => false

/-- Both threads have been created. -/
@[simp] def StarterPc.late : StarterPc → Bool
  | .joinProducer | .joinConsumer | .stopped => true
  | _ => false

@[simp] def StarterPc.storedDone : StarterPc → Bool
  | .unlockDone | .notifyAll | .joinStarted | .thrown => true
  | _ => false

@[simp] def ProducerPc.storedDone : ProducerPc → Bool
  | .unlockDone | .notifyAll | .exited => true
  | _ => false

/-- The order that was generated and not pushed yet. -/
@[simp] def ProducerPc.inHand : ProducerPc → List OrderPtr
  | .stamp order | .lock order | .push order => [order]
  | _ => []

/-- The order that was popped and not processed yet. -/
@[simp] def ConsumerPc.inHand : ConsumerPc → List OrderPtr
  | .unlock order | .process order | .stuck order => [order]
  | _ => []

/-- How many orders have been generated in round `i`. -/
@[simp] def ProducerPc.generated (i : Nat) : ProducerPc → Nat
  | .notStarted => 0
  | .stamp _ | .lock _ | .push _ | .unlock | .notifyOne => i + 1
  | _ => i

/-- Round `i` of `n`, where the producer stands at a program counter. -/
@[simp] def ProducerPc.RoundAt (i n : Nat) : ProducerPc → Prop
  | .notStarted => True
  | .loop => i ≤ n
  | .lockDone | .storeDone | .unlockDone | .notifyAll | .exited => i = n
  | _ => i < n

/-- What the consumer knows of the queue and the flag, where it stands at a program counter. -/
@[simp] def ConsumerPc.KnownAt (queue : List OrderPtr) (done : Bool) : ConsumerPc → Prop
  | .testDone => queue = []
  | .wait => queue = [] ∧ done = false
  | .pop => queue = [] → done = true
  | .unlockBreak | .clear | .exited => queue = [] ∧ done = true
  | _ => True

/-- The producer has pushed an order and not yet notified the consumer of it. -/
@[simp] def ProducerPc.notifiesOrder : ProducerPc → Bool
  | .unlock | .notifyOne => true
  | _ => false

/-- The producer has set the flag and not yet notified the consumer. -/
@[simp] def ProducerPc.notifiesDone : ProducerPc → Bool
  | .unlockDone | .notifyAll => true
  | _ => false

/-- The handler of `start` has set the flag and not yet notified the consumer. -/
@[simp] def StarterPc.notifiesDone : StarterPc → Bool
  | .unlockDone | .notifyAll => true
  | _ => false

theorem StarterPc.eq_of_late {pc : StarterPc} (h : pc.late = true) :
    pc = .joinProducer ∨ pc = .joinConsumer ∨ pc = .stopped := by
  cases pc <;> simp at h ⊢

structure Inv (n : Nat) (s : MutexMatchingEngine) : Prop where
  count : s.config.orderCount = n
  mutex : ∀ t, s.holds t = true ↔ s.queueMtx = some t
  early : s.starter.early = true → s.consumer = .notStarted
  late : s.producer ≠ .notStarted → s.starter.late = true
  lateRuns : s.starter.late = true → s.producer ≠ .notStarted
  cleared : s.starter = .unlockQueue ∨ s.starter = .reset ∨ s.starter = .createConsumer →
    s.sharedQueue = []
  undone : s.starter = .createConsumer → s.producerDone = false
  created : s.starter = .createProducer → s.consumer ≠ .notStarted
  unstarted : s.consumer = .notStarted → s.producer = .notStarted ∧ s.processed = []
  round : s.producer.RoundAt s.i s.config.orderCount
  known : s.consumer.KnownAt s.sharedQueue s.producerDone
  done_iff : s.consumer ≠ .notStarted →
    (s.producerDone = true ↔ s.producer.storedDone = true ∨ s.starter.storedDone = true)
  stream : s.consumer ≠ .notStarted →
    s.processed ++ s.consumer.inHand ++ s.sharedQueue ++ s.producer.inHand =
      List.range (s.producer.generated s.i)
  orderAhead : s.consumer = .blocked → s.sharedQueue ≠ [] → s.producer.notifiesOrder = true
  doneAhead : s.consumer = .blocked → s.producerDone = true →
    s.producer.notifiesDone = true ∨ s.starter.notifiesDone = true
  consumerRuns : s.consumerThread.joinable = true → s.consumer ≠ .notStarted
  producerRuns : s.producerThread.joinable = true → s.producer ≠ .notStarted

variable {s s' : MutexMatchingEngine} {n : Nat}

theorem Begins.inv (h : s.Begins) : s.Inv s.config.orderCount := by
  obtain ⟨hStarter, hProducer, hConsumer, hUnlocked, hThread, hThread', hProcessed⟩ := h
  constructor
  · rfl
  · intro t
    cases t <;> simp [hStarter, hProducer, hConsumer, hUnlocked]
  all_goals simp [hStarter, hProducer, hConsumer, hProcessed, hThread, hThread']

/-! ## The lock -/

/-- One thread at a time. -/
theorem Inv.holds_unique (h : s.Inv n) {t t' : ThreadName} (ht : s.holds t = true)
    (ht' : s.holds t' = true) : t = t' := by
  rw [h.mutex] at ht ht'
  rw [ht] at ht'
  exact Option.some.inj ht'

theorem mutex_keep (h : s.Inv n) (hMtx : s'.queueMtx = s.queueMtx)
    (hHolds : ∀ t, s'.holds t = s.holds t) (t : ThreadName) :
    s'.holds t = true ↔ s'.queueMtx = some t := by
  rw [hMtx, hHolds]
  exact h.mutex t

theorem mutex_acquire (h : s.Inv n) (t₀ : ThreadName) (hFree : s.queueMtx = none)
    (hMtx : s'.queueMtx = some t₀) (hHolds : s'.holds t₀ = true)
    (hOthers : ∀ t, t ≠ t₀ → s'.holds t = s.holds t) (t : ThreadName) :
    s'.holds t = true ↔ s'.queueMtx = some t := by
  by_cases ht : t = t₀
  · rw [ht, hMtx, hHolds]
    simp
  · have hNot := h.mutex t
    rw [hFree] at hNot
    rw [hMtx, hOthers t ht, hNot]
    simp [Ne.symm ht]

theorem mutex_release (h : s.Inv n) (t₀ : ThreadName) (hHeld : s.holds t₀ = true)
    (hMtx : s'.queueMtx = none) (hHolds : s'.holds t₀ = false)
    (hOthers : ∀ t, t ≠ t₀ → s'.holds t = s.holds t) (t : ThreadName) :
    s'.holds t = true ↔ s'.queueMtx = some t := by
  by_cases ht : t = t₀
  · rw [ht, hMtx, hHolds]
    simp
  · have hNot : s.holds t ≠ true := fun hOther => ht (h.holds_unique hOther hHeld)
    rw [hMtx, hOthers t ht]
    simp [hNot]

theorem acquire_eq {t : ThreadName} (h : s.acquire t = some s') :
    s.queueMtx = none ∧ s' = { s with queueMtx := some t } := by
  unfold acquire at h
  split at h
  case isTrue hFree => exact ⟨hFree, (Option.some.inj h).symm⟩
  case isFalse => cases h

end MutexMatchingEngine

end MatchingMachine
