import MatchingMachine.Pipeline.Outcome

/-!
# Progress

A thread waits where it repeats operations that have just failed: the producer for a free slot,
for room in `order_queue_` or for the consumer's exit, emptying `return_queue_` meanwhile; the
consumer for an order or the end of the stream, or for room in `return_queue_`.
`producerProceeds` and `consumerProceeds` say that a thread does not wait, or that one of the
operations it repeats would succeed now.  `stuckOnlyOnFullBook` is what is left when both wait in
vain.
-/

namespace MatchingMachine

namespace Pipeline

/-! ## Waiting -/

/-- The producer waits for a free slot. -/
def waitsForSlot (p : Pipeline) : Bool :=
  match p.producer with
  | .drain .slotWait => true
  | .allocate => true
  | _ => false

/-- The producer does not wait, or has a way out. -/
def producerProceeds (p : Pipeline) : Bool :=
  let returns := (tryPop p.returnQueue).isSome
  let slot := (p.pool.allocate p.mem.heap).isSome
  let room := fun slot => (tryPush kOrderQueueCap p.orderQueue slot).isSome
  match p.producer with
  | .drain .slotWait => returns || slot
  | .allocate => returns || slot
  | .drain (.pushWait slot) => returns || room slot
  | .push slot => returns || room slot
  | .drain .shutdown => returns || p.consumerDone
  | .loadDone => returns || p.consumerDone
  | .exited => false
  | _ => true

/-- The consumer does not wait, or has a way out. -/
def consumerProceeds (p : Pipeline) : Bool :=
  let order := (tryPop p.orderQueue).isSome
  match p.consumer with
  | .pop => order || p.producerDone
  | .loadDone => order || p.producerDone
  | .pushBack _ ret _ => (tryPush kReturnQueueCap p.returnQueue ret).isSome
  | .exited => false
  | .stuck => false
  | _ => true

/-! ## When both wait -/

variable {config : RunConfig} {cap : Nat} {buf : TradeRingBuffer kTradeBufBits} {p : Pipeline}

theorem eq_nil_of_tryPop {α : Type} {q : List α} (h : (tryPop q).isSome = false) : q = [] := by
  cases q with
  | nil => rfl
  | cons item q => exact nomatch h

/-- A full queue is not empty. -/
theorem ne_nil_of_tryPush {cap : Nat} (hCap : 1 < cap) {q : List OrderPtr} {item : OrderPtr}
    (h : (tryPush cap q item).isSome = false) : q ≠ [] := by
  rintro rfl
  unfold tryPush at h
  rw [if_pos (by simpa using hCap)] at h
  exact nomatch h

namespace Inv

/-- A consumer without a way out waits at an empty queue of orders, or at a full queue of
returned ones, or has exited. -/
theorem of_not_consumerProceeds (h : p.Inv config cap buf) (hWait : p.consumerProceeds = false) :
    ((p.consumer = .pop ∨ p.consumer = .loadDone) ∧ p.orderQueue = [] ∧ p.producerDone = false) ∨
      p.returnQueue ≠ [] ∨ (p.consumer = .exited ∧ p.producerDone = true ∧ p.consumerDone = true) := by
  have hAt := h.consumerAt
  unfold consumerProceeds at hWait
  cases hPc : p.consumer with
  | pop =>
      rw [hPc] at hWait
      obtain ⟨hOrder, hDone⟩ := Bool.or_eq_false_iff.mp hWait
      exact Or.inl ⟨Or.inl rfl, eq_nil_of_tryPop hOrder, hDone⟩
  | loadDone =>
      rw [hPc] at hWait
      obtain ⟨hOrder, hDone⟩ := Bool.or_eq_false_iff.mp hWait
      exact Or.inl ⟨Or.inr rfl, eq_nil_of_tryPop hOrder, hDone⟩
  | pushBack job ret rest =>
      rw [hPc] at hWait
      exact Or.inr (Or.inl (ne_nil_of_tryPush (by decide) hWait))
  | exited =>
      rw [hPc] at hAt
      exact Or.inr (Or.inr ⟨rfl, hAt.2.1, hAt.1⟩)
  | stuck => rw [hPc] at hAt; exact hAt.elim
  | popAgain => rw [hPc] at hWait; exact nomatch hWait
  | consume order => rw [hPc] at hWait; exact nomatch hWait
  | addOrder order tPop tPush => rw [hPc] at hWait; exact nomatch hWait
  | resume job ret rest => rw [hPc] at hWait; exact nomatch hWait
  | finish job => rw [hPc] at hWait; exact nomatch hWait
  | storeDone => rw [hPc] at hWait; exact nomatch hWait

/-- Where a producer without a way out waits. -/
theorem of_not_producerProceeds (h : p.Inv config cap buf) (hWait : p.producerProceeds = false) :
    (p.waitsForSlot = true ∧ p.returnQueue = [] ∧ p.pool.freeSlots = [] ∧
        p.producerDone = false) ∨
      (p.returnQueue = [] ∧ p.orderQueue ≠ [] ∧ p.producerDone = false) ∨
      (p.returnQueue = [] ∧ p.producerDone = true ∧ p.consumerDone = false) ∨
      p.producer = .exited := by
  have hAt := h.producerAt
  -- a slot on the free list would be handed out
  have hSlots : (p.pool.allocate p.mem.heap).isSome = false → p.pool.freeSlots = [] := by
    intro hNone
    have hFree := h.freeList
    cases hSlots : p.pool.freeSlots with
    | nil => rfl
    | cons slot free =>
        rw [hSlots] at hFree
        obtain ⟨pool, hAllocate, -⟩ := hFree.allocate_cons p.mem.heap
        rw [hAllocate] at hNone
        exact nomatch hNone
  unfold producerProceeds at hWait
  cases hPc : p.producer with
  | drain phase =>
      rw [hPc] at hWait hAt
      cases phase with
      | slotWait =>
          obtain ⟨hReturns, hSlot⟩ := Bool.or_eq_false_iff.mp hWait
          exact Or.inl ⟨by simp [waitsForSlot, hPc], eq_nil_of_tryPop hReturns, hSlots hSlot, hAt.2⟩
      | pushWait slot =>
          obtain ⟨hReturns, hRoom⟩ := Bool.or_eq_false_iff.mp hWait
          exact Or.inr (Or.inl ⟨eq_nil_of_tryPop hReturns, ne_nil_of_tryPush (by decide) hRoom,
            hAt.2⟩)
      | shutdown =>
          obtain ⟨hReturns, hDone⟩ := Bool.or_eq_false_iff.mp hWait
          exact Or.inr (Or.inr (Or.inl ⟨eq_nil_of_tryPop hReturns, hAt.2, hDone⟩))
      | last => exact nomatch hWait
  | allocate =>
      rw [hPc] at hWait hAt
      obtain ⟨hReturns, hSlot⟩ := Bool.or_eq_false_iff.mp hWait
      exact Or.inl ⟨by simp [waitsForSlot, hPc], eq_nil_of_tryPop hReturns, hSlots hSlot, hAt.2⟩
  | push slot =>
      rw [hPc] at hWait hAt
      obtain ⟨hReturns, hRoom⟩ := Bool.or_eq_false_iff.mp hWait
      exact Or.inr (Or.inl ⟨eq_nil_of_tryPop hReturns, ne_nil_of_tryPush (by decide) hRoom, hAt.2⟩)
  | loadDone =>
      rw [hPc] at hWait hAt
      obtain ⟨hReturns, hDone⟩ := Bool.or_eq_false_iff.mp hWait
      exact Or.inr (Or.inr (Or.inl ⟨eq_nil_of_tryPop hReturns, hAt.2, hDone⟩))
  | exited => exact Or.inr (Or.inr (Or.inr rfl))
  | deallocate phase ret => rw [hPc] at hWait; exact nomatch hWait
  | generate slot => rw [hPc] at hWait; exact nomatch hWait
  | stamp slot => rw [hPc] at hWait; exact nomatch hWait
  | storeDone => rw [hPc] at hWait; exact nomatch hWait

/-- If neither thread has a way out, and not both have exited, the producer waits for a slot
while the book holds them all. -/
theorem stuck_spec (h : p.Inv config cap buf) (hExit : p.exited = false)
    (hProducer : p.producerProceeds = false) (hConsumer : p.consumerProceeds = false) :
    p.waitsForSlot = true ∧ (p.consumer = .pop ∨ p.consumer = .loadDone) ∧ p.orderQueue = [] ∧
      p.returnQueue = [] ∧ p.pool.freeSlots = [] := by
  rcases h.of_not_producerProceeds hProducer with ⟨hSlot, hReturns, hFree, hDone⟩ |
    ⟨hReturns, hQueue, hDone⟩ | ⟨hReturns, hDone, hOpen⟩ | hPc
  · rcases h.of_not_consumerProceeds hConsumer with ⟨hPc, hOrders, -⟩ | hFull | ⟨-, hDone', -⟩
    · exact ⟨hSlot, hPc, hOrders, hReturns, hFree⟩
    · exact absurd hReturns hFull
    · exact absurd (hDone.symm.trans hDone') Bool.false_ne_true
  · rcases h.of_not_consumerProceeds hConsumer with ⟨-, hOrders, -⟩ | hFull | ⟨-, hDone', -⟩
    · exact absurd hOrders hQueue
    · exact absurd hReturns hFull
    · exact absurd (hDone.symm.trans hDone') Bool.false_ne_true
  · rcases h.of_not_consumerProceeds hConsumer with ⟨-, -, hDone'⟩ | hFull | ⟨-, -, hOpen'⟩
    · exact absurd (hDone'.symm.trans hDone) Bool.false_ne_true
    · exact absurd hReturns hFull
    · exact absurd (hOpen.symm.trans hOpen') Bool.false_ne_true
  · -- a producer that has exited has seen the consumer exit
    have hAt := h.producerAt
    have hAt' := h.consumerAt
    rw [hPc] at hAt
    obtain ⟨-, hDone, hOpen, hReturns⟩ := hAt
    rcases h.of_not_consumerProceeds hConsumer with ⟨-, -, hDone'⟩ | hFull | ⟨hPc', -, -⟩
    · exact absurd (hDone'.symm.trans hDone) Bool.false_ne_true
    · exact absurd hReturns hFull
    · rw [exited, hPc, hPc'] at hExit
      exact nomatch hExit

/-- The slots of such a state all rest in the book, and there are no more of them than orders
have been pushed. -/
theorem resting_of_stuck (h : p.Inv config cap buf) (hSlot : p.waitsForSlot = true)
    (hPc : p.consumer = .pop ∨ p.consumer = .loadDone) (hOrders : p.orderQueue = [])
    (hReturns : p.returnQueue = []) (hFree : p.pool.freeSlots = []) :
    p.resting.Perm (List.range cap) ∧ cap < config.orderCount := by
  have hProducerHand : p.producerHand = [] := by
    unfold waitsForSlot at hSlot
    unfold producerHand
    split at hSlot
    · rename_i hEq
      rw [hEq]
    · rename_i hEq
      rw [hEq]
    · exact nomatch hSlot
  have hReady : p.ready = [] := by
    unfold waitsForSlot at hSlot
    unfold ready
    split at hSlot
    · rename_i hEq
      rw [hEq]
    · rename_i hEq
      rw [hEq]
    · exact nomatch hSlot
  have hPushed : p.pushed < p.config.orderCount := by
    have hAt := h.producerAt
    unfold waitsForSlot at hSlot
    split at hSlot
    · rename_i hEq
      rw [hEq] at hAt
      exact hAt.1
    · rename_i hEq
      rw [hEq] at hAt
      exact hAt.1
    · exact nomatch hSlot
  have hConsumerHand : p.consumerHand = [] := by
    rcases hPc with hPc | hPc <;> simp [consumerHand, hPc]
  have hPopped : p.popped = [] := by rcases hPc with hPc | hPc <;> simp [popped, hPc]
  have hBegun : p.begun = [] := by rcases hPc with hPc | hPc <;> simp [begun, hPc]
  have hRest : p.resting.Perm (List.range cap) := by
    have hPlaces := h.places
    rw [Pipeline.places, hProducerHand, hConsumerHand, hOrders, hReturns, hFree] at hPlaces
    simpa only [List.append_nil, List.nil_append] using hPlaces
  refine ⟨hRest, ?_⟩
  -- the book holds no more orders than have been processed
  have hBook : Represents p.mem.heap p.mem.book p.bookOf := by
    have hBook := h.bookAt
    rcases hPc with hPc | hPc <;> rw [hPc] at hBook <;> exact hBook.1
  have hLength : p.processed.length = p.pushed := by
    have hAll := congrArg List.length h.orders
    rw [h.length_generated, h.length_eq, hReady, hBegun, onTheWay, hPopped, hOrders, hReady] at hAll
    simpa using hAll.symm
  have hSize := h.size_le
  rw [← hBook.livePtrs_eq] at hSize
  have hCap : p.mem.book.livePtrs.length = cap := by
    have hEq := hRest.length_eq
    rwa [List.length_range] at hEq
  rw [← h.config_eq]
  omega

end Inv

end Pipeline

/-! ## The pipeline can only get stuck by exhausting its pool -/

section Run

variable {cap : Nat} {e : MatchingEngine} {config : RunConfig} {consumer producer : ThreadId}
  {p₀ p : Pipeline} {actions : List PipelineAction}

/-- In every state in which not both threads have exited, one of them does not wait or has a way
out, except where the producer waits for a slot, both queues are empty and all slots rest in the
book.  With at least as many slots as orders that does not happen. -/
theorem stuckOnlyOnFullBook (hPos : 0 < cap) (hLt : cap < 2 ^ 64) (he : Idle cap e)
    (hStart : e.start config (some consumer) (some producer) = .started p₀)
    (hRun : p₀.performAll actions = some p) (hExit : p.exited = false) :
    (p.producerProceeds = true ∨ p.consumerProceeds = true ∨
      (p.waitsForSlot = true ∧ p.orderQueue = [] ∧ p.returnQueue = [] ∧
        p.resting.Perm (List.range cap))) ∧
    (config.orderCount ≤ cap → p.producerProceeds = true ∨ p.consumerProceeds = true) := by
  obtain ⟨h, -⟩ := he.inv hPos hLt hStart hRun
  cases hProducer : p.producerProceeds with
  | true => exact ⟨Or.inl rfl, fun _ => Or.inl rfl⟩
  | false =>
      cases hConsumer : p.consumerProceeds with
      | true => exact ⟨Or.inr (Or.inl rfl), fun _ => Or.inr rfl⟩
      | false =>
          obtain ⟨hSlot, hPc, hOrders, hReturns, hFree⟩ := h.stuck_spec hExit hProducer hConsumer
          obtain ⟨hRest, hLess⟩ := h.resting_of_stuck hSlot hPc hOrders hReturns hFree
          exact ⟨Or.inr (Or.inr ⟨hSlot, hOrders, hReturns, hRest⟩), fun hLe => by omega⟩

/-- In the middle of a run the consumer is returning an order and has room. -/
theorem stuckOnlyOnFullBook_crossing :
    ∃ p, crossingStart.performAll (crossingActions.take 17) = some p ∧ p.exited = false ∧
      (p.producerProceeds = true ∨ p.consumerProceeds = true ∨
        (p.waitsForSlot = true ∧ p.orderQueue = [] ∧ p.returnQueue = [] ∧
          p.resting.Perm (List.range 2))) ∧
      (2 ≤ 2 → p.producerProceeds = true ∨ p.consumerProceeds = true) := by
  have hEnd : (crossingStart.performAll (crossingActions.take 17)).map Pipeline.exited =
      some false := by decide +kernel
  obtain ⟨p, hRun, hExit⟩ := Option.map_eq_some_iff.mp hEnd
  exact ⟨p, hRun, hExit, stuckOnlyOnFullBook (by decide) (by decide) .new rfl hRun hExit⟩

end Run

end MatchingMachine
