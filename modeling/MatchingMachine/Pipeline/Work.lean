import MatchingMachine.Pipeline.Progress

/-!
# What is left to be done

`work` counts what a run has yet to do.  An order in a queue is worth more than one in the
consumer's hand, that is worth more than one in `return_queue_`, and an order that is not yet
pushed is worth most.  No step raises it.  The steps that keep it are those of the waiting loops,
`producerIdles` and `consumerIdles`, and a thread with a way out takes at most one of them.
-/

namespace MatchingMachine

namespace Pipeline

/-! ## What is left to be done -/

def phaseRank : DrainPhase → Nat
  | .slotWait => 7
  | .pushWait _ => 4
  | .shutdown => 2
  | .last => 1

def producerRank : ProducerLoopPc → Nat
  | .drain phase => phaseRank phase
  | .deallocate phase _ => phaseRank phase + 2
  | .allocate => 7
  | .generate _ => 6
  | .stamp _ => 5
  | .push _ => 4
  | .storeDone => 3
  | .loadDone => 2
  | .exited => 0

def consumerRank : ConsumerLoopPc → Nat
  | .consume _ => 9
  | .addOrder _ _ _ => 8
  | .resume _ _ _ => 7
  | .pushBack _ _ _ => 5
  | .finish _ => 4
  | .pop => 3
  | .loadDone => 3
  | .popAgain => 2
  | .storeDone => 1
  | .exited => 0
  | .stuck => 0

/-- The measure: orders to be pushed, orders in the queues, orders in the consumer's hands, and
where the threads stand. -/
def work (p : Pipeline) : Nat :=
  24 * (p.config.orderCount - p.pushed) + 20 * p.orderQueue.length +
    8 * (p.consumerHand.length + p.resting.length) + 4 * p.returnQueue.length +
      producerRank p.producer + consumerRank p.consumer

/-- The producer's next operation fails, so that it only goes round its loop. -/
def producerIdles (p : Pipeline) : Bool :=
  match p.producer with
  | .drain .slotWait => (tryPop p.returnQueue).isNone
  | .drain (.pushWait _) => (tryPop p.returnQueue).isNone
  | .drain .shutdown => (tryPop p.returnQueue).isNone
  | .allocate => (p.pool.allocate p.mem.heap).isNone
  | .push slot => (tryPush kOrderQueueCap p.orderQueue slot).isNone
  | .loadDone => !p.consumerDone
  | _ => false

/-- The consumer's next operation fails, so that it only goes round its loop. -/
def consumerIdles (p : Pipeline) : Bool :=
  match p.consumer with
  | .pop => (tryPop p.orderQueue).isNone
  | .loadDone => !p.producerDone
  | .pushBack _ ret _ => (tryPush kReturnQueueCap p.returnQueue ret).isNone
  | _ => false

theorem length_of_tryPush {cap : Nat} {q q' : List OrderPtr} {item : OrderPtr}
    (h : tryPush cap q item = some q') : q'.length = q.length + 1 := by
  unfold tryPush at h
  split at h
  · obtain rfl := Option.some.inj h
    simp
  · exact nomatch h

variable {config : RunConfig} {cap : Nat} {buf : TradeRingBuffer kTradeBufBits} {p p' : Pipeline}

/-! ## A step of the producer -/

/-- Only the program counter of the producer changes. -/
theorem work_producer (p : Pipeline) (pc : ProducerLoopPc) :
    ({ p with producer := pc } : Pipeline).work + producerRank p.producer =
      p.work + producerRank pc := by
  have hHand : ({ p with producer := pc } : Pipeline).consumerHand = p.consumerHand := rfl
  have hResting : ({ p with producer := pc } : Pipeline).resting = p.resting := rfl
  simp only [work, hHand, hResting]
  omega

/-- What a step that keeps the measure is like: a turn of a waiting loop, the last one if there
is a way out. -/
def ProducerTurns (p p' : Pipeline) : Prop :=
  p.producerIdles = true ∧ (∃ pc, p' = { p with producer := pc }) ∧ p'.work = p.work ∧
    (p.producerProceeds = true → p'.producerProceeds = true ∧ p'.producerIdles = false)

theorem drain_work {phase : DrainPhase}
    (hPc : p.producer = .drain phase) :
    (p.drain phase).work < p.work ∨ p.ProducerTurns (p.drain phase) := by
  cases hReturns : p.returnQueue with
  | cons ret q =>
      left
      have hDrain : p.drain phase =
          { p with returnQueue := q, producer := .deallocate phase ret } := by
        simp only [Pipeline.drain, hReturns, tryPop]
      have hHand : (p.drain phase).consumerHand = p.consumerHand := by rw [hDrain]; rfl
      have hResting : (p.drain phase).resting = p.resting := by rw [hDrain]; rfl
      -- an order taken back leaves the return queue
      unfold work
      rw [hHand, hResting, hDrain, hReturns, hPc]
      simp only [producerRank, List.length_cons]
      omega
  | nil =>
      have hDrain : p.drain phase = { p with producer := afterDrain phase } := by
        simp only [Pipeline.drain, hReturns, tryPop]
      have hWork := work_producer p (afterDrain phase)
      rw [hPc] at hWork
      rw [hDrain]
      cases phase with
      | last =>
          left
          simp only [producerRank, phaseRank, afterDrain] at hWork ⊢
          omega
      | slotWait =>
          refine Or.inr ⟨by simp [producerIdles, hPc, hReturns, tryPop], ⟨_, rfl⟩, ?_, ?_⟩
          · simp only [producerRank, phaseRank, afterDrain] at hWork ⊢
            omega
          · intro hOut
            simp only [producerProceeds, hPc, hReturns, tryPop, afterDrain] at hOut ⊢
            simpa [producerIdles] using hOut
      | pushWait slot =>
          refine Or.inr ⟨by simp [producerIdles, hPc, hReturns, tryPop], ⟨_, rfl⟩, ?_, ?_⟩
          · simp only [producerRank, phaseRank, afterDrain] at hWork ⊢
            omega
          · intro hOut
            simp only [producerProceeds, hPc, hReturns, tryPop, afterDrain] at hOut ⊢
            simpa [producerIdles] using hOut
      | shutdown =>
          refine Or.inr ⟨by simp [producerIdles, hPc, hReturns, tryPop], ⟨_, rfl⟩, ?_, ?_⟩
          · simp only [producerRank, phaseRank, afterDrain] at hWork ⊢
            omega
          · intro hOut
            simp only [producerProceeds, hPc, hReturns, tryPop, afterDrain] at hOut ⊢
            simpa [producerIdles] using hOut

theorem deallocate_work {phase : DrainPhase} {ret : OrderPtr}
    (hPc : p.producer = .deallocate phase ret) : (p.deallocate phase ret).work < p.work := by
  have hHand : (p.deallocate phase ret).consumerHand = p.consumerHand := rfl
  have hResting : (p.deallocate phase ret).resting = p.resting := rfl
  unfold work
  rw [hHand, hResting, hPc]
  simp only [deallocate, producerRank]
  omega

theorem allocate_work (hPc : p.producer = .allocate) :
    p.allocate.work < p.work ∨ p.ProducerTurns p.allocate := by
  unfold allocate
  cases hSlot : p.pool.allocate p.mem.heap with
  | none =>
      have hWork := work_producer p (.drain .slotWait)
      rw [hPc] at hWork
      refine Or.inr ⟨by simp [producerIdles, hPc, hSlot], ⟨_, rfl⟩, ?_, ?_⟩
      · simp only [producerRank, phaseRank] at hWork ⊢
        omega
      · intro hOut
        simp only [producerProceeds, hPc, hSlot] at hOut ⊢
        -- the way out is an order to be taken back
        cases hReturns : tryPop p.returnQueue with
        | none => simp [hReturns] at hOut
        | some next => simp [producerIdles, hReturns]
  | some allocated =>
      obtain ⟨slot, pool, heap⟩ := allocated
      left
      unfold work
      rw [hPc]
      simp only [producerRank]
      show _ + 8 * (p.consumerHand.length + p.resting.length) + _ + _ + _ < _
      simp only [setHeap]
      omega

theorem Inv.push_work (h : p.Inv config cap buf) {slot : OrderPtr}
    (hPc : p.producer = .push slot) :
    (p.push slot).work < p.work ∨ p.ProducerTurns (p.push slot) := by
  have hAt := h.producerAt
  rw [hPc] at hAt
  have hLess : p.pushed < p.config.orderCount := hAt.1
  unfold Pipeline.push
  cases hRoom : tryPush kOrderQueueCap p.orderQueue slot with
  | none =>
      have hWork := work_producer p (.drain (.pushWait slot))
      rw [hPc] at hWork
      refine Or.inr ⟨by simp [producerIdles, hPc, hRoom], ⟨_, rfl⟩, ?_, ?_⟩
      · simp only [producerRank, phaseRank] at hWork ⊢
        omega
      · intro hOut
        simp only [producerProceeds, hPc, hRoom] at hOut ⊢
        cases hReturns : tryPop p.returnQueue with
        | none => simp [hReturns] at hOut
        | some next => simp [producerIdles, hReturns]
  | some q =>
      left
      have hq := length_of_tryPush hRoom
      have hWrap : wrap64 (p.pushed + 1) = p.pushed + 1 := by
        have hLt := p.config.orderCount_lt
        exact Nat.mod_eq_of_lt (by omega)
      have hRank : producerRank (if p.pushed + 1 < p.config.orderCount then .drain .slotWait
          else .storeDone) ≤ 7 := by
        split <;> simp [producerRank, phaseRank]
      unfold work
      rw [hPc]
      show 24 * (p.config.orderCount - wrap64 (p.pushed + 1)) + 20 * q.length +
        8 * (p.consumerHand.length + p.resting.length) + 4 * p.returnQueue.length +
          producerRank (if wrap64 (p.pushed + 1) < p.config.orderCount then .drain .slotWait
            else .storeDone) + consumerRank p.consumer < _
      have hPush : producerRank (.push slot) = 4 := rfl
      rw [hWrap, hq, hPush]
      omega

/-- A step of the producer lowers the measure, or is a turn of a waiting loop. -/
theorem Inv.producerStep_work (h : p.Inv config cap buf) {d : Draws} {now : UInt64}
    (hStep : p.producerStep d now = some p') : p'.work < p.work ∨ p.ProducerTurns p' := by
  unfold Pipeline.producerStep at hStep
  cases hPc : p.producer with
  | drain phase =>
      rw [hPc] at hStep
      obtain rfl := Option.some.inj hStep
      exact drain_work hPc
  | deallocate phase ret =>
      rw [hPc] at hStep
      obtain rfl := Option.some.inj hStep
      exact Or.inl (deallocate_work hPc)
  | allocate =>
      rw [hPc] at hStep
      obtain rfl := Option.some.inj hStep
      exact allocate_work hPc
  | generate slot =>
      rw [hPc] at hStep
      obtain rfl := Option.some.inj hStep
      left
      unfold work
      rw [hPc]
      show 24 * (p.config.orderCount - p.pushed) + 20 * p.orderQueue.length +
        8 * (p.consumerHand.length + p.resting.length) + 4 * p.returnQueue.length + 5 +
          consumerRank p.consumer < _
      simp only [producerRank]
      omega
  | stamp slot =>
      rw [hPc] at hStep
      obtain rfl := Option.some.inj hStep
      left
      unfold work
      rw [hPc]
      show 24 * (p.config.orderCount - p.pushed) + 20 * p.orderQueue.length +
        8 * (p.consumerHand.length + p.resting.length) + 4 * p.returnQueue.length + 4 +
          consumerRank p.consumer < _
      simp only [producerRank]
      omega
  | push slot =>
      rw [hPc] at hStep
      obtain rfl := Option.some.inj hStep
      -- a full order queue sends the producer to its returns: it only turns
      exact h.push_work hPc
  | storeDone =>
      rw [hPc] at hStep
      obtain rfl := Option.some.inj hStep
      left
      unfold work
      rw [hPc]
      show 24 * (p.config.orderCount - p.pushed) + 20 * p.orderQueue.length +
        8 * (p.consumerHand.length + p.resting.length) + 4 * p.returnQueue.length + 2 +
          consumerRank p.consumer < _
      simp only [producerRank]
      omega
  -- as long as the consumer runs, the producer goes back to taking orders back
  | loadDone =>
      rw [hPc] at hStep
      obtain rfl := Option.some.inj hStep
      unfold Pipeline.loadConsumerDone
      by_cases hDone : p.consumerDone = true
      · left
        have hWork := work_producer p (.drain .last)
        rw [hPc] at hWork
        rw [if_pos hDone]
        simp only [producerRank, phaseRank] at hWork
        omega
      · have hWork := work_producer p (.drain .shutdown)
        rw [hPc] at hWork
        rw [if_neg hDone]
        refine Or.inr ⟨by simp [producerIdles, hPc, hDone], ⟨_, rfl⟩, ?_, ?_⟩
        · simp only [producerRank, phaseRank] at hWork
          omega
        · intro hOut
          simp only [producerProceeds, hPc, hDone] at hOut ⊢
          cases hReturns : tryPop p.returnQueue with
          | none => simp [hReturns] at hOut
          | some next => simp [producerIdles, hReturns]
  | exited =>
      rw [hPc] at hStep
      cases hStep

/-! ## A step of the consumer -/

/-- Only the program counter of the consumer changes. -/
def ConsumerTurns (p p' : Pipeline) : Prop :=
  p.consumerIdles = true ∧ (∃ pc, p' = { p with consumer := pc }) ∧ p'.work = p.work ∧
    (p.consumerProceeds = true → p'.consumerProceeds = true ∧ p'.consumerIdles = false)

/-- The slots of the pool are counted, wherever they are. -/
theorem Inv.slots_length (h : p.Inv config cap buf) :
    p.pool.freeSlots.length + p.producerHand.length + p.orderQueue.length +
      (p.consumerHand.length + p.resting.length) + p.returnQueue.length = cap := by
  have hLength := h.places.length_eq
  rw [Pipeline.places, List.length_range] at hLength
  simp only [List.length_append] at hLength
  omega

/-- While the book works, orders move between it and the consumer's hand. -/
theorem Inv.advance_work (h : p.Inv config cap buf) {job : Job}
    {program : BookState.BookProgram kTradeBufBits (BookState kTradeBufBits)}
    (h' : (p.advance job program).Inv config cap buf) (hRank : 5 < consumerRank p.consumer) :
    (p.advance job program).work < p.work := by
  have hSlots := h.slots_length
  have hSlots' := h'.slots_length
  cases program with
  | ret s =>
      have hCount : (p.advance job (.ret s)).consumerHand.length +
          (p.advance job (.ret s)).resting.length = p.consumerHand.length + p.resting.length := by
        change p.pool.freeSlots.length + p.producerHand.length + p.orderQueue.length + _ +
          p.returnQueue.length = cap at hSlots'
        omega
      unfold work
      rw [hCount]
      show _ + _ + _ + _ + producerRank p.producer + 4 < _
      simp only [Pipeline.advance]
      omega
  | call ret s rest =>
      have hCount : (p.advance job (.call ret s rest)).consumerHand.length +
          (p.advance job (.call ret s rest)).resting.length =
            p.consumerHand.length + p.resting.length := by
        change p.pool.freeSlots.length + p.producerHand.length + p.orderQueue.length + _ +
          p.returnQueue.length = cap at hSlots'
        omega
      unfold work
      rw [hCount]
      show _ + _ + _ + _ + producerRank p.producer + 5 < _
      simp only [Pipeline.advance]
      omega
  | stuck => exact h'.consumerAt.elim

theorem popOrder_work {order : OrderPtr} {q : List OrderPtr} {empty : ConsumerLoopPc}
    (hQueue : p.orderQueue = order :: q) (hHand : p.consumerHand = [])
    (hRank : 2 ≤ consumerRank p.consumer) : (p.popOrder empty).work < p.work := by
  have hPop : p.popOrder empty = { p with orderQueue := q, consumer := .consume order } := by
    simp only [popOrder, hQueue, tryPop]
  unfold work
  rw [hPop, hQueue, hHand]
  show _ + 20 * q.length + 8 * (1 + p.resting.length) + _ + _ + 9 < _
  simp only [List.length_cons, List.length_nil]
  omega

theorem pushBack_work {job : Job} {ret : OrderPtr} {rest : Suspended}
    (hPc : p.consumer = .pushBack job ret rest) :
    (p.pushBack job ret rest).work < p.work ∨ p.ConsumerTurns (p.pushBack job ret rest) := by
  unfold pushBack
  cases hRoom : tryPush kReturnQueueCap p.returnQueue ret with
  | none =>
      refine Or.inr ⟨by simp [consumerIdles, hPc, hRoom], ⟨_, rfl⟩, rfl, ?_⟩
      intro hOut
      simp [consumerProceeds, hPc, hRoom] at hOut
  | some q =>
      left
      have hq := length_of_tryPush hRoom
      -- the consumer lets go of the order
      have hHand : p.consumerHand.length =
          ({ p with returnQueue := q, consumer := .resume job ret rest } :
            Pipeline).consumerHand.length + 1 := by
        simp only [consumerHand, hPc]
        split <;> rfl
      unfold work
      rw [hHand, hPc]
      show _ + 8 * (_ + p.resting.length) + 4 * q.length + _ + 7 < _
      rw [hq]
      simp only [consumerRank]
      omega

/-- A step of the consumer lowers the measure, or is a turn of a waiting loop. -/
theorem Inv.consumerStep_work (h : p.Inv config cap buf) {now : UInt64}
    (hStep : p.consumerStep now = some p') : p'.work < p.work ∨ p.ConsumerTurns p' := by
  have h' := h.consumerStep hStep
  unfold Pipeline.consumerStep at hStep
  cases hPc : p.consumer with
  -- the queue may be empty: then only the program counter turns and nothing is paid
  | pop =>
      rw [hPc] at hStep
      obtain rfl := Option.some.inj hStep
      cases hQueue : p.orderQueue with
      | cons order q =>
          exact Or.inl
            (popOrder_work hQueue (by simp [consumerHand, hPc]) (by simp [consumerRank, hPc]))
      | nil =>
          have hPop : p.popOrder .loadDone = { p with consumer := .loadDone } := by
            simp only [Pipeline.popOrder, hQueue, tryPop]
          rw [hPop]
          refine Or.inr ⟨by simp [consumerIdles, hPc, hQueue, tryPop], ⟨_, rfl⟩, ?_, ?_⟩
          · unfold work
            rw [hPc]
            simp only [consumerHand, hPc, consumerRank, resting]
          · intro hOut
            simp only [consumerProceeds, hPc, hQueue, tryPop] at hOut ⊢
            simpa [consumerIdles] using hOut
  -- with the flag unset the consumer goes back to its pop, the second way to turn
  | loadDone =>
      rw [hPc] at hStep
      obtain rfl := Option.some.inj hStep
      unfold Pipeline.loadProducerDone
      by_cases hDone : p.producerDone = true
      · left
        rw [if_pos hDone]
        unfold work
        rw [hPc]
        simp only [consumerHand, hPc, consumerRank, resting]
        omega
      · rw [if_neg hDone]
        refine Or.inr ⟨by simp [consumerIdles, hPc, hDone], ⟨_, rfl⟩, ?_, ?_⟩
        · unfold work
          rw [hPc]
          simp only [consumerHand, hPc, consumerRank, resting]
        · intro hOut
          simp only [consumerProceeds, hPc, hDone] at hOut ⊢
          cases hOrder : tryPop p.orderQueue with
          | none => simp [hOrder] at hOut
          | some next => simp [consumerIdles, hOrder]
  | popAgain =>
      rw [hPc] at hStep
      obtain rfl := Option.some.inj hStep
      left
      cases hQueue : p.orderQueue with
      | cons order q =>
          exact popOrder_work hQueue (by simp [consumerHand, hPc]) (by simp [consumerRank, hPc])
      | nil =>
          have hPop : p.popOrder .storeDone = { p with consumer := .storeDone } := by
            simp only [Pipeline.popOrder, hQueue, tryPop]
          rw [hPop]
          unfold work
          rw [hPc]
          simp only [consumerHand, hPc, consumerRank, resting]
          omega
  | consume order =>
      rw [hPc] at hStep
      obtain rfl := Option.some.inj hStep
      left
      have hConsume : ∃ tPop tPush,
          p.consume order now = { p with consumer := .addOrder order tPop tPush } := by
        unfold Pipeline.consume
        split
        · exact ⟨_, _, rfl⟩
        · exact ⟨_, _, rfl⟩
      obtain ⟨tPop, tPush, hConsume⟩ := hConsume
      rw [hConsume]
      unfold work
      rw [hPc]
      simp only [consumerHand, hPc, consumerRank, resting]
      omega
  | addOrder order tPop tPush =>
      rw [hPc] at hStep
      obtain rfl := Option.some.inj hStep
      exact Or.inl (h.advance_work h' (by simp [consumerRank, hPc]))
  | pushBack job ret rest =>
      rw [hPc] at hStep
      obtain rfl := Option.some.inj hStep
      exact pushBack_work hPc
  | resume job ret rest =>
      rw [hPc] at hStep
      obtain rfl := Option.some.inj hStep
      exact Or.inl (h.advance_work h' (by simp [consumerRank, hPc]))
  | finish job =>
      rw [hPc] at hStep
      obtain rfl := Option.some.inj hStep
      left
      unfold work
      rw [hPc]
      simp only [Pipeline.finish, consumerHand, hPc, consumerRank, resting]
      omega
  | storeDone =>
      rw [hPc] at hStep
      obtain rfl := Option.some.inj hStep
      left
      unfold work
      rw [hPc]
      simp only [Pipeline.storeConsumerDone, consumerHand, hPc, consumerRank, resting]
      omega
  | exited =>
      rw [hPc] at hStep
      cases hStep
  | stuck =>
      rw [hPc] at hStep
      cases hStep

end Pipeline

end MatchingMachine
