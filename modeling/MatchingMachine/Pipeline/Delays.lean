import MatchingMachine.Pipeline.Outcome

/-!
# Steps with old information

Over the rings a thread may act on what was true a while ago: it finds a queue empty, or full,
that is so no longer, or a flag not yet set.  `LooseStep` allows this of the bounded queues, where
the code tries again later; the last pop of either thread must tell the truth.  The invariant of
the pipeline does not depend on when a thread learns of something (`Inv.loose`).
-/

namespace MatchingMachine

namespace Pipeline

/-- A step of the pipeline, or one whose thread has not noticed what the other did. -/
inductive LooseStep (p : Pipeline) : Pipeline → Prop
  | stay : LooseStep p p
  | perform (a : PipelineAction) {p' : Pipeline} (hStep : p.perform a = some p') : LooseStep p p'
  /-- `return_queue_` is taken for empty. -/
  | returnsUnseen (phase : DrainPhase) (hPc : p.producer = .drain phase) (hLast : phase ≠ .last) :
      LooseStep p { p with producer := afterDrain phase }
  /-- `order_queue_` is taken for full. -/
  | roomUnseen (slot : OrderPtr) (hPc : p.producer = .push slot) :
      LooseStep p { p with producer := .drain (.pushWait slot) }
  | consumerDoneUnseen (hPc : p.producer = .loadDone) :
      LooseStep p { p with producer := .drain .shutdown }
  /-- `order_queue_` is taken for empty. -/
  | ordersUnseen (hPc : p.consumer = .pop) : LooseStep p { p with consumer := .loadDone }
  | producerDoneUnseen (hPc : p.consumer = .loadDone) : LooseStep p { p with consumer := .pop }

variable {config : RunConfig} {cap : Nat} {buf : TradeRingBuffer kTradeBufBits} {p p' : Pipeline}

/-! ## Queue operations as steps -/

namespace LooseStep

theorem drain_nil {phase : DrainPhase} (hPc : p.producer = .drain phase)
    (hNil : p.returnQueue = []) : p.LooseStep { p with producer := afterDrain phase } := by
  refine .perform (.producer {} 0) ?_
  rw [Pipeline.perform, producerStep, hPc]
  simp only [Pipeline.drain, hNil, tryPop]

theorem drain_cons {phase : DrainPhase} {ret : OrderPtr} {q : List OrderPtr}
    (hPc : p.producer = .drain phase) (hCons : p.returnQueue = ret :: q) :
    p.LooseStep { p with returnQueue := q, producer := .deallocate phase ret } := by
  refine .perform (.producer {} 0) ?_
  rw [Pipeline.perform, producerStep, hPc]
  simp only [Pipeline.drain, hCons, tryPop]

theorem push_room {slot : OrderPtr} (hPc : p.producer = .push slot)
    (hRoom : p.orderQueue.length < kOrderQueueCap - 1) :
    p.LooseStep (nextOrder { p with
      orderQueue := p.orderQueue ++ [slot], pushed := wrap64 (p.pushed + 1) }) := by
  have hStep : p.perform (.producer {} 0) = some (p.push slot) := by
    rw [Pipeline.perform, producerStep, hPc]
  have hPush : tryPush kOrderQueueCap p.orderQueue slot = some (p.orderQueue ++ [slot]) :=
    if_pos hRoom
  refine .perform (.producer {} 0) (hStep.trans ?_)
  simp only [Pipeline.push, hPush]

theorem popAgain_nil (hPc : p.consumer = .popAgain) (hNil : p.orderQueue = []) :
    p.LooseStep { p with consumer := .storeDone } := by
  refine .perform (.consumer 0) ?_
  rw [Pipeline.perform, consumerStep, hPc]
  simp only [popOrder, hNil, tryPop]

theorem pop_cons {order : OrderPtr} {q : List OrderPtr}
    (hPc : p.consumer = .pop ∨ p.consumer = .popAgain) (hCons : p.orderQueue = order :: q) :
    p.LooseStep { p with orderQueue := q, consumer := .consume order } := by
  refine .perform (.consumer 0) ?_
  rw [Pipeline.perform, consumerStep]
  rcases hPc with hPc | hPc
  · rw [hPc]
    simp only [popOrder, hCons, tryPop]
  · rw [hPc]
    simp only [popOrder, hCons, tryPop]

theorem pushBack_room {job : Job} {ret : OrderPtr} {rest : Suspended}
    (hPc : p.consumer = .pushBack job ret rest)
    (hRoom : p.returnQueue.length < kReturnQueueCap - 1) :
    p.LooseStep { p with
      returnQueue := p.returnQueue ++ [ret], consumer := .resume job ret rest } := by
  have hPush : tryPush kReturnQueueCap p.returnQueue ret = some (p.returnQueue ++ [ret]) :=
    if_pos hRoom
  refine .perform (.consumer 0) ?_
  rw [Pipeline.perform, consumerStep, hPc]
  simp only [pushBack, hPush]

end LooseStep

/-! ## The invariant -/

/-- An unnoticed return, except in the last drain, keeps the invariant. -/
theorem Inv.returnsUnseen (h : p.Inv config cap buf) {phase : DrainPhase}
    (hPc : p.producer = .drain phase) (hLast : phase ≠ .last) :
    ({ p with producer := afterDrain phase } : Pipeline).Inv config cap buf := by
  have hAt := h.producerAt
  rw [hPc] at hAt
  refine h.of_producer ?_ ?_ ?_
  · cases phase with
    | slotWait => exact hAt
    | pushWait slot => exact hAt
    | shutdown => exact hAt
    | last => exact absurd rfl hLast
  · cases phase <;> simp [producerHand, afterDrain, hPc]
  · cases phase <;> simp [ready, afterDrain, hPc]

theorem Inv.loose (h : p.Inv config cap buf) (hStep : p.LooseStep p') : p'.Inv config cap buf := by
  have hProducer := h.producerAt
  have hConsumer := h.consumerAt
  have hBook := h.bookAt
  cases hStep with
  | stay => exact h
  | perform a hStep => exact h.perform hStep
  | returnsUnseen phase hPc hLast => exact h.returnsUnseen hPc hLast
  | roomUnseen slot hPc =>
      rw [hPc] at hProducer
      refine h.of_producer hProducer ?_ ?_
      · simp [producerHand, hPc]
      · simp [ready, hPc]
  | consumerDoneUnseen hPc =>
      rw [hPc] at hProducer
      refine h.of_producer hProducer ?_ ?_
      · simp [producerHand, hPc]
      · simp [ready, hPc]
  | ordersUnseen hPc =>
      rw [hPc] at hConsumer hBook
      refine h.of_consumer hConsumer ?_ ?_ ?_ hBook
      · simp [consumerHand, hPc]
      · simp [popped, hPc]
      · simp [begun, hPc]
  | producerDoneUnseen hPc =>
      rw [hPc] at hConsumer hBook
      refine h.of_consumer hConsumer ?_ ?_ ?_ hBook
      · simp [consumerHand, hPc]
      · simp [popped, hPc]
      · simp [begun, hPc]

end Pipeline

end MatchingMachine
