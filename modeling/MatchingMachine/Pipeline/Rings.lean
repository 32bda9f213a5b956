import MatchingMachine.Concurrency.RingCalls
import MatchingMachine.Pipeline.Delays

/-!
# The pipeline over its rings refines the pipeline over bounded queues

`queues` reads the contents of the rings as the queues of `Model.Pipeline`.  Most steps inside a
call are invisible there; the stores of `tail_` and `head_` are its pushes and pops, and a failed
call is a step with old information.  `Inv` adds what the refinement needs: in which calls the
threads are, and what the flags have made visible.  The last drain of the producer and the second
pop of the consumer come after the load of a flag, so they see all pushes.
-/

namespace MatchingMachine

namespace RingPipeline

open Pipeline (LooseStep)

/-- The pipeline over bounded queues. -/
def queues (p : RingPipeline) : Pipeline :=
  { p.base with orderQueue := p.orderRing.contents, returnQueue := p.returnRing.contents }

/-- The producer has seen that the consumer is done. -/
def AtLast : ProducerLoopPc → Prop
  | .drain .last => True
  | .deallocate .last _ => True
  | _ => False

structure Inv (config : RunConfig) (cap : Nat) (buf : TradeRingBuffer kTradeBufBits)
    (p : RingPipeline) : Prop where
  pipeline : p.queues.Inv config cap buf
  orders : p.orderRing.Inv
  returns : p.returnRing.Inv
  pushing : ∀ slot, p.orderRing.pushing = some slot → p.base.producer = .push slot
  draining : p.returnRing.popping = true → ∃ phase, p.base.producer = .drain phase
  returning : ∀ ret, p.returnRing.pushing = some ret →
    ∃ job rest, p.base.consumer = .pushBack job ret rest
  popping : p.orderRing.popping = true → p.base.consumer = .pop ∨ p.base.consumer = .popAgain
  producerDoneView : p.base.producerDone = true → p.producerDoneView = p.orderRing.pushes.length
  consumerDoneView : p.base.consumerDone = true → p.consumerDoneView = p.returnRing.pushes.length
  lastReturns : AtLast p.base.producer → p.returnRing.tailSeen = p.returnRing.pushes.length
  lastOrders : p.base.consumer = .popAgain → p.orderRing.tailSeen = p.orderRing.pushes.length

variable {config : RunConfig} {cap : Nat} {buf : TradeRingBuffer kTradeBufBits}
  {p p' : RingPipeline}

/-- The producer is in its last drain only once the consumer is done. -/
theorem consumerDone_of_last {q : Pipeline} (h : q.Inv config cap buf) (hLast : AtLast q.producer) :
    q.consumerDone = true := by
  have hAt : q.ProducerAt q.producer := h.producerAt
  unfold AtLast at hLast
  split at hLast
  · rename_i hPc
    rw [hPc] at hAt
    exact hAt.2.2
  · rename_i hPc
    rw [hPc] at hAt
    exact hAt.2.2
  · exact hLast.elim

namespace Inv

theorem not_pushing (h : p.Inv config cap buf) (hPc : ∀ slot, p.base.producer ≠ .push slot)
    (slot : OrderPtr) : p.orderRing.pushing ≠ some slot :=
  fun hSlot => hPc slot (h.pushing slot hSlot)

theorem not_draining (h : p.Inv config cap buf) (hPc : ∀ phase, p.base.producer ≠ .drain phase) :
    p.returnRing.popping ≠ true := by
  intro hPopping
  obtain ⟨phase, hPhase⟩ := h.draining hPopping
  exact hPc phase hPhase

theorem not_returning (h : p.Inv config cap buf)
    (hPc : ∀ job ret rest, p.base.consumer ≠ .pushBack job ret rest) (ret : OrderPtr) :
    p.returnRing.pushing ≠ some ret := by
  intro hRet
  obtain ⟨job, rest, hBack⟩ := h.returning ret hRet
  exact hPc job ret rest hBack

theorem not_popping (h : p.Inv config cap buf) (hPop : p.base.consumer ≠ .pop)
    (hAgain : p.base.consumer ≠ .popAgain) : p.orderRing.popping ≠ true := by
  intro hPopping
  rcases h.popping hPopping with hPc | hPc
  · exact hPop hPc
  · exact hAgain hPc

/-! ## The producer -/

/-- A step of a call of `try_pop` on `return_queue_`, after which the producer is at `pc`. -/
theorem of_returnPopped (h : p.Inv config cap buf)
    {ring : SpscRingBuffer OrderPtr kReturnQueueBits} {result : Option (Option OrderPtr)}
    (hPopped : SpscRingBuffer.Popped p.returnRing ring result) (pc : ProducerLoopPc)
    (hQueues : ({ p with returnRing := ring, base := { p.base with producer := pc } } :
      RingPipeline).queues.Inv config cap buf)
    (hNoPush : ∀ slot, p.orderRing.pushing ≠ some slot)
    (hDraining : result = none → ∃ phase, pc = .drain phase)
    (hLast : AtLast pc → AtLast p.base.producer) :
    ({ p with returnRing := ring, base := { p.base with producer := pc } } : RingPipeline).Inv
      config cap buf := by
  have hPushes : ring.pushes.length = p.returnRing.pushes.length := by rw [hPopped.pushes_eq]
  refine { h with
    pipeline := hQueues
    returns := hPopped.inv
    pushing := fun slot hSlot => absurd hSlot (hNoPush slot)
    draining := fun hPopping => hDraining ?_
    returning := fun ret hRet => h.returning ret (hPopped.pushing_eq ▸ hRet)
    consumerDoneView := fun hDone => (h.consumerDoneView hDone).trans hPushes.symm
    lastReturns := fun hAt => ?_ }
  · exact Option.isNone_iff_eq_none.mp (hPopped.popping_eq.symm.trans hPopping)
  · have hSeen := h.lastReturns (hLast hAt)
    have hBefore := hPopped.tailSeen_le
    have hAfter := hPopped.inv.tailSeen_le
    show ring.tailSeen = ring.pushes.length
    omega

theorem drain (h : p.Inv config cap buf) {phase : DrainPhase} {j : Nat}
    (hPc : p.base.producer = .drain phase) (hStep : p.drain phase j = some p') :
    LooseStep p.queues p'.queues ∧ p'.Inv config cap buf := by
  obtain ⟨⟨ring, result⟩, hCall, rfl⟩ := Option.map_eq_some_iff.mp hStep
  have hPopped := h.returns.popStep (by decide) hCall
  have hNoPush := h.not_pushing fun slot => by simp [hPc]
  cases result with
  | none =>
      have hSame : p.returnRing.contents = ring.contents := hPopped.contents_eq
      have hLoose : LooseStep p.queues { p.queues with returnQueue := ring.contents } := by
        rw [← hSame]
        exact .stay
      exact ⟨hLoose, h.of_returnPopped hPopped p.base.producer (h.pipeline.loose hLoose) hNoPush
        (fun _ => ⟨phase, hPc⟩) id⟩
  | some found =>
      cases found with
      | none =>
          have hSame : p.returnRing.contents = ring.contents := hPopped.contents_eq
          have hLoose : LooseStep p.queues { p.queues with
              returnQueue := ring.contents, producer := Pipeline.afterDrain phase } := by
            rw [← hSame]
            by_cases hLast : phase = .last
            · subst hLast
              have hSeen := h.lastReturns (by rw [hPc]; trivial)
              exact .drain_nil hPc (hSame.trans (hPopped.accurate hSeen rfl))
            · exact .returnsUnseen phase hPc hLast
          exact ⟨hLoose, h.of_returnPopped hPopped _ (h.pipeline.loose hLoose) hNoPush nofun
            (by cases phase <;> exact False.elim)⟩
      | some ret =>
          have hLoose : LooseStep p.queues { p.queues with
              returnQueue := ring.contents, producer := .deallocate phase ret } :=
            .drain_cons hPc hPopped.contents_eq
          refine ⟨hLoose, h.of_returnPopped hPopped _ (h.pipeline.loose hLoose) hNoPush nofun ?_⟩
          intro hAt
          rw [hPc]
          cases phase <;> exact hAt

/-- A step of a call of `try_push` on `order_queue_`, which leaves the consumer where it is. -/
theorem of_orderPushed (h : p.Inv config cap buf)
    {ring : SpscRingBuffer OrderPtr kOrderQueueBits} {slot : OrderPtr} {result : Option Bool}
    (hPushed : SpscRingBuffer.Pushed p.orderRing slot ring result) {base : Pipeline}
    (hConsumer : base.consumer = p.base.consumer)
    (hConsumerDone : base.consumerDone = p.base.consumerDone)
    (hProducerDone : base.producerDone = false)
    (hQueues : ({ p with orderRing := ring, base := base } : RingPipeline).queues.Inv
      config cap buf)
    (hNoDrain : p.returnRing.popping ≠ true)
    (hPushing : result = none → base.producer = .push slot) (hLast : ¬ AtLast base.producer) :
    ({ p with orderRing := ring, base := base } : RingPipeline).Inv config cap buf := by
  have hNotAgain : base.consumer ≠ .popAgain := by
    intro hPc
    have hAt : ({ p with orderRing := ring, base := base } : RingPipeline).queues.ConsumerAt
      base.consumer := hQueues.consumerAt
    rw [hPc] at hAt
    have hDone : base.producerDone = true := hAt.2
    rw [hProducerDone] at hDone
    cases hDone
  refine { h with
    pipeline := hQueues
    orders := hPushed.inv
    pushing := fun next hNext => ?_
    draining := fun hPopping => absurd hPopping hNoDrain
    returning := fun ret hRet => ?_
    popping := fun hPopping => ?_
    producerDoneView := fun hDone => ?_
    consumerDoneView := fun hDone => h.consumerDoneView (hConsumerDone.symm.trans hDone)
    lastReturns := fun hAt => absurd hAt hLast
    lastOrders := fun hPc => absurd hPc hNotAgain }
  · have hItem : (if result = none then some slot else none) = some next :=
      hPushed.pushing_eq.symm.trans hNext
    split at hItem
    · rename_i hNone
      exact Option.some.inj hItem ▸ hPushing hNone
    · cases hItem
  · rw [hConsumer]
    exact h.returning ret hRet
  · rw [hConsumer]
    exact h.popping (hPushed.popping_eq.symm.trans hPopping)
  · exact absurd (hProducerDone.symm.trans hDone) Bool.false_ne_true

/-- While it pushes, the producer has not set its flag. -/
theorem producerDone_of_push (h : p.Inv config cap buf) {slot : OrderPtr}
    (hPc : p.base.producer = .push slot) : p.base.producerDone = false := by
  have hAt : p.queues.ProducerAt p.base.producer := h.pipeline.producerAt
  rw [hPc] at hAt
  exact hAt.2

theorem push (h : p.Inv config cap buf) {slot : OrderPtr} {j : Nat}
    (hPc : p.base.producer = .push slot) (hStep : p.push slot j = some p') :
    LooseStep p.queues p'.queues ∧ p'.Inv config cap buf := by
  obtain ⟨⟨ring, result⟩, hCall, rfl⟩ := Option.map_eq_some_iff.mp hStep
  have hDone := h.producerDone_of_push hPc
  have hNoDrain := h.not_draining fun phase => by simp [hPc]
  -- a push in progress is the push of this slot
  have hItem : p.orderRing.pushing = none ∨ p.orderRing.pushing = some slot := by
    cases hPushing : p.orderRing.pushing with
    | none => exact Or.inl rfl
    | some item =>
        have hSame := h.pushing item hPushing
        rw [hPc] at hSame
        exact Or.inr (congrArg some (ProducerLoopPc.push.inj hSame).symm)
  have hPushed := h.orders.pushStep (by decide) hItem hCall
  match result with
  | none =>
      have hSame : ring.contents = p.orderRing.contents := hPushed.contents_eq
      have hLoose : LooseStep p.queues { p.queues with orderQueue := ring.contents } := by
        rw [hSame]
        exact .stay
      exact ⟨hLoose, h.of_orderPushed hPushed rfl rfl hDone (h.pipeline.loose hLoose) hNoDrain
        (fun _ => hPc) (by rw [hPc]; exact id)⟩
  -- the head read was stale: the ring may have room by now
  | some false =>
      have hSame : ring.contents = p.orderRing.contents := hPushed.contents_eq
      have hLoose : LooseStep p.queues { p.queues with
          orderQueue := ring.contents, producer := .drain (.pushWait slot) } := by
        rw [hSame]
        exact .roomUnseen slot hPc
      refine ⟨hLoose, ?_⟩
      exact h.of_orderPushed hPushed rfl rfl hDone (h.pipeline.loose hLoose) hNoDrain nofun id
  -- room that was seen is still there, for only the producer fills the ring
  | some true =>
      have hSame : ring.contents = p.orderRing.contents ++ [slot] := hPushed.contents_eq
      have hLoose : LooseStep p.queues (Pipeline.nextOrder { p.queues with
          orderQueue := ring.contents, pushed := wrap64 (p.base.pushed + 1) }) := by
        rw [hSame]
        exact .push_room hPc (hPushed.room rfl)
      refine ⟨hLoose, ?_⟩
      refine h.of_orderPushed hPushed rfl rfl hDone (h.pipeline.loose hLoose) hNoDrain nofun ?_
      unfold Pipeline.nextOrder
      dsimp only
      split
      · exact id
      · exact id

theorem storeProducerDone (h : p.Inv config cap buf) (hPc : p.base.producer = .storeDone) :
    LooseStep p.queues p.storeProducerDone.queues ∧ p.storeProducerDone.Inv config cap buf := by
  have hLoose : LooseStep p.queues p.queues.storeProducerDone := by
    refine .perform (.producer {} 0) ?_
    rw [Pipeline.perform, Pipeline.producerStep, show p.queues.producer = .storeDone from hPc]
  have hNoPush := h.not_pushing fun slot => by simp [hPc]
  have hNoDrain := h.not_draining fun phase => by simp [hPc]
  exact ⟨hLoose, { h with
    pipeline := h.pipeline.loose hLoose
    pushing := fun slot hSlot => absurd hSlot (hNoPush slot)
    draining := fun hPopping => absurd hPopping hNoDrain
    producerDoneView := fun _ => rfl
    lastReturns := False.elim }⟩

theorem loadConsumerDone (h : p.Inv config cap buf) (hPc : p.base.producer = .loadDone)
    (fresh : Bool) :
    LooseStep p.queues (p.loadConsumerDone fresh).queues ∧
      (p.loadConsumerDone fresh).Inv config cap buf := by
  have hNoPush := h.not_pushing fun slot => by simp [hPc]
  have hNoDrain := h.not_draining fun phase => by simp [hPc]
  unfold RingPipeline.loadConsumerDone
  by_cases hSeen : (p.base.consumerDone && fresh) = true
  · obtain ⟨hDone, -⟩ := Bool.and_eq_true_iff.mp hSeen
    rw [if_pos hSeen]
    have hLoose : LooseStep p.queues { p.queues with producer := .drain .last } := by
      refine .perform (.producer {} 0) ?_
      rw [Pipeline.perform, Pipeline.producerStep, show p.queues.producer = .loadDone from hPc]
      dsimp only
      rw [Pipeline.loadConsumerDone, if_pos (show p.queues.consumerDone = true from hDone)]
    have hView := h.consumerDoneView hDone
    refine ⟨hLoose, { h with
      pipeline := h.pipeline.loose hLoose
      returns := h.returns.acquire hView.le
      pushing := fun slot hSlot => absurd hSlot (hNoPush slot)
      draining := fun hPopping => absurd hPopping hNoDrain
      lastReturns := fun _ => ?_ }⟩
    rw [hView]
    exact h.returns.acquire_all
  · rw [if_neg hSeen]
    have hLoose : LooseStep p.queues { p.queues with producer := .drain .shutdown } :=
      .consumerDoneUnseen hPc
    exact ⟨hLoose, { h with
      pipeline := h.pipeline.loose hLoose
      pushing := fun slot hSlot => absurd hSlot (hNoPush slot)
      draining := fun hPopping => absurd hPopping hNoDrain
      lastReturns := False.elim }⟩

/-- A step of the producer that touches neither a ring nor a flag. -/
theorem of_producer (h : p.Inv config cap buf) {base : Pipeline}
    (hLoose : LooseStep p.queues ({ p with base := base } : RingPipeline).queues)
    (hConsumer : base.consumer = p.base.consumer)
    (hConsumerDone : base.consumerDone = p.base.consumerDone)
    (hProducerDone : base.producerDone = p.base.producerDone)
    (hNoPush : ∀ slot, p.orderRing.pushing ≠ some slot) (hNoDrain : p.returnRing.popping ≠ true)
    (hLast : AtLast base.producer → AtLast p.base.producer) :
    LooseStep p.queues ({ p with base := base } : RingPipeline).queues ∧
      ({ p with base := base } : RingPipeline).Inv config cap buf := by
  refine ⟨hLoose, { h with
    pipeline := h.pipeline.loose hLoose
    pushing := fun slot hSlot => absurd hSlot (hNoPush slot)
    draining := fun hPopping => absurd hPopping hNoDrain
    returning := fun ret hRet => ?_
    popping := fun hPopping => ?_
    producerDoneView := fun hDone => h.producerDoneView (hProducerDone.symm.trans hDone)
    consumerDoneView := fun hDone => h.consumerDoneView (hConsumerDone.symm.trans hDone)
    lastReturns := fun hAt => h.lastReturns (hLast hAt)
    lastOrders := fun hPc => h.lastOrders (hConsumer.symm.trans hPc) }⟩
  · rw [hConsumer]
    exact h.returning ret hRet
  · rw [hConsumer]
    exact h.popping hPopping

/-- A step of the producer is a step on bounded queues, perhaps with old information. -/
theorem producerStep (h : p.Inv config cap buf) {d : Draws} {now : UInt64} {j : Nat}
    {fresh : Bool} (hStep : p.producerStep d now j fresh = some p') :
    LooseStep p.queues p'.queues ∧ p'.Inv config cap buf := by
  unfold RingPipeline.producerStep at hStep
  cases hPc : p.base.producer with
  | drain phase =>
      rw [hPc] at hStep
      exact h.drain hPc hStep
  | deallocate phase ret =>
      simp only [hPc, Pipeline.producerStep, Option.map_some, Option.some.injEq] at hStep
      subst hStep
      refine h.of_producer (.perform (.producer d now) ?_) rfl rfl rfl
        (h.not_pushing (by simp [hPc])) (h.not_draining (by simp [hPc])) ?_
      · rw [Pipeline.perform, Pipeline.producerStep,
          show p.queues.producer = .deallocate phase ret from hPc]
        rfl
      · intro hAt
        rw [hPc]
        cases phase <;> exact hAt
  | allocate =>
      simp only [hPc, Pipeline.producerStep, Option.map_some, Option.some.injEq] at hStep
      subst hStep
      have hAllocate : p.queues.allocate = ({ p with base := p.base.allocate } :
          RingPipeline).queues := by
        show Pipeline.allocate p.queues = _
        unfold Pipeline.allocate RingPipeline.queues
        dsimp only
        cases p.base.pool.allocate p.base.mem.heap <;> rfl
      refine h.of_producer (.perform (.producer d now) ?_) ?_ ?_ ?_ (h.not_pushing (by simp [hPc]))
        (h.not_draining (by simp [hPc])) ?_
      · rw [Pipeline.perform, Pipeline.producerStep,
          show p.queues.producer = .allocate from hPc, ← hAllocate]
      all_goals
        unfold Pipeline.allocate
        cases p.base.pool.allocate p.base.mem.heap <;> first | rfl | exact False.elim
  | generate slot =>
      simp only [hPc, Pipeline.producerStep, Option.map_some, Option.some.injEq] at hStep
      subst hStep
      refine h.of_producer (.perform (.producer d now) ?_) rfl rfl rfl
        (h.not_pushing (by simp [hPc])) (h.not_draining (by simp [hPc])) False.elim
      rw [Pipeline.perform, Pipeline.producerStep,
        show p.queues.producer = .generate slot from hPc]
      rfl
  | stamp slot =>
      simp only [hPc, Pipeline.producerStep, Option.map_some, Option.some.injEq] at hStep
      subst hStep
      refine h.of_producer (.perform (.producer d now) ?_) rfl rfl rfl
        (h.not_pushing (by simp [hPc])) (h.not_draining (by simp [hPc])) False.elim
      rw [Pipeline.perform, Pipeline.producerStep, show p.queues.producer = .stamp slot from hPc]
      rfl
  | push slot =>
      rw [hPc] at hStep
      exact h.push hPc hStep
  | storeDone =>
      rw [hPc] at hStep
      exact Option.some.inj hStep ▸ h.storeProducerDone hPc
  | loadDone =>
      rw [hPc] at hStep
      exact Option.some.inj hStep ▸ h.loadConsumerDone hPc fresh
  | exited =>
      simp only [hPc, Pipeline.producerStep, Option.map_none] at hStep
      cases hStep

/-! ## The consumer -/

/-- A step of a call of `try_pop` on `order_queue_`, after which the consumer is at `pc`. -/
theorem of_orderPopped (h : p.Inv config cap buf)
    {ring : SpscRingBuffer OrderPtr kOrderQueueBits} {result : Option (Option OrderPtr)}
    (hPopped : SpscRingBuffer.Popped p.orderRing ring result) (pc : ConsumerLoopPc)
    (hQueues : ({ p with orderRing := ring, base := { p.base with consumer := pc } } :
      RingPipeline).queues.Inv config cap buf)
    (hNoReturn : ∀ ret, p.returnRing.pushing ≠ some ret)
    (hPopping : result = none → pc = .pop ∨ pc = .popAgain)
    (hLast : pc = .popAgain → p.base.consumer = .popAgain) :
    ({ p with orderRing := ring, base := { p.base with consumer := pc } } : RingPipeline).Inv
      config cap buf := by
  have hPushes : ring.pushes.length = p.orderRing.pushes.length := by rw [hPopped.pushes_eq]
  refine { h with
    pipeline := hQueues
    orders := hPopped.inv
    pushing := fun slot hSlot => h.pushing slot (hPopped.pushing_eq ▸ hSlot)
    returning := fun ret hRet => absurd hRet (hNoReturn ret)
    popping := fun hCall => hPopping ?_
    producerDoneView := fun hDone => (h.producerDoneView hDone).trans hPushes.symm
    lastOrders := fun hPc => ?_ }
  · exact Option.isNone_iff_eq_none.mp (hPopped.popping_eq.symm.trans hCall)
  · have hSeen := h.lastOrders (hLast hPc)
    have hBefore := hPopped.tailSeen_le
    have hAfter := hPopped.inv.tailSeen_le
    show ring.tailSeen = ring.pushes.length
    omega

/-- A step of a call of `try_pop`, where a failed call leads to `empty`. -/
theorem popOrder (h : p.Inv config cap buf) {empty : ConsumerLoopPc} {j : Nat}
    (hPc : p.base.consumer = .pop ∧ empty = .loadDone ∨
      p.base.consumer = .popAgain ∧ empty = .storeDone)
    (hStep : p.popOrder empty j = some p') :
    LooseStep p.queues p'.queues ∧ p'.Inv config cap buf := by
  obtain ⟨⟨ring, result⟩, hCall, rfl⟩ := Option.map_eq_some_iff.mp hStep
  have hPopped := h.orders.popStep (by decide) hCall
  have hAt : p.base.consumer = .pop ∨ p.base.consumer = .popAgain := hPc.imp And.left And.left
  have hNoReturn : ∀ ret, p.returnRing.pushing ≠ some ret := by
    refine h.not_returning fun job ret rest => ?_
    rcases hAt with hAt | hAt <;> simp [hAt]
  cases result with
  | none =>
      have hSame : p.orderRing.contents = ring.contents := hPopped.contents_eq
      have hLoose : LooseStep p.queues { p.queues with orderQueue := ring.contents } := by
        rw [← hSame]
        exact .stay
      exact ⟨hLoose, h.of_orderPopped hPopped p.base.consumer (h.pipeline.loose hLoose) hNoReturn
        (fun _ => hAt) id⟩
  | some found =>
      cases found with
      | none =>
          have hSame : p.orderRing.contents = ring.contents := hPopped.contents_eq
          have hLoose : LooseStep p.queues { p.queues with
              orderQueue := ring.contents, consumer := empty } := by
            rw [← hSame]
            rcases hPc with ⟨hPop, rfl⟩ | ⟨hAgain, rfl⟩
            · exact .ordersUnseen hPop
            · exact .popAgain_nil hAgain
                (hSame.trans (hPopped.accurate (h.lastOrders hAgain) rfl))
          refine ⟨hLoose, h.of_orderPopped hPopped empty (h.pipeline.loose hLoose) hNoReturn nofun
            fun hEmpty => ?_⟩
          rcases hPc with ⟨-, rfl⟩ | ⟨-, rfl⟩
          · cases hEmpty
          · cases hEmpty
      | some order =>
          have hLoose : LooseStep p.queues { p.queues with
              orderQueue := ring.contents, consumer := .consume order } :=
            .pop_cons hAt hPopped.contents_eq
          exact ⟨hLoose, h.of_orderPopped hPopped _ (h.pipeline.loose hLoose) hNoReturn nofun
            nofun⟩

/-- A step of a call of `try_push` on `return_queue_`, after which the consumer is at `pc`. -/
theorem of_returnPushed (h : p.Inv config cap buf)
    {ring : SpscRingBuffer OrderPtr kReturnQueueBits} {ret : OrderPtr} {result : Option Bool}
    (hPushed : SpscRingBuffer.Pushed p.returnRing ret ring result) (pc : ConsumerLoopPc)
    (hQueues : ({ p with returnRing := ring, base := { p.base with consumer := pc } } :
      RingPipeline).queues.Inv config cap buf)
    (hNotDone : p.base.consumerDone = false) (hNoPop : p.orderRing.popping ≠ true)
    (hReturning : result = none → ∃ job rest, pc = .pushBack job ret rest)
    (hAgain : pc ≠ .popAgain) :
    ({ p with returnRing := ring, base := { p.base with consumer := pc } } : RingPipeline).Inv
      config cap buf := by
  refine { h with
    pipeline := hQueues
    returns := hPushed.inv
    draining := fun hPopping => h.draining (hPushed.popping_eq.symm.trans hPopping)
    returning := fun next hNext => ?_
    popping := fun hPopping => absurd hPopping hNoPop
    consumerDoneView := fun hDone => absurd (hNotDone.symm.trans hDone) Bool.false_ne_true
    lastReturns := fun hAt => ?_
    lastOrders := fun hPc => absurd hPc hAgain }
  · have hItem : (if result = none then some ret else none) = some next :=
      hPushed.pushing_eq.symm.trans hNext
    split at hItem
    · rename_i hNone
      exact Option.some.inj hItem ▸ hReturning hNone
    · cases hItem
  · have hDone : p.base.consumerDone = true := consumerDone_of_last (q := p.queues) h.pipeline hAt
    exact absurd (hNotDone.symm.trans hDone) Bool.false_ne_true

theorem pushBack (h : p.Inv config cap buf) {job : Job} {ret : OrderPtr} {rest : Suspended}
    {j : Nat} (hPc : p.base.consumer = .pushBack job ret rest)
    (hStep : p.pushBack job ret rest j = some p') :
    LooseStep p.queues p'.queues ∧ p'.Inv config cap buf := by
  obtain ⟨⟨ring, result⟩, hCall, rfl⟩ := Option.map_eq_some_iff.mp hStep
  have hNotDone : p.base.consumerDone = false := by
    have hAt : p.queues.ConsumerAt p.base.consumer := h.pipeline.consumerAt
    rw [hPc] at hAt
    exact hAt
  have hNoPop := h.not_popping (by simp [hPc]) (by simp [hPc])
  have hItem : p.returnRing.pushing = none ∨ p.returnRing.pushing = some ret := by
    cases hPushing : p.returnRing.pushing with
    | none => exact Or.inl rfl
    | some item =>
        obtain ⟨job', rest', hSame⟩ := h.returning item hPushing
        rw [hPc] at hSame
        exact Or.inr (congrArg some (ConsumerLoopPc.pushBack.inj hSame).2.1.symm)
  have hPushed := h.returns.pushStep (by decide) hItem hCall
  -- a call that is not over, or has found the ring full, changes nothing
  have hStay : result ≠ some true →
      LooseStep p.queues { p.queues with returnQueue := ring.contents } := by
    intro hResult
    have hSame := hPushed.contents_eq
    rw [if_neg hResult] at hSame
    rw [hSame]
    exact .stay
  match result with
  | none =>
      have hLoose := hStay nofun
      exact ⟨hLoose, h.of_returnPushed hPushed p.base.consumer (h.pipeline.loose hLoose) hNotDone
        hNoPop (fun _ => ⟨job, rest, hPc⟩) (by simp [hPc])⟩
  | some false =>
      have hLoose := hStay nofun
      exact ⟨hLoose, h.of_returnPushed hPushed p.base.consumer (h.pipeline.loose hLoose) hNotDone
        hNoPop nofun (by simp [hPc])⟩
  | some true =>
      have hSame : ring.contents = p.returnRing.contents ++ [ret] := hPushed.contents_eq
      have hLoose : LooseStep p.queues { p.queues with
          returnQueue := ring.contents, consumer := .resume job ret rest } := by
        rw [hSame]
        exact .pushBack_room hPc (hPushed.room rfl)
      exact ⟨hLoose, h.of_returnPushed hPushed _ (h.pipeline.loose hLoose) hNotDone hNoPop nofun
        nofun⟩

theorem loadProducerDone (h : p.Inv config cap buf) (hPc : p.base.consumer = .loadDone)
    (fresh : Bool) :
    LooseStep p.queues (p.loadProducerDone fresh).queues ∧
      (p.loadProducerDone fresh).Inv config cap buf := by
  have hNoReturn := h.not_returning fun job ret rest => by simp [hPc]
  have hNoPop := h.not_popping (by simp [hPc]) (by simp [hPc])
  unfold RingPipeline.loadProducerDone
  by_cases hSeen : (p.base.producerDone && fresh) = true
  · obtain ⟨hDone, -⟩ := Bool.and_eq_true_iff.mp hSeen
    rw [if_pos hSeen]
    have hLoose : LooseStep p.queues { p.queues with consumer := .popAgain } := by
      refine .perform (.consumer 0) ?_
      rw [Pipeline.perform, Pipeline.consumerStep, show p.queues.consumer = .loadDone from hPc]
      dsimp only
      rw [Pipeline.loadProducerDone, if_pos (show p.queues.producerDone = true from hDone)]
    have hView := h.producerDoneView hDone
    refine ⟨hLoose, { h with
      pipeline := h.pipeline.loose hLoose
      orders := h.orders.acquire hView.le
      returning := fun ret hRet => absurd hRet (hNoReturn ret)
      popping := fun _ => Or.inr rfl
      lastOrders := fun _ => ?_ }⟩
    rw [hView]
    exact h.orders.acquire_all
  · rw [if_neg hSeen]
    have hLoose : LooseStep p.queues { p.queues with consumer := .pop } := .producerDoneUnseen hPc
    exact ⟨hLoose, { h with
      pipeline := h.pipeline.loose hLoose
      returning := fun ret hRet => absurd hRet (hNoReturn ret)
      popping := fun _ => Or.inl rfl
      lastOrders := fun hPc => by cases hPc }⟩

theorem storeConsumerDone (h : p.Inv config cap buf) (hPc : p.base.consumer = .storeDone) :
    LooseStep p.queues p.storeConsumerDone.queues ∧ p.storeConsumerDone.Inv config cap buf := by
  have hLoose : LooseStep p.queues p.queues.storeConsumerDone := by
    refine .perform (.consumer 0) ?_
    rw [Pipeline.perform, Pipeline.consumerStep, show p.queues.consumer = .storeDone from hPc]
  have hNoReturn := h.not_returning fun job ret rest => by simp [hPc]
  have hNoPop := h.not_popping (by simp [hPc]) (by simp [hPc])
  exact ⟨hLoose, { h with
    pipeline := h.pipeline.loose hLoose
    returning := fun ret hRet => absurd hRet (hNoReturn ret)
    popping := fun hPopping => absurd hPopping hNoPop
    consumerDoneView := fun _ => rfl
    lastOrders := fun hPc => by cases hPc }⟩

/-- A step of the consumer that touches neither a ring nor a flag. -/
theorem of_consumer (h : p.Inv config cap buf) {base : Pipeline}
    (hLoose : LooseStep p.queues ({ p with base := base } : RingPipeline).queues)
    (hProducer : base.producer = p.base.producer)
    (hConsumerDone : base.consumerDone = p.base.consumerDone)
    (hProducerDone : base.producerDone = p.base.producerDone)
    (hNoReturn : ∀ ret, p.returnRing.pushing ≠ some ret) (hNoPop : p.orderRing.popping ≠ true)
    (hAgain : base.consumer ≠ .popAgain) :
    LooseStep p.queues ({ p with base := base } : RingPipeline).queues ∧
      ({ p with base := base } : RingPipeline).Inv config cap buf := by
  refine ⟨hLoose, { h with
    pipeline := h.pipeline.loose hLoose
    pushing := fun slot hSlot => hProducer.trans (h.pushing slot hSlot)
    draining := fun hPopping => ?_
    returning := fun ret hRet => absurd hRet (hNoReturn ret)
    popping := fun hPopping => absurd hPopping hNoPop
    producerDoneView := fun hDone => h.producerDoneView (hProducerDone.symm.trans hDone)
    consumerDoneView := fun hDone => h.consumerDoneView (hConsumerDone.symm.trans hDone)
    lastReturns := fun hAt => h.lastReturns (hProducer ▸ hAt)
    lastOrders := fun hPc => absurd hPc hAgain }⟩
  obtain ⟨phase, hPhase⟩ := h.draining hPopping
  exact ⟨phase, hProducer.trans hPhase⟩

/-- A stretch of a call of the book. -/
theorem advance (h : p.Inv config cap buf) {job : Job}
    (program : BookState.BookProgram kTradeBufBits (BookState kTradeBufBits))
    (hStep : ∃ now, p.queues.consumerStep now = some (p.queues.advance job program))
    (hNoReturn : ∀ ret, p.returnRing.pushing ≠ some ret) (hNoPop : p.orderRing.popping ≠ true) :
    LooseStep p.queues ({ p with base := p.base.advance job program } : RingPipeline).queues ∧
      ({ p with base := p.base.advance job program } : RingPipeline).Inv config cap buf := by
  obtain ⟨now, hStep⟩ := hStep
  have hAdvance : p.queues.advance job program =
      ({ p with base := p.base.advance job program } : RingPipeline).queues := by
    cases program <;> rfl
  refine h.of_consumer (.perform (.consumer now) ?_) ?_ ?_ ?_ hNoReturn hNoPop ?_
  · exact hStep.trans (congrArg some hAdvance)
  all_goals cases program <;> first | rfl | simp [Pipeline.advance]

/-- A step of the consumer is a step on bounded queues, perhaps with old information. -/
theorem consumerStep (h : p.Inv config cap buf) {now : UInt64} {j : Nat} {fresh : Bool}
    (hStep : p.consumerStep now j fresh = some p') :
    LooseStep p.queues p'.queues ∧ p'.Inv config cap buf := by
  unfold RingPipeline.consumerStep at hStep
  cases hPc : p.base.consumer with
  | pop =>
      rw [hPc] at hStep
      exact h.popOrder (Or.inl ⟨hPc, rfl⟩) hStep
  | loadDone =>
      rw [hPc] at hStep
      exact Option.some.inj hStep ▸ h.loadProducerDone hPc fresh
  | popAgain =>
      rw [hPc] at hStep
      exact h.popOrder (Or.inr ⟨hPc, rfl⟩) hStep
  -- the steps that use no ring are the ones of the bounded queues
  | consume order =>
      simp only [hPc, Pipeline.consumerStep, Option.map_some, Option.some.injEq] at hStep
      subst hStep
      refine h.of_consumer (.perform (.consumer now) ?_) rfl rfl rfl
        (h.not_returning (by simp [hPc])) (h.not_popping (by simp [hPc]) (by simp [hPc])) ?_
      · rw [Pipeline.perform, Pipeline.consumerStep,
          show p.queues.consumer = .consume order from hPc]
        rfl
      · unfold Pipeline.consume
        dsimp only
        split <;> simp
  | addOrder order tPop tPush =>
      simp only [hPc, Pipeline.consumerStep, Option.map_some, Option.some.injEq] at hStep
      subst hStep
      refine h.advance _ ⟨now, ?_⟩ (h.not_returning (by simp [hPc]))
        (h.not_popping (by simp [hPc]) (by simp [hPc]))
      rw [Pipeline.consumerStep, show p.queues.consumer = .addOrder order tPop tPush from hPc]
      rfl
  | pushBack job ret rest =>
      rw [hPc] at hStep
      exact h.pushBack hPc hStep
  | resume job ret rest =>
      simp only [hPc, Pipeline.consumerStep, Option.map_some, Option.some.injEq] at hStep
      subst hStep
      refine h.advance _ ⟨now, ?_⟩ (h.not_returning (by simp [hPc]))
        (h.not_popping (by simp [hPc]) (by simp [hPc]))
      rw [Pipeline.consumerStep, show p.queues.consumer = .resume job ret rest from hPc]
      rfl
  | finish job =>
      simp only [hPc, Pipeline.consumerStep, Option.map_some, Option.some.injEq] at hStep
      subst hStep
      refine h.of_consumer (.perform (.consumer now) ?_) rfl rfl rfl
        (h.not_returning (by simp [hPc])) (h.not_popping (by simp [hPc]) (by simp [hPc]))
        (by simp [Pipeline.finish])
      rw [Pipeline.perform, Pipeline.consumerStep, show p.queues.consumer = .finish job from hPc]
      rfl
  | storeDone =>
      rw [hPc] at hStep
      exact Option.some.inj hStep ▸ h.storeConsumerDone hPc
  | exited =>
      simp only [hPc, Pipeline.consumerStep, Option.map_none] at hStep
      cases hStep
  | stuck =>
      simp only [hPc, Pipeline.consumerStep, Option.map_none] at hStep
      cases hStep

/-! ## Runs -/

theorem perform (h : p.Inv config cap buf) {a : RingAction} (hStep : p.perform a = some p') :
    LooseStep p.queues p'.queues ∧ p'.Inv config cap buf := by
  cases a with
  | producer d now j fresh => exact h.producerStep hStep
  | consumer now j fresh => exact h.consumerStep hStep

theorem performAll (h : p.Inv config cap buf) {actions : List RingAction}
    (hRun : p.performAll actions = some p') : p'.Inv config cap buf := by
  induction actions generalizing p with
  | nil => exact Option.some.inj hRun ▸ h
  | cons a actions ih =>
      obtain ⟨next, hStep, hRest⟩ := Option.bind_eq_some_iff.mp hRun
      exact ih (h.perform hStep).2 hRest

end Inv

end RingPipeline

end MatchingMachine
