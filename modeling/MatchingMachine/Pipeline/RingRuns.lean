import MatchingMachine.Pipeline.Rings

/-!
# Runs over the rings

What holds of the pipeline over bounded queues holds of the pipeline over its rings, whatever the
loads return within the acquire and release order.  At the end the rings are as a run needs them
at its start, so that the next run may go on with the same rings and their wrapped indices.
-/

namespace MatchingMachine

namespace RingPipeline

/-- A run starts on rings that nobody is using. -/
theorem inv_start {config : RunConfig} {cap : Nat} {buf : TradeRingBuffer kTradeBufBits}
    {p₀ : Pipeline} (h : p₀.Inv config cap buf) (hOrders : p₀.orderQueue = [])
    (hReturns : p₀.returnQueue = []) (hProducerDone : p₀.producerDone = false)
    (hConsumerDone : p₀.consumerDone = false) (hPc : p₀.consumer = .pop)
    {orders : SpscRingBuffer OrderPtr kOrderQueueBits}
    {returns : SpscRingBuffer OrderPtr kReturnQueueBits} (hOrderRing : orders.Rested)
    (hReturnRing : returns.Rested) :
    ({ base := p₀, orderRing := orders, returnRing := returns } : RingPipeline).Inv
      config cap buf where
  pipeline := by
    have hQueues : ({ base := p₀, orderRing := orders, returnRing := returns } :
        RingPipeline).queues = p₀ := by
      have hOrderSame := hOrderRing.contents_eq.trans hOrders.symm
      have hReturnSame := hReturnRing.contents_eq.trans hReturns.symm
      unfold queues
      rw [hOrderSame, hReturnSame]
    rw [hQueues]
    exact h
  orders := hOrderRing.inv
  returns := hReturnRing.inv
  pushing slot hSlot :=
    absurd hSlot (Option.eq_none_iff_forall_ne_some.mp hOrderRing.pushing_eq slot)
  draining hPopping :=
    absurd (hReturnRing.popping_eq.symm.trans hPopping) Bool.false_ne_true
  returning ret hRet :=
    absurd hRet (Option.eq_none_iff_forall_ne_some.mp hReturnRing.pushing_eq ret)
  popping hPopping := absurd (hOrderRing.popping_eq.symm.trans hPopping) Bool.false_ne_true
  producerDoneView hDone := absurd (hProducerDone.symm.trans hDone) Bool.false_ne_true
  consumerDoneView hDone := absurd (hConsumerDone.symm.trans hDone) Bool.false_ne_true
  lastReturns hLast :=
    absurd (hConsumerDone.symm.trans (consumerDone_of_last h hLast)) Bool.false_ne_true
  lastOrders hAgain := absurd (hPc.symm.trans hAgain) nofun

/-- When both threads have exited, nobody is using the rings any more. -/
theorem Inv.rested {config : RunConfig} {cap : Nat} {buf : TradeRingBuffer kTradeBufBits}
    {p : RingPipeline} (h : p.Inv config cap buf) (hExit : p.base.exited = true) :
    p.orderRing.Rested ∧ p.returnRing.Rested := by
  obtain ⟨hProducer, hConsumer⟩ := Pipeline.exited_eq hExit
  have hEnd : p.queues.exited = true := hExit
  obtain ⟨-, -, hOrders, hReturns⟩ := h.pipeline.exited_spec hEnd
  constructor
  · exact
      { inv := h.orders
        pushing_eq := Option.eq_none_iff_forall_ne_some.mpr (h.not_pushing (by simp [hProducer]))
        popping_eq := Bool.eq_false_iff.mpr
          (h.not_popping (by simp [hConsumer]) (by simp [hConsumer]))
        contents_eq := hOrders }
  · exact
      { inv := h.returns
        pushing_eq := Option.eq_none_iff_forall_ne_some.mpr (h.not_returning (by simp [hConsumer]))
        popping_eq := Bool.eq_false_iff.mpr (h.not_draining (by simp [hProducer]))
        contents_eq := hReturns }

end RingPipeline

section Run

variable {cap : Nat} {e : MatchingEngine} {config : RunConfig} {consumer producer : ThreadId}
  {p₀ : Pipeline} {orders : SpscRingBuffer OrderPtr kOrderQueueBits}
  {returns : SpscRingBuffer OrderPtr kReturnQueueBits} {p : RingPipeline}
  {actions : List RingAction}

theorem Idle.ringInv (hPos : 0 < cap) (hLt : cap < 2 ^ 64) (he : Idle cap e)
    (hStart : e.start config (some consumer) (some producer) = .started p₀)
    (hOrders : orders.Rested) (hReturns : returns.Rested)
    (hRun : ({ base := p₀, orderRing := orders, returnRing := returns } :
      RingPipeline).performAll actions = some p) : p.Inv config cap p₀.mem.buf := by
  have hReady := he.ready hPos hLt
  rw [hReady.start_eq config consumer producer] at hStart
  obtain rfl := StartResult.started.inj hStart
  have hFirst := hReady.inv_firstState hPos hLt config consumer producer
  exact (RingPipeline.inv_start hFirst hReady.orderQueue_eq hReady.returnQueue_eq rfl rfl rfl
    hOrders hReturns).performAll hRun

/-- A run of the pipeline over its rings, from whatever these have been through, with every step
of `try_push` and `try_pop` a step of its own and loads of indices and flags as old as acquire
and release allow.  In every state each slot is in exactly one place.  When both threads have
exited, no order and no slot is lost: the consumer has processed the generated stream, trades and
free slots are those of a single thread on the same stream, and the rings are empty. -/
theorem ringsReplayStream (hPos : 0 < cap) (hLt : cap < 2 ^ 64) (he : Idle cap e)
    (hStart : e.start config (some consumer) (some producer) = .started p₀)
    (hOrders : orders.Rested) (hReturns : returns.Rested)
    (hRun : ({ base := p₀, orderRing := orders, returnRing := returns } :
      RingPipeline).performAll actions = some p) :
    (p.base.pool.freeSlots ++ p.base.producerHand ++ p.orderRing.contents ++
      p.base.consumerHand ++ p.base.resting ++ p.returnRing.contents).Perm (List.range cap) ∧
    (p.base.exited = true →
      p.orderRing.Rested ∧ p.returnRing.Rested ∧
      p.base.draws.length = config.orderCount ∧
      p.base.processed.map (fun x => x.order.untimed) =
        (config.simulator.generateRandom p.base.draws).1 ∧
      p.base.consumedCount = config.orderCount ∧
      p.base.mem.buf = p₀.mem.buf.pushAll p.base.written ∧
      ∀ {k : Nat} (ys : List Submission),
        ys.map (fun y => y.order.untimed) = (config.simulator.generateRandom p.base.draws).1 →
        (ys.map Submission.ptr).Nodup → ∀ (heap : Heap) (buf : TradeRingBuffer k),
          ∃ calls final, ({ heap := heap, book := {}, buf := buf } : BookState k).serveAll
              (fun _ => .noalloc (.inert k)) ys = some (calls, final) ∧
            p.base.written.map Trade.untimed = (Call.allTrades calls).map Trade.untimed ∧
            p.base.pool.available = cap - final.book.orderCount) := by
  have hInv := he.ringInv hPos hLt hStart hOrders hReturns hRun
  refine ⟨hInv.pipeline.places, fun hExit => ?_⟩
  have hEnd : p.queues.exited = true := hExit
  obtain ⟨hOrderRing, hReturnRing⟩ := hInv.rested hExit
  obtain ⟨hDraws, hProcessed, -, -⟩ := hInv.pipeline.exited_spec hEnd
  exact ⟨hOrderRing, hReturnRing, hDraws, hProcessed, hInv.pipeline.consumed_of_exited hEnd,
    hInv.pipeline.buf_eq hEnd,
    fun ys hSame hObjects heap buf => hInv.pipeline.replays hEnd hSame hObjects heap buf⟩

end Run

/-! ### Two orders over new rings

The producer is asked for its returns before it has seen them, and finds them in its last
drain. -/

def crossingRings : RingPipeline where
  base := crossingStart
  orderRing := { buffer := fun _ => 0 }
  returnRing := { buffer := fun _ => 0 }

def crossingRingActions : List RingAction :=
  List.replicate 9 (.producer { buy := true } 7 0 true) ++
    List.replicate 10 (.producer {} 7 0 true) ++ List.replicate 13 (.consumer 9 2 true) ++
      List.replicate 11 (.consumer 9 0 true) ++ List.replicate 6 (.consumer 9 2 true) ++
        List.replicate 3 (.producer {} 7 0 true) ++ List.replicate 12 (.producer {} 7 2 true)

theorem ringsReplayStream_crossing :
    ∃ p, crossingRings.performAll crossingRingActions = some p ∧ p.base.pool.available = 2 ∧
      p.orderRing.Rested ∧ p.returnRing.Rested ∧ p.base.consumedCount = 2 := by
  have hEnd : (crossingRings.performAll crossingRingActions).map
      (fun p => (p.base.exited, p.base.pool.available)) = some (true, 2) := by decide +kernel
  obtain ⟨p, hRun, hSeen⟩ := Option.map_eq_some_iff.mp hEnd
  have hExit : p.base.exited = true := congrArg Prod.fst hSeen
  have hReplay := (ringsReplayStream (by decide) (by decide) .new rfl
    (SpscRingBuffer.rested_new _) (SpscRingBuffer.rested_new _) hRun).2 hExit
  exact ⟨p, hRun, congrArg Prod.snd hSeen, hReplay.1, hReplay.2.1, hReplay.2.2.2.2.1⟩

end MatchingMachine
