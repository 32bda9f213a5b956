import MatchingMachine.Pipeline.Runs

/-!
# What a run does

Two results about every interleaving of a run that an idle engine starts.  `slotsLinear` is about
every state: the slots of the pool are spread over the pool, the two threads, the two queues and
the book, and none is in two places.  `replaysStream` is about the end: the consumer has done what
a single thread does with the generated stream.
-/

namespace MatchingMachine

section Run

variable {cap : Nat} {e : MatchingEngine} {config : RunConfig} {consumer producer : ThreadId}
  {p₀ p : Pipeline} {actions : List PipelineAction}

/-- Every state of a run satisfies the invariant. -/
theorem Idle.inv (hPos : 0 < cap) (hLt : cap < 2 ^ 64) (he : Idle cap e)
    (hStart : e.start config (some consumer) (some producer) = .started p₀)
    (hRun : p₀.performAll actions = some p) :
    p.Inv config cap p₀.mem.buf ∧ p₀.mem.buf.Holds [] := by
  have hReady := he.ready hPos hLt
  rw [hReady.start_eq config consumer producer] at hStart
  obtain rfl := StartResult.started.inj hStart
  exact ⟨(hReady.inv_firstState hPos hLt config consumer producer).performAll hRun,
    hReady.holds_prepare⟩

/-! ## Where the slots are -/

/-- In every state each slot of the pool is in exactly one place, and there once: free, in the
producer's hand, in `order_queue_`, in the consumer's hand, in the book or in `return_queue_`.  A
slot that `allocate` hands out is nowhere else, and `deallocate` is called on allocated slots. -/
theorem slotsLinear (hPos : 0 < cap) (hLt : cap < 2 ^ 64) (he : Idle cap e)
    (hStart : e.start config (some consumer) (some producer) = .started p₀)
    (hRun : p₀.performAll actions = some p) :
    (p.pool.freeSlots ++ p.producerHand ++ p.orderQueue ++ p.consumerHand ++ p.resting ++
      p.returnQueue).Perm (List.range cap) ∧
    (∀ slot pool heap, p.producer = .allocate →
      p.pool.allocate p.mem.heap = some (slot, pool, heap) →
        slot < cap ∧ slot ∉ p.orderQueue ∧ slot ∉ p.consumerHand ∧ slot ∉ p.resting ∧
          slot ∉ p.returnQueue) ∧
    (∀ phase ret, p.producer = .deallocate phase ret → ret < cap ∧ ret ∉ p.pool.freeSlots) := by
  obtain ⟨h, -⟩ := he.inv hPos hLt hStart hRun
  refine ⟨h.places, fun slot pool heap _ hAllocate => ?_, fun phase ret hPc => ?_⟩
  · have hMem : slot ∈ p.pool.freeSlots := h.freeList.mem_of_allocate hAllocate
    obtain ⟨-, hQueue, hConsumer, hRest, hReturns⟩ := h.not_mem_of_free hMem
    have hSlot := h.freeList.lt slot hMem
    rw [h.maxObjects_eq] at hSlot
    exact ⟨hSlot, hQueue, hConsumer, hRest, hReturns⟩
  · have hOk := h.deallocate_ok hPc
    rwa [h.maxObjects_eq] at hOk

end Run

/-! ### A run of two orders

The first rests and the second fills it, so that both slots come back. -/

/-- Two orders at the same price. -/
def crossingConfig : RunConfig where
  symbol := [66, 84, 67]
  basePrice := 100
  orderCount := 2
  orderCount_lt := by decide

/-- The first order is a buy, the second a sell. -/
def crossingActions : List PipelineAction :=
  List.replicate 5 (.producer { buy := true } 7) ++ List.replicate 4 (.consumer 9) ++
    List.replicate 5 (.producer {} 7) ++ List.replicate 8 (.consumer 9) ++
      List.replicate 7 (.producer {} 7) ++ List.replicate 4 (.consumer 9) ++
        List.replicate 3 (.producer {} 7)

/-- The state the run starts from, on a new engine with two slots. -/
def crossingStart : Pipeline :=
  (MatchingEngine.new 2).firstState crossingConfig ⟨1, by decide⟩ ⟨2, by decide⟩

/-- The producer is about to deallocate the first slot. -/
theorem slotsLinear_crossing :
    ∃ p, crossingStart.performAll (crossingActions.take 24) = some p ∧
      (p.pool.freeSlots ++ p.producerHand ++ p.orderQueue ++ p.consumerHand ++ p.resting ++
        p.returnQueue).Perm (List.range 2) ∧
      (∀ slot pool heap, p.producer = .allocate →
        p.pool.allocate p.mem.heap = some (slot, pool, heap) →
          slot < 2 ∧ slot ∉ p.orderQueue ∧ slot ∉ p.consumerHand ∧ slot ∉ p.resting ∧
            slot ∉ p.returnQueue) ∧
      (∀ phase ret, p.producer = .deallocate phase ret → ret < 2 ∧ ret ∉ p.pool.freeSlots) := by
  have hSome : (crossingStart.performAll (crossingActions.take 24)).isSome = true := by
    decide +kernel
  obtain ⟨p, hRun⟩ := Option.isSome_iff_exists.mp hSome
  exact ⟨p, hRun, slotsLinear (by decide) (by decide) .new rfl hRun⟩

/-! ## The end of a run -/

section Exited

variable {config : RunConfig} {cap : Nat} {buf : TradeRingBuffer kTradeBufBits} {p : Pipeline}

namespace Pipeline.Inv

/-- When both threads have exited, nothing is on its way and the queues are empty. -/
theorem exited_spec (h : p.Inv config cap buf) (hExit : p.exited = true) :
    p.draws.length = config.orderCount ∧
    p.processed.map (fun x => x.order.untimed) = (config.simulator.generateRandom p.draws).1 ∧
    p.orderQueue = [] ∧ p.returnQueue = [] := by
  obtain ⟨hProducer, hConsumer⟩ := exited_eq hExit
  have hAt := h.producerAt
  have hAt' := h.consumerAt
  rw [hProducer] at hAt
  rw [hConsumer] at hAt'
  have hReady : p.ready = [] := by simp [ready, hProducer]
  have hPopped : p.popped = [] := by simp [popped, hConsumer]
  have hBegun : p.begun = [] := by simp [begun, hConsumer]
  have hLength := h.length_eq
  have hOrders := h.orders
  rw [hReady, hAt.1, h.config_eq] at hLength
  rw [onTheWay, hReady, hPopped, hBegun, hAt'.2.2, List.append_nil] at hOrders
  refine ⟨hLength, ?_, hAt'.2.2, hAt.2.2.2⟩
  rw [← h.config_eq]
  exact (hOrders.trans (List.append_nil _)).symm

/-- The orders that rest at the end occupy slots, and all other slots are free. -/
theorem available_eq (h : p.Inv config cap buf) (hExit : p.exited = true) :
    p.pool.available + p.bookOf.all.length = cap := by
  obtain ⟨hProducer, hConsumer⟩ := exited_eq hExit
  obtain ⟨-, -, hQueue, hReturns⟩ := h.exited_spec hExit
  have hBook := h.bookAt
  rw [hConsumer] at hBook
  have hResting : p.resting = p.bookOf.ptrs := hBook.1.livePtrs_eq
  have hProducerHand : p.producerHand = [] := by simp [producerHand, hProducer]
  have hConsumerHand : p.consumerHand = [] := by simp [consumerHand, hConsumer]
  have hLength := h.places.length_eq
  rw [Pipeline.places, hProducerHand, hConsumerHand, hQueue, hReturns, hResting] at hLength
  simp only [List.append_nil, List.length_append, List.length_range] at hLength
  rw [h.freeList.available_eq, ← hLength]
  exact congrArg (p.pool.freeSlots.length + ·) (List.length_map _).symm

theorem consumed_of_exited (h : p.Inv config cap buf) (hExit : p.exited = true) :
    p.consumedCount = config.orderCount := by
  obtain ⟨hDraws, hProcessed, -, -⟩ := h.exited_spec hExit
  have hLength := congrArg List.length hProcessed
  have hGenerated := h.length_generated
  rw [Pipeline.generated, h.config_eq] at hGenerated
  rw [List.length_map, hGenerated, hDraws] at hLength
  rw [h.consumed_eq, hLength]

/-- When both threads have exited, a single thread that is given the generated orders, in
whatever objects and at whatever times, does the same trades and leaves as many orders behind. -/
theorem replays (h : p.Inv config cap buf) (hExit : p.exited = true) {k : Nat}
    {ys : List Submission}
    (hSame : ys.map (fun y => y.order.untimed) = (config.simulator.generateRandom p.draws).1)
    (hObjects : (ys.map Submission.ptr).Nodup) (heap : Heap) (buf' : TradeRingBuffer k) :
    ∃ calls final, ({ heap := heap, book := {}, buf := buf' } : BookState k).serveAll
        (fun _ => .noalloc (.inert k)) ys = some (calls, final) ∧
      p.written.map Trade.untimed = (Call.allTrades calls).map Trade.untimed ∧
      p.pool.available = cap - final.book.orderCount := by
  obtain ⟨-, hProcessed, -, -⟩ := h.exited_spec hExit
  have hNumbered : NumberedFrom 0 (ys.map Submission.order) := by
    intro i o hOrder
    have hGenerated := h.numberedFrom_generated
    rw [Pipeline.generated, h.config_eq, ← hSame] at hGenerated
    have hMap : ys.map (fun y => y.order.untimed) =
        (ys.map Submission.order).map Order.untimed := by
      rw [List.map_map]
      rfl
    refine Numbered.untimed_iff.mp (hGenerated i o.untimed ?_)
    rw [hMap, List.getElem?_map, hOrder]
    rfl
  obtain ⟨calls, final, hServe, hTrades, hResting⟩ :=
    replay_spec (hProcessed.trans hSame.symm) hNumbered hObjects heap buf'
  refine ⟨calls, final, hServe, ?_, ?_⟩
  · rw [h.written_eq]
    exact hTrades.symm
  · have hAvailable := h.available_eq hExit
    have hAll : final.book.orderCount = p.bookOf.all.length := hResting
    omega

end Pipeline.Inv

end Exited

section Run

variable {cap : Nat} {e : MatchingEngine} {config : RunConfig} {consumer producer : ThreadId}
  {p₀ p : Pipeline} {actions : List PipelineAction}

/-- When both threads have exited, the consumer has processed the generated orders, each once
and in order, both queues are empty, and trades and free slots are those of a replay of the
same orders on one thread, in whatever objects and at whatever times. -/
theorem replaysStream (hPos : 0 < cap) (hLt : cap < 2 ^ 64) (he : Idle cap e)
    (hStart : e.start config (some consumer) (some producer) = .started p₀)
    (hRun : p₀.performAll actions = some p) (hExit : p.exited = true) :
    p.draws.length = config.orderCount ∧
    p.processed.map (fun x => x.order.untimed) = (config.simulator.generateRandom p.draws).1 ∧
    p.consumedCount = config.orderCount ∧ p.orderQueue = [] ∧ p.returnQueue = [] ∧
    p.mem.buf = p₀.mem.buf.pushAll p.written ∧
    ∀ {k : Nat} (ys : List Submission),
      ys.map (fun y => y.order.untimed) = (config.simulator.generateRandom p.draws).1 →
      (ys.map Submission.ptr).Nodup → ∀ (heap : Heap) (buf : TradeRingBuffer k),
        ∃ calls final, ({ heap := heap, book := {}, buf := buf } : BookState k).serveAll
            (fun _ => .noalloc (.inert k)) ys = some (calls, final) ∧
          p.written.map Trade.untimed = (Call.allTrades calls).map Trade.untimed ∧
          p.pool.available = cap - final.book.orderCount := by
  obtain ⟨h, -⟩ := he.inv hPos hLt hStart hRun
  obtain ⟨hDraws, hProcessed, hQueue, hReturns⟩ := h.exited_spec hExit
  exact ⟨hDraws, hProcessed, h.consumed_of_exited hExit, hQueue, hReturns, h.buf_eq hExit,
    fun ys hSame hObjects heap buf => h.replays hExit hSame hObjects heap buf⟩

end Run

/-- Both orders are filled: the pool is full again. -/
theorem replaysStream_crossing :
    ∃ p, crossingStart.performAll crossingActions = some p ∧ p.exited = true ∧
      p.pool.available = 2 ∧
      p.draws.length = 2 ∧
      p.processed.map (fun x => x.order.untimed) =
        (crossingConfig.simulator.generateRandom p.draws).1 ∧
      p.consumedCount = 2 ∧ p.orderQueue = [] ∧ p.returnQueue = [] ∧
      p.mem.buf = crossingStart.mem.buf.pushAll p.written ∧
      ∀ {k : Nat} (ys : List Submission),
        ys.map (fun y => y.order.untimed) =
          (crossingConfig.simulator.generateRandom p.draws).1 →
        (ys.map Submission.ptr).Nodup → ∀ (heap : Heap) (buf : TradeRingBuffer k),
          ∃ calls final, ({ heap := heap, book := {}, buf := buf } : BookState k).serveAll
              (fun _ => .noalloc (.inert k)) ys = some (calls, final) ∧
            p.written.map Trade.untimed = (Call.allTrades calls).map Trade.untimed ∧
            p.pool.available = 2 - final.book.orderCount := by
  have hEnd : (crossingStart.performAll crossingActions).map
      (fun p => (p.exited, p.pool.available)) = some (true, 2) := by decide +kernel
  obtain ⟨p, hRun, hExit⟩ := Option.map_eq_some_iff.mp hEnd
  exact ⟨p, hRun, congrArg Prod.fst hExit, congrArg Prod.snd hExit,
    replaysStream (by decide) (by decide) .new rfl hRun (congrArg Prod.fst hExit)⟩

end MatchingMachine
