import MatchingMachine.Model.MatchingEngine
import MatchingMachine.Pipeline.ConsumerSteps

/-!
# Runs

`Ready` is what an engine without threads is like, and what `start` relies on.  A new engine is
ready (`ready_new`), and so is the engine a run leaves behind when both threads have exited
(`ready_stop`) and the engine a failed `start` leaves behind (`ready_thrown`, `ready_rethrow`).
In between, every state of a run satisfies the invariant (`Inv.performAll`), and every state of a
failed `start` satisfies `CatchBlock.Inv`.
-/

namespace MatchingMachine

/-! ## Engines without threads -/

namespace PinnedThread

theorem assign_of_joined {t : PinnedThread} (h : t.joinable = false) (other : PinnedThread) :
    t.assign other = some other := by
  unfold assign
  rw [h]
  rfl

/-- Once it has been joined if there was one, there is no thread. -/
theorem joinable_joined (t : PinnedThread) :
    (if t.joinable then t.join else t).joinable = false := by
  by_cases h : t.joinable = true
  · rw [if_pos h]
    rfl
  · rw [if_neg h]
    exact Bool.eq_false_iff.mpr h

end PinnedThread

structure MatchingEngine.Ready (cap : Nat) (e : MatchingEngine) : Prop where
  running_eq : e.running = false
  producer_joined : e.producerThread.joinable = false
  consumer_joined : e.consumerThread.joinable = false
  orderQueue_eq : e.orderQueue = []
  returnQueue_eq : e.returnQueue = []
  maxObjects_eq : e.pool.maxObjects = cap
  holds : ∃ ts, e.tradeBuf.Holds ts

namespace MatchingEngine

variable {config : RunConfig} {cap : Nat} {e : MatchingEngine}

theorem ready_new (cap : Nat) : Ready cap (.new cap) where
  running_eq := rfl
  producer_joined := rfl
  consumer_joined := rfl
  orderQueue_eq := rfl
  returnQueue_eq := rfl
  maxObjects_eq := rfl
  holds := ⟨[], TradeRingBuffer.holds_empty⟩

/-- The trade buffer at the start of a run. -/
theorem Ready.holds_prepare (h : e.Ready cap) : e.prepare.tradeBuf.Holds [] := by
  obtain ⟨ts, hts⟩ := h.holds
  exact hts.drain

/-- At the start of a run every slot is free. -/
theorem Ready.freeList_prepare (h : e.Ready cap) (hPos : 0 < cap) (hLt : cap < 2 ^ 64) :
    e.prepare.pool.FreeList (List.range cap) := by
  rw [← h.maxObjects_eq] at hPos hLt ⊢
  exact MemoryPool.freeList_initFreeList hPos hLt

/-! ## Starting -/

/-- The state both threads start from. -/
def firstState (e : MatchingEngine) (config : RunConfig) (consumer producer : ThreadId) :
    Pipeline :=
  Pipeline.nextOrder
    (({ e.prepare with
      consumerThread := { id := consumer }
      producerThread := { id := producer } } : MatchingEngine).pipeline config .exited)

theorem Ready.assign_consumer (h : e.Ready cap) (thread : ThreadId) :
    e.prepare.consumerThread.assign { id := thread } = some { id := thread } :=
  PinnedThread.assign_of_joined h.consumer_joined _

theorem Ready.assign_producer (h : e.Ready cap) (thread : ThreadId) :
    e.prepare.producerThread.assign { id := thread } = some { id := thread } :=
  PinnedThread.assign_of_joined h.producer_joined _

theorem Ready.not_running (h : e.Ready cap) : ¬ e.running = true := by
  rw [h.running_eq]
  exact Bool.false_ne_true

/-- With both threads, a ready engine starts. -/
theorem Ready.start_eq (h : e.Ready cap) (config : RunConfig) (consumer producer : ThreadId) :
    e.start config (some consumer) (some producer) =
      .started (e.firstState config consumer producer) := by
  have hConsumer := h.assign_consumer consumer
  have hProducer := h.assign_producer producer
  unfold start
  rw [if_neg h.not_running]
  dsimp only
  rw [hConsumer]
  dsimp only
  rw [hProducer]
  rfl

/-- The invariant holds at the start. -/
theorem Ready.inv_firstState (h : e.Ready cap) (hPos : 0 < cap) (hLt : cap < 2 ^ 64)
    (config : RunConfig) (consumer producer : ThreadId) :
    (e.firstState config consumer producer).Inv config cap e.prepare.tradeBuf := by
  have hFree := h.freeList_prepare hPos hLt
  have hSlots := hFree.freeSlots_eq
  have hHand : (e.firstState config consumer producer).producerHand = [] := by
    unfold firstState Pipeline.nextOrder Pipeline.producerHand
    by_cases hMore : 0 < config.orderCount
    · rw [pipeline, if_pos hMore]
    · rw [pipeline, if_neg hMore]
  have hReady : (e.firstState config consumer producer).ready = [] := by
    unfold firstState Pipeline.nextOrder Pipeline.ready
    by_cases hMore : 0 < config.orderCount
    · rw [pipeline, if_pos hMore]
    · rw [pipeline, if_neg hMore]
  exact
    { config_eq := rfl
      producerAt := Pipeline.Inv.producerAt_nextOrder (Nat.zero_le _) rfl
      consumerAt := rfl
      pushed_le := Nat.zero_le _
      maxObjects_eq := h.maxObjects_eq
      freeList := by
        show MemoryPool.FreeList e.prepare.pool e.prepare.pool.freeSlots
        rwa [hSlots]
      places := by
        rw [Pipeline.places, hHand]
        show (e.prepare.pool.freeSlots ++ [] ++ e.orderQueue ++ [] ++ [] ++ e.returnQueue).Perm _
        rw [hSlots, h.orderQueue_eq, h.returnQueue_eq]
        simp only [List.append_nil]
        exact List.Perm.refl _
      sim_eq := rfl
      orders := by
        rw [Pipeline.onTheWay, hReady]
        show [] = ([] ++ []).map _ ++ ([] ++ e.orderQueue ++ []).map _
        rw [h.orderQueue_eq]
        rfl
      length_eq := by
        rw [hReady]
        rfl
      consumed_eq := rfl
      written_eq := rfl
      wellFormed := PriorityBook.wellFormed_empty
      ids := fun r hr => absurd hr List.not_mem_nil
      size_le := le_rfl
      bookAt := ⟨represents_empty _, rfl⟩
      queueSamples := (ite_self _).symm
      serviceSamples := (ite_self _).symm }

end MatchingEngine

/-! ## Runs -/

namespace Pipeline

variable {config : RunConfig} {cap : Nat} {buf : TradeRingBuffer kTradeBufBits} {p : Pipeline}

theorem Inv.perform (h : p.Inv config cap buf) {a : PipelineAction} {p' : Pipeline}
    (hStep : p.perform a = some p') : p'.Inv config cap buf := by
  cases a with
  | producer d now => exact h.producerStep hStep
  | consumer now => exact h.consumerStep hStep

/-- Every state of a run satisfies the invariant, whatever the interleaving. -/
theorem Inv.performAll (h : p.Inv config cap buf) {actions : List PipelineAction} {p' : Pipeline}
    (hRun : p.performAll actions = some p') : p'.Inv config cap buf := by
  induction actions generalizing p with
  | nil => exact Option.some.inj hRun ▸ h
  | cons a actions ih =>
      rw [Pipeline.performAll] at hRun
      obtain ⟨p₁, hStep, hRest⟩ := Option.bind_eq_some_iff.mp hRun
      exact ih (h.perform hStep) hRest

/-- Both threads have exited. -/
theorem exited_eq (hExit : p.exited = true) : p.producer = .exited ∧ p.consumer = .exited := by
  unfold exited at hExit
  rw [Bool.and_eq_true] at hExit
  constructor
  · cases hPc : p.producer <;> rw [hPc] at hExit <;> first | rfl | exact nomatch hExit.1
  · cases hPc : p.consumer <;> rw [hPc] at hExit <;> first | rfl | exact nomatch hExit.2

/-- At the end the trade buffer has been written the trades of the run. -/
theorem Inv.buf_eq (h : p.Inv config cap buf) (hExit : p.exited = true) :
    p.mem.buf = buf.pushAll p.written := by
  have hBook := h.bookAt
  rw [(exited_eq hExit).2] at hBook
  exact hBook.2

theorem Inv.holds_exited (h : p.Inv config cap buf) (hExit : p.exited = true)
    (hBuf : buf.Holds []) : p.mem.buf.Holds p.written := by
  rw [h.buf_eq hExit]
  have hBits : kTradeBufBits < 64 := by decide
  exact hBuf.pushAll hBits p.written

/-- The engine a finished run leaves behind. -/
theorem Inv.ready_stop (h : p.Inv config cap buf) (hBuf : buf.Holds []) {e : MatchingEngine}
    (hStop : p.stop = some e) : e.Ready cap := by
  unfold stop at hStop
  by_cases hExit : p.exited = true
  · rw [if_pos hExit] at hStop
    obtain rfl := Option.some.inj hStop
    obtain ⟨hProducer, hConsumer⟩ := exited_eq hExit
    have hAt := h.producerAt
    have hAt' := h.consumerAt
    rw [hProducer] at hAt
    rw [hConsumer] at hAt'
    exact
      { running_eq := rfl
        producer_joined := PinnedThread.joinable_joined _
        consumer_joined := PinnedThread.joinable_joined _
        orderQueue_eq := hAt'.2.2
        returnQueue_eq := hAt.2.2.2
        maxObjects_eq := h.maxObjects_eq
        holds := ⟨p.written, h.holds_exited hExit hBuf⟩ }
  · rw [if_neg hExit] at hStop
    exact nomatch hStop

end Pipeline

/-! ## Failed starts -/

namespace MatchingEngine

variable {config : RunConfig} {cap : Nat} {e : MatchingEngine}

/-- What a failed start does not touch. -/
structure Refilled (cap : Nat) (e : MatchingEngine) : Prop where
  pool_free : e.pool.FreeList (List.range cap)
  holds : e.tradeBuf.Holds []

/-- Without a consumer. -/
theorem Ready.ready_thrown (h : e.Ready cap) (hPos : 0 < cap) (hLt : cap < 2 ^ 64)
    {producer : Option ThreadId} {e' : MatchingEngine}
    (hStart : e.start config none producer = .thrown e') : e'.Ready cap ∧ e'.Refilled cap := by
  unfold start at hStart
  rw [if_neg h.not_running] at hStart
  obtain rfl := StartResult.thrown.inj hStart
  exact
    ⟨{ running_eq := rfl
       producer_joined := h.producer_joined
       consumer_joined := PinnedThread.joinable_joined _
       orderQueue_eq := h.orderQueue_eq
       returnQueue_eq := h.returnQueue_eq
       maxObjects_eq := h.maxObjects_eq
       holds := ⟨[], h.holds_prepare⟩ },
      { pool_free := h.freeList_prepare hPos hLt
        holds := h.holds_prepare }⟩

end MatchingEngine

namespace CatchBlock

variable {config : RunConfig} {cap : Nat} {c : CatchBlock}

/-- The consumer of a failed start finds its queue empty, and exits once it sees the flag. -/
def ConsumerAt (c : CatchBlock) : ConsumerLoopPc → Prop
  | .pop => True
  | .loadDone => True
  | .popAgain => c.stored = true
  | .storeDone => c.stored = true
  | .exited => c.stored = true
  | _ => False

structure Inv (cap : Nat) (c : CatchBlock) : Prop where
  consumerAt : c.ConsumerAt c.pipeline.consumer
  producerDone_eq : c.pipeline.producerDone = c.stored
  orderQueue_eq : c.pipeline.orderQueue = []
  returnQueue_eq : c.pipeline.returnQueue = []
  producer_joined : c.pipeline.producerThread.joinable = false
  maxObjects_eq : c.pipeline.pool.maxObjects = cap
  pool_free : c.pipeline.pool.FreeList (List.range cap)
  holds : c.pipeline.mem.buf.Holds []

/-- A step of the consumer. -/
theorem Inv.consumerStep (h : c.Inv cap) {now : UInt64} {p : Pipeline}
    (hStep : c.pipeline.consumerStep now = some p) : ({ c with pipeline := p } : CatchBlock).Inv cap := by
  have hAt := h.consumerAt
  have hPop : ∀ empty, c.pipeline.popOrder empty = { c.pipeline with consumer := empty } := by
    intro empty
    simp only [Pipeline.popOrder, h.orderQueue_eq, tryPop]
  unfold Pipeline.consumerStep at hStep
  cases hPc : c.pipeline.consumer with
  | pop =>
      rw [hPc] at hStep
      obtain rfl := Option.some.inj hStep
      rw [hPop]
      exact { h with consumerAt := trivial }
  | loadDone =>
      rw [hPc] at hStep
      obtain rfl := Option.some.inj hStep
      unfold Pipeline.loadProducerDone
      by_cases hDone : c.pipeline.producerDone = true
      · rw [if_pos hDone]
        exact { h with consumerAt := h.producerDone_eq.symm.trans hDone }
      · rw [if_neg hDone]
        exact { h with consumerAt := trivial }
  | popAgain =>
      rw [hPc] at hStep hAt
      obtain rfl := Option.some.inj hStep
      rw [hPop]
      exact { h with consumerAt := hAt }
  | storeDone =>
      rw [hPc] at hStep hAt
      obtain rfl := Option.some.inj hStep
      exact { h with consumerAt := hAt }
  | exited =>
      rw [hPc] at hStep
      cases hStep
  | stuck => rw [hPc] at hAt; exact hAt.elim
  | consume order => rw [hPc] at hAt; exact hAt.elim
  | addOrder order tPop tPush => rw [hPc] at hAt; exact hAt.elim
  | pushBack job ret rest => rw [hPc] at hAt; exact hAt.elim
  | resume job ret rest => rw [hPc] at hAt; exact hAt.elim
  | finish job => rw [hPc] at hAt; exact hAt.elim

/-- The handler stores the flag. -/
theorem Inv.store (h : c.Inv cap) :
    ({ c with pipeline := { c.pipeline with producerDone := true }, stored := true } :
      CatchBlock).Inv cap := by
  have hAt := h.consumerAt
  refine { h with consumerAt := ?_, producerDone_eq := rfl }
  show ConsumerAt _ c.pipeline.consumer
  cases hPc : c.pipeline.consumer with
  | pop => trivial
  | loadDone => trivial
  | popAgain => rfl
  | storeDone => rfl
  | exited => rfl
  | stuck => rw [hPc] at hAt; exact hAt
  | consume order => rw [hPc] at hAt; exact hAt
  | addOrder order tPop tPush => rw [hPc] at hAt; exact hAt
  | pushBack job ret rest => rw [hPc] at hAt; exact hAt
  | resume job ret rest => rw [hPc] at hAt; exact hAt
  | finish job => rw [hPc] at hAt; exact hAt

theorem Inv.perform (h : c.Inv cap) {a : CatchAction} {c' : CatchBlock}
    (hStep : c.perform a = some c') : c'.Inv cap := by
  cases a with
  | store =>
      unfold CatchBlock.perform at hStep
      by_cases hStored : c.stored = true
      · rw [if_pos hStored] at hStep
        exact nomatch hStep
      · rw [if_neg hStored] at hStep
        exact Option.some.inj hStep ▸ h.store
  | consumer now =>
      obtain ⟨p, hp, rfl⟩ := Option.map_eq_some_iff.mp hStep
      exact h.consumerStep hp

theorem Inv.performAll (h : c.Inv cap) {actions : List CatchAction} {c' : CatchBlock}
    (hRun : c.performAll actions = some c') : c'.Inv cap := by
  induction actions generalizing c with
  | nil => exact Option.some.inj hRun ▸ h
  | cons a actions ih =>
      rw [CatchBlock.performAll] at hRun
      obtain ⟨c₁, hStep, hRest⟩ := Option.bind_eq_some_iff.mp hRun
      exact ih (h.perform hStep) hRest

theorem Inv.ready_rethrow (h : c.Inv cap) {e : MatchingEngine} (hThrow : c.rethrow = some e) :
    e.Ready cap ∧ e.Refilled cap := by
  unfold rethrow at hThrow
  by_cases hEnd : (c.stored && c.pipeline.consumer.isExited) = true
  · rw [if_pos hEnd] at hThrow
    obtain rfl := Option.some.inj hThrow
    exact
      ⟨{ running_eq := rfl
         producer_joined := h.producer_joined
         consumer_joined := PinnedThread.joinable_joined _
         orderQueue_eq := h.orderQueue_eq
         returnQueue_eq := h.returnQueue_eq
         maxObjects_eq := h.maxObjects_eq
         holds := ⟨[], h.holds⟩ },
        { pool_free := h.pool_free
          holds := h.holds }⟩
  · rw [if_neg hEnd] at hThrow
    exact nomatch hThrow

end CatchBlock

namespace MatchingEngine

variable {config : RunConfig} {cap : Nat} {e : MatchingEngine}

/-- Without a producer, the handler runs beside the consumer. -/
theorem Ready.catching_eq (h : e.Ready cap) (config : RunConfig) (consumer : ThreadId) :
    ∃ c, e.start config (some consumer) none = .catching c := by
  have hAssign := h.assign_consumer consumer
  unfold start
  rw [if_neg h.not_running]
  dsimp only
  rw [hAssign]
  exact ⟨_, rfl⟩

/-- It starts with everything empty. -/
theorem Ready.inv_catching (h : e.Ready cap) (hPos : 0 < cap) (hLt : cap < 2 ^ 64)
    {consumer : ThreadId} {c : CatchBlock}
    (hStart : e.start config (some consumer) none = .catching c) : c.Inv cap := by
  have hAssign : e.prepare.consumerThread.assign { id := consumer } =
      some { id := consumer } := h.assign_consumer consumer
  unfold start at hStart
  rw [if_neg h.not_running] at hStart
  dsimp only at hStart
  rw [hAssign] at hStart
  obtain rfl := StartResult.catching.inj hStart
  exact
    { consumerAt := trivial
      producerDone_eq := rfl
      orderQueue_eq := h.orderQueue_eq
      returnQueue_eq := h.returnQueue_eq
      producer_joined := h.producer_joined
      maxObjects_eq := h.maxObjects_eq
      pool_free := h.freeList_prepare hPos hLt
      holds := h.holds_prepare }

end MatchingEngine

/-! ## Sequences of runs -/

/-- Between runs an engine is ready. -/
theorem Idle.ready {cap : Nat} (hPos : 0 < cap) (hLt : cap < 2 ^ 64) {e : MatchingEngine}
    (h : Idle cap e) : e.Ready cap := by
  induction h with
  | new => exact MatchingEngine.ready_new cap
  | @stop e config c q p₀ p actions e' hIdle hStart hRun hStop ih =>
      rw [ih.start_eq config c q] at hStart
      obtain rfl := StartResult.started.inj hStart
      have hInv := (ih.inv_firstState hPos hLt config c q).performAll hRun
      exact hInv.ready_stop ih.holds_prepare hStop
  | noConsumer hIdle hStart ih => exact (ih.ready_thrown hPos hLt hStart).1
  | noProducer hIdle hStart hRun hThrow ih =>
      exact (((ih.inv_catching hPos hLt hStart).performAll hRun).ready_rethrow hThrow).1

end MatchingMachine
