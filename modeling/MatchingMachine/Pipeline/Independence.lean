import MatchingMachine.Pipeline.Outcome

/-!
# Runs of one engine

What an idle engine has been through does not show in its next run.  A run ends with what its
configuration and its draws say (`Inv.sameEnd`), and a failed `start` gives the engine back with
all slots free.  Its handler cannot hang: the consumer is a few steps from its exit once the flag
is stored (`CatchBlock.Inv.rethrows`).
-/

namespace MatchingMachine

/-! ## Equal runs end equally -/

namespace Pipeline

/-- What can be read off an engine after a run, timestamps aside. -/
structure SameEnd (e f : MatchingEngine) : Prop where
  consumedCount_eq : e.consumedCount = f.consumedCount
  poolAvailable_eq : e.poolAvailable = f.poolAvailable
  held_eq : e.tradeBuf.held.map Trade.untimed = f.tradeBuf.held.map Trade.untimed
  queueSamples_eq : e.queueLatency.length = f.queueLatency.length
  serviceSamples_eq : e.serviceLatency.length = f.serviceLatency.length

variable {config : RunConfig} {cap : Nat} {buf buf' : TradeRingBuffer kTradeBufBits}
  {p p' : Pipeline}

/-- Two finished runs with the same configuration and draws, whatever their interleavings. -/
theorem Inv.sameEnd (h : p.Inv config cap buf) (h' : p'.Inv config cap buf')
    (hExit : p.exited = true) (hExit' : p'.exited = true) (hBuf : buf.Holds [])
    (hBuf' : buf'.Holds []) (hDraws : p.draws = p'.draws) :
    SameEnd (p.engine false) (p'.engine false) := by
  obtain ⟨-, hProcessed, -, -⟩ := h.exited_spec hExit
  obtain ⟨-, hProcessed', -, -⟩ := h'.exited_spec hExit'
  rw [hDraws, ← hProcessed'] at hProcessed
  obtain ⟨hBook, hTrades⟩ := PriorityBook.submitAll_blind (F := {}) rfl hProcessed
  have hLength : p.processed.length = p'.processed.length := by
    simpa only [List.length_map] using congrArg List.length hProcessed
  have hBits : kTradeBufBits < 64 := by decide
  have hQueue := h.queueSamples
  have hQueue' := h'.queueSamples
  have hService := h.serviceSamples
  have hService' := h'.serviceSamples
  unfold RecordedFor at hQueue hQueue' hService hService'
  rw [h.config_eq, hLength, ← h'.config_eq] at hQueue hService
  refine
    { consumedCount_eq := ?_
      poolAvailable_eq := ?_
      held_eq := ?_
      queueSamples_eq := hQueue.trans hQueue'.symm
      serviceSamples_eq := hService.trans hService'.symm }
  · show p.consumedCount = p'.consumedCount
    rw [h.consumed_eq, h'.consumed_eq, hLength]
  · have hAvailable := h.available_eq hExit
    have hAvailable' := h'.available_eq hExit'
    have hSize : p.bookOf.all.length = p'.bookOf.all.length :=
      PriorityBook.length_all_of_blind hBook
    show p.pool.available = p'.pool.available
    omega
  · rw [← h.written_eq, ← h'.written_eq] at hTrades
    have hWritten : p.written.length = p'.written.length := by
      simpa only [List.length_map] using congrArg List.length hTrades
    show p.mem.buf.held.map Trade.untimed = p'.mem.buf.held.map Trade.untimed
    rw [(h.holds_exited hExit hBuf).held_eq hBits, (h'.holds_exited hExit' hBuf').held_eq hBits,
      List.map_drop, List.map_drop, hTrades, hWritten]

/-- Joining the threads changes nothing that can be read off. -/
theorem stop_eq {e : MatchingEngine} (hStop : p.stop = some e) :
    p.exited = true ∧ e.consumedCount = p.consumedCount ∧ e.pool = p.pool ∧
      e.tradeBuf = p.mem.buf ∧ e.queueLatency = p.queueLatency ∧
      e.serviceLatency = p.serviceLatency := by
  unfold stop at hStop
  by_cases hExit : p.exited = true
  · rw [if_pos hExit] at hStop
    obtain rfl := Option.some.inj hStop
    exact ⟨hExit, rfl, rfl, rfl, rfl, rfl⟩
  · rw [if_neg hExit] at hStop
    exact nomatch hStop

theorem SameEnd.of_stop {e e' : MatchingEngine} (hStop : p.stop = some e)
    (hStop' : p'.stop = some e') (h : SameEnd (p.engine false) (p'.engine false)) :
    SameEnd e e' := by
  obtain ⟨-, hCount, hPool, hBuf, hQueue, hService⟩ := stop_eq hStop
  obtain ⟨-, hCount', hPool', hBuf', hQueue', hService'⟩ := stop_eq hStop'
  exact
    { consumedCount_eq := by
        rw [hCount, hCount']
        exact h.consumedCount_eq
      poolAvailable_eq := by
        rw [MatchingEngine.poolAvailable, MatchingEngine.poolAvailable, hPool, hPool']
        exact h.poolAvailable_eq
      held_eq := by
        rw [hBuf, hBuf']
        exact h.held_eq
      queueSamples_eq := by
        rw [hQueue, hQueue']
        exact h.queueSamples_eq
      serviceSamples_eq := by
        rw [hService, hService']
        exact h.serviceSamples_eq }

end Pipeline

/-! ## The handler ends -/

namespace CatchBlock

variable {cap : Nat} {c : CatchBlock}

/-- Steps of the consumer up to its exit. -/
def rank : ConsumerLoopPc → Nat
  | .pop => 4
  | .loadDone => 3
  | .popAgain => 2
  | .storeDone => 1
  | _ => 0

/-- Once the flag is stored, a consumer that has not exited gets closer to it. -/
theorem Inv.consumer_closer (h : c.Inv cap) (hStored : c.stored = true)
    (hRank : 0 < rank c.pipeline.consumer) (now : UInt64) : ∃ p, c.pipeline.consumerStep now = some p ∧
      rank p.consumer < rank c.pipeline.consumer := by
  have hPop : ∀ empty, (c.pipeline.popOrder empty).consumer = empty := by
    intro empty
    simp only [Pipeline.popOrder, h.orderQueue_eq, tryPop]
  have hDone : c.pipeline.producerDone = true := h.producerDone_eq.trans hStored
  unfold Pipeline.consumerStep
  cases hPc : c.pipeline.consumer with
  | pop =>
      refine ⟨_, rfl, ?_⟩
      rw [hPop]
      decide
  | loadDone =>
      refine ⟨_, rfl, ?_⟩
      rw [Pipeline.loadProducerDone, hDone]
      exact Nat.lt_succ_self 2
  | popAgain =>
      refine ⟨_, rfl, ?_⟩
      rw [hPop]
      decide
  | storeDone => exact ⟨_, rfl, Nat.zero_lt_one⟩
  | _ => rw [hPc] at hRank; exact absurd hRank (Nat.lt_irrefl 0)

/-- A consumer with no steps left has exited. -/
theorem Inv.isExited (h : c.Inv cap) (hRank : rank c.pipeline.consumer = 0) :
    c.pipeline.consumer.isExited = true := by
  have hAt := h.consumerAt
  cases hPc : c.pipeline.consumer with
  | exited => rfl
  | pop => rw [hPc] at hRank; exact nomatch hRank
  | loadDone => rw [hPc] at hRank; exact nomatch hRank
  | popAgain => rw [hPc] at hRank; exact nomatch hRank
  | storeDone => rw [hPc] at hRank; exact nomatch hRank
  | _ => rw [hPc] at hAt; exact hAt.elim

theorem Inv.rethrows_of_stored (h : c.Inv cap) (hStored : c.stored = true) {n : Nat}
    (hn : rank c.pipeline.consumer ≤ n) :
    ∃ actions c' e, actions.length ≤ n ∧ c.performAll actions = some c' ∧ c'.rethrow = some e := by
  induction n generalizing c with
  | zero =>
      have hExit := h.isExited (Nat.le_zero.mp hn)
      refine ⟨[], c, _, le_rfl, rfl, if_pos ?_⟩
      rw [hStored, hExit]
      rfl
  | succ n ih =>
      rcases Nat.eq_zero_or_pos (rank c.pipeline.consumer) with hZero | hRank
      · have hExit := h.isExited hZero
        refine ⟨[], c, _, Nat.zero_le _, rfl, if_pos ?_⟩
        rw [hStored, hExit]
        rfl
      · obtain ⟨p, hStep, hLess⟩ := h.consumer_closer hStored hRank 0
        obtain ⟨actions, c', e, hLength, hRun, hThrow⟩ :=
          ih (h.consumerStep hStep) hStored (by
            show rank p.consumer ≤ n
            omega)
        refine ⟨.consumer 0 :: actions, c', e, Nat.succ_le_succ hLength, ?_, hThrow⟩
        show (c.pipeline.consumerStep 0).map _ >>= _ = _
        rw [hStep]
        exact hRun

/-- In every state of the handler the exception is at most five steps away. -/
theorem Inv.rethrows (h : c.Inv cap) :
    ∃ actions c' e, actions.length ≤ 5 ∧ c.performAll actions = some c' ∧ c'.rethrow = some e := by
  have hLe : ∀ pc, rank pc ≤ 4 := fun pc => by cases pc <;> simp [rank]
  by_cases hStored : c.stored = true
  · obtain ⟨actions, c', e, hLength, hRun, hThrow⟩ := h.rethrows_of_stored hStored (hLe _)
    exact ⟨actions, c', e, Nat.le_succ_of_le hLength, hRun, hThrow⟩
  · obtain ⟨actions, c', e, hLength, hRun, hThrow⟩ := h.store.rethrows_of_stored rfl (hLe _)
    refine ⟨.store :: actions, c', e, Nat.succ_le_succ hLength, ?_, hThrow⟩
    rw [CatchBlock.performAll, CatchBlock.perform, if_neg hStored]
    exact hRun

end CatchBlock

/-! ## Independence -/

namespace MatchingEngine

/-- The engine after a failed start. -/
structure Recovered (cap : Nat) (e : MatchingEngine) : Prop where
  idle : Idle cap e
  running_eq : e.running = false
  producer_joined : e.producerThread.joinable = false
  consumer_joined : e.consumerThread.joinable = false
  orderQueue_eq : e.orderQueue = []
  returnQueue_eq : e.returnQueue = []
  free : e.pool.freeSlots = List.range cap
  available : e.poolAvailable = cap

theorem Ready.recovered {cap : Nat} {e : MatchingEngine} (h : e.Ready cap)
    (hRefilled : e.Refilled cap) (hIdle : Idle cap e) : e.Recovered cap where
  idle := hIdle
  running_eq := h.running_eq
  producer_joined := h.producer_joined
  consumer_joined := h.consumer_joined
  orderQueue_eq := h.orderQueue_eq
  returnQueue_eq := h.returnQueue_eq
  free := hRefilled.pool_free.freeSlots_eq
  available := by
    rw [poolAvailable, hRefilled.pool_free.available_eq, List.length_range]

/-- What the next `start` of an engine does. -/
structure Independent (cap : Nat) (e : MatchingEngine) (config : RunConfig) : Prop where
  /-- Between runs the queues are empty. -/
  queues : e.orderQueue = [] ∧ e.returnQueue = []
  /-- Without a consumer it throws. -/
  noConsumer : ∀ producer, ∃ e', e.start config none producer = .thrown e' ∧ e'.Recovered cap
  /-- Without a producer it throws once the consumer has exited, and that is never far. -/
  noProducer : ∀ consumer, ∃ c₀, e.start config (some consumer) none = .catching c₀ ∧
    ∀ actions c, c₀.performAll actions = some c →
      (∀ e', c.rethrow = some e' → e'.Recovered cap) ∧
      ∃ more c' e', more.length ≤ 5 ∧ c.performAll more = some c' ∧ c'.rethrow = some e'
  /-- A run ends like the same run on a new engine. -/
  sameAsNew : ∀ {consumer producer consumer' producer' : ThreadId} {p₀ p q₀ q : Pipeline}
    {actions actions' : List PipelineAction} {e' f' : MatchingEngine},
    e.start config (some consumer) (some producer) = .started p₀ →
    p₀.performAll actions = some p → p.stop = some e' →
    (MatchingEngine.new cap).start config (some consumer') (some producer') = .started q₀ →
    q₀.performAll actions' = some q → q.stop = some f' →
    p.draws = q.draws → Pipeline.SameEnd e' f'

/-- After any sequence of runs and failed starts, a failed start throws and leaves the engine
as new, and a run that ends does so like the same run on a new engine. -/
theorem runsIndependent {cap : Nat} (hPos : 0 < cap) (hLt : cap < 2 ^ 64) {e : MatchingEngine}
    (he : Idle cap e) (config : RunConfig) : e.Independent cap config := by
  have h := he.ready hPos hLt
  refine
    { queues := ⟨h.orderQueue_eq, h.returnQueue_eq⟩
      noConsumer := fun producer => ?_
      noProducer := fun consumer => ?_
      sameAsNew := ?_ }
  · have hStart : ∃ e', e.start config none producer = .thrown e' := ⟨_, if_neg h.not_running⟩
    obtain ⟨e', hStart⟩ := hStart
    obtain ⟨hReady, hRefilled⟩ := h.ready_thrown hPos hLt hStart
    exact ⟨e', hStart, hReady.recovered hRefilled (he.noConsumer hStart)⟩
  · obtain ⟨c₀, hStart⟩ := h.catching_eq config consumer
    have hInv := h.inv_catching hPos hLt hStart
    refine ⟨c₀, hStart, fun actions c hRun => ⟨fun e' hThrow => ?_, ?_⟩⟩
    · obtain ⟨hReady, hRefilled⟩ := (hInv.performAll hRun).ready_rethrow hThrow
      exact hReady.recovered hRefilled (he.noProducer hStart hRun hThrow)
    · exact (hInv.performAll hRun).rethrows
  · intro consumer producer consumer' producer' p₀ p q₀ q actions actions' e' f' hStart hRun hStop
      hStart' hRun' hStop' hDraws
    obtain ⟨hInv, hBuf⟩ := he.inv hPos hLt hStart hRun
    obtain ⟨hInv', hBuf'⟩ := Idle.new.inv hPos hLt hStart' hRun'
    exact (hInv.sameEnd hInv' (Pipeline.stop_eq hStop).1 (Pipeline.stop_eq hStop').1 hBuf hBuf'
      hDraws).of_stop hStop hStop'

/-- An engine that has been through a run of two orders. -/
theorem runsIndependent_crossing :
    ∃ p e, crossingStart.performAll crossingActions = some p ∧ p.stop = some e ∧
      e.Independent 2 crossingConfig := by
  have hEnd : ((crossingStart.performAll crossingActions).bind fun p => p.stop).isSome = true := by
    decide +kernel
  obtain ⟨e, hEnd⟩ := Option.isSome_iff_exists.mp hEnd
  obtain ⟨p, hRun, hStop⟩ := Option.bind_eq_some_iff.mp hEnd
  exact ⟨p, e, hRun, hStop,
    runsIndependent (by decide) (by decide) (.stop .new rfl hRun hStop) crossingConfig⟩

end MatchingEngine

end MatchingMachine
