import MatchingMachine.Model.Pipeline

/-!
# Runs of an engine

`MatchingEngine` in pipeline mode, from one `start` to the end of its run.  Whether a thread can
be created is an input of `start`: its ID, or `none` where the constructor of `PinnedThread`
throws.

* With both threads, `start` returns and a `Pipeline` runs; `stop` waits for it.
* Without a consumer, `start` throws at once.
* Without a producer, the handler is a process of its own beside the consumer: it stores
  `producer_done_` and waits for the consumer (`CatchBlock`).
-/

namespace MatchingMachine

structure MatchingEngine where
  pool : MemoryPool
  storage : Heap := fun _ => {}
  orderQueue : List OrderPtr := []
  returnQueue : List OrderPtr := []
  tradeBuf : TradeRingBuffer kTradeBufBits := {}
  queueLatency : List UInt64 := []
  serviceLatency : List UInt64 := []
  running : Bool := false
  producerDone : Bool := false
  consumerDone : Bool := false
  consumedCount : Nat := 0
  producerThread : PinnedThread := {}
  consumerThread : PinnedThread := {}

/-- A failed `start` in its handler, with the consumer running. -/
structure CatchBlock where
  pipeline : Pipeline
  stored : Bool := false

/-- What `start` does, up to where it waits for a thread. -/
inductive StartResult
  | alreadyRunning
  /-- A handle of a thread was overwritten: `std::terminate`. -/
  | terminated
  | thrown (e : MatchingEngine)
  | catching (c : CatchBlock)
  | started (p : Pipeline)

namespace MatchingEngine

/-- The constructor. -/
def new (poolCapacity : Nat) : MatchingEngine where
  pool := .new poolCapacity

/-- `pool_available()`. -/
def poolAvailable (e : MatchingEngine) : Nat := e.pool.available

/-- What `start` does before it creates the threads. -/
def prepare (e : MatchingEngine) : MatchingEngine :=
  { e with
    pool := e.pool.reset
    producerDone := false
    consumerDone := false
    consumedCount := 0
    queueLatency := []
    serviceLatency := []
    tradeBuf := e.tradeBuf.drain.2
    running := true }

/-- The engine in the hands of its threads, which have not done anything; `producer` is where
the producer stands. -/
def pipeline (e : MatchingEngine) (config : RunConfig) (producer : ProducerLoopPc) : Pipeline where
  config := config
  pool := e.pool
  mem := { heap := e.storage, book := {}, buf := e.tradeBuf }
  orderQueue := e.orderQueue
  returnQueue := e.returnQueue
  producerDone := e.producerDone
  consumerDone := e.consumerDone
  consumedCount := e.consumedCount
  queueLatency := e.queueLatency
  serviceLatency := e.serviceLatency
  producerThread := e.producerThread
  consumerThread := e.consumerThread
  producer := producer
  sim := { symbol := config.symbol, basePrice := config.basePrice }

def start (e : MatchingEngine) (config : RunConfig) (consumer producer : Option ThreadId) :
    StartResult :=
  if e.running then .alreadyRunning
  else
    let e := e.prepare
    match consumer with
    | none =>
        .thrown { e with
          producerDone := true
          consumerThread := if e.consumerThread.joinable then e.consumerThread.join
            else e.consumerThread
          running := false }
    | some c =>
        match e.consumerThread.assign { id := c } with
        | none => .terminated
        | some t =>
            let e := { e with consumerThread := t }
            match producer with
            | none => .catching { pipeline := e.pipeline config .exited }
            | some q =>
                match e.producerThread.assign { id := q } with
                | none => .terminated
                | some t =>
                    .started (Pipeline.nextOrder
                      (({ e with producerThread := t }).pipeline config .exited))

end MatchingEngine

/-- The engine a run leaves behind. -/
def Pipeline.engine (p : Pipeline) (running : Bool) : MatchingEngine where
  pool := p.pool
  storage := p.mem.heap
  orderQueue := p.orderQueue
  returnQueue := p.returnQueue
  tradeBuf := p.mem.buf
  queueLatency := p.queueLatency
  serviceLatency := p.serviceLatency
  running := running
  producerDone := p.producerDone
  consumerDone := p.consumerDone
  consumedCount := p.consumedCount
  producerThread := p.producerThread
  consumerThread := p.consumerThread

/-- `stop`; `none` as long as it waits for a thread. -/
def Pipeline.stop (p : Pipeline) : Option MatchingEngine :=
  if p.exited then
    some { p.engine false with
      producerThread := if p.producerThread.joinable then p.producerThread.join
        else p.producerThread
      consumerThread := if p.consumerThread.joinable then p.consumerThread.join
        else p.consumerThread }
  else none

/-! ## A failed start -/

/-- A step of the consumer, or the store of the handler. -/
inductive CatchAction
  | store
  | consumer (now : UInt64)

namespace CatchBlock

def perform (c : CatchBlock) : CatchAction → Option CatchBlock
  | .store =>
      if c.stored then none
      else some { c with pipeline := { c.pipeline with producerDone := true }, stored := true }
  | .consumer now => (c.pipeline.consumerStep now).map fun p => { c with pipeline := p }

def performAll (c : CatchBlock) : List CatchAction → Option CatchBlock
  | [] => some c
  | a :: as => do
      let c ← c.perform a
      c.performAll as

/-- The handler rethrows; `none` as long as it waits for the consumer. -/
def rethrow (c : CatchBlock) : Option MatchingEngine :=
  if c.stored && c.pipeline.consumer.isExited then
    some { c.pipeline.engine false with
      consumerThread := if c.pipeline.consumerThread.joinable then c.pipeline.consumerThread.join
        else c.pipeline.consumerThread }
  else none

end CatchBlock

/-! ## Sequences of runs -/

/-- Engines with no thread, after any number of runs and failed starts on a pool of `cap`
slots. -/
inductive Idle (cap : Nat) : MatchingEngine → Prop
  | new : Idle cap (.new cap)
  | stop {e : MatchingEngine} {config : RunConfig} {c q : ThreadId} {p₀ p : Pipeline}
      {actions : List PipelineAction} {e' : MatchingEngine} : Idle cap e →
      e.start config (some c) (some q) = .started p₀ → p₀.performAll actions = some p →
      p.stop = some e' → Idle cap e'
  | noConsumer {e : MatchingEngine} {config : RunConfig} {producer : Option ThreadId}
      {e' : MatchingEngine} : Idle cap e → e.start config none producer = .thrown e' → Idle cap e'
  | noProducer {e : MatchingEngine} {config : RunConfig} {c : ThreadId} {k₀ k : CatchBlock}
      {actions : List CatchAction} {e' : MatchingEngine} : Idle cap e →
      e.start config (some c) none = .catching k₀ → k₀.performAll actions = some k →
      k.rethrow = some e' → Idle cap e'

end MatchingMachine
