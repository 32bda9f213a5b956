import MatchingMachine.Model.Pipeline
import MatchingMachine.Pipeline.Stream
import MatchingMachine.Refinement.Confined

/-!
# The invariant of the pipeline

`Inv` holds of every state of a run.  It has four parts:

* for each program counter, what the flags and queues are (`ProducerAt`, `ConsumerAt`);
* the places of the slots, together, are the slots of the pool, each once;
* what has been generated is what has been processed, followed by what is on its way, in order;
* the book is the priority book of the orders processed so far.  Within a call it is not: there
  `InCall` says that the rest of the call will get it there, whatever the producer does meanwhile
  to slots the book does not hold.
-/

namespace MatchingMachine

open Interaction (wp within lastCall Protocol)

/-! ## A call in progress -/

/-- What a call with request `x` on a book `F` ends in, with `buf` the trade buffer before. -/
structure CallDone (F : PriorityBook) (x : Submission) (buf : TradeRingBuffer kTradeBufBits)
    (log : List OrderPtr) (s : BookState kTradeBufBits) : Prop where
  represents : Represents s.heap s.book (F.submit x.ptr (x.order.stamp x.now)).book
  log_eq : log = (F.submit x.ptr (x.order.stamp x.now)).returned.map Resting.ptr
  trades_eq : s.trades = (F.submit x.ptr (x.order.stamp x.now)).trades
  buf_eq : s.buf = buf.pushAll (F.submit x.ptr (x.order.stamp x.now)).trades

/-- The protocol of a call whose environment may overwrite everything the book does not hold. -/
abbrev callProtocol (F : PriorityBook) (x : Submission) :
    Protocol OrderPtr (BookState kTradeBufBits) := ownership x.ptr F.ptrs fun _ => False

/-- A program that has returned `log` and will carry the call through. -/
structure Carries (F : PriorityBook) (x : Submission) (buf : TradeRingBuffer kTradeBufBits)
    (log : List OrderPtr) (s : BookState kTradeBufBits)
    (program : BookState.BookProgram kTradeBufBits (BookState kTradeBufBits)) : Prop where
  correct : wp (callProtocol F x) (CallDone F x buf) log program
  confined : within (Confined x.ptr) id s program
  last : lastCall (BookState.Outside x.ptr) x.ptr program

/-- A call that is at its deallocator with `ret`, having returned `log` before. -/
structure InCall (F : PriorityBook) (x : Submission) (buf : TradeRingBuffer kTradeBufBits)
    (log : List OrderPtr) (ret : OrderPtr) (mem : BookState kTradeBufBits) (rest : Suspended) :
    Prop where
  wellFormed : F.WellFormed
  fresh : x.ptr ∉ F.ptrs
  slots : (log ++ inHand x.ptr ret ++ mem.book.livePtrs).Perm (x.ptr :: F.ptrs)
  last : ret = x.ptr → ∀ s, rest s = .ret s
  carries : ∀ h, (∀ q, Held x.ptr ret mem q → h q = mem.heap q) →
    Carries F x buf (log ++ [ret]) { mem with heap := h } (rest { mem with heap := h })

/-- What the producer does to slots the book does not hold does not matter. -/
theorem InCall.congr_heap {F : PriorityBook} {x : Submission}
    {buf : TradeRingBuffer kTradeBufBits} {log : List OrderPtr} {ret : OrderPtr}
    {mem : BookState kTradeBufBits} {rest : Suspended} (h : InCall F x buf log ret mem rest)
    {heap : Heap} (hSame : ∀ q, Held x.ptr ret mem q → heap q = mem.heap q) :
    InCall F x buf log ret { mem with heap := heap } rest where
  wellFormed := h.wellFormed
  fresh := h.fresh
  slots := h.slots
  last := h.last
  carries heap' hAgree := h.carries heap' fun q hq => (hAgree q hq).trans (hSame q hq)

namespace Pipeline

/-! ## Where the slots are -/

/-- The orders at live positions of the book. -/
def resting (p : Pipeline) : List OrderPtr := p.mem.book.livePtrs

/-- All places a slot can be in. -/
def places (p : Pipeline) : List OrderPtr :=
  p.pool.freeSlots ++ p.producerHand ++ p.orderQueue ++ p.consumerHand ++ p.resting ++ p.returnQueue

/-! ## The stream -/

end Pipeline

/-- The simulator at the start of a run. -/
def RunConfig.simulator (config : RunConfig) : FeedSimulator where
  symbol := config.symbol
  basePrice := config.basePrice

namespace Pipeline

/-- The orders generated so far. -/
def generated (p : Pipeline) : List Order := (p.config.simulator.generateRandom p.draws).1

/-- The slot the producer holds a generated order in. -/
def ready (p : Pipeline) : List OrderPtr :=
  match p.producer with
  | .drain (.pushWait slot) => [slot]
  | .deallocate (.pushWait slot) _ => [slot]
  | .stamp slot => [slot]
  | .push slot => [slot]
  | _ => []

/-- The slot of an order the consumer has popped and not yet given to the book. -/
def popped (p : Pipeline) : List OrderPtr :=
  match p.consumer with
  | .consume order => [order]
  | .addOrder order _ _ => [order]
  | _ => []

/-- The order the book is working on, as it entered. -/
def begun (p : Pipeline) : List Submission :=
  match p.consumer with
  | .pushBack job _ _ => [job.request]
  | .resume job _ _ => [job.request]
  | .finish job => [job.request]
  | _ => []

/-- The slots of generated orders that have not entered the book, oldest first. -/
def onTheWay (p : Pipeline) : List OrderPtr := p.popped ++ p.orderQueue ++ p.ready

/-- The priority book of the orders processed so far. -/
def bookOf (p : Pipeline) : PriorityBook := ({} : PriorityBook).submitAll p.processed

/-! ## What holds at each program counter -/

/-- The flags and queues where the producer stands at `pc`. -/
def ProducerAt (p : Pipeline) : ProducerLoopPc → Prop
  | .storeDone => p.pushed = p.config.orderCount ∧ p.producerDone = false
  | .drain .shutdown => p.pushed = p.config.orderCount ∧ p.producerDone = true
  | .deallocate .shutdown _ => p.pushed = p.config.orderCount ∧ p.producerDone = true
  | .loadDone => p.pushed = p.config.orderCount ∧ p.producerDone = true
  | .drain .last =>
      p.pushed = p.config.orderCount ∧ p.producerDone = true ∧ p.consumerDone = true
  | .deallocate .last _ =>
      p.pushed = p.config.orderCount ∧ p.producerDone = true ∧ p.consumerDone = true
  | .exited =>
      p.pushed = p.config.orderCount ∧ p.producerDone = true ∧ p.consumerDone = true ∧
        p.returnQueue = []
  | _ => p.pushed < p.config.orderCount ∧ p.producerDone = false

/-- The flags and queues where the consumer stands at `pc`. -/
def ConsumerAt (p : Pipeline) : ConsumerLoopPc → Prop
  | .popAgain => p.consumerDone = false ∧ p.producerDone = true
  | .storeDone => p.consumerDone = false ∧ p.producerDone = true ∧ p.orderQueue = []
  | .exited => p.consumerDone = true ∧ p.producerDone = true ∧ p.orderQueue = []
  | .stuck => False
  | _ => p.consumerDone = false

/-- The book where the consumer stands at `pc`; `buf` is the trade buffer at the start. -/
def BookAt (buf : TradeRingBuffer kTradeBufBits) (p : Pipeline) : ConsumerLoopPc → Prop
  | .pushBack job ret rest =>
      ∃ log, InCall p.bookOf job.request (buf.pushAll p.written) log ret p.mem rest
  | .resume job ret rest =>
      ∃ log, InCall p.bookOf job.request (buf.pushAll p.written) log ret p.mem rest
  | .finish job => ∃ log, CallDone p.bookOf job.request (buf.pushAll p.written) log p.mem
  | _ => Represents p.mem.heap p.mem.book p.bookOf ∧ p.mem.buf = buf.pushAll p.written

/-- The number of samples a recorder has after `n` orders. -/
def RecordedFor (p : Pipeline) (n : Nat) (samples : List UInt64) : Prop :=
  samples.length = if p.config.recordLatency then n else 0

/-- The invariant of a run with `config` on a pool of `cap` slots. -/
structure Inv (config : RunConfig) (cap : Nat) (buf : TradeRingBuffer kTradeBufBits)
    (p : Pipeline) : Prop where
  config_eq : p.config = config
  producerAt : p.ProducerAt p.producer
  consumerAt : p.ConsumerAt p.consumer
  pushed_le : p.pushed ≤ p.config.orderCount
  maxObjects_eq : p.pool.maxObjects = cap
  freeList : p.pool.FreeList p.pool.freeSlots
  places : p.places.Perm (List.range cap)
  sim_eq : (p.config.simulator.generateRandom p.draws).2 = p.sim
  orders : p.generated = (p.processed ++ p.begun).map (fun x => x.order.untimed) ++
    p.onTheWay.map fun q => (p.mem.heap q).untimed
  length_eq : p.draws.length = p.pushed + p.ready.length
  consumed_eq : p.consumedCount = p.processed.length
  written_eq : p.written = ({} : PriorityBook).tradesAll p.processed
  wellFormed : p.bookOf.WellFormed
  ids : p.bookOf.IdsUpTo p.processed.length
  size_le : p.bookOf.ptrs.length ≤ p.processed.length
  bookAt : p.BookAt buf p.consumer
  queueSamples : p.RecordedFor p.processed.length p.queueLatency
  serviceSamples : p.RecordedFor p.processed.length p.serviceLatency

namespace Inv

variable {config : RunConfig} {cap : Nat} {buf : TradeRingBuffer kTradeBufBits} {p : Pipeline}

theorem nodup (h : p.Inv config cap buf) : p.places.Nodup := h.places.nodup_iff.mpr List.nodup_range

theorem lt_of_mem (h : p.Inv config cap buf) {q : OrderPtr} (hq : q ∈ p.places) : q < p.pool.maxObjects := by
  rw [h.maxObjects_eq]
  exact List.mem_range.mp (h.places.mem_iff.mp hq)

end Inv

end Pipeline

end MatchingMachine
