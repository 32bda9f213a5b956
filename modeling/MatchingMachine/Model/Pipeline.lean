import MatchingMachine.Model.FeedSimulator
import MatchingMachine.Model.MemoryPool
import MatchingMachine.Model.Serving

/-!
# The pipeline

`producer_loop` and `consumer_loop` of `MatchingEngine` as two processes.  Every queue operation,
pool operation, flag access, generated order and write of a timestamp is a step of its own.
Matching one order is split at the calls of the deallocator: from one push to `return_queue_` to
the next the consumer works on its own.

* A program counter says where in its loop a thread stands and holds the locals it has there.
  The rest of an `add_order_noalloc` call is kept in the consumer's as the suspended program.
* The two rings are bounded queues here; the pipeline over the rings refines this one
  (`Pipeline.Rings`).
* The order objects live in the slots of the pool, which both threads see: `mem.heap`.  Book
  and trade buffer, the rest of `mem`, are the consumer's.
* A step takes the random draws and the clock readings it would use, so nothing is assumed of
  either.

`draws`, `processed` and `written` only record what has happened: the draws used so far, the
orders whose matching is over, as they entered the book, and the trades of their calls.
-/

namespace MatchingMachine

/-! ## Queues -/

def kOrderQueueCap : Nat := 4096

def kReturnQueueCap : Nat := 4096

/-- `kTradeBufCap` is `2 ^ kTradeBufBits`. -/
abbrev kTradeBufBits : Nat := 12

/-- `try_push` on a ring of `cap` slots, one of which stays empty. -/
def tryPush {α : Type} (cap : Nat) (q : List α) (item : α) : Option (List α) :=
  if q.length < cap - 1 then some (q ++ [item]) else none

def tryPop {α : Type} : List α → Option (α × List α)
  | [] => none
  | item :: q => some (item, q)

/-! ## Threads -/

/-- What `pthread_create` gives; the `pthread_t` of a thread is never 0. -/
abbrev ThreadId := { id : Nat // id ≠ 0 }

/-- A handle; 0 means no thread. -/
structure PinnedThread where
  id : Nat := 0

namespace PinnedThread

def joinable (t : PinnedThread) : Bool := t.id != 0

/-- Move assignment; `none` where it terminates the program. -/
def assign (t other : PinnedThread) : Option PinnedThread :=
  if t.joinable then none else some other

/-- `join`, once the thread has ended. -/
def join (t : PinnedThread) : PinnedThread := { t with id := 0 }

end PinnedThread

/-! ## Where the threads stand -/

/-- The arguments of a run that its threads use. -/
structure RunConfig where
  symbol : List UInt8
  basePrice : Int
  orderCount : Nat
  orderCount_lt : orderCount < 2 ^ 64
  recordLatency : Bool := false

/-- What the producer goes on with once `return_queue_` is drained. -/
inductive DrainPhase
  | slotWait
  | pushWait (slot : OrderPtr)
  | shutdown
  | last

inductive ProducerLoopPc
  /-- `return_queue_.try_pop(ret)`. -/
  | drain (phase : DrainPhase)
  | deallocate (phase : DrainPhase) (ret : OrderPtr)
  | allocate
  | generate (slot : OrderPtr)
  | stamp (slot : OrderPtr)
  | push (slot : OrderPtr)
  | storeDone
  | loadDone
  | exited

/-- An order the consumer is working on, with the readings `t_pop` and `t_push`. -/
structure Job where
  request : Submission
  tPop : UInt64
  tPush : UInt64

/-- The rest of a call of the book. -/
abbrev Suspended :=
  BookState kTradeBufBits → BookState.BookProgram kTradeBufBits (BookState kTradeBufBits)

inductive ConsumerLoopPc
  | pop
  | loadDone
  | popAgain
  | consume (order : OrderPtr)
  | addOrder (order : OrderPtr) (tPop tPush : UInt64)
  /-- In the deallocator: `return_queue_.try_push(ret)`. -/
  | pushBack (job : Job) (ret : OrderPtr) (rest : Suspended)
  | resume (job : Job) (ret : OrderPtr) (rest : Suspended)
  | finish (job : Job)
  | storeDone
  | exited
  | stuck

def ProducerLoopPc.isExited : ProducerLoopPc → Bool
  | .exited => true
  | _ => false

def ConsumerLoopPc.isExited : ConsumerLoopPc → Bool
  | .exited => true
  | _ => false

structure Pipeline where
  config : RunConfig
  pool : MemoryPool
  mem : BookState kTradeBufBits
  orderQueue : List OrderPtr
  returnQueue : List OrderPtr
  producerDone : Bool := false
  consumerDone : Bool := false
  consumedCount : Nat := 0
  queueLatency : List UInt64 := []
  serviceLatency : List UInt64 := []
  producerThread : PinnedThread := {}
  consumerThread : PinnedThread := {}
  producer : ProducerLoopPc
  sim : FeedSimulator
  pushed : Nat := 0
  consumer : ConsumerLoopPc := .pop
  draws : List Draws := []
  processed : List Submission := []
  written : List Trade := []

namespace Pipeline

/-! ## `producer_loop` -/

def setHeap (p : Pipeline) (heap : Heap) : Pipeline := { p with mem := { p.mem with heap := heap } }

/-- `while (pushed < order_count)`. -/
def nextOrder (p : Pipeline) : Pipeline :=
  { p with
    producer := if p.pushed < p.config.orderCount then .drain .slotWait else .storeDone }

/-- Where a drain that finds the queue empty leads. -/
def afterDrain : DrainPhase → ProducerLoopPc
  | .slotWait => .allocate
  | .pushWait slot => .push slot
  | .shutdown => .loadDone
  | .last => .exited

/-- One round of `while (return_queue_.try_pop(ret))`. -/
def drain (p : Pipeline) (phase : DrainPhase) : Pipeline :=
  match tryPop p.returnQueue with
  | none => { p with producer := afterDrain phase }
  | some (ret, q) => { p with returnQueue := q, producer := .deallocate phase ret }

def deallocate (p : Pipeline) (phase : DrainPhase) (ret : OrderPtr) : Pipeline :=
  { p with pool := p.pool.deallocate (some ret), producer := .drain phase }

def allocate (p : Pipeline) : Pipeline :=
  match p.pool.allocate p.mem.heap with
  | none => { p with producer := .drain .slotWait }
  | some (slot, pool, heap) =>
      { (p.setHeap heap) with pool := pool, producer := .generate slot }

def generate (p : Pipeline) (slot : OrderPtr) (d : Draws) : Pipeline :=
  let (heap, sim) := p.sim.generateInto slot p.mem.heap d
  { (p.setHeap heap) with sim := sim, draws := p.draws ++ [d], producer := .stamp slot }

def stamp (p : Pipeline) (slot : OrderPtr) (now : UInt64) : Pipeline :=
  { (p.setHeap (p.mem.heap.modify slot fun o => { o with timestampNs := now })) with
    producer := .push slot }

def push (p : Pipeline) (slot : OrderPtr) : Pipeline :=
  match tryPush kOrderQueueCap p.orderQueue slot with
  | none => { p with producer := .drain (.pushWait slot) }
  | some q => nextOrder { p with orderQueue := q, pushed := wrap64 (p.pushed + 1) }

def storeProducerDone (p : Pipeline) : Pipeline :=
  { p with producerDone := true, producer := .drain .shutdown }

def loadConsumerDone (p : Pipeline) : Pipeline :=
  { p with producer := if p.consumerDone then .drain .last else .drain .shutdown }

/-- A step of the producer. -/
def producerStep (p : Pipeline) (d : Draws) (now : UInt64) : Option Pipeline :=
  match p.producer with
  | .drain phase => some (p.drain phase)
  | .deallocate phase ret => some (p.deallocate phase ret)
  | .allocate => some p.allocate
  | .generate slot => some (p.generate slot d)
  | .stamp slot => some (p.stamp slot now)
  | .push slot => some (p.push slot)
  | .storeDone => some p.storeProducerDone
  | .loadDone => some p.loadConsumerDone
  | .exited => none

/-! ## `consumer_loop` -/

/-- `order_queue_.try_pop(order)`; `empty` is where an empty queue leads. -/
def popOrder (p : Pipeline) (empty : ConsumerLoopPc) : Pipeline :=
  match tryPop p.orderQueue with
  | none => { p with consumer := empty }
  | some (order, q) => { p with orderQueue := q, consumer := .consume order }

def loadProducerDone (p : Pipeline) : Pipeline :=
  { p with consumer := if p.producerDone then .popAgain else .pop }

def storeConsumerDone (p : Pipeline) : Pipeline :=
  { p with consumerDone := true, consumer := .exited }

/-- `consume(order)` up to the call of the book. -/
def consume (p : Pipeline) (order : OrderPtr) (now : UInt64) : Pipeline :=
  { p with
    consumer :=
      if p.config.recordLatency then .addOrder order now (p.mem.heap order).timestampNs
      else .addOrder order 0 0 }

/-- Go on with a call of the book up to its end or its next call of the deallocator. -/
def advance (p : Pipeline) (job : Job) :
    BookState.BookProgram kTradeBufBits (BookState kTradeBufBits) → Pipeline
  | .ret s => { p with mem := s, consumer := .finish job }
  | .call ret s rest => { p with mem := s, consumer := .pushBack job ret rest }
  | .stuck => { p with consumer := .stuck }

def addOrder (p : Pipeline) (order : OrderPtr) (tPop tPush now : UInt64) : Pipeline :=
  let request : Submission := { ptr := order, order := p.mem.heap order, now := now }
  p.advance { request := request, tPop := tPop, tPush := tPush }
    (p.mem.addOrderNoalloc (some order) now)

/-- One round of `while (!return_queue_.try_push(o))`. -/
def pushBack (p : Pipeline) (job : Job) (ret : OrderPtr) (rest : Suspended) : Pipeline :=
  match tryPush kReturnQueueCap p.returnQueue ret with
  | none => p
  | some q => { p with returnQueue := q, consumer := .resume job ret rest }

def resume (p : Pipeline) (job : Job) (rest : Suspended) : Pipeline := p.advance job (rest p.mem)

/-- `consume(order)` after the call of the book. -/
def finish (p : Pipeline) (job : Job) (now : UInt64) : Pipeline :=
  { p with
    queueLatency :=
      if p.config.recordLatency then p.queueLatency ++ [job.tPop - job.tPush] else p.queueLatency
    serviceLatency :=
      if p.config.recordLatency then p.serviceLatency ++ [now - job.tPop] else p.serviceLatency
    consumedCount := wrap64 (p.consumedCount + 1)
    processed := p.processed ++ [job.request]
    written := p.written ++ p.mem.trades
    consumer := .pop }

/-- A step of the consumer. -/
def consumerStep (p : Pipeline) (now : UInt64) : Option Pipeline :=
  match p.consumer with
  | .pop => some (p.popOrder .loadDone)
  | .loadDone => some p.loadProducerDone
  | .popAgain => some (p.popOrder .storeDone)
  | .consume order => some (p.consume order now)
  | .addOrder order tPop tPush => some (p.addOrder order tPop tPush now)
  | .pushBack job ret rest => some (p.pushBack job ret rest)
  | .resume job _ rest => some (p.resume job rest)
  | .finish job => some (p.finish job now)
  | .storeDone => some p.storeConsumerDone
  | .exited => none
  | .stuck => none

end Pipeline

/-! ## Interleavings -/

/-- A step of one of the threads, with the draws and the clock reading it would use. -/
inductive PipelineAction
  | producer (d : Draws) (now : UInt64)
  | consumer (now : UInt64)

namespace Pipeline

def perform (p : Pipeline) : PipelineAction → Option Pipeline
  | .producer d now => p.producerStep d now
  | .consumer now => p.consumerStep now

/-- An interleaving of steps of the two threads. -/
def performAll (p : Pipeline) : List PipelineAction → Option Pipeline
  | [] => some p
  | a :: as => do
      let p ← p.perform a
      p.performAll as

/-- Both threads have left their loops. -/
def exited (p : Pipeline) : Bool := p.producer.isExited && p.consumer.isExited

/-! ## Where the slots are -/

/-- The slots in the producer's hand: allocated and not yet pushed, or popped from
`return_queue_` and not yet deallocated. -/
def producerHand (p : Pipeline) : List OrderPtr :=
  match p.producer with
  | .drain (.pushWait slot) => [slot]
  | .deallocate (.pushWait slot) ret => [slot, ret]
  | .deallocate _ ret => [ret]
  | .generate slot => [slot]
  | .stamp slot => [slot]
  | .push slot => [slot]
  | _ => []

/-- The slots in the consumer's hand: popped and not yet rested or returned.  In the
deallocator these are the order to be returned and the order being matched, if it is another
one; afterwards the order being matched is left. -/
def consumerHand (p : Pipeline) : List OrderPtr :=
  match p.consumer with
  | .consume order => [order]
  | .addOrder order _ _ => [order]
  | .pushBack job ret _ => if ret = job.request.ptr then [ret] else [ret, job.request.ptr]
  | .resume job ret _ => if ret = job.request.ptr then [] else [job.request.ptr]
  | _ => []

end Pipeline

end MatchingMachine
