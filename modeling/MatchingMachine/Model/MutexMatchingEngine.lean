import MatchingMachine.Model.OrderBookV1
import MatchingMachine.Model.Pipeline

/-!
# The mutex baseline

`MutexMatchingEngine` of `benchmarks/bench_baseline_mutex.cpp`: the thread that calls `start` and
then `stop`, the producer and the consumer, as three processes over one queue, its mutex, the
condition variable and `producer_done_`.

* Taking the lock, each access under it, giving it back and each notification is a step.
* `wait` releases the mutex and blocks in one step.  A notification wakes the consumer when it is
  blocked, and is lost otherwise; the consumer may also wake for no reason.
* A thread can be created or not as `created` says.  The order of round `i` is object number `i`.

`processed` only records the orders that were given to the book.
-/

namespace MatchingMachine

namespace MutexMatchingEngine

inductive ThreadName
  | starter | producer | consumer
  deriving DecidableEq

/-- `start` up to its end, then `stop`. -/
inductive StarterPc
  | checkRunning
  | lockQueue | popAll | unlockQueue
  | reset
  | createConsumer | createProducer
  /-- The handler of `start`. -/
  | lockDone | storeDone | unlockDone | notifyAll | joinStarted | thrown
  | joinProducer | joinConsumer | stopped
  deriving DecidableEq

inductive ProducerPc
  | notStarted
  | loop
  | generate | stamp (order : OrderPtr)
  | lock (order : OrderPtr) | push (order : OrderPtr) | unlock | notifyOne
  | lockDone | storeDone | unlockDone | notifyAll
  | exited
  deriving DecidableEq

inductive ConsumerPc
  | notStarted
  | lock
  /-- The predicate of `wait`. -/
  | testEmpty | testDone
  | wait | blocked | relock
  | pop | unlock (order : OrderPtr) | unlockBreak
  | process (order : OrderPtr) | stuck (order : OrderPtr)
  | clear
  | exited
  deriving DecidableEq

def StarterPc.holdsLock : StarterPc → Bool
  | .popAll | .unlockQueue | .storeDone | .unlockDone => true
  | _ => false

def ProducerPc.holdsLock : ProducerPc → Bool
  | .push _ | .unlock | .storeDone | .unlockDone => true
  | _ => false

def ConsumerPc.holdsLock : ConsumerPc → Bool
  | .testEmpty | .testDone | .wait | .pop | .unlock _ | .unlockBreak => true
  | _ => false

end MutexMatchingEngine

open MutexMatchingEngine in
structure MutexMatchingEngine where
  config : RunConfig
  sharedQueue : List OrderPtr
  queueMtx : Option ThreadName := none
  producerDone : Bool
  running : Bool
  queueLatency : List UInt64 := []
  serviceLatency : List UInt64 := []
  producerThread : PinnedThread := {}
  consumerThread : PinnedThread := {}
  /-- The order objects, and the consumer's book. -/
  mem : V1State
  starter : StarterPc := .checkRunning
  producer : ProducerPc := .notStarted
  consumer : ConsumerPc := .notStarted
  sim : FeedSimulator
  i : Nat := 0
  alive : List OrderPtr := []
  processed : List OrderPtr := []

/-- `match()` of `consumer_loop`; `none` where a call of the book does not end. -/
def V1State.enter (s : V1State) (order : OrderPtr) (now : UInt64) : Option V1State :=
  if (s.heap order).type = .CANCEL then some (s.cancelOrder (s.heap order).orderId).2
  else s.addOrder (some order) now

namespace MutexMatchingEngine

/-! ## The mutex and the condition variable -/

/-- Take the lock; `none` as long as it is taken. -/
def acquire (s : MutexMatchingEngine) (t : ThreadName) : Option MutexMatchingEngine :=
  if s.queueMtx = none then some { s with queueMtx := some t } else none

def release (s : MutexMatchingEngine) : MutexMatchingEngine := { s with queueMtx := none }

/-- A notification: there is one thread that may wait. -/
def notify (s : MutexMatchingEngine) : MutexMatchingEngine :=
  if s.consumer = .blocked then { s with consumer := .relock } else s

/-! ## `start` and `stop` -/

def starterStep (s : MutexMatchingEngine) (created : Option ThreadId) :
    Option MutexMatchingEngine :=
  match s.starter with
  | .checkRunning => some { s with starter := if s.running then .thrown else .lockQueue }
  | .lockQueue => do
      let s ← s.acquire .starter
      return { s with starter := .popAll }
  | .popAll => some { s with sharedQueue := [], starter := .unlockQueue }
  | .unlockQueue => some { s.release with starter := .reset }
  | .reset =>
      some { s with
        producerDone := false, queueLatency := [], serviceLatency := [], running := true
        starter := .createConsumer }
  | .createConsumer =>
      match created with
      | none => some { s with starter := .lockDone }
      | some id => do
          let thread ← s.consumerThread.assign { id := id }
          return { s with
            consumerThread := thread, consumer := .lock, mem := { s.mem with book := {} }
            starter := .createProducer }
  | .createProducer =>
      match created with
      | none => some { s with starter := .lockDone }
      | some id => do
          let thread ← s.producerThread.assign { id := id }
          return { s with
            producerThread := thread, producer := .loop, i := 0
            sim := { symbol := s.config.symbol, basePrice := s.config.basePrice }
            starter := .joinProducer }
  | .lockDone => do
      let s ← s.acquire .starter
      return { s with starter := .storeDone }
  | .storeDone => some { s with producerDone := true, starter := .unlockDone }
  | .unlockDone => some { s.release with starter := .notifyAll }
  | .notifyAll => some { s.notify with starter := .joinStarted }
  | .joinStarted =>
      if s.consumerThread.joinable then
        if s.consumer = .exited then
          some { s with
            consumerThread := s.consumerThread.join, running := false, starter := .thrown }
        else none
      else some { s with running := false, starter := .thrown }
  | .joinProducer =>
      if s.producerThread.joinable then
        if s.producer = .exited then
          some { s with producerThread := s.producerThread.join, starter := .joinConsumer }
        else none
      else some { s with starter := .joinConsumer }
  | .joinConsumer =>
      if s.consumerThread.joinable then
        if s.consumer = .exited then
          some { s with
            consumerThread := s.consumerThread.join, running := false, starter := .stopped }
        else none
      else some { s with running := false, starter := .stopped }
  | .thrown | .stopped => none

/-! ## `producer_loop` -/

/-- `make_shared` and `generate_into`. -/
def generateOrder (s : MutexMatchingEngine) (d : Draws) : MutexMatchingEngine :=
  let (heap, sim) := s.sim.generateInto s.i s.mem.heap d
  { s with mem := { s.mem with heap := heap }, sim := sim }

def stampOrder (s : MutexMatchingEngine) (order : OrderPtr) (now : UInt64) :
    MutexMatchingEngine :=
  { s with mem := s.mem.modifyOrder order fun o => { o with timestampNs := now } }

def producerStep (s : MutexMatchingEngine) (d : Draws) (now : UInt64) :
    Option MutexMatchingEngine :=
  match s.producer with
  | .notStarted => none
  | .loop =>
      some { s with producer := if s.i < s.config.orderCount then .generate else .lockDone }
  | .generate => some { s.generateOrder d with producer := .stamp s.i }
  | .stamp order => some { s.stampOrder order now with producer := .lock order }
  | .lock order => do
      let s ← s.acquire .producer
      return { s with producer := .push order }
  | .push order => some { s with sharedQueue := s.sharedQueue ++ [order], producer := .unlock }
  | .unlock => some { s.release with producer := .notifyOne }
  | .notifyOne => some { s.notify with i := s.i + 1, producer := .loop }
  | .lockDone => do
      let s ← s.acquire .producer
      return { s with producer := .storeDone }
  | .storeDone => some { s with producerDone := true, producer := .unlockDone }
  | .unlockDone => some { s.release with producer := .notifyAll }
  | .notifyAll => some { s.notify with producer := .exited }
  | .exited => none

/-! ## `consumer_loop` -/

/-- `match()` with the engine's book. -/
def matchOrder (s : MutexMatchingEngine) (order : OrderPtr) (now : UInt64) : Option V1State :=
  s.mem.enter order now

/-- What the consumer does with an order that it has popped. -/
def processOrder (s : MutexMatchingEngine) (order : OrderPtr) (tPop now tDone : UInt64) :
    MutexMatchingEngine :=
  match s.matchOrder order now with
  | none => { s with consumer := .stuck order }
  | some mem =>
      { s with
        mem := mem
        queueLatency :=
          if s.config.recordLatency then
            s.queueLatency ++ [tPop - (s.mem.heap order).timestampNs]
          else s.queueLatency
        serviceLatency :=
          if s.config.recordLatency then s.serviceLatency ++ [tDone - tPop] else s.serviceLatency
        alive := s.alive ++ [order]
        processed := s.processed ++ [order]
        consumer := .lock }

def consumerStep (s : MutexMatchingEngine) (tPop now tDone : UInt64) :
    Option MutexMatchingEngine :=
  match s.consumer with
  | .notStarted => none
  | .lock => do
      let s ← s.acquire .consumer
      return { s with consumer := .testEmpty }
  | .testEmpty => some { s with consumer := if s.sharedQueue.isEmpty then .testDone else .pop }
  | .testDone => some { s with consumer := if s.producerDone then .pop else .wait }
  | .wait => some { s.release with consumer := .blocked }
  | .blocked => none
  | .relock => do
      let s ← s.acquire .consumer
      return { s with consumer := .testEmpty }
  | .pop =>
      match s.sharedQueue with
      | [] => some { s with consumer := .unlockBreak }
      | order :: queue => some { s with sharedQueue := queue, consumer := .unlock order }
  | .unlock order => some { s.release with consumer := .process order }
  | .unlockBreak => some { s.release with consumer := .clear }
  | .process order => some (s.processOrder order tPop now tDone)
  | .stuck _ => none
  | .clear => some { s with mem := s.mem.clear, alive := [], consumer := .exited }
  | .exited => none

/-! ## Interleavings -/

/-- A step of one of the threads, with what it would use, or a spurious wake-up. -/
inductive Action
  | starter (created : Option ThreadId)
  | producer (d : Draws) (now : UInt64)
  | consumer (tPop now tDone : UInt64)
  | wake

def perform (s : MutexMatchingEngine) : Action → Option MutexMatchingEngine
  | .starter created => s.starterStep created
  | .producer d now => s.producerStep d now
  | .consumer tPop now tDone => s.consumerStep tPop now tDone
  | .wake => if s.consumer = .blocked then some { s with consumer := .relock } else none

def performAll (s : MutexMatchingEngine) : List Action → Option MutexMatchingEngine
  | [] => some s
  | a :: as => do
      let s ← s.perform a
      s.performAll as

/-- `start` is called on an engine without threads, whatever earlier runs left in it. -/
structure Begins (s : MutexMatchingEngine) : Prop where
  starter : s.starter = .checkRunning
  producer : s.producer = .notStarted
  consumer : s.consumer = .notStarted
  unlocked : s.queueMtx = none
  producerThread : s.producerThread.joinable = false
  consumerThread : s.consumerThread.joinable = false
  processed : s.processed = []

/-- Both threads have ended, as far as they were created. -/
def exited (s : MutexMatchingEngine) : Prop :=
  (s.producer = .exited ∨ s.producer = .notStarted) ∧ s.consumer = .exited

end MutexMatchingEngine

end MatchingMachine
