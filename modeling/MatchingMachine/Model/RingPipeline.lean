import MatchingMachine.Model.Pipeline
import MatchingMachine.Model.SpscRingBuffer

/-!
# The pipeline over its rings

`Model.Pipeline` takes each `try_push` and `try_pop` as one step on a bounded queue.  Here
`order_queue_` and `return_queue_` are the rings they are: a call is the steps of its loads, its
slot access and its store, the steps of the other thread come in between, and an acquire load may
read an old value of the other side's index, or of the other thread's flag.

What is assumed of the flags is their acquire and release order: a thread that reads the flag set
has seen every push that came before the store.  `producerDoneView` and `consumerDoneView` are
the numbers of these pushes.
-/

namespace MatchingMachine

namespace SpscRingBuffer

variable {α : Type} {k : Nat}

/-! ## Calls, step by step -/

/-- A step of a call of `try_push(item)`, with what the call returns where it is the last. -/
def pushStep (r : SpscRingBuffer α k) (item : α) (j : Nat) :
    Option (SpscRingBuffer α k × Option Bool) :=
  match r.producer with
  | .idle => (r.tryPush item).map fun r' => (r', none)
  | .loadHead _ _ _ =>
      (r.loadHead j).map fun r' =>
        match r'.producer with
        | .idle => (r', some false)
        | _ => (r', none)
  | .writeSlot _ _ _ => r.writeSlot.map fun r' => (r', none)
  | .storeTail _ _ _ => r.storeTail.map fun r' => (r', some true)

/-- A step of a call of `try_pop(item)`, with what the call returns where it is the last. -/
def popStep (r : SpscRingBuffer α k) (j : Nat) :
    Option (SpscRingBuffer α k × Option (Option α)) :=
  match r.consumer with
  | .idle => r.tryPop.map fun r' => (r', none)
  | .loadTail _ =>
      (r.loadTail j).map fun r' =>
        match r'.consumer with
        | .idle => (r', some none)
        | _ => (r', none)
  | .readSlot _ => r.readSlot.map fun r' => (r', none)
  | .storeHead _ item => r.storeHead.map fun r' => (r', some (some item))

/-- The consumer learns that `n` values have been pushed. -/
def acquire (r : SpscRingBuffer α k) (n : Nat) : SpscRingBuffer α k :=
  { r with tailSeen := max r.tailSeen n }

end SpscRingBuffer

abbrev kOrderQueueBits : Nat := 12

abbrev kReturnQueueBits : Nat := 12

/-- The pipeline with its rings.  The queues of `base` are not used. -/
structure RingPipeline where
  base : Pipeline
  orderRing : SpscRingBuffer OrderPtr kOrderQueueBits
  returnRing : SpscRingBuffer OrderPtr kReturnQueueBits
  /-- The number of pushes to `order_queue_` before the store of `producer_done_`. -/
  producerDoneView : Nat := 0
  /-- The number of pushes to `return_queue_` before the store of `consumer_done_`. -/
  consumerDoneView : Nat := 0

namespace RingPipeline

/-! ## `producer_loop` -/

/-- A step of `return_queue_.try_pop(ret)`. -/
def drain (p : RingPipeline) (phase : DrainPhase) (j : Nat) : Option RingPipeline :=
  (p.returnRing.popStep j).map fun (ring, result) =>
    { p with
      returnRing := ring
      base :=
        match result with
        | none => p.base
        | some none => { p.base with producer := Pipeline.afterDrain phase }
        | some (some ret) => { p.base with producer := .deallocate phase ret } }

/-- A step of `order_queue_.try_push(slot)`. -/
def push (p : RingPipeline) (slot : OrderPtr) (j : Nat) : Option RingPipeline :=
  (p.orderRing.pushStep slot j).map fun (ring, result) =>
    { p with
      orderRing := ring
      base :=
        match result with
        | none => p.base
        | some false => { p.base with producer := .drain (.pushWait slot) }
        | some true => Pipeline.nextOrder { p.base with pushed := wrap64 (p.base.pushed + 1) } }

def storeProducerDone (p : RingPipeline) : RingPipeline :=
  { p with
    base := p.base.storeProducerDone
    producerDoneView := p.orderRing.pushes.length }

/-- The load returns the flag as it is, or false. -/
def loadConsumerDone (p : RingPipeline) (fresh : Bool) : RingPipeline :=
  if p.base.consumerDone && fresh then
    { p with
      base := { p.base with producer := .drain .last }
      returnRing := p.returnRing.acquire p.consumerDoneView }
  else { p with base := { p.base with producer := .drain .shutdown } }

/-- A step of the producer; `j` is the number of the value that an acquire load of an index
reads. -/
def producerStep (p : RingPipeline) (d : Draws) (now : UInt64) (j : Nat) (fresh : Bool) :
    Option RingPipeline :=
  match p.base.producer with
  | .drain phase => p.drain phase j
  | .push slot => p.push slot j
  | .storeDone => some p.storeProducerDone
  | .loadDone => some (p.loadConsumerDone fresh)
  | _ => (p.base.producerStep d now).map fun base => { p with base := base }

/-! ## `consumer_loop` -/

/-- A step of `order_queue_.try_pop(order)`; `empty` is where an empty queue leads. -/
def popOrder (p : RingPipeline) (empty : ConsumerLoopPc) (j : Nat) : Option RingPipeline :=
  (p.orderRing.popStep j).map fun (ring, result) =>
    { p with
      orderRing := ring
      base :=
        match result with
        | none => p.base
        | some none => { p.base with consumer := empty }
        | some (some order) => { p.base with consumer := .consume order } }

/-- A step of `return_queue_.try_push(o)` in the deallocator. -/
def pushBack (p : RingPipeline) (job : Job) (ret : OrderPtr) (rest : Suspended) (j : Nat) :
    Option RingPipeline :=
  (p.returnRing.pushStep ret j).map fun (ring, result) =>
    { p with
      returnRing := ring
      base :=
        match result with
        | some true => { p.base with consumer := .resume job ret rest }
        | _ => p.base }

/-- The load returns the flag as it is, or false. -/
def loadProducerDone (p : RingPipeline) (fresh : Bool) : RingPipeline :=
  if p.base.producerDone && fresh then
    { p with
      base := { p.base with consumer := .popAgain }
      orderRing := p.orderRing.acquire p.producerDoneView }
  else { p with base := { p.base with consumer := .pop } }

def storeConsumerDone (p : RingPipeline) : RingPipeline :=
  { p with
    base := p.base.storeConsumerDone
    consumerDoneView := p.returnRing.pushes.length }

/-- A step of the consumer. -/
def consumerStep (p : RingPipeline) (now : UInt64) (j : Nat) (fresh : Bool) :
    Option RingPipeline :=
  match p.base.consumer with
  | .pop => p.popOrder .loadDone j
  | .loadDone => some (p.loadProducerDone fresh)
  | .popAgain => p.popOrder .storeDone j
  | .pushBack job ret rest => p.pushBack job ret rest j
  | .storeDone => some p.storeConsumerDone
  | _ => (p.base.consumerStep now).map fun base => { p with base := base }

end RingPipeline

/-! ## Interleavings -/

/-- A step of one of the threads, with the draws, the clock reading and what its loads return. -/
inductive RingAction
  | producer (d : Draws) (now : UInt64) (j : Nat) (fresh : Bool)
  | consumer (now : UInt64) (j : Nat) (fresh : Bool)

namespace RingPipeline

def perform (p : RingPipeline) : RingAction → Option RingPipeline
  | .producer d now j fresh => p.producerStep d now j fresh
  | .consumer now j fresh => p.consumerStep now j fresh

/-- An interleaving of steps of the two threads. -/
def performAll (p : RingPipeline) : List RingAction → Option RingPipeline
  | [] => some p
  | a :: as => do
      let p ← p.perform a
      p.performAll as

end RingPipeline

end MatchingMachine
