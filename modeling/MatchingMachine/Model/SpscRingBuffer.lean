import MatchingMachine.Model.TradeRingBuffer

/-!
# The single-producer single-consumer ring

`SPSCRingBuffer<T, Capacity>` for `Capacity = 2 ^ k`, with one producer and one consumer thread.
Every load or store of `head_` and `tail_` and every access to `buffer_` is a step of its own
(`SpscAction`); a thread's program counter says where in its call it stands and holds the locals
of the call.

An atomic index is its modification order, the values it has had.  A side loads its own index,
which only it writes, as it is; of the other side's index it may read an earlier value, but never
one that is older than the one it has read last.

`pushes`, `reads` and `pops` only record what has happened: the slot and value of every push that
returned true, of every read of a slot by a pop, and the values of the pops that returned true.
-/

namespace MatchingMachine

/-- A `std::atomic<size_t>`: the value it has, and those it had before, oldest first. -/
structure AtomicIndex where
  earlier : List Nat := []
  current : Nat := 0
  deriving DecidableEq

namespace AtomicIndex

/-- All values the index has had, oldest first. -/
def history (a : AtomicIndex) : List Nat := a.earlier ++ [a.current]

def store (a : AtomicIndex) (value : Nat) : AtomicIndex :=
  { earlier := a.history, current := value }

/-- An acquire load that returns value number `j`, by a side that has last loaded number
`seen`. -/
def load (a : AtomicIndex) (seen j : Nat) : Option Nat :=
  if seen ≤ j then a.history[j]? else none

@[simp] theorem history_store (a : AtomicIndex) (value : Nat) :
    (a.store value).history = a.history ++ [value] := rfl

end AtomicIndex

/-- Where the producer stands in `try_push`. -/
inductive ProducerPc (α : Type)
  | idle
  | loadHead (item : α) (tail nextTail : Nat)
  | writeSlot (item : α) (tail nextTail : Nat)
  | storeTail (item : α) (tail nextTail : Nat)

/-- Where the consumer stands in `try_pop`. -/
inductive ConsumerPc (α : Type)
  | idle
  | loadTail (head : Nat)
  | readSlot (head : Nat)
  | storeHead (head : Nat) (item : α)

structure SpscRingBuffer (α : Type) (k : Nat) where
  head : AtomicIndex := {}
  tail : AtomicIndex := {}
  buffer : Nat → α
  producer : ProducerPc α := .idle
  consumer : ConsumerPc α := .idle
  /-- The number of the value of `head_` that the producer has loaded last. -/
  headSeen : Nat := 0
  /-- The number of the value of `tail_` that the consumer has loaded last. -/
  tailSeen : Nat := 0
  pushes : List (Nat × α) := []
  reads : List (Nat × α) := []
  pops : List α := []

/-- A step of one of the two threads. -/
inductive SpscAction (α : Type)
  /-- The producer calls `try_push` and loads `tail_`. -/
  | tryPush (item : α)
  | loadHead (j : Nat)
  | writeSlot
  | storeTail
  /-- The consumer calls `try_pop` and loads `head_`. -/
  | tryPop
  | loadTail (j : Nat)
  | readSlot
  | storeHead

namespace SpscRingBuffer

variable {α : Type} {k : Nat}

/-- `x & mask_`. -/
def masked (_ : SpscRingBuffer α k) (x : Nat) : Nat := x &&& (2 ^ k - 1)

/-- `capacity()`. -/
def capacity (_ : SpscRingBuffer α k) : Nat := 2 ^ k - 1

/-- The producer's steps of `try_push`. -/
def tryPush (r : SpscRingBuffer α k) (item : α) : Option (SpscRingBuffer α k) :=
  match r.producer with
  | .idle =>
      let tail := r.tail.current
      some { r with producer := .loadHead item tail (r.masked (wrap64 (tail + 1))) }
  | _ => none

def loadHead (r : SpscRingBuffer α k) (j : Nat) : Option (SpscRingBuffer α k) :=
  match r.producer with
  | .loadHead item tail nextTail => do
      let head ← r.head.load r.headSeen j
      -- the ring is full: `return false`
      let next := if nextTail = head then .idle else .writeSlot item tail nextTail
      return { r with headSeen := j, producer := next }
  | _ => none

def writeSlot (r : SpscRingBuffer α k) : Option (SpscRingBuffer α k) :=
  match r.producer with
  | .writeSlot item tail nextTail =>
      some { r with
        buffer := Function.update r.buffer tail item
        producer := .storeTail item tail nextTail }
  | _ => none

def storeTail (r : SpscRingBuffer α k) : Option (SpscRingBuffer α k) :=
  match r.producer with
  | .storeTail item tail nextTail =>
      some { r with
        tail := r.tail.store nextTail
        producer := .idle
        pushes := r.pushes ++ [(tail, item)] }
  | _ => none

/-- The consumer's steps of `try_pop`. -/
def tryPop (r : SpscRingBuffer α k) : Option (SpscRingBuffer α k) :=
  match r.consumer with
  | .idle => some { r with consumer := .loadTail r.head.current }
  | _ => none

def loadTail (r : SpscRingBuffer α k) (j : Nat) : Option (SpscRingBuffer α k) :=
  match r.consumer with
  | .loadTail head => do
      let tail ← r.tail.load r.tailSeen j
      -- the ring is empty: `return false`
      let next := if head = tail then .idle else .readSlot head
      return { r with tailSeen := j, consumer := next }
  | _ => none

def readSlot (r : SpscRingBuffer α k) : Option (SpscRingBuffer α k) :=
  match r.consumer with
  | .readSlot head =>
      let item := r.buffer head
      some { r with consumer := .storeHead head item, reads := r.reads ++ [(head, item)] }
  | _ => none

def storeHead (r : SpscRingBuffer α k) : Option (SpscRingBuffer α k) :=
  match r.consumer with
  | .storeHead head item =>
      some { r with
        head := r.head.store (r.masked (wrap64 (head + 1)))
        consumer := .idle
        pops := r.pops ++ [item] }
  | _ => none

/-- One step, if the thread stands there. -/
def perform (r : SpscRingBuffer α k) : SpscAction α → Option (SpscRingBuffer α k)
  | .tryPush item => r.tryPush item
  | .loadHead j => r.loadHead j
  | .writeSlot => r.writeSlot
  | .storeTail => r.storeTail
  | .tryPop => r.tryPop
  | .loadTail j => r.loadTail j
  | .readSlot => r.readSlot
  | .storeHead => r.storeHead

/-- An interleaving of steps of the two threads. -/
def performAll (r : SpscRingBuffer α k) : List (SpscAction α) → Option (SpscRingBuffer α k)
  | [] => some r
  | a :: as => do
      let r ← r.perform a
      r.performAll as

/-- The slots that hold a value which has been published and not yet been read, oldest first. -/
def unread (r : SpscRingBuffer α k) : List (Nat × α) := r.pushes.drop r.reads.length

/-- The number of values in the ring: published and not yet handed back. -/
def size (r : SpscRingBuffer α k) : Nat := r.pushes.length - r.pops.length

end SpscRingBuffer

end MatchingMachine
