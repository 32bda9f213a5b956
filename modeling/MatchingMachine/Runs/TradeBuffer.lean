import MatchingMachine.Model.TradeRingBuffer

/-!
# Runs of the trade buffer

Any sequence of `push_trade`, `alloc_slot` followed by filling the slot, and `drain`, from a new
buffer on.  `sinceDrain` are the trades written since the last drain and `allWritten` all trades
ever written; both are read off the operations, not off the buffer.

`Tracks` is the invariant: the buffer holds what was written since the last drain, and the
64-bit total counts what was ever written.
-/

namespace MatchingMachine

inductive BufferOp
  | pushTrade (t : Trade)
  /-- `alloc_slot()`, and the slot is filled with this trade. -/
  | fillSlot (t : Trade)
  | drain
  deriving DecidableEq, Repr

namespace BufferOp

/-- The trade an operation writes. -/
@[simp] def written : BufferOp → List Trade
  | pushTrade t => [t]
  | fillSlot t => [t]
  | drain => []

/-- What has been written since the last drain, after one more operation. -/
@[simp] def extend (ts : List Trade) : BufferOp → List Trade
  | pushTrade t => ts ++ [t]
  | fillSlot t => ts ++ [t]
  | drain => []

/-- The trades written since the last drain. -/
def sinceDrain (ops : List BufferOp) : List Trade := ops.foldl extend []

/-- All trades ever written. -/
def allWritten (ops : List BufferOp) : List Trade := ops.flatMap written

@[simp] theorem sinceDrain_snoc (ops : List BufferOp) (op : BufferOp) :
    sinceDrain (ops ++ [op]) = extend (sinceDrain ops) op := by
  simp [sinceDrain]

@[simp] theorem allWritten_snoc (ops : List BufferOp) (op : BufferOp) :
    allWritten (ops ++ [op]) = allWritten ops ++ op.written := by
  simp [allWritten]

end BufferOp

/-- The last `n` elements. -/
def mostRecent {α : Type*} (n : Nat) (xs : List α) : List α := xs.drop (xs.length - n)

namespace TradeRingBuffer

open BufferOp

variable {k : Nat}

def apply (b : TradeRingBuffer k) : BufferOp → TradeRingBuffer k
  | .pushTrade t => b.pushTrade t
  | .fillSlot t =>
      let (slot, b) := b.allocSlot
      b.setSlot slot t
  | .drain => b.drain.2

def runOps (ops : List BufferOp) : TradeRingBuffer k := ops.foldl apply {}

@[simp] theorem runOps_snoc (ops : List BufferOp) (op : BufferOp) :
    runOps (k := k) (ops ++ [op]) = (runOps ops).apply op := by
  simp [runOps]

/-- The buffer after the operations `ops`. -/
structure Tracks (b : TradeRingBuffer k) (ops : List BufferOp) : Prop where
  holds : Holds b (sinceDrain ops)
  total : b.totalWritten = (allWritten ops).length % 2 ^ 64

theorem tracks_new : Tracks ({} : TradeRingBuffer k) [] where
  holds := holds_empty
  total := rfl

/-- Both ways of writing a trade extend what the buffer tracks. -/
theorem Tracks.pushTrade (hk : k < 64) {b : TradeRingBuffer k} {ops : List BufferOp}
    (h : Tracks b ops) {op : BufferOp} {t : Trade} (hOp : op = .pushTrade t ∨ op = .fillSlot t) :
    Tracks (b.pushTrade t) (ops ++ [op]) := by
  constructor
  · have hHeld := h.holds.pushTrade hk t
    rcases hOp with rfl | rfl <;> simpa using hHeld
  · have hTotal := h.total
    have hLen : (allWritten (ops ++ [op])).length = (allWritten ops).length + 1 := by
      rcases hOp with rfl | rfl <;> simp [written]
    simp only [TradeRingBuffer.pushTrade, wrap64, hLen]
    omega

theorem Tracks.drain {b : TradeRingBuffer k} {ops : List BufferOp} (h : Tracks b ops) :
    Tracks b.drain.2 (ops ++ [.drain]) := by
  constructor
  · simpa [extend] using h.holds.drain
  · have hSame : b.drain.2.totalWritten = b.totalWritten := by
      unfold TradeRingBuffer.drain
      split <;> rfl
    rw [hSame, allWritten_snoc, h.total]
    simp [written]

theorem Tracks.apply (hk : k < 64) {b : TradeRingBuffer k} {ops : List BufferOp}
    (h : Tracks b ops) (op : BufferOp) : Tracks (b.apply op) (ops ++ [op]) := by
  cases op with
  | pushTrade t => exact h.pushTrade hk (Or.inl rfl)
  | fillSlot t =>
      have hPush := h.pushTrade hk (Or.inr (rfl : BufferOp.fillSlot t = .fillSlot t))
      rwa [← setSlot_allocSlot] at hPush
  | drain => exact h.drain

/-- Every run is tracked, also past the wrap of the counters. -/
theorem tracks_runOps (hk : k < 64) (ops : List BufferOp) :
    Tracks (runOps (k := k) ops) ops := by
  induction ops using List.reverseRecOn with
  | nil => exact tracks_new
  | append_singleton ops op ih =>
      rw [runOps_snoc]
      exact ih.apply hk op

/-- After any sequence of operations the buffer holds the most recent trades in order, `drain`
hands over exactly these, and the total counts every trade ever written. -/
theorem holdsMostRecent (hk : k < 64) (ops : List BufferOp) :
    let b : TradeRingBuffer k := runOps ops
    let recent := mostRecent b.capacity (sinceDrain ops)
    b.size = min (sinceDrain ops).length b.capacity ∧
    (∀ i < b.size, recent[i]? = some (b.get i)) ∧
    (∀ {σ : Type} (fn : σ → Trade → σ) (init : σ),
      b.drainWith fn init = (recent.foldl fn init, recent.length, b.apply .drain)) ∧
    (b.apply .drain).empty = true ∧
    b.totalWritten = (allWritten ops).length % 2 ^ 64 := by
  intro b recent
  have hTracks : Tracks b ops := tracks_runOps hk ops
  have hHeld : b.held = recent := hTracks.holds.held_eq hk
  refine ⟨hTracks.holds.count_eq, fun i hi => ?_, fun fn init => ?_, ?_, hTracks.total⟩
  · rw [← hHeld]
    exact held_getElem? hi
  · rw [drainWith_eq, hHeld]
    rfl
  · have hCount : (b.apply .drain).count = 0 := by
      simpa using (hTracks.apply hk .drain).holds.count_eq
    simp [empty, hCount]

/-- Six trades are written into four slots, after a drain. -/
theorem holdsMostRecent_wrapped :
    ∃ (b : TradeRingBuffer 2) (ts : List Trade), b.size = 4 ∧ ts.map Trade.tradeId = [3, 4, 5, 6] ∧
      (∀ i < 4, ts[i]? = some (b.get i)) ∧ b.totalWritten = 7 := by
  let ops : List BufferOp := .fillSlot { tradeId := 9 } :: .drain ::
    [1, 2, 3, 4, 5, 6].map fun id => .pushTrade { tradeId := id }
  obtain ⟨hSize, hGet, -, -, hTotal⟩ := holdsMostRecent (k := 2) (by decide) ops
  rw [show (runOps ops : TradeRingBuffer 2).size = 4 from hSize.trans (by decide)] at hGet
  exact ⟨runOps ops, _, hSize.trans (by decide), by decide, hGet, hTotal.trans (by decide)⟩

end TradeRingBuffer

end MatchingMachine
