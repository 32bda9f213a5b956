import MatchingMachine.Model.Order

/-!
# The trade buffer

`TradeRingBuffer<Capacity>` for `Capacity = 2 ^ k`.  The array is a function of the index,
which the code always masks; the three counters are `size_t` and wrap.

`Holds b ts` relates a buffer to the trades written since it was last empty.  It is kept by
every write, and `held_eq` reads the contents off it.
-/

namespace MatchingMachine

structure TradeRingBuffer (k : Nat) where
  buffer : Nat → Trade := fun _ => {}
  writePos : Nat := 0
  count : Nat := 0
  totalWritten : Nat := 0

namespace TradeRingBuffer

variable {k : Nat}

/-! ## Operations -/

def capacity (_ : TradeRingBuffer k) : Nat := 2 ^ k

/-- `x & mask_`. -/
def masked (_ : TradeRingBuffer k) (x : Nat) : Nat := x &&& (2 ^ k - 1)

def pushTrade (b : TradeRingBuffer k) (t : Trade) : TradeRingBuffer k :=
  { buffer := Function.update b.buffer (b.masked b.writePos) t
    writePos := wrap64 (b.writePos + 1)
    count := if b.count < b.capacity then b.count + 1 else b.count
    totalWritten := wrap64 (b.totalWritten + 1) }

/-- The index of the next slot; it counts as written at once. -/
def allocSlot (b : TradeRingBuffer k) : Nat × TradeRingBuffer k :=
  (b.masked b.writePos,
    { b with
      writePos := wrap64 (b.writePos + 1)
      count := if b.count < b.capacity then b.count + 1 else b.count
      totalWritten := wrap64 (b.totalWritten + 1) })

/-- Fill a slot in place. -/
def setSlot (b : TradeRingBuffer k) (slot : Nat) (t : Trade) : TradeRingBuffer k :=
  { b with buffer := Function.update b.buffer slot t }

/-- Where the oldest held trade is. -/
def start (b : TradeRingBuffer k) : Nat := if b.count < b.capacity then 0 else b.writePos

/-- `operator[]`. -/
def get (b : TradeRingBuffer k) (i : Nat) : Trade :=
  b.buffer (b.masked (wrap64 (b.start + i)))

def size (b : TradeRingBuffer k) : Nat := b.count

/-- The trades `fn` is called on, in order, and the emptied buffer. -/
def drain (b : TradeRingBuffer k) : List Trade × TradeRingBuffer k :=
  if b.count = 0 then ([], b)
  else ((List.range b.count).map b.get, { b with count := 0, writePos := 0 })

/-- `drain(fn)` for a callable with a state: that state, the number returned and the emptied
buffer. -/
def drainWith {σ : Type*} (b : TradeRingBuffer k) (fn : σ → Trade → σ) (init : σ) :
    σ × Nat × TradeRingBuffer k :=
  if b.count = 0 then (init, 0, b)
  else
    -- once the buffer has wrapped, the oldest record is at `write_pos_`
    let start := if b.count < b.capacity then 0 else b.writePos
    let n := b.count
    ((List.range n).foldl (fun s i => fn s (b.buffer (b.masked (wrap64 (start + i))))) init, n,
      { b with count := 0, writePos := 0 })

def empty (b : TradeRingBuffer k) : Bool := b.count == 0

/-- The held trades, oldest first. -/
def held (b : TradeRingBuffer k) : List Trade := (List.range b.size).map b.get

/-- `drain` hands over the held trades, returns their number and leaves nothing. -/
theorem drainWith_eq {σ : Type*} (b : TradeRingBuffer k) (fn : σ → Trade → σ) (init : σ) :
    b.drainWith fn init = (b.held.foldl fn init, b.held.length, b.drain.2) := by
  have hLen : b.held.length = b.count := by simp [held, size]
  unfold drainWith drain
  by_cases hZero : b.count = 0
  · rw [hLen, if_pos hZero, if_pos hZero, hZero]
    have hHeld : b.held = [] := List.length_eq_zero_iff.mp (hLen.trans hZero)
    rw [hHeld]
    rfl
  · rw [hLen, if_neg hZero, if_neg hZero, held, List.foldl_map]
    rfl

theorem held_getElem? {b : TradeRingBuffer k} {i : Nat} (hi : i < b.size) :
    b.held[i]? = some (b.get i) := by
  simp [held, hi]

/-- Allocating a slot and filling it is a push. -/
theorem setSlot_allocSlot (b : TradeRingBuffer k) (t : Trade) :
    b.allocSlot.2.setSlot b.allocSlot.1 t = b.pushTrade t := rfl

/-! ## What the buffer holds -/

/-- The buffer after writing `ts` into an empty one: the last `2 ^ k` of them are in the
slots of their positions. -/
structure Holds (b : TradeRingBuffer k) (ts : List Trade) : Prop where
  writePos_eq : b.writePos = wrap64 ts.length
  count_eq : b.count = min ts.length (2 ^ k)
  slot : ∀ i (h : i < ts.length), ts.length ≤ i + 2 ^ k → b.buffer (i % 2 ^ k) = ts[i]

theorem masked_eq (b : TradeRingBuffer k) (x : Nat) : b.masked x = x % 2 ^ k :=
  Nat.and_two_pow_sub_one_eq_mod x k

theorem wrap64_mod (hk : k < 64) (x : Nat) : wrap64 x % 2 ^ k = x % 2 ^ k :=
  Nat.mod_mod_of_dvd x (pow_dvd_pow 2 hk.le)

theorem holds_empty : Holds ({} : TradeRingBuffer k) [] where
  writePos_eq := rfl
  count_eq := by simp
  slot i h := absurd h (Nat.not_lt_zero i)

/-- A drained buffer is empty. -/
theorem Holds.drain {b : TradeRingBuffer k} {ts : List Trade} (h : Holds b ts) :
    Holds b.drain.2 [] := by
  unfold TradeRingBuffer.drain
  by_cases hZero : b.count = 0
  · rw [if_pos hZero]
    have hCap : 0 < 2 ^ k := Nat.two_pow_pos k
    have hCount := h.count_eq
    obtain rfl : ts = [] := List.length_eq_zero_iff.mp (by omega)
    exact h
  · rw [if_neg hZero]
    exact
      { writePos_eq := rfl
        count_eq := by simp
        slot := fun i h => absurd h (Nat.not_lt_zero i) }

/-- Two positions less than a capacity apart share a slot only if they are equal. -/
theorem mod_ne_of_lt {i n c : Nat} (hi : i < n) (hc : n < i + c) : i % c ≠ n % c := by
  intro hEq
  have hDvd : c ∣ n - i := (Nat.modEq_iff_dvd' hi.le).mp hEq
  have hZero := Nat.eq_zero_of_dvd_of_lt hDvd (by omega)
  omega

theorem Holds.pushTrade (hk : k < 64) {b : TradeRingBuffer k} {ts : List Trade}
    (h : Holds b ts) (t : Trade) : Holds (b.pushTrade t) (ts ++ [t]) where
  writePos_eq := by
    simp [TradeRingBuffer.pushTrade, h.writePos_eq, wrap64]
  count_eq := by
    simp only [TradeRingBuffer.pushTrade, capacity, h.count_eq, List.length_append,
      List.length_singleton]
    split <;> omega
  slot i hi hLe := by
    simp only [List.length_append, List.length_singleton] at hi hLe
    have hPos : b.masked b.writePos = ts.length % 2 ^ k := by
      rw [masked_eq, h.writePos_eq, wrap64_mod hk]
    simp only [TradeRingBuffer.pushTrade, hPos]
    rcases Nat.lt_succ_iff_lt_or_eq.mp hi with hLt | rfl
    · have hNe : i % 2 ^ k ≠ ts.length % 2 ^ k := mod_ne_of_lt hLt (by omega)
      rw [Function.update_of_ne hNe, h.slot i hLt (by omega),
        List.getElem_append_left hLt]
    · simp

/-- A buffer holds the most recent trades, oldest first. -/
theorem Holds.held_eq (hk : k < 64) {b : TradeRingBuffer k} {ts : List Trade}
    (h : Holds b ts) : b.held = ts.drop (ts.length - 2 ^ k) := by
  have hCap : 0 < 2 ^ k := Nat.two_pow_pos k
  apply List.ext_getElem
  · simp [held, size, h.count_eq]
    omega
  · intro i hi hi'
    simp only [held, List.getElem_map, List.getElem_range, List.getElem_drop]
    have hSize : i < min ts.length (2 ^ k) := by
      simpa [held, size, h.count_eq] using hi
    have hSlot : b.masked (wrap64 (b.start + i)) = (ts.length - 2 ^ k + i) % 2 ^ k := by
      rw [masked_eq, wrap64_mod hk, start, capacity, h.count_eq]
      split
      · rename_i hLt
        rw [show ts.length - 2 ^ k = 0 by omega]
      · rename_i hGe
        rw [h.writePos_eq, ← Nat.mod_add_mod, wrap64_mod hk, Nat.mod_add_mod]
        conv_lhs => rw [show ts.length + i = ts.length - 2 ^ k + i + 2 ^ k by omega]
        rw [Nat.add_mod_right]
    rw [get, hSlot]
    exact h.slot _ (by omega) (by omega)

/-! ## Several writes -/

/-- Several trades written one after the other. -/
def pushAll (b : TradeRingBuffer k) (ts : List Trade) : TradeRingBuffer k := ts.foldl pushTrade b

theorem pushAll_append (b : TradeRingBuffer k) (ts : List Trade) (t : Trade) :
    b.pushAll (ts ++ [t]) = (b.pushAll ts).pushTrade t := by
  simp [pushAll]

theorem Holds.pushAll (hk : k < 64) {b : TradeRingBuffer k} {old : List Trade}
    (h : Holds b old) (ts : List Trade) : Holds (b.pushAll ts) (old ++ ts) := by
  induction ts generalizing b old with
  | nil => simpa [TradeRingBuffer.pushAll] using h
  | cons t ts ih =>
      have hNext := ih (h.pushTrade hk t)
      rwa [List.append_assoc, List.singleton_append] at hNext

/-- `total_written()` grows by the number of trades, up to the range of `size_t`. -/
theorem totalWritten_pushAll (b : TradeRingBuffer k) (ts : List Trade) :
    wrap64 (b.pushAll ts).totalWritten = wrap64 (b.totalWritten + ts.length) := by
  induction ts generalizing b with
  | nil => rfl
  | cons t ts ih =>
      have hNext := ih (b.pushTrade t)
      rw [List.length_cons]
      refine hNext.trans ?_
      simp only [TradeRingBuffer.pushTrade, wrap64]
      omega

end TradeRingBuffer

end MatchingMachine
