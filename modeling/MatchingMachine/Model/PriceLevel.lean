import MatchingMachine.Model.Order

/-!
# One price level

`OrderBook::PriceLevel`: a vector with a head cursor.  Popping advances the cursor, the dead
prefix is erased once it is more than half of a long enough vector, and a cancelled order
leaves a null entry behind.

Everything the book asks of a level depends only on `pending`, the entries from the cursor
on, and every operation is described by what it does to `pending`.  `live` is the queue the
level stands for: the pending entries without the holes.
-/

namespace MatchingMachine

/-- A price level; `none` is a null entry. -/
structure PriceLevel where
  orders : List (Option OrderPtr) := []
  head : Nat := 0
  deriving DecidableEq, Repr

namespace PriceLevel

/-! ## Operations -/

def push (l : PriceLevel) (o : OrderPtr) : PriceLevel :=
  { l with orders := l.orders ++ [some o] }

def front (l : PriceLevel) : Option OrderPtr := (l.orders[l.head]?).join

def empty (l : PriceLevel) : Bool := decide (l.head ≥ l.orders.length)

def size (l : PriceLevel) : Nat := l.orders.length - l.head

/-- `while (head < orders.size() && orders[head] == nullptr) ++head;` -/
def skipHoles (orders : List (Option OrderPtr)) (head : Nat) : Nat :=
  head + ((orders.drop head).takeWhile Option.isNone).length

def popFront (l : PriceLevel) : PriceLevel :=
  if l.head < l.orders.length then
    let head := skipHoles l.orders (l.head + 1)
    if head > 16 ∧ head > l.orders.length / 2 then { orders := l.orders.drop head, head := 0 }
    else { l with head := head }
  else l

/-- The scan of `cancel_resting`: the first entry with this ID becomes a hole. -/
def punch (h : Heap) (id : UInt64) : List (Option OrderPtr) → List (Option OrderPtr)
  | [] => []
  | none :: es => none :: punch h id es
  | some p :: es => if (h p).orderId = id then none :: es else some p :: punch h id es

/-- What `cancel_resting` does to the level it finds: punch a hole from the cursor on, then
advance past leading holes. -/
def removeId (l : PriceLevel) (h : Heap) (id : UInt64) : PriceLevel :=
  let orders := l.orders.take l.head ++ punch h id (l.orders.drop l.head)
  { orders := orders, head := skipHoles orders l.head }

/-! ## The pending entries -/

/-- The entries from the cursor on. -/
def pending (l : PriceLevel) : List (Option OrderPtr) := l.orders.drop l.head

/-- The queue a level stands for. -/
def live (l : PriceLevel) : List OrderPtr := l.pending.reduceOption

/-- No hole at the cursor. -/
def Clean (l : PriceLevel) : Prop := l.pending.head? ≠ some none

/-- A live order at the cursor: what every level of a book at rest satisfies. -/
def Live (l : PriceLevel) : Prop := ∃ p es, l.pending = some p :: es

theorem empty_iff {l : PriceLevel} : l.empty = true ↔ l.pending = [] := by
  simp [empty, pending]

theorem front_eq (l : PriceLevel) : l.front = l.pending.head?.join := by
  simp [front, pending, List.head?_drop]

theorem size_eq (l : PriceLevel) : l.size = l.pending.length := by
  simp [size, pending]

theorem drop_skipHoles (orders : List (Option OrderPtr)) (head : Nat) :
    orders.drop (skipHoles orders head) = (orders.drop head).dropWhile Option.isNone := by
  rw [skipHoles, ← List.drop_drop]
  induction orders.drop head with
  | nil => rfl
  | cons e es ih =>
      cases e with
      | none => simpa using ih
      | some p => simp

theorem skipHoles_le {orders : List (Option OrderPtr)} {head : Nat}
    (h : head ≤ orders.length) : skipHoles orders head ≤ orders.length := by
  have hTake := (List.takeWhile_sublist Option.isNone (l := orders.drop head)).length_le
  rw [List.length_drop] at hTake
  unfold skipHoles
  omega

theorem pending_popFront (l : PriceLevel) :
    l.popFront.pending = l.pending.tail.dropWhile Option.isNone := by
  unfold popFront
  split
  · have hSkip := drop_skipHoles l.orders (l.head + 1)
    dsimp only
    split <;> simp [pending, hSkip, ← List.drop_one]
  · rename_i hOut
    have hNil : l.pending = [] := by simpa [pending] using hOut
    simp [hNil]

theorem pending_push {l : PriceLevel} (h : l.head ≤ l.orders.length) (o : OrderPtr) :
    (l.push o).pending = l.pending ++ [some o] := by
  simp [pending, push, List.drop_append_of_le_length h]

theorem pending_removeId {l : PriceLevel} (hLe : l.head ≤ l.orders.length) (h : Heap)
    (id : UInt64) :
    (l.removeId h id).pending = (punch h id l.pending).dropWhile Option.isNone := by
  have hLen : (l.orders.take l.head).length = l.head := by simp [hLe]
  simp only [removeId, pending, drop_skipHoles]
  rw [List.drop_append_of_le_length (by omega), List.drop_eq_nil_of_le (by omega),
    List.nil_append]

/-- A level with a pending entry has its cursor inside the vector. -/
theorem Live.head_le {l : PriceLevel} (h : l.Live) : l.head ≤ l.orders.length := by
  obtain ⟨p, es, hp⟩ := h
  by_contra hLt
  have hNil : l.pending = [] := by
    simp only [pending, List.drop_eq_nil_iff]
    omega
  simp [hNil] at hp

/-! ## The queue -/

theorem reduceOption_dropWhile (es : List (Option OrderPtr)) :
    (es.dropWhile Option.isNone).reduceOption = es.reduceOption := by
  induction es with
  | nil => rfl
  | cons e es ih =>
      cases e with
      | none => simpa [List.dropWhile_cons] using ih
      | some p => simp

theorem head?_dropWhile_ne (es : List (Option OrderPtr)) :
    (es.dropWhile Option.isNone).head? ≠ some none := by
  induction es with
  | nil => simp
  | cons e es ih =>
      cases e with
      | none => simpa [List.dropWhile_cons] using ih
      | some p => simp

theorem clean_popFront (l : PriceLevel) : l.popFront.Clean := by
  rw [Clean, pending_popFront]
  exact head?_dropWhile_ne _

theorem Clean.live_eq_nil_iff {l : PriceLevel} (h : l.Clean) : l.live = [] ↔ l.pending = [] := by
  unfold Clean at h
  unfold live
  cases hp : l.pending with
  | nil => simp
  | cons e es =>
      cases e with
      | none => simp [hp] at h
      | some p => simp

/-- At a clean level, the cursor is on the first live order. -/
theorem Clean.front_eq {l : PriceLevel} (h : l.Clean) : l.front = l.live.head? := by
  unfold Clean at h
  rw [PriceLevel.front_eq, live]
  cases hp : l.pending with
  | nil => simp
  | cons e es =>
      cases e with
      | none => simp [hp] at h
      | some p => simp

theorem Clean.empty_iff {l : PriceLevel} (h : l.Clean) : l.empty = true ↔ l.live = [] := by
  rw [PriceLevel.empty_iff, h.live_eq_nil_iff]

theorem Live.clean {l : PriceLevel} (h : l.Live) : l.Clean := by
  obtain ⟨p, es, hp⟩ := h
  simp [Clean, hp]

theorem Clean.live_of_ne {l : PriceLevel} (h : l.Clean) (hNe : l.live ≠ []) : l.Live := by
  cases hp : l.pending with
  | nil => exact absurd (h.live_eq_nil_iff.mpr hp) hNe
  | cons e es =>
      cases e with
      | none => simp [Clean, hp] at h
      | some p => exact ⟨p, es, hp⟩

theorem Live.live_ne_nil {l : PriceLevel} (h : l.Live) : l.live ≠ [] := by
  obtain ⟨p, es, hp⟩ := h
  simp [live, hp]

/-- Popping a live order removes it from the front of the queue. -/
theorem live_popFront {l : PriceLevel} {p : OrderPtr} (h : l.front = some p) :
    l.live = p :: l.popFront.live := by
  rw [PriceLevel.front_eq] at h
  rw [live, live, pending_popFront, reduceOption_dropWhile]
  cases hp : l.pending with
  | nil => simp [hp] at h
  | cons e es =>
      cases e with
      | none => simp [hp] at h
      | some q =>
          obtain rfl : q = p := by simpa [hp] using h
          simp

theorem size_popFront_lt {l : PriceLevel} (h : l.empty = false) : l.popFront.size < l.size := by
  have hNe : l.pending ≠ [] := by
    intro hNil
    rw [PriceLevel.empty_iff.mpr hNil] at h
    exact Bool.noConfusion h
  have hPos := List.length_pos_of_ne_nil hNe
  have hLe := (List.dropWhile_sublist Option.isNone (l := l.pending.tail)).length_le
  rw [List.length_tail] at hLe
  rw [size_eq, size_eq, pending_popFront]
  omega

theorem live_push {l : PriceLevel} (h : l.head ≤ l.orders.length) (o : OrderPtr) :
    (l.push o).live = l.live ++ [o] := by
  simp [live, pending_push h, List.reduceOption_append]

theorem Live.push {l : PriceLevel} (h : l.Live) (o : OrderPtr) : (l.push o).Live := by
  obtain ⟨p, es, hp⟩ := h
  exact ⟨p, es ++ [some o], by simp [pending_push (Live.head_le ⟨p, es, hp⟩), hp]⟩

/-- A new level with one order. -/
theorem live_push_empty (o : OrderPtr) : (({} : PriceLevel).push o).live = [o] := rfl

theorem liveLevel_push_empty (o : OrderPtr) : (({} : PriceLevel).push o).Live := ⟨o, [], rfl⟩

theorem reduceOption_punch (h : Heap) (id : UInt64) (es : List (Option OrderPtr)) :
    (punch h id es).reduceOption = es.reduceOption.eraseP fun p => (h p).orderId = id := by
  induction es with
  | nil => rfl
  | cons e es ih =>
      cases e with
      | none => simpa [punch] using ih
      | some p =>
          by_cases hp : (h p).orderId = id
          · simp [punch, hp]
          · simp [punch, hp, ih]

/-- Cancelling removes the first order with the ID from the queue. -/
theorem live_removeId {l : PriceLevel} (hLe : l.head ≤ l.orders.length) (h : Heap)
    (id : UInt64) :
    (l.removeId h id).live = l.live.eraseP fun p => (h p).orderId = id := by
  rw [live, pending_removeId hLe, reduceOption_dropWhile, reduceOption_punch, live]

theorem clean_removeId {l : PriceLevel} (hLe : l.head ≤ l.orders.length) (h : Heap)
    (id : UInt64) : (l.removeId h id).Clean := by
  rw [Clean, pending_removeId hLe]
  exact head?_dropWhile_ne _

/-- `while (!level.empty() && level.front() == nullptr) level.pop_front();` -/
def dropHoles (l : PriceLevel) : PriceLevel :=
  if _h : l.empty = false ∧ l.front = none then dropHoles l.popFront else l
  termination_by l.size
  decreasing_by exact size_popFront_lt (And.left ‹_›)

/-- A clean level is left as it is. -/
theorem dropHoles_of_clean {l : PriceLevel} (h : l.Clean) : l.dropHoles = l := by
  rw [dropHoles, dif_neg]
  rintro ⟨hEmpty, hFront⟩
  rw [h.front_eq, List.head?_eq_none_iff] at hFront
  rw [h.empty_iff.mpr hFront] at hEmpty
  exact Bool.noConfusion hEmpty

end PriceLevel

end MatchingMachine
