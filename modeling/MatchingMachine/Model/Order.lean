import Mathlib

/-!
# Orders, trades and the memory they live in

`include/order.h`.  Prices and quantities are `int64_t` in the source and `Int` here: the
book computes exactly, and `fitsInt64` is the range a signed 64-bit result must stay in for
the two to agree.  Identifiers and timestamps are `UInt64`.

The book works on `Order*`, so the model has an explicit heap.  A pointer is an address, a
nullable pointer an `Option` of one, and every read of an order goes through the heap as it
is at that moment.
-/

namespace MatchingMachine

inductive Side
  | BUY
  | SELL
  deriving DecidableEq, Repr

inductive OrderType
  | LIMIT
  | CANCEL
  deriving DecidableEq, Repr

inductive OrderStatus
  | NEW
  | PARTIAL
  | FILLED
  | CANCELLED
  deriving DecidableEq, Repr

/-- `char symbol[8]`: eight bytes, padded with NUL. -/
abbrev SymbolField := Vector UInt8 8

/-- One order, with the default member initialisers of the source. -/
structure Order where
  orderId : UInt64 := 0
  timestampNs : UInt64 := 0
  price : Int := 0
  quantity : Int := 0
  filledQty : Int := 0
  symbol : SymbolField := Vector.replicate 8 0
  side : Side := .BUY
  type : OrderType := .LIMIT
  status : OrderStatus := .NEW
  deriving DecidableEq, Repr

instance : Inhabited Order := ⟨{}⟩

namespace Order

def remainingQty (o : Order) : Int := o.quantity - o.filledQty

def isFilled (o : Order) : Bool := decide (o.filledQty ≥ o.quantity)

theorem isFilled_iff {o : Order} : o.isFilled = true ↔ o.quantity ≤ o.filledQty := by
  simp [isFilled]

theorem not_isFilled_iff {o : Order} : o.isFilled = false ↔ o.filledQty < o.quantity := by
  simp [isFilled]

end Order

structure Trade where
  tradeId : UInt64 := 0
  timestampNs : UInt64 := 0
  buyOrderId : UInt64 := 0
  sellOrderId : UInt64 := 0
  price : Int := 0
  quantity : Int := 0
  symbol : SymbolField := Vector.replicate 8 0
  deriving DecidableEq, Repr

instance : Inhabited Trade := ⟨{}⟩

/-- The range of a signed 64-bit result. -/
def fitsInt64 (x : Int) : Bool := decide (-2 ^ 63 ≤ x) && decide (x < 2 ^ 63)

theorem fitsInt64_iff {x : Int} : fitsInt64 x = true ↔ -2 ^ 63 ≤ x ∧ x < 2 ^ 63 := by
  simp [fitsInt64]

/-- A `size_t` result: arithmetic modulo `2 ^ 64`. -/
def wrap64 (n : Nat) : Nat := n % 2 ^ 64

/-! ## Sides -/

namespace Side

/-- The other side. -/
def opposite : Side → Side
  | .BUY => .SELL
  | .SELL => .BUY

@[simp] theorem opposite_opposite (s : Side) : s.opposite.opposite = s := by
  cases s <;> rfl

theorem opposite_ne (s : Side) : s.opposite ≠ s := by
  cases s <;> decide

/-- The comparator of a side's level map: `std::greater` for bids, `std::less` for asks.
`s.before p q` says that `p` is the strictly better price on side `s`. -/
def before : Side → Int → Int → Prop
  | .BUY => fun p q => p > q
  | .SELL => fun p q => p < q

instance (s : Side) : DecidableRel s.before := fun p q =>
  match s with
  | .BUY => inferInstanceAs (Decidable (p > q))
  | .SELL => inferInstanceAs (Decidable (p < q))

instance (s : Side) : IsStrictTotalOrder Int s.before :=
  match s with
  | .BUY => inferInstanceAs (IsStrictTotalOrder Int (· > ·))
  | .SELL => inferInstanceAs (IsStrictTotalOrder Int (· < ·))

theorem before_irrefl (s : Side) (p : Int) : ¬ s.before p p := irrefl_of s.before p

theorem before_trans {s : Side} {p q r : Int} (hpq : s.before p q) (hqr : s.before q r) :
    s.before p r := IsTrans.trans _ _ _ hpq hqr

theorem not_before_iff {s : Side} {p q : Int} : ¬ s.before p q ↔ s.before q p ∨ p = q := by
  cases s <;> simp only [before] <;> omega

end Side

/-! ## The heap -/

/-- The address of an `Order` object. -/
abbrev OrderPtr := Nat

/-- The `Order` objects in memory. -/
abbrev Heap := OrderPtr → Order

namespace Heap

/-- Write through a pointer. -/
def modify (h : Heap) (p : OrderPtr) (f : Order → Order) : Heap :=
  Function.update h p (f (h p))

@[simp] theorem modify_same (h : Heap) (p : OrderPtr) (f : Order → Order) :
    h.modify p f p = f (h p) := by
  simp [modify]

theorem modify_of_ne {p q : OrderPtr} (hNe : q ≠ p) (h : Heap) (f : Order → Order) :
    h.modify p f q = h q := by
  simp [modify, hNe]

end Heap

instance uint64StrictTotalOrder : IsStrictTotalOrder UInt64 (· < ·) where
  trichotomous a b := by
    intro hab hba
    exact UInt64.le_antisymm (UInt64.not_lt.mp hba) (UInt64.not_lt.mp hab)
  irrefl := UInt64.lt_irrefl
  trans _ _ _ := UInt64.lt_trans

end MatchingMachine
