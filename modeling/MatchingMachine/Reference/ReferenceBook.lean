import MatchingMachine.Model.Session

/-!
# The reference book

Price-time priority stated without any data structure: a book is a list of resting orders,
each with the number it arrived under.  An incoming order is matched again and again with the
opposite resting order of the best price, the earliest arrival among equals, as long as that
price crosses.

The list is in no particular order; `best?` searches all of it each time.
-/

namespace MatchingMachine

/-- A resting order of the reference book. -/
structure RefOrder where
  orderId : UInt64
  side : Side
  price : Int
  remaining : Int
  arrival : Nat
  deriving DecidableEq, Repr

/-- A trade as the reference book reports it. -/
structure RefTrade where
  buyOrderId : UInt64
  sellOrderId : UInt64
  price : Int
  quantity : Int
  deriving DecidableEq, Repr

structure ReferenceBook where
  orders : List RefOrder := []
  nextArrival : Nat := 0
  deriving DecidableEq, Repr

/-- Price-time priority between two resting orders of a side. -/
def RefOrder.Precedes (s : Side) (a b : RefOrder) : Prop :=
  s.before a.price b.price ∨ a.price = b.price ∧ a.arrival < b.arrival

instance (s : Side) (a b : RefOrder) : Decidable (a.Precedes s b) :=
  inferInstanceAs (Decidable (_ ∨ _))

theorem RefOrder.not_precedes_self (s : Side) (a : RefOrder) : ¬ a.Precedes s a := by
  rintro (h | h)
  · exact Side.before_irrefl s _ h
  · exact Nat.lt_irrefl _ h.2

theorem RefOrder.Precedes.asymm {s : Side} {a b : RefOrder} (h : a.Precedes s b) :
    ¬ b.Precedes s a := by
  intro h'
  rcases h with h | ⟨hEq, h⟩ <;> rcases h' with h' | ⟨hEq', h'⟩
  · exact Side.before_irrefl s _ (Side.before_trans h h')
  · exact Side.before_irrefl s _ (hEq' ▸ h)
  · exact Side.before_irrefl s _ (hEq ▸ h')
  · omega

namespace ReferenceBook

/-- The resting order of a side that no other one precedes. -/
def best? (s : Side) (orders : List RefOrder) : Option RefOrder :=
  orders.find? fun o => decide (o.side = s) &&
    orders.all fun x => decide (x.side = s → ¬ x.Precedes s o)

theorem best?_mem {s : Side} {orders : List RefOrder} {o : RefOrder}
    (h : best? s orders = some o) : o ∈ orders := List.mem_of_find?_eq_some h

/-- The trade of an incoming order with a resting one. -/
def trade (side : Side) (id : UInt64) (o : RefOrder) (qty : Int) : RefTrade where
  buyOrderId := match side with
    | .BUY => id
    | .SELL => o.orderId
  sellOrderId := match side with
    | .BUY => o.orderId
    | .SELL => id
  price := o.price
  quantity := qty

/-- The resting orders after `qty` of `o` has traded. -/
def consume (orders : List RefOrder) (o : RefOrder) (qty : Int) : List RefOrder :=
  if o.remaining = qty then orders.erase o
  else { o with remaining := o.remaining - qty } :: orders.erase o

/-- Match an incoming order: the quantity that remains, the trades and the resting orders. -/
def matchIncoming (side : Side) (id : UInt64) (price remaining : Int) (orders : List RefOrder) :
    Int × List RefTrade × List RefOrder :=
  if _h : 0 < remaining then
    match _hbest : best? side.opposite orders with
    | none => (remaining, [], orders)
    | some o =>
        if side.opposite.before price o.price then (remaining, [], orders)
        else
          let qty := min remaining o.remaining
          let (rest, ts, orders) :=
            matchIncoming side id price (remaining - qty) (consume orders o qty)
          (rest, trade side id o qty :: ts, orders)
  else (remaining, [], orders)
  termination_by orders.length + if 0 < remaining then 1 else 0
  decreasing_by
    have hMem := best?_mem _hbest
    have hLen := List.length_erase_of_mem hMem
    have hPos := List.length_pos_of_mem hMem
    rw [consume, if_pos _h]
    split
    · split <;> omega
    · rename_i hNe
      rw [if_neg (by omega), List.length_cons]
      omega

section MatchIncoming

variable {side : Side} {id : UInt64} {price remaining : Int} {orders : List RefOrder}

/-- Nothing is matched when nothing remains or no resting order crosses. -/
theorem matchIncoming_stop (h : ¬ 0 < remaining ∨
    ∀ o ∈ best? side.opposite orders, side.opposite.before price o.price) :
    matchIncoming side id price remaining orders = (remaining, [], orders) := by
  rw [matchIncoming]
  split
  · rename_i hPos
    have hCross := h.resolve_left (not_not_intro hPos)
    split
    · rfl
    · rename_i o hBest
      rw [if_pos (hCross o hBest)]
  · rfl

/-- One match with the best resting order. -/
theorem matchIncoming_step {o : RefOrder} (hPos : 0 < remaining)
    (hBest : best? side.opposite orders = some o)
    (hCross : ¬ side.opposite.before price o.price) {rest : Int} {ts : List RefTrade}
    {orders' : List RefOrder}
    (hNext : matchIncoming side id price (remaining - min remaining o.remaining)
      (consume orders o (min remaining o.remaining)) = (rest, ts, orders')) :
    matchIncoming side id price remaining orders =
      (rest, trade side id o (min remaining o.remaining) :: ts, orders') := by
  rw [matchIncoming, dif_pos hPos]
  split
  · rename_i hNone
    rw [hBest] at hNone
    exact absurd hNone (by simp)
  · rename_i o' ho'
    obtain rfl : o = o' := by simpa [hBest] using ho'
    rw [if_neg hCross]
    dsimp only
    rw [hNext]

end MatchIncoming

/-- Enter a limit order; what remains rests under a new arrival number. -/
def add (R : ReferenceBook) (o : Order) : List RefTrade × ReferenceBook :=
  let (remaining, ts, orders) := matchIncoming o.side o.orderId o.price o.quantity R.orders
  if 0 < remaining then
    (ts, {
      orders := orders ++ [{
        orderId := o.orderId, side := o.side, price := o.price, remaining := remaining
        arrival := R.nextArrival }]
      nextArrival := R.nextArrival + 1 })
  else (ts, { R with orders := orders })

/-- Delete the order with an ID, and say whether there was one. -/
def cancel (R : ReferenceBook) (id : UInt64) : Bool × ReferenceBook :=
  (R.orders.any fun o => o.orderId = id,
    { R with orders := R.orders.filter fun o => o.orderId ≠ id })

def clear (R : ReferenceBook) : ReferenceBook := { R with orders := [] }

/-- The best price of a side, 0 if it is empty. -/
def bestPrice (R : ReferenceBook) (s : Side) : Int :=
  match best? s R.orders with
  | none => 0
  | some o => o.price

def orderCount (R : ReferenceBook) : Nat := R.orders.length

end ReferenceBook

/-! ## Sequences of calls -/

/-- What the reference reports of a trade. -/
def Trade.report (t : Trade) : RefTrade where
  buyOrderId := t.buyOrderId
  sellOrderId := t.sellOrderId
  price := t.price
  quantity := t.quantity

namespace ReferenceBook

def perform (R : ReferenceBook) : Request → Response RefTrade × ReferenceBook
  | .add _ o _ => let (ts, R) := R.add o; (.trades ts, R)
  | .cancel id => let (found, R) := R.cancel id; (.cancelled found, R)
  | .clear => (.cleared, R.clear)

def observe (R : ReferenceBook) : List Request → List (Observation RefTrade)
  | [] => []
  | r :: rs =>
      let (response, R) := R.perform r
      { response := response, bestBid := R.bestPrice .BUY, bestAsk := R.bestPrice .SELL,
        orderCount := R.orderCount } :: R.observe rs

/-- A limit order that may be entered: new, of positive quantity, its ID not live. -/
structure Admits (R : ReferenceBook) (o : Order) : Prop where
  type_eq : o.type = .LIMIT
  status_eq : o.status = .NEW
  filled_eq : o.filledQty = 0
  quantity_pos : 0 < o.quantity
  id_fresh : ∀ x ∈ R.orders, x.orderId ≠ o.orderId

instance (R : ReferenceBook) (o : Order) : Decidable (R.Admits o) :=
  decidable_of_iff (o.type = .LIMIT ∧ o.status = .NEW ∧ o.filledQty = 0 ∧ 0 < o.quantity ∧
      ∀ x ∈ R.orders, x.orderId ≠ o.orderId)
    ⟨fun ⟨h₁, h₂, h₃, h₄, h₅⟩ => ⟨h₁, h₂, h₃, h₄, h₅⟩,
      fun ⟨h₁, h₂, h₃, h₄, h₅⟩ => ⟨h₁, h₂, h₃, h₄, h₅⟩⟩

/-- Every limit order of a session may be entered when its turn comes. -/
def AdmitsAll (R : ReferenceBook) : List Request → Prop
  | [] => True
  | .add p o now :: rs => R.Admits o ∧ (R.perform (.add p o now)).2.AdmitsAll rs
  | .cancel id :: rs => (R.perform (.cancel id)).2.AdmitsAll rs
  | .clear :: rs => (R.perform .clear).2.AdmitsAll rs

instance decidableAdmitsAll : ∀ (R : ReferenceBook) (rs : List Request), Decidable (R.AdmitsAll rs)
  | _, [] => inferInstanceAs (Decidable True)
  | R, .add p o now :: rs =>
      let _ := decidableAdmitsAll (R.perform (.add p o now)).2 rs
      inferInstanceAs (Decidable (_ ∧ _))
  | R, .cancel id :: rs => decidableAdmitsAll (R.perform (.cancel id)).2 rs
  | R, .clear :: rs => decidableAdmitsAll (R.perform .clear).2 rs

end ReferenceBook

end MatchingMachine
