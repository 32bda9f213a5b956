import MatchingMachine.Lib.Fallible
import MatchingMachine.Model.FeedSimulator

/-!
# What `load_csv` accepts

`loadCsv_eq` says what the reader does: every non-empty line after the header becomes an order, and
a missing field is read as the last one there is.  `Documents` is the documented format, and
`loadCsv_documents_iff` says for which files the reader keeps to it.
-/

namespace MatchingMachine

/-- What the columns `side` and `type` hold. -/
def Side.digit : Side → List UInt8
  | .BUY => [48]
  | .SELL => [49]

def OrderType.digit : OrderType → List UInt8
  | .LIMIT => [48]
  | .CANCEL => [49]

namespace FeedSimulator

/-- The non-empty lines after the header. -/
def dataLines (file : List UInt8) : List (List UInt8) :=
  (file.splitOn newline).tail.filter fun line => line ≠ []

/-- The field in a column; the last field where the line has fewer. -/
def fieldOrLast (line : List UInt8) (column : Nat) : List UInt8 :=
  ((line.splitOn comma).take (column + 1)).getLastD []

/-! ## What the reader does -/

theorem headD_drop_getLastD {α : Type} (xs : List α) (d : α) (k : Nat) :
    (xs.drop k).headD ((xs.take k).getLastD d) = (xs.take (k + 1)).getLastD d := by
  induction xs generalizing d k with
  | nil => simp
  | cons x xs ih =>
      cases k with
      | zero => simp
      | succ k =>
          rw [List.drop_succ_cons, List.take_succ_cons, List.take_succ_cons, List.getLastD_cons,
            List.getLastD_cons]
          exact ih x k

/-- The reads of a line one after the other. -/
theorem parseLine_eq (sim : FeedSimulator) (line : List UInt8) : sim.parseLine line = (do
    let orderId ← stoull (fieldOrLast line 0)
    let price ← stoll (fieldOrLast line 2)
    let quantity ← stoll (fieldOrLast line 3)
    return {
      orderId := orderId
      side := if fieldOrLast line 1 = [48] then .BUY else .SELL
      price := price
      quantity := quantity
      type := if fieldOrLast line 4 = [48] then .LIMIT else .CANCEL
      symbol := strncpy sim.symbol 7 }) := by
  have hPieces : InStream.pieces { rest := line } comma = (line.splitOn comma).drop 0 := rfl
  have hTail : ∀ k, ((line.splitOn comma).drop k).tail = (line.splitOn comma).drop (k + 1) :=
    fun k => List.tail_drop
  have hField := fun k => headD_drop_getLastD (line.splitOn comma) [] k
  have hFirst : ((line.splitOn comma).drop 0).headD [] = fieldOrLast line 0 := hField 0
  have hNext : ∀ k, ((line.splitOn comma).drop (k + 1)).headD (fieldOrLast line k) =
      fieldOrLast line (k + 1) := fun k => hField (k + 1)
  unfold parseLine
  simp only [InStream.getline_str, InStream.pieces_getline, hPieces, hTail, hFirst, hNext]

/-- The loop reads every line, and turns those that are not empty into orders. -/
theorem loadLines_eq (sim : FeedSimulator) (file : InStream) (line : List UInt8)
    (orders : List Order) : sim.loadLines file line orders =
      (((file.pieces newline).filter fun line => line ≠ []).mapM sim.parseLine).map
        (orders ++ ·) := by
  fun_induction loadLines with
  | case1 file line orders read hOk hEmpty ih =>
      have hStr : read.str = [] := List.isEmpty_iff.mp hEmpty
      rw [ih, file.pieces_of_ok line newline hOk, List.filter_cons_of_neg (by simp [hStr, read])]
  | case2 file line orders read hOk hEmpty ih =>
      have hStr : read.str ≠ [] := fun h => hEmpty (List.isEmpty_iff.mpr h)
      rw [file.pieces_of_ok line newline hOk, List.filter_cons_of_pos (by simpa [read] using hStr),
        List.mapM_cons]
      show sim.parseLine read.str >>= _ = Except.map _ (sim.parseLine read.str >>= _)
      cases sim.parseLine read.str with
      | error e => rfl
      | ok o =>
          show sim.loadLines read.stream read.str (orders ++ [o]) = _
          rw [ih o]
          cases (((read.stream.pieces newline).filter fun line => decide (line ≠ [])).mapM
            sim.parseLine) with
          | error e => rfl
          | ok os => exact congrArg Except.ok (List.append_assoc orders [o] os)
  | case3 file line orders read hOk =>
      have hPieces : (file.pieces newline).filter (fun line => decide (line ≠ [])) = [] := by
        by_cases hNil : file.pieces newline = []
        · rw [hNil, List.filter_nil]
        · by_cases hLast : file.pieces newline = [[]]
          · rw [hLast]
            rfl
          · exact absurd ((file.getline_ok line newline).mpr ⟨hNil, hLast⟩) hOk
      rw [hPieces]
      exact congrArg Except.ok (List.append_nil orders).symm

theorem loadCsv_eq (sim : FeedSimulator) (filepath : String) (file : List UInt8) :
    sim.loadCsv filepath (some file) = (dataLines file).mapM sim.parseLine := by
  show sim.loadLines _ _ _ = _
  rw [loadLines_eq, InStream.pieces_getline]
  show ((dataLines file).mapM sim.parseLine).map _ = _
  cases (dataLines file).mapM sim.parseLine <;> rfl

/-! ## The documented format -/

/-- The order that a line of the documented format stands for: five fields, of which the side and
the type are one digit and the others decimal integers. -/
def Documents (sim : FeedSimulator) (line : List UInt8) (o : Order) : Prop :=
  ∃ orderId side price quantity type : List UInt8,
    line.splitOn comma = [orderId, side, price, quantity, type] ∧
    decimal orderId = some (o.orderId.toNat : Int) ∧ side = o.side.digit ∧
    decimal price = some o.price ∧ decimal quantity = some o.quantity ∧ type = o.type.digit ∧
    o = { orderId := o.orderId, side := o.side, price := o.price, quantity := o.quantity,
          type := o.type, symbol := strncpy sim.symbol 7 }

/-- Five fields, and in each of them what the documented format has there. -/
def WellFormed (line : List UInt8) : Prop :=
  ∃ orderId side price quantity type : List UInt8,
    line.splitOn comma = [orderId, side, price, quantity, type] ∧
    (∃ n : Nat, decimal orderId = some (n : Int)) ∧ (side = [48] ∨ side = [49]) ∧
    (decimal price).isSome ∧ (decimal quantity).isSome ∧ (type = [48] ∨ type = [49])

/-- Where the reader looks for a number, the line has one, and it is in range. -/
def Readable (line : List UInt8) : Prop :=
  (∃ n, leadingInt (fieldOrLast line 0) = some n ∧ n.natAbs < 2 ^ 64) ∧
    ∀ column ∈ [2, 3], ∃ n, leadingInt (fieldOrLast line column) = some n ∧ -2 ^ 63 ≤ n ∧ n < 2 ^ 63

variable {sim : FeedSimulator} {line : List UInt8} {o : Order}

theorem Documents.wellFormed (h : sim.Documents line o) : WellFormed line := by
  obtain ⟨orderId, side, price, quantity, type, hFields, hId, hSide, hPrice, hQuantity, hType, -⟩ := h
  refine ⟨orderId, side, price, quantity, type, hFields, ⟨_, hId⟩, ?_, ?_, ?_, ?_⟩
  · rw [hSide]
    cases o.side
    · exact Or.inl rfl
    · exact Or.inr rfl
  · rw [hPrice]
    rfl
  · rw [hQuantity]
    rfl
  · rw [hType]
    cases o.type
    · exact Or.inl rfl
    · exact Or.inr rfl

/-- A line is turned into an order exactly if it is readable. -/
theorem exists_parseLine_iff (sim : FeedSimulator) (line : List UInt8) :
    (∃ o, sim.parseLine line = .ok o) ↔ Readable line := by
  rw [parseLine_eq]
  constructor
  · rintro ⟨o, h⟩
    obtain ⟨orderId, hId, h⟩ := Except.bind_eq_ok h
    obtain ⟨price, hPrice, h⟩ := Except.bind_eq_ok h
    obtain ⟨quantity, hQuantity, h⟩ := Except.bind_eq_ok h
    obtain ⟨n, hn, hLt, -⟩ := stoull_eq_ok.mp hId
    refine ⟨⟨n, hn, hLt⟩, fun column hColumn => ?_⟩
    rcases List.mem_pair.mp hColumn with rfl | rfl
    · exact ⟨price, stoll_eq_ok.mp hPrice⟩
    · exact ⟨quantity, stoll_eq_ok.mp hQuantity⟩
  · rintro ⟨⟨n, hn, hLt⟩, hColumns⟩
    obtain ⟨price, hPrice⟩ := hColumns 2 (by decide)
    obtain ⟨quantity, hQuantity⟩ := hColumns 3 (by decide)
    rw [stoull_eq_ok.mpr ⟨n, hn, hLt, rfl⟩, stoll_eq_ok.mpr hPrice, stoll_eq_ok.mpr hQuantity]
    exact ⟨_, rfl⟩

/-- A well-formed line is turned into the order it stands for, or not at all. -/
theorem WellFormed.documents (hLine : WellFormed line) (hParse : sim.parseLine line = .ok o) :
    sim.Documents line o := by
  obtain ⟨orderId, side, price, quantity, type, hFields, ⟨n, hId⟩, hSide, hPrice, hQuantity, hType⟩ :=
    hLine
  rw [parseLine_eq] at hParse
  have hField : ∀ k, fieldOrLast line k =
      ([orderId, side, price, quantity, type].take (k + 1)).getLastD [] := by
    intro k
    rw [fieldOrLast, hFields]
  have hField₀ : fieldOrLast line 0 = orderId := hField 0
  have hField₁ : fieldOrLast line 1 = side := hField 1
  have hField₂ : fieldOrLast line 2 = price := hField 2
  have hField₃ : fieldOrLast line 3 = quantity := hField 3
  have hField₄ : fieldOrLast line 4 = type := hField 4
  rw [hField₀, hField₁, hField₂, hField₃, hField₄] at hParse
  obtain ⟨id, hStoull, hParse⟩ := Except.bind_eq_ok hParse
  obtain ⟨p, hp, hParse⟩ := Except.bind_eq_ok hParse
  obtain ⟨q, hq, hParse⟩ := Except.bind_eq_ok hParse
  obtain rfl := Except.ok.inj hParse
  obtain ⟨m, hm, hLt, rfl⟩ := stoull_eq_ok.mp hStoull
  have hValue : (UInt64.ofInt m).toNat = n := by
    rw [leadingInt_of_decimal hId] at hm
    obtain rfl := Option.some.inj hm
    rw [Int.natAbs_natCast] at hLt
    rw [UInt64.ofInt, UInt64.toNat_ofNat']
    omega
  refine ⟨orderId, side, price, quantity, type, hFields, ?_, ?_, ?_, ?_, ?_, rfl⟩
  · rw [hId, ← hValue]
  · rcases hSide with rfl | rfl <;> rfl
  · obtain ⟨x, hx⟩ := Option.isSome_iff_exists.mp hPrice
    rw [hx, ← leadingInt_of_decimal hx, (stoll_eq_ok.mp hp).1]
  · obtain ⟨x, hx⟩ := Option.isSome_iff_exists.mp hQuantity
    rw [hx, ← leadingInt_of_decimal hx, (stoll_eq_ok.mp hq).1]
  · rcases hType with rfl | rfl <;> rfl

/-- The reader keeps to the documented format exactly on the files that have a line it cannot read,
or only well-formed lines. -/
theorem loadCsv_documents_iff (sim : FeedSimulator) (filepath : String) (file : List UInt8) :
    (∀ orders, sim.loadCsv filepath (some file) = .ok orders →
      List.Forall₂ sim.Documents (dataLines file) orders) ↔
    (∃ line ∈ dataLines file, ¬ Readable line) ∨ ∀ line ∈ dataLines file, WellFormed line := by
  rw [loadCsv_eq]
  constructor
  · intro hFormat
    by_contra hNot
    rw [not_or, not_exists] at hNot
    obtain ⟨hUnreadable, hWell⟩ := hNot
    have hReadable : ∀ line ∈ dataLines file, ∃ o, sim.parseLine line = .ok o := by
      intro line hLine
      by_contra hNo
      exact hUnreadable line ⟨hLine, fun h => hNo ((exists_parseLine_iff sim line).mpr h)⟩
    choose! order hOrder using hReadable
    have hOrders : List.Forall₂ (fun line o => sim.parseLine line = .ok o) (dataLines file)
        ((dataLines file).map order) :=
      List.forall₂_map_right_iff.mpr (List.forall₂_same.mpr hOrder)
    have hDocuments := hFormat _ (mapM_eq_ok_iff.mpr hOrders)
    have hBoth := hDocuments.imp fun _ _ h => And.intro h.wellFormed h
    exact hWell ((List.forall₂_and_left _ _).mp hBoth).1
  · rintro (⟨line, hLine, hUnreadable⟩ | hWell) orders hOrders
    · have hRead := (mapM_eq_ok_iff.mp hOrders).imp fun line o h =>
        And.intro ((exists_parseLine_iff sim line).mp ⟨o, h⟩) h
      exact absurd (((List.forall₂_and_left _ _).mp hRead).1 line hLine) hUnreadable
    · have hParse := (List.forall₂_and_left _ _).mpr ⟨hWell, mapM_eq_ok_iff.mp hOrders⟩
      exact hParse.imp fun _ _ h => h.1.documents h.2

/-- A file with one line, and one field in it: the field is read five times. -/
theorem loadCsv_short_line :
    let sim : FeedSimulator := { symbol := [66, 84, 67], basePrice := 100 }
    let file : List UInt8 := [105, 100, 10, 55, 10]
    ∃ orders, sim.loadCsv "orders.csv" (some file) = .ok orders ∧
      (orders.map fun o => (o.orderId, o.side, o.price, o.quantity, o.type)) =
        [(7, .SELL, 7, 7, .CANCEL)] ∧
      ¬ List.Forall₂ sim.Documents (dataLines file) orders := by
  intro sim file
  let o : Order :=
    { orderId := 7, side := .SELL, price := 7, quantity := 7, type := .CANCEL
      symbol := strncpy sim.symbol 7 }
  refine ⟨[o], ?_, rfl, fun h => ?_⟩
  · rw [loadCsv_eq]
    rfl
  · obtain ⟨_, _, _, _, _, hFields, -⟩ := (List.forall₂_cons.mp h).1
    have hLength := congrArg List.length hFields
    exact absurd (show 1 = 5 from hLength) (by decide)

end FeedSimulator

end MatchingMachine
