import Mathlib.Algebra.Ring.Int.Defs
import Mathlib.Algebra.Ring.Nat
import Mathlib.Data.List.TakeWhile
import Mathlib.Tactic.Common

/-!
# Reading text as the C++ library does

`std::getline` with a delimiter and the integer conversions `std::stoull` and `std::stoll`, on
streams and strings of bytes.

The meaning of `getline` is in `getline_str`, `getline_ok` and `pieces_getline`: it takes the
pieces of the stream between delimiters one by one, and leaves its string alone when none is left.
-/

namespace MatchingMachine

/-- An input stream.  It is no longer good once its end was reached. -/
structure InStream where
  rest : List UInt8
  good : Bool := true
  deriving DecidableEq, Repr

/-- What `std::getline` leaves: whether it succeeded, its string and the stream. -/
structure Getline where
  ok : Bool
  str : List UInt8
  stream : InStream
  deriving DecidableEq, Repr

namespace InStream

/-- `std::getline(stream, str, delim)`. -/
def getline (stream : InStream) (str : List UInt8) (delim : UInt8) : Getline :=
  if stream.good then
    let line := stream.rest.takeWhile fun c => c ≠ delim
    match stream.rest.dropWhile fun c => c ≠ delim with
    | _ :: rest => { ok := true, str := line, stream := { rest := rest } }
    | [] => { ok := decide (line ≠ []), str := line, stream := { rest := [], good := false } }
  else
    { ok := false, str := str, stream := stream }

/-- What is still to be read: the pieces between the delimiters. -/
def pieces (stream : InStream) (delim : UInt8) : List (List UInt8) :=
  if stream.good then stream.rest.splitOn delim else []

/-- The bytes left to read, and one more for the end. -/
def left (stream : InStream) : Nat := if stream.good then stream.rest.length + 1 else 0

/-- The first piece of a text ends where `getline` stops. -/
theorem splitOn_eq (text : List UInt8) (delim : UInt8) :
    text.splitOn delim = match text.dropWhile fun c => c ≠ delim with
      | [] => [text.takeWhile fun c => c ≠ delim]
      | _ :: rest => (text.takeWhile fun c => c ≠ delim) :: rest.splitOn delim := by
  have hAppend := List.takeWhile_append_dropWhile (p := fun c => decide (c ≠ delim)) (l := text)
  have hNotMem : delim ∉ text.takeWhile fun c => decide (c ≠ delim) := by
    intro hMem
    simpa using List.mem_takeWhile_imp hMem
  cases hDrop : text.dropWhile fun c => decide (c ≠ delim) with
  | nil =>
      rw [hDrop, List.append_nil] at hAppend
      rw [hAppend] at hNotMem ⊢
      exact List.splitOn_eq_singleton hNotMem
  | cons c rest =>
      have hHead : c = delim := by
        have hFalse := List.head?_dropWhile_not (fun c => decide (c ≠ delim)) text
        rw [hDrop] at hFalse
        simpa using hFalse
      subst hHead
      rw [hDrop] at hAppend
      calc text.splitOn c
          = ((text.takeWhile fun x => decide (x ≠ c)) ++ c :: rest).splitOn c := by rw [hAppend]
        _ = (text.takeWhile fun x => decide (x ≠ c)) :: rest.splitOn c :=
            List.splitOn_append_cons_self_of_not_mem hNotMem rest

variable (stream : InStream) (str : List UInt8) (delim : UInt8)

theorem getline_str : (stream.getline str delim).str = (stream.pieces delim).headD str := by
  unfold getline pieces
  cases stream.good with
  | false => rfl
  | true =>
      rw [if_pos rfl, if_pos rfl, splitOn_eq]
      cases stream.rest.dropWhile fun c => decide (c ≠ delim) <;> rfl

theorem pieces_getline :
    (stream.getline str delim).stream.pieces delim = (stream.pieces delim).tail := by
  unfold getline
  cases hGood : stream.good with
  | false => simp [pieces, hGood]
  | true =>
      rw [if_pos rfl, pieces.eq_def stream, hGood, if_pos rfl, splitOn_eq]
      cases stream.rest.dropWhile fun c => decide (c ≠ delim) <;> rfl

/-- Only an empty last piece is not read. -/
theorem getline_ok :
    (stream.getline str delim).ok = true ↔
      stream.pieces delim ≠ [] ∧ stream.pieces delim ≠ [[]] := by
  unfold getline pieces
  cases stream.good with
  | false => simp
  | true =>
      rw [if_pos rfl, if_pos rfl, splitOn_eq]
      cases stream.rest.dropWhile fun c => decide (c ≠ delim) with
      | nil => simp
      | cons c rest => simp [List.splitOn_ne_nil]

/-- A successful read takes the first piece. -/
theorem pieces_of_ok (hOk : (stream.getline str delim).ok = true) :
    stream.pieces delim =
      (stream.getline str delim).str :: (stream.getline str delim).stream.pieces delim := by
  have hNe := ((getline_ok stream str delim).mp hOk).1
  rw [getline_str, pieces_getline]
  cases hPieces : stream.pieces delim with
  | nil => exact absurd hPieces hNe
  | cons piece pieces => rfl

/-- A line that was read is no longer left. -/
theorem left_getline (hOk : (stream.getline str delim).ok = true) :
    (stream.getline str delim).stream.left < stream.left := by
  unfold getline at hOk ⊢
  cases hGood : stream.good with
  | false => simp [hGood] at hOk
  | true =>
      have hLength := congrArg List.length
        (List.takeWhile_append_dropWhile (p := fun c => decide (c ≠ delim)) (l := stream.rest))
      rw [List.length_append] at hLength
      rw [if_pos rfl]
      cases hDrop : stream.rest.dropWhile fun c => decide (c ≠ delim) with
      | nil => simp [left, hGood]
      | cons c rest =>
          rw [hDrop, List.length_cons] at hLength
          simp only [left, hGood, if_true]
          omega

end InStream

/-! ## Integers -/

/-- The exceptions of the library that a conversion or a reader throws, with `what()`. -/
inductive StdException
  | invalidArgument (what : String)
  | outOfRange (what : String)
  | runtimeError (what : String)
  deriving DecidableEq, Repr

def isSpace (c : UInt8) : Bool := c = 32 || (9 ≤ c && c ≤ 13)

def isDigit (c : UInt8) : Bool := 48 ≤ c && c ≤ 57

/-- The value of a string of digits. -/
def digitsVal (digits : List UInt8) : Nat :=
  digits.foldl (fun value c => 10 * value + (c.toNat - 48)) 0

/-- A sign and what follows it. -/
def splitSign : List UInt8 → Bool × List UInt8
  | 45 :: text => (true, text)
  | 43 :: text => (false, text)
  | text => (false, text)

def signed (negative : Bool) (value : Nat) : Int := if negative then -value else value

/-- The integer that `strtol` reads: white space, a sign, and the longest run of digits. -/
def leadingInt (text : List UInt8) : Option Int :=
  let (negative, text) := splitSign (text.dropWhile isSpace)
  let digits := text.takeWhile isDigit
  if digits.isEmpty then none else some (signed negative (digitsVal digits))

/-- The integer that a string spells: a sign, if any, and digits, and nothing else. -/
def decimal (text : List UInt8) : Option Int :=
  let (negative, digits) := splitSign text
  if digits.isEmpty || !digits.all isDigit then none else some (signed negative (digitsVal digits))

/-- `std::stoull`: a negative number is converted to its residue. -/
def stoull (text : List UInt8) : Except StdException UInt64 :=
  match leadingInt text with
  | none => throw (.invalidArgument "stoull")
  | some n => if n.natAbs < 2 ^ 64 then pure (UInt64.ofInt n) else throw (.outOfRange "stoull")

def stoll (text : List UInt8) : Except StdException Int :=
  match leadingInt text with
  | none => throw (.invalidArgument "stoll")
  | some n =>
      if -2 ^ 63 ≤ n ∧ n < 2 ^ 63 then pure n else throw (.outOfRange "stoll")

theorem isSpace_of_isDigit {c : UInt8} (h : isDigit c = true) : isSpace c = false := by
  simp only [isDigit, isSpace, Bool.and_eq_true, Bool.or_eq_false_iff, Bool.and_eq_false_iff,
    decide_eq_true_eq, decide_eq_false_iff_not, UInt8.le_iff_toNat_le, ← UInt8.toNat_inj] at h ⊢
  simp at h ⊢
  omega

theorem isSpace_of_splitSign {c : UInt8} {text : List UInt8}
    (h : ∀ d ∈ (splitSign (c :: text)).2, isDigit d = true) : isSpace c = false := by
  unfold splitSign at h
  split at h
  · rename_i hEq
    obtain ⟨rfl, -⟩ := List.cons.inj hEq
    decide
  · rename_i hEq
    obtain ⟨rfl, -⟩ := List.cons.inj hEq
    decide
  · exact isSpace_of_isDigit (h c List.mem_cons_self)

/-- A decimal integer is read as its value. -/
theorem leadingInt_of_decimal {text : List UInt8} {n : Int} (h : decimal text = some n) :
    leadingInt text = some n := by
  unfold decimal at h
  dsimp only at h
  split at h
  · cases h
  · rename_i hDigits
    rw [Bool.or_eq_true, not_or, Bool.not_eq_true, Bool.not_eq_true, Bool.not_eq_false'] at hDigits
    obtain ⟨hNe, hAll⟩ := hDigits
    have hSpace : text.dropWhile isSpace = text := by
      cases text with
      | nil => rfl
      | cons c text =>
          have hc := isSpace_of_splitSign (List.all_eq_true.mp hAll)
          exact List.dropWhile_cons_of_neg (by simp [hc])
    have hTake : (splitSign text).2.takeWhile isDigit = (splitSign text).2 :=
      List.takeWhile_eq_self_iff.mpr (List.all_eq_true.mp hAll)
    unfold leadingInt
    rw [hSpace]
    dsimp only
    rw [hTake, if_neg (by simp [hNe])]
    exact h

theorem stoull_eq_ok {text : List UInt8} {x : UInt64} :
    stoull text = .ok x ↔ ∃ n, leadingInt text = some n ∧ n.natAbs < 2 ^ 64 ∧ UInt64.ofInt n = x := by
  unfold stoull
  constructor
  · intro h
    split at h
    · cases h
    · rename_i n hn
      split_ifs at h with hLt
      exact ⟨n, hn, hLt, Except.ok.inj h⟩
  · rintro ⟨n, hn, hLt, rfl⟩
    rw [hn]
    exact if_pos hLt

theorem stoll_eq_ok {text : List UInt8} {n : Int} :
    stoll text = .ok n ↔ leadingInt text = some n ∧ -2 ^ 63 ≤ n ∧ n < 2 ^ 63 := by
  unfold stoll
  constructor
  · intro h
    split at h
    · cases h
    · rename_i m hm
      split_ifs at h with hRange
      obtain rfl := Except.ok.inj h
      exact ⟨hm, hRange⟩
  · rintro ⟨hn, hRange⟩
    rw [hn]
    exact if_pos hRange

end MatchingMachine
