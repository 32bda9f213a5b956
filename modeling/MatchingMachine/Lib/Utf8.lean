import Mathlib.Data.List.Basic
import Mathlib.Tactic.Common
import Mathlib.Tactic.IntervalCases

/-!
# Decoding UTF-8, strictly and with replacement

`bytes.decode()` is `decodeStrict`, which accepts just what `encode` writes.

`bytes.decode(errors="replace")` is `decode`: the longest start of a sequence that turns out not to be one
becomes U+FFFD, and decoding goes on at the byte that did not fit.  What `encode` writes is read
back, whatever follows.  An ASCII byte fits into no sequence, so bytes can be cut at it.
-/

namespace MatchingMachine

namespace Utf8

/-- A sequence that was begun: its bits so far, how many bytes it lacks, and between which values
the next one must be. -/
structure Pending where
  bits : Nat
  needed : Nat
  low : Nat := 0x80
  high : Nat := 0xBF

/-- What a byte begins: a sequence, if any. -/
def lead (b : Nat) : Option Pending :=
  if 0xC2 ≤ b ∧ b ≤ 0xDF then some { bits := b - 0xC0, needed := 1 }
  else if b = 0xE0 then some { bits := 0, needed := 2, low := 0xA0 }
  else if b = 0xED then some { bits := 0xD, needed := 2, high := 0x9F }
  else if 0xE1 ≤ b ∧ b ≤ 0xEF then some { bits := b - 0xE0, needed := 2 }
  else if b = 0xF0 then some { bits := 0, needed := 3, low := 0x90 }
  else if 0xF1 ≤ b ∧ b ≤ 0xF3 then some { bits := b - 0xF0, needed := 3 }
  else if b = 0xF4 then some { bits := 4, needed := 3, high := 0x8F }
  else none

def replacement : Char := Char.ofNat 0xFFFD

/-- A byte where no sequence is open. -/
def start (b : Nat) : List Char × Option Pending :=
  if b < 0x80 then ([Char.ofNat b], none)
  else match lead b with
    | some pending => ([], some pending)
    | none => ([replacement], none)

/-- A byte: the characters it completes, and the sequence that is open after it. -/
def step : Option Pending → Nat → List Char × Option Pending
  | none, b => start b
  | some pending, b =>
      if 0x80 ≤ b ∧ pending.low ≤ b ∧ b ≤ pending.high then
        let bits := 64 * pending.bits + (b - 0x80)
        if pending.needed ≤ 1 then ([Char.ofNat bits], none)
        else ([], some { bits := bits, needed := pending.needed - 1 })
      else (replacement :: (start b).1, (start b).2)

def decodeFrom : Option Pending → List UInt8 → List Char
  | none, [] => []
  | some _, [] => [replacement]
  | open?, b :: bytes => (step open? b.toNat).1 ++ decodeFrom (step open? b.toNat).2 bytes

def decode (bytes : List UInt8) : List Char := decodeFrom none bytes

def encode (text : List Char) : List UInt8 := text.flatMap String.utf8EncodeChar

/-- `none` where the bytes are not UTF-8. -/
def decodeStrict (bytes : List UInt8) : Option (List Char) :=
  bytes.toByteArray.utf8Decode?.map Array.toList

theorem toNat_byte {n : Nat} (hn : n < 256) : (UInt8.ofNat n).toNat = n := by
  rw [UInt8.toNat_ofNat']
  omega

theorem decodeFrom_ascii {c : Char} (hc : c.toNat < 0x80) (more : List UInt8) :
    decodeFrom none (UInt8.ofNat c.toNat :: more) = c :: decode more := by
  have hStart : start c.toNat = ([c], none) := by
    rw [start, if_pos hc, Char.ofNat_toNat]
  simp [decodeFrom, step, toNat_byte (by omega : c.toNat < 256), hStart, decode]

theorem decodeFrom_lead {n : Nat} {pending : Pending} (hn : n < 256) (hHigh : 0x80 ≤ n)
    (h : lead n = some pending) (more : List UInt8) :
    decodeFrom none (UInt8.ofNat n :: more) = decodeFrom (some pending) more := by
  have hNot : ¬(n < 0x80) := by omega
  simp [decodeFrom, step, start, toNat_byte hn, hNot, h]

/-- A byte that fits, and is not the last one. -/
theorem decodeFrom_middle {v bits needed low high : Nat} (hLow : low ≤ v % 0x40 + 0x80)
    (hHigh : v % 0x40 + 0x80 ≤ high) (more : List UInt8) :
    decodeFrom (some { bits := bits, needed := needed + 2, low := low, high := high })
        (UInt8.ofNat (v % 0x40 + 0x80) :: more) =
      decodeFrom (some { bits := 64 * bits + v % 0x40, needed := needed + 1 }) more := by
  simp only [decodeFrom, step, toNat_byte (by omega : v % 0x40 + 0x80 < 256)]
  simp [hLow, hHigh]

/-- The byte that completes a character. -/
theorem decodeFrom_last {v bits low high : Nat} {c : Char} (hLow : low ≤ v % 0x40 + 0x80)
    (hHigh : v % 0x40 + 0x80 ≤ high) (hc : 64 * bits + v % 0x40 = c.toNat) (more : List UInt8) :
    decodeFrom (some { bits := bits, needed := 1, low := low, high := high })
        (UInt8.ofNat (v % 0x40 + 0x80) :: more) = c :: decode more := by
  simp only [decodeFrom, step, toNat_byte (by omega : v % 0x40 + 0x80 < 256)]
  simp [hLow, hHigh, hc, Char.ofNat_toNat, decode]

/-- The second byte of three is in the range that the first one leaves to it. -/
theorem lead_three {v : Nat} (hLow : 0x800 ≤ v) (hHigh : v < 0x10000)
    (hValid : v < 0xD800 ∨ 0xDFFF < v) :
    ∃ low high, lead (v / 4096 % 0x10 + 0xE0) =
        some { bits := v / 4096, needed := 2, low := low, high := high } ∧
      low ≤ v / 64 % 0x40 + 0x80 ∧ v / 64 % 0x40 + 0x80 ≤ high := by
  have hTop : v / 4096 < 16 := by omega
  have hNext : v / 4096 = 0 → 32 ≤ v / 64 % 0x40 := by omega
  have hSurrogate : v / 4096 = 13 → v / 64 % 0x40 < 32 := by omega
  have hMod : v / 64 % 0x40 < 64 := by omega
  generalize v / 64 % 0x40 = next at *
  generalize v / 4096 = top at *
  interval_cases top <;> exact ⟨_, _, rfl, by omega, by omega⟩

theorem lead_four {v : Nat} (hLow : 0x10000 ≤ v) (hHigh : v < 0x110000) :
    ∃ low high, lead (v / 262144 % 0x08 + 0xF0) =
        some { bits := v / 262144, needed := 3, low := low, high := high } ∧
      low ≤ v / 4096 % 0x40 + 0x80 ∧ v / 4096 % 0x40 + 0x80 ≤ high := by
  have hTop : v / 262144 < 5 := by omega
  have hNext : v / 262144 = 0 → 16 ≤ v / 4096 % 0x40 := by omega
  have hLast : v / 262144 = 4 → v / 4096 % 0x40 < 16 := by omega
  have hMod : v / 4096 % 0x40 < 64 := by omega
  generalize v / 4096 % 0x40 = next at *
  generalize v / 262144 = top at *
  interval_cases top <;> exact ⟨_, _, rfl, by omega, by omega⟩

theorem decodeFrom_encodeChar (c : Char) (more : List UInt8) :
    decodeFrom none (String.utf8EncodeChar c ++ more) = c :: decode more := by
  have hValid : c.toNat < 0xD800 ∨ 0xDFFF < c.toNat ∧ c.toNat < 0x110000 := c.valid
  have hVal : c.val.toNat = c.toNat := rfl
  unfold String.utf8EncodeChar
  simp only [hVal]
  split_ifs with h₁ h₂ h₃
  · exact decodeFrom_ascii (by omega) more
  · have hLead : lead (c.toNat / 64 % 0x20 + 0xC0) =
        some { bits := c.toNat / 64, needed := 1 } := by
      rw [lead, if_pos (by omega)]
      simp
      omega
    rw [List.cons_append, decodeFrom_lead (by omega) (by omega) hLead]
    exact decodeFrom_last (by omega) (by omega) (by omega) more
  · obtain ⟨low, high, hLead, hLow, hHigh⟩ :=
      lead_three (v := c.toNat) (by omega) (by omega) (by omega)
    rw [List.cons_append, decodeFrom_lead (by omega) (by omega) hLead, List.cons_append,
      decodeFrom_middle hLow hHigh]
    exact decodeFrom_last (by omega) (by omega) (by omega) more
  · obtain ⟨low, high, hLead, hLow, hHigh⟩ := lead_four (v := c.toNat) (by omega) (by omega)
    rw [List.cons_append, decodeFrom_lead (by omega) (by omega) hLead, List.cons_append,
      decodeFrom_middle hLow hHigh, List.cons_append, decodeFrom_middle (by omega) (by omega)]
    exact decodeFrom_last (by omega) (by omega) (by omega) more

theorem decode_encode_append (text : List Char) (more : List UInt8) :
    decode (encode text ++ more) = text ++ decode more := by
  induction text with
  | nil => rfl
  | cons c cs ih =>
      have h := decodeFrom_encodeChar c (encode cs ++ more)
      rw [ih] at h
      simpa [encode, decode] using h

/-- An ASCII character closes whatever is open. -/
theorem decodeFrom_append_ascii (open? : Option Pending) (bytes more : List UInt8) {c : Char}
    (hc : c.toNat < 0x80) :
    decodeFrom open? (bytes ++ UInt8.ofNat c.toNat :: more) =
      decodeFrom open? bytes ++ c :: decode more := by
  induction bytes generalizing open? with
  | nil =>
      have hNot : ¬(0x80 ≤ c.toNat) := by omega
      cases open? with
      | none => exact decodeFrom_ascii hc more
      | some pending =>
          have hStart : start c.toNat = ([c], none) := by
            rw [start, if_pos hc, Char.ofNat_toNat]
          simp [decodeFrom, step, toNat_byte (by omega : c.toNat < 256), hStart, decode, hNot]
  | cons b bytes ih => simp [decodeFrom, ih]

/-- Text that begins with an ASCII character is decoded as it stands, and what is around it as if
it were not there. -/
theorem decode_append_encode (bytes more : List UInt8) {c : Char} (hc : c.toNat < 0x80)
    (cs : List Char) :
    decode (bytes ++ encode (c :: cs) ++ more) = decode bytes ++ c :: cs ++ decode more := by
  have hChar : String.utf8EncodeChar c = [UInt8.ofNat c.toNat] := by
    have hVal : c.val.toNat ≤ 0x7f := Nat.le_of_lt_succ hc
    rw [String.utf8EncodeChar, if_pos hVal]
    rfl
  have h := decodeFrom_append_ascii none bytes (encode cs ++ more) hc
  rw [decode_encode_append] at h
  simpa [decode, encode, hChar] using h

end Utf8

end MatchingMachine
