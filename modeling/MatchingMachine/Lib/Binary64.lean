import Mathlib.Algebra.Order.Floor.Ring
import Mathlib.Data.Int.Log
import Mathlib.Data.Rat.Floor
import Mathlib.Tactic.FieldSimp
import Mathlib.Tactic.Linarith
import Mathlib.Tactic.Positivity
import Mathlib.Tactic.Push

/-!
# Rounding to doubles

A double is the rational it stands for.  `round` rounds to 53 bits, to the nearest and from the
middle to the even neighbour, without a bound on the exponent: that is the rounding of IEEE 754
where nothing overflows and nothing is subnormal.  A rounded number is within a `2 ^ 53`-th of the
exact one.
-/

namespace MatchingMachine

namespace Binary64

/-- The nearest integer, and from the middle the even one. -/
def nearest (q : ℚ) : Int :=
  let low := ⌊q⌋
  if q - low < 1 / 2 then low
  else if 1 / 2 < q - low then low + 1
  else if low % 2 = 0 then low
  else low + 1

/-- The distance between the doubles around `q`. -/
def ulp (q : ℚ) : ℚ := 2 ^ (Int.log 2 |q| - 52)

def round (q : ℚ) : ℚ := nearest (q / ulp q) * ulp q

/-- The double nearest to an integer; `none` where it is too large. -/
def ofInt (n : Int) : Option ℚ := if |round n| < 2 ^ 1024 then some (round n) else none

variable {q : ℚ}

theorem abs_nearest_sub_le (q : ℚ) : |(nearest q : ℚ) - q| ≤ 1 / 2 := by
  have hLow := Int.floor_le q
  have hHigh := Int.lt_floor_add_one q
  unfold nearest
  dsimp only
  rw [abs_le]
  split_ifs <;> push_cast <;> constructor <;> linarith

theorem nearest_nonneg (hq : 0 ≤ q) : 0 ≤ nearest q := by
  have hLow : 0 ≤ ⌊q⌋ := Int.floor_nonneg.mpr hq
  unfold nearest
  dsimp only
  split_ifs <;> omega

theorem ulp_pos (q : ℚ) : 0 < ulp q := zpow_pos (by norm_num) _

theorem ulp_le (hq : q ≠ 0) : ulp q ≤ |q| / 2 ^ 52 := by
  have hLog : (2 : ℚ) ^ Int.log 2 |q| ≤ |q| :=
    Int.zpow_log_le_self (by norm_num) (abs_pos.mpr hq)
  have hSplit : ulp q = 2 ^ Int.log 2 |q| / 2 ^ 52 := by
    rw [ulp, zpow_sub₀ (by norm_num)]
    norm_num
  rw [hSplit]
  gcongr

theorem round_zero : round 0 = 0 := by
  simp [round, nearest]

theorem round_nonneg (hq : 0 ≤ q) : 0 ≤ round q := by
  have hNearest : 0 ≤ nearest (q / ulp q) := nearest_nonneg (div_nonneg hq (ulp_pos q).le)
  have hCast : (0 : ℚ) ≤ (nearest (q / ulp q) : ℚ) := by exact_mod_cast hNearest
  exact mul_nonneg hCast (ulp_pos q).le

/-- Half an ulp is at most a `2 ^ 53`-th of the number. -/
theorem abs_round_sub_le (q : ℚ) : |round q - q| ≤ |q| / 2 ^ 53 := by
  by_cases hq : q = 0
  · subst hq
    simp [round_zero]
  · have hUlp := ulp_pos q
    have hDiff : round q - q = (nearest (q / ulp q) - q / ulp q) * ulp q := by
      rw [round, sub_mul, div_mul_cancel₀ q hUlp.ne']
    calc |round q - q| = |(nearest (q / ulp q) : ℚ) - q / ulp q| * ulp q := by
          rw [hDiff, abs_mul, abs_of_pos hUlp]
      _ ≤ 1 / 2 * ulp q := mul_le_mul_of_nonneg_right (abs_nearest_sub_le _) hUlp.le
      _ ≤ 1 / 2 * (|q| / 2 ^ 52) := mul_le_mul_of_nonneg_left (ulp_le hq) (by norm_num)
      _ = |q| / 2 ^ 53 := by ring

/-- Rounding before a division and after it. -/
theorem abs_round_div_sub_le {d : ℚ} (hq : 0 ≤ q) (hd : 0 < d) :
    |round (round q / d) - q / d| ≤ q / d / 2 ^ 51 := by
  have hFirst := abs_round_sub_le q
  have hSecond := abs_round_sub_le (round q / d)
  rw [abs_of_nonneg hq] at hFirst
  rw [abs_of_nonneg (div_nonneg (round_nonneg hq) hd.le)] at hSecond
  have hInner : |round q / d - q / d| ≤ q / d / 2 ^ 53 := by
    rw [← sub_div, abs_div, abs_of_pos hd, div_right_comm]
    gcongr
  have hQuotient : round q / d ≤ 2 * (q / d) := by
    have hUpper := (abs_le.mp hInner).2
    have hPos : 0 ≤ q / d := div_nonneg hq hd.le
    linarith
  calc |round (round q / d) - q / d|
      ≤ |round (round q / d) - round q / d| + |round q / d - q / d| := abs_sub_le _ _ _
    _ ≤ 2 * (q / d) / 2 ^ 53 + q / d / 2 ^ 53 := by gcongr; exact hSecond.trans (by gcongr)
    _ ≤ q / d / 2 ^ 51 := by
        have hPos : 0 ≤ q / d := div_nonneg hq hd.le
        linarith

end Binary64

end MatchingMachine
