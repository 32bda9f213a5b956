import Mathlib

/-!
# Statistics of the benchmark report

`ranks`, `rank_sum_test`, `spearman`, `tier_threshold` and `tier_summary` of
`scripts/report/bench_report.py`, in exact arithmetic: what is rational there is in `ℚ`, and
logarithms and square roots are taken in `ℝ`.  The random generator of a test is a state and a
function that shuffles a list with it.
-/

namespace MatchingMachine

namespace BenchReport

/-! ## Ranks -/

section Ranks

variable {α : Type} [LinearOrder α]

/-- The inner loop of `ranks`: where the run of values equal to the one at `first` ends. -/
def runEnd (values : List α) (order : List (Fin values.length)) (first : Fin values.length)
    (j : Nat) : Nat :=
  if h : j + 1 < order.length then
    if values.get order[j + 1] = values.get first then runEnd values order first (j + 1) else j
  else j
termination_by order.length - j

theorem le_runEnd (values : List α) (order : List (Fin values.length)) (first : Fin values.length)
    (j : Nat) : j ≤ runEnd values order first j := by
  fun_induction runEnd with
  | case1 j hj hEq ih => omega
  | case2 j hj hNe => exact le_rfl
  | case3 j hj => exact le_rfl

/-- `for k in range(i, j + 1): out[order[k]] = (i + j) / 2 + 1`. -/
def writeRanks {n : Nat} (order : List (Fin n)) (i j : Nat) (out : List ℚ) : List ℚ :=
  ((order.drop i).take (j + 1 - i)).foldl
    (fun out (k : Fin n) => out.set k (((i + j : Nat) : ℚ) / 2 + 1)) out

/-- The outer loop of `ranks`. -/
def ranksLoop (values : List α) (order : List (Fin values.length)) (i : Nat) (out : List ℚ) :
    List ℚ :=
  if h : i < order.length then
    let j := runEnd values order order[i] i
    ranksLoop values order (j + 1) (writeRanks order i j out)
  else out
termination_by order.length - i
decreasing_by
  have hLe := le_runEnd values order order[i] i
  omega

def ranks (values : List α) : List ℚ :=
  let order := (List.finRange values.length).mergeSort fun k l => values.get k ≤ values.get l
  ranksLoop values order 0 (List.replicate values.length 0)

end Ranks

/-! ## Tests on ranks -/

/-- `statistic` of `rank_sum_test`; a size of zero divides by zero. -/
def statistic (sizes : List Nat) (r : List ℚ) : Option ℚ :=
  let step (s : Nat × ℚ) (size : Nat) : Option (Nat × ℚ) :=
    let part := ((r.drop s.1).take size).sum
    if size = 0 then none else some (s.1 + size, s.2 + part * part / size)
  (sizes.foldlM step (0, 0)).map Prod.snd

def pValue (null : List ℚ) (observed : ℚ) : ℚ :=
  ((null.countP fun v => v ≥ observed) + 1) / (null.length + 1)

/-- The shuffles of `rank_sum_test` and the statistics of the shuffled ranks. -/
def shuffled {γ : Type} (shuffle : γ → List ℚ → List ℚ × γ) (sizes : List Nat) :
    Nat → List ℚ → γ → Option (List ℚ)
  | 0, _, _ => some []
  | n + 1, r, rng => do
      let (r, rng) := shuffle rng r
      let value ← statistic sizes r
      let null ← shuffled shuffle sizes n r rng
      return value :: null

def rankSumTest {γ : Type} (shuffle : γ → List ℚ → List ℚ × γ) (rankList : List ℚ)
    (sizes : List Nat) (n : Nat) (rng : γ) : Option ℚ := do
  let observed ← statistic sizes rankList
  let null ← shuffled shuffle sizes n rankList rng
  return pValue null observed

/-- `statistics.correlation`, which raises on constant inputs and on unequal lengths. -/
noncomputable def correlation (x y : List ℚ) : Except String ℝ :=
  let n : ℚ := x.length
  if x.length ≠ y.length then
    throw "correlation requires that both inputs have same number of data points"
  else if x.length < 2 then
    throw "correlation requires at least two data points"
  else
    let xbar := x.sum / n
    let ybar := y.sum / n
    let sxy := (List.zipWith (fun a b => (a - xbar) * (b - ybar)) x y).sum
    let sxx := (x.map fun a => (a - xbar) * (a - xbar)).sum
    let syy := (y.map fun b => (b - ybar) * (b - ybar)).sum
    if sxx * syy = 0 then throw "at least one of the inputs is constant"
    else pure (sxy / Real.sqrt (sxx * syy : ℚ))

/-- The result is `none` where the code returns `nan`. -/
noncomputable def spearman {α β : Type} [LinearOrder α] [LinearOrder β] (x : List α) (y : List β) :
    Except String (Option ℝ) :=
  if x.length < 3 ∨ x.dedup.length < 2 ∨ y.dedup.length < 2 then pure none
  else some <$> correlation (ranks x) (ranks y)

/-! ## Tiers -/

/-- The variables of the loop of `tier_threshold`; `at` is `cut` here. -/
structure TierScan where
  left : ℝ := 0
  best : ℝ := -1
  cut : Option Nat := none

/-- One turn of the loop of `tier_threshold`. -/
noncomputable def tierStep (logs : List ℝ) (s : TierScan) (i : Nat) : TierScan :=
  let left := s.left + logs.getD (i - 1) 0
  if logs.getD i 0 = logs.getD (i - 1) 0 then { s with left := left }
  else
    let n : ℝ := logs.length
    let w0 := i / n
    let w1 := (n - i) / n
    let between := w0 * w1 * (left / i - (logs.sum - left) / (n - i)) ^ 2
    if between > s.best then { left := left, best := between, cut := some i }
    else { s with left := left }

/-- The threshold and the gap, or `none` when all values are equal. -/
noncomputable def tierThreshold (values : List ℝ) : Option (ℝ × ℝ) :=
  let logs := (values.map Real.log).mergeSort
  let scan := (List.range' 1 (logs.length - 1)).foldl (tierStep logs) {}
  scan.cut.map fun i =>
    let low := Real.exp (logs.getD (i - 1) 0)
    let high := Real.exp (logs.getD i 0)
    (Real.sqrt (low * high), high / low)

noncomputable def median (values : List ℝ) : ℝ :=
  let s := values.mergeSort
  let k := s.length / 2
  if s.length % 2 = 1 then s.getD k 0 else (s.getD (k - 1) 0 + s.getD k 0) / 2

/-- The instances of one launch: `(region, placement)` and ns per item. -/
abbrev Cells := List ((Int × Int) × ℝ)

structure TierSummary where
  threshold : ℝ
  gap : ℝ
  fast : List ℝ
  slow : List ℝ
  share : List (Int × ℝ)
  both : Nat

/-- `v > threshold`, the tier of an instance. -/
noncomputable def isSlow (threshold : ℝ) (cell : (Int × Int) × ℝ) : Bool :=
  open Classical in decide (cell.2 > threshold)

/-- `any(tier.get((region, 0)) and tier.get((region, 1)) for region, _ in cells)`. -/
noncomputable def slowInBoth (threshold : ℝ) (cells : Cells) : Bool :=
  let tier (key : Int × Int) : Bool := (cells.find? fun c => c.1 = key).any (isSlow threshold)
  cells.any fun c => tier (c.1.1, 0) && tier (c.1.1, 1)

/-- The share of slow instances in each placement. -/
noncomputable def slowShare (threshold : ℝ) (cells : Cells) : List (Int × ℝ) :=
  let placements := (cells.map fun c => c.1.2).dedup.mergeSort
  placements.map fun p =>
    let here := cells.filter fun c => c.1.2 = p
    (p, (here.countP (isSlow threshold) : ℝ) / here.length)

/-- `tier_summary`; the launches are the values of the dictionary. -/
noncomputable def tierSummary (launches : List Cells) : Option TierSummary :=
  (tierThreshold (launches.flatMap fun cells => cells.map Prod.snd)).map fun split =>
    let slowOf (cells : Cells) := cells.filter (isSlow split.1)
    let fastOf (cells : Cells) := cells.filter fun c => !isSlow split.1 c
    let levels (tier : Cells → Cells) := (launches.filter fun cells => !(tier cells).isEmpty).map
      fun cells => median ((tier cells).map Prod.snd)
    { threshold := split.1
      gap := split.2
      fast := levels fastOf
      slow := levels slowOf
      share := slowShare split.1 launches.flatten
      both := launches.countP (slowInBoth split.1) }

end BenchReport

end MatchingMachine
