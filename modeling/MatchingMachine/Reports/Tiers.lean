import MatchingMachine.Model.BenchReport

/-!
# The split into two tiers is optimal

`betweenVariance` is the variance between the two groups that a cut of the sorted values makes, and
`BestCut` the first cut where it is largest.  The loop of `tier_threshold` carries the sum of the
logarithms before the cut; `tierScan_spec` is its invariant.
-/

namespace MatchingMachine

namespace BenchReport

/-! ## Cuts -/

noncomputable def mean (xs : List ℝ) : ℝ := xs.sum / xs.length

/-- The variance of the logarithms between the values before position `i` and those from it on. -/
noncomputable def betweenVariance (values : List ℝ) (i : Nat) : ℝ :=
  let logs := values.map Real.log
  (i / logs.length : ℝ) * ((logs.length - i) / logs.length) *
    (mean (logs.take i) - mean (logs.drop i)) ^ 2

/-- Position `i` stands between two different neighbours. -/
def IsCut (values : List ℝ) (i : Nat) : Prop :=
  ∃ h : i < values.length, 0 < i ∧ values[i] ≠ values[i - 1]

/-- The first cut with the largest variance between the groups. -/
structure BestCut (values : List ℝ) (i : Nat) : Prop where
  isCut : IsCut values i
  le : ∀ j, IsCut values j → betweenVariance values j ≤ betweenVariance values i
  lt : ∀ j, j < i → IsCut values j → betweenVariance values j < betweenVariance values i

theorem BestCut.unique {values : List ℝ} {i j : Nat} (hi : BestCut values i)
    (hj : BestCut values j) : i = j := by
  by_contra hNe
  rcases lt_or_gt_of_ne hNe with h | h
  · exact absurd (hi.le j hj.isCut) (not_le.mpr (hj.lt i h hi.isCut))
  · exact absurd (hj.le i hi.isCut) (not_le.mpr (hi.lt j h hj.isCut))

theorem betweenVariance_nonneg (values : List ℝ) {i : Nat} (hi : i ≤ values.length) :
    0 ≤ betweenVariance values i := by
  have hLe : (i : ℝ) ≤ values.length := by exact_mod_cast hi
  have hw : (0 : ℝ) ≤ values.length - i := by linarith
  unfold betweenVariance
  dsimp only
  rw [List.length_map]
  positivity

/-! ## The scan -/

/-- What the loop knows after the positions up to `m`. -/
structure Scanned (values : List ℝ) (m : Nat) (s : TierScan) : Prop where
  left_eq : s.left = ((values.map Real.log).take m).sum
  none : s.cut = none → s.best = -1 ∧ ∀ j ≤ m, ¬ IsCut values j
  some : ∀ i, s.cut = some i → i ≤ m ∧ IsCut values i ∧ s.best = betweenVariance values i ∧
    (∀ j ≤ m, IsCut values j → betweenVariance values j ≤ betweenVariance values i) ∧
    ∀ j < i, IsCut values j → betweenVariance values j < betweenVariance values i

/-- Logarithms of positive values differ where the values do. -/
theorem log_eq_iff {values : List ℝ} (hPos : ∀ v ∈ values, 0 < v) {i j : Nat}
    (hi : i < values.length) (hj : j < values.length) :
    (values.map Real.log).getD i 0 = (values.map Real.log).getD j 0 ↔ values[i] = values[j] := by
  rw [List.getD_eq_getElem _ _ (by simpa using hi), List.getD_eq_getElem _ _ (by simpa using hj),
    List.getElem_map, List.getElem_map]
  constructor
  · intro h
    exact Real.log_injOn_pos (hPos _ (List.getElem_mem hi)) (hPos _ (List.getElem_mem hj)) h
  · intro h
    rw [h]

theorem Scanned.step {values : List ℝ} (hPos : ∀ v ∈ values, 0 < v) {m : Nat} {s : TierScan}
    (hm : m + 1 < values.length) (h : Scanned values m s) :
    Scanned values (m + 1) (tierStep (values.map Real.log) s (m + 1)) := by
  set logs := values.map Real.log with hLogs
  have hLength : logs.length = values.length := List.length_map _
  have hLeft : s.left + logs.getD (m + 1 - 1) 0 = (logs.take (m + 1)).sum := by
    rw [h.left_eq, Nat.add_sub_cancel, List.getD_eq_getElem _ _ (by omega),
      List.take_succ_eq_append_getElem (by omega), List.sum_append, List.sum_singleton]
  have hBetween : ((m + 1 : Nat) / logs.length : ℝ) *
      ((logs.length - (m + 1 : Nat)) / logs.length) *
      ((logs.take (m + 1)).sum / (m + 1 : Nat) -
        (logs.sum - (logs.take (m + 1)).sum) / (logs.length - (m + 1 : Nat))) ^ 2 =
      betweenVariance values (m + 1) := by
    have hSum : logs.sum - (logs.take (m + 1)).sum = (logs.drop (m + 1)).sum := by
      have hAppend := List.sum_take_add_sum_drop logs (m + 1)
      linarith
    have hTake : ((logs.take (m + 1)).length : ℝ) = (m + 1 : Nat) := by
      rw [List.length_take, min_eq_left (by omega)]
    have hDrop : ((logs.drop (m + 1)).length : ℝ) = logs.length - (m + 1 : Nat) := by
      rw [List.length_drop, Nat.cast_sub (by omega)]
    rw [hSum, betweenVariance, ← hLogs, mean, mean, hTake, hDrop]
  have hCut : IsCut values (m + 1) ↔ logs.getD (m + 1) 0 ≠ logs.getD (m + 1 - 1) 0 := by
    rw [Ne, log_eq_iff hPos hm (by omega)]
    constructor
    · rintro ⟨_, _, hNe⟩
      exact hNe
    · intro hNe
      exact ⟨hm, by omega, hNe⟩
  -- the positions up to `m + 1` are those up to `m` and `m + 1` itself
  have hSplit : ∀ j ≤ m + 1, IsCut values j → (j ≤ m ∧ IsCut values j) ∨ j = m + 1 := by
    intro j hj hjCut
    rcases Nat.le_succ_iff.mp hj with hj | hj
    · exact Or.inl ⟨hj, hjCut⟩
    · exact Or.inr hj
  unfold tierStep
  dsimp only
  rw [hLeft]
  by_cases hEq : logs.getD (m + 1) 0 = logs.getD (m + 1 - 1) 0
  · rw [if_pos hEq]
    have hNot : ¬ IsCut values (m + 1) := fun hc => hCut.mp hc hEq
    have hSame : ∀ j ≤ m + 1, IsCut values j → j ≤ m := by
      intro j hj hjCut
      rcases hSplit j hj hjCut with ⟨hLe, -⟩ | rfl
      · exact hLe
      · exact absurd hjCut hNot
    constructor
    · rfl
    · intro hNone
      obtain ⟨hBest, hNo⟩ := h.none hNone
      exact ⟨hBest, fun j hj hjCut => hNo j (hSame j hj hjCut) hjCut⟩
    · intro i hi
      obtain ⟨hLe, hiCut, hBest, hMax, hFirst⟩ := h.some i hi
      exact ⟨by omega, hiCut, hBest, fun j hj hjCut => hMax j (hSame j hj hjCut) hjCut, hFirst⟩
  · rw [if_neg hEq]
    have hNew : IsCut values (m + 1) := hCut.mpr hEq
    rw [hBetween]
    split_ifs with hGt
    · -- the new position is better than all before
      have hBefore : ∀ j ≤ m, IsCut values j →
          betweenVariance values j < betweenVariance values (m + 1) := by
        intro j hj hjCut
        cases hs : s.cut with
        | none => exact absurd hjCut ((h.none hs).2 j hj)
        | some i =>
            obtain ⟨-, -, hBest, hMax, -⟩ := h.some i hs
            rw [hBest] at hGt
            exact (hMax j hj hjCut).trans_lt hGt
      constructor
      · rfl
      · intro hNone
        cases hNone
      · intro i hi
        obtain rfl := Option.some.inj hi
        refine ⟨le_rfl, hNew, rfl, fun j hj hjCut => ?_, fun j hj hjCut => ?_⟩
        · rcases hSplit j hj hjCut with ⟨hLe, -⟩ | rfl
          · exact (hBefore j hLe hjCut).le
          · exact le_rfl
        · exact hBefore j (by omega) hjCut
    · have hLe := not_lt.mp hGt
      constructor
      · rfl
      · intro hNone
        -- before the first cut the best value is negative
        have hNonneg := betweenVariance_nonneg values hm.le
        rw [(h.none hNone).1] at hLe
        linarith
      · intro i hi
        obtain ⟨him, hiCut, hBest, hMax, hFirst⟩ := h.some i hi
        refine ⟨by omega, hiCut, hBest, fun j hj hjCut => ?_, hFirst⟩
        rcases hSplit j hj hjCut with ⟨hj, -⟩ | rfl
        · exact hMax j hj hjCut
        · rwa [hBest] at hLe

/-- The loop knows all cuts up to where it is. -/
theorem scanned_foldl {values : List ℝ} (hPos : ∀ v ∈ values, 0 < v) {m : Nat}
    (hm : m < values.length ∨ m = 0) :
    Scanned values m ((List.range' 1 m).foldl (tierStep (values.map Real.log)) {}) := by
  induction m with
  | zero =>
      constructor
      · simp
      · intro _
        refine ⟨rfl, fun j hj hjCut => ?_⟩
        obtain ⟨_, hPos', _⟩ := hjCut
        omega
      · intro i hi
        cases hi
  | succ m ih =>
      rw [List.range'_concat, List.foldl_append, Nat.one_mul, Nat.add_comm 1 m]
      exact (ih (by omega)).step hPos (by omega)

/-! ## The threshold -/

theorem sorted_le {values : List ℝ} {j k : Nat} (hjk : j ≤ k) (hk : k < values.mergeSort.length) :
    values.mergeSort[j] ≤ values.mergeSort[k] := by
  have hSorted : values.mergeSort.Pairwise fun a b => a ≤ b := by
    have hBool : values.mergeSort.Pairwise fun a b => decide (a ≤ b) = true :=
      List.pairwise_mergeSort
        (fun a b c hab hbc =>
          decide_eq_true ((of_decide_eq_true hab).trans (of_decide_eq_true hbc)))
        (fun a b => by simpa using le_total a b) values
    exact hBool.imp of_decide_eq_true
  rcases hjk.eq_or_lt with rfl | hLt
  · exact le_rfl
  · exact List.pairwise_iff_getElem.mp hSorted j k _ _ hLt

theorem mergeSort_pos {values : List ℝ} (hPos : ∀ v ∈ values, 0 < v) :
    ∀ v ∈ values.mergeSort, 0 < v := fun v hv => hPos v (List.mem_mergeSort.mp hv)

/-- Sorting the logarithms is sorting the values. -/
theorem mergeSort_map_log {values : List ℝ} (hPos : ∀ v ∈ values, 0 < v) :
    (values.map Real.log).mergeSort = values.mergeSort.map Real.log := by
  symm
  apply List.map_mergeSort
  intro v hv w hw
  rw [decide_eq_decide]
  exact (Real.log_le_log_iff (hPos v hv) (hPos w hw)).symm

/-- Neighbours in the sorted values are all equal only if all values are. -/
theorem no_cut_iff (values : List ℝ) :
    (∀ j, ¬ IsCut values.mergeSort j) ↔ ∀ v ∈ values, ∀ w ∈ values, v = w := by
  constructor
  · intro hNo
    have hFirst : ∀ k (hk : k < values.mergeSort.length),
        values.mergeSort[k] = values.mergeSort[0] := by
      intro k hk
      induction k with
      | zero => rfl
      | succ k ih =>
          have hStep : values.mergeSort[k + 1] = values.mergeSort[k] := by
            by_contra hNe
            exact hNo (k + 1) ⟨hk, by omega, hNe⟩
          rw [hStep, ih (by omega)]
    intro v hv w hw
    have hv' : v ∈ values.mergeSort := List.mem_mergeSort.mpr hv
    have hw' : w ∈ values.mergeSort := List.mem_mergeSort.mpr hw
    obtain ⟨k, hk, rfl⟩ := List.getElem_of_mem hv'
    obtain ⟨l, hl, rfl⟩ := List.getElem_of_mem hw'
    rw [hFirst k hk, hFirst l hl]
  · rintro hAll j ⟨hj, -, hNe⟩
    exact hNe (hAll _ (List.mem_mergeSort.mp (List.getElem_mem _)) _
      (List.mem_mergeSort.mp (List.getElem_mem _)))

/-- The code returns the values at the best cut, or nothing where there is none. -/
theorem tierThreshold_spec {values : List ℝ} (hPos : ∀ v ∈ values, 0 < v) :
    (tierThreshold values = none ∧ ∀ j, ¬ IsCut values.mergeSort j) ∨
    ∃ (i : Nat) (hi : i < values.mergeSort.length), BestCut values.mergeSort i ∧
      tierThreshold values = some
        (Real.sqrt (values.mergeSort[i - 1] * values.mergeSort[i]),
          values.mergeSort[i] / values.mergeSort[i - 1]) := by
  have hSortedPos := mergeSort_pos hPos
  have hScan := scanned_foldl hSortedPos (m := values.mergeSort.length - 1) (by omega)
  unfold tierThreshold
  dsimp only
  rw [mergeSort_map_log hPos, List.length_map]
  generalize (List.range' 1 (values.mergeSort.length - 1)).foldl
    (tierStep (values.mergeSort.map Real.log)) {} = scan at hScan ⊢
  have hRange : ∀ j, IsCut values.mergeSort j → j ≤ values.mergeSort.length - 1 := by
    rintro j ⟨hj, -, -⟩
    omega
  cases hCut : scan.cut with
  | none =>
      left
      exact ⟨rfl, fun j hj => (hScan.none hCut).2 j (hRange j hj) hj⟩
  | some i =>
      obtain ⟨hLe, hiCut, -, hMax, hFirst⟩ := hScan.some i hCut
      obtain ⟨hi, hI0, hNe⟩ := hiCut
      right
      refine ⟨i, hi, ⟨⟨hi, hI0, hNe⟩, fun j hj => hMax j (hRange j hj) hj, hFirst⟩, ?_⟩
      have hExp : ∀ k (hk : k < values.mergeSort.length),
          Real.exp ((values.mergeSort.map Real.log).getD k 0) = values.mergeSort[k] := by
        intro k hk
        rw [List.getD_eq_getElem _ _ (by simpa using hk), List.getElem_map]
        exact Real.exp_log (hSortedPos _ (List.getElem_mem hk))
      rw [Option.map_some, hExp i hi, hExp (i - 1) (by omega)]

/-- The threshold separates the values at the cut. -/
theorem sqrt_between {low high : ℝ} (hLow : 0 < low) (hLt : low < high) :
    low < Real.sqrt (low * high) ∧ Real.sqrt (low * high) < high := by
  have hHigh : 0 < high := hLow.trans hLt
  constructor
  · rw [Real.lt_sqrt hLow.le]
    nlinarith
  · rw [Real.sqrt_lt' hHigh]
    nlinarith

/-! ## Scaling -/

variable {c : ℝ}

theorem mergeSort_scale (hc : 0 < c) (values : List ℝ) :
    (values.map (c * ·)).mergeSort = values.mergeSort.map (c * ·) := by
  symm
  apply List.map_mergeSort
  intro v _ w _
  rw [decide_eq_decide]
  exact (mul_le_mul_iff_of_pos_left hc).symm

theorem isCut_scale (hc : 0 < c) (values : List ℝ) (i : Nat) :
    IsCut (values.map (c * ·)) i ↔ IsCut values i := by
  unfold IsCut
  simp [hc.ne']

theorem mean_add (a : ℝ) {xs : List ℝ} (hNe : xs ≠ []) : mean (xs.map (a + ·)) = a + mean xs := by
  have hLength : (xs.length : ℝ) ≠ 0 := by
    exact_mod_cast fun h => hNe (List.length_eq_zero_iff.mp h)
  have hSum : (xs.map (a + ·)).sum = xs.length * a + xs.sum := by
    clear hNe hLength
    induction xs with
    | nil => simp
    | cons x xs ih =>
        simp only [List.map_cons, List.sum_cons, ih, List.length_cons]
        push_cast
        ring
  rw [mean, mean, hSum, List.length_map]
  field_simp

/-- A factor adds the same to all logarithms, and moves both means alike. -/
theorem betweenVariance_scale (hc : 0 < c) {values : List ℝ} (hPos : ∀ v ∈ values, 0 < v) {i : Nat}
    (hi : IsCut values i) :
    betweenVariance (values.map (c * ·)) i = betweenVariance values i := by
  obtain ⟨hLt, hPos', -⟩ := hi
  have hLogs : (values.map (c * ·)).map Real.log =
      (values.map Real.log).map (Real.log c + ·) := by
    rw [List.map_map, List.map_map]
    apply List.map_congr_left
    intro v hv
    exact Real.log_mul hc.ne' (hPos v hv).ne'
  have hLength : (values.map Real.log).length = values.length := List.length_map _
  have hTake : (values.map Real.log).take i ≠ [] := by
    apply List.ne_nil_of_length_pos
    rw [List.length_take]
    omega
  have hDrop : (values.map Real.log).drop i ≠ [] := by
    apply List.ne_nil_of_length_pos
    rw [List.length_drop]
    omega
  unfold betweenVariance
  dsimp only
  rw [hLogs, List.length_map, ← List.map_take, ← List.map_drop, mean_add _ hTake,
    mean_add _ hDrop]
  ring

theorem bestCut_scale (hc : 0 < c) {values : List ℝ} (hPos : ∀ v ∈ values, 0 < v) {i : Nat}
    (h : BestCut values i) : BestCut (values.map (c * ·)) i := by
  have hCut := isCut_scale hc values
  constructor
  · exact (hCut i).mpr h.isCut
  · intro j hj
    rw [betweenVariance_scale hc hPos ((hCut j).mp hj), betweenVariance_scale hc hPos h.isCut]
    exact h.le j ((hCut j).mp hj)
  · intro j hji hj
    rw [betweenVariance_scale hc hPos ((hCut j).mp hj), betweenVariance_scale hc hPos h.isCut]
    exact h.lt j hji ((hCut j).mp hj)

theorem tierThreshold_scale (hc : 0 < c) {values : List ℝ} (hPos : ∀ v ∈ values, 0 < v) :
    tierThreshold (values.map (c * ·)) = (tierThreshold values).map fun s => (c * s.1, s.2) := by
  have hPosScaled : ∀ v ∈ values.map (c * ·), 0 < v := by
    intro v hv
    obtain ⟨w, hw, rfl⟩ := List.mem_map.mp hv
    exact mul_pos hc (hPos w hw)
  have hCuts := fun j => isCut_scale hc values.mergeSort j
  rcases tierThreshold_spec hPos with ⟨hNone, hNo⟩ | ⟨i, hi, hBest, hSome⟩
  · rcases tierThreshold_spec hPosScaled with ⟨hNone', -⟩ | ⟨j, -, hBest', -⟩
    · rw [hNone, hNone']
      rfl
    · rw [mergeSort_scale hc] at hBest'
      exact absurd ((hCuts j).mp hBest'.isCut) (hNo j)
  · rcases tierThreshold_spec hPosScaled with ⟨-, hNo'⟩ | ⟨j, hj, hBest', hSome'⟩
    · rw [mergeSort_scale hc] at hNo'
      exact absurd ((hCuts i).mpr hBest.isCut) (hNo' i)
    · have hScaled := bestCut_scale hc (mergeSort_pos hPos) hBest
      rw [← mergeSort_scale hc] at hScaled
      -- both lists have one best cut, so the cuts are the same
      obtain rfl := hScaled.unique hBest'
      have hLow : 0 < values.mergeSort[i - 1] := mergeSort_pos hPos _ (List.getElem_mem _)
      have hGet : ∀ k (hk : k < values.mergeSort.length)
          (hk' : k < (values.map (c * ·)).mergeSort.length),
          (values.map (c * ·)).mergeSort[k] = c * values.mergeSort[k] := by
        intro k hk hk'
        simp only [mergeSort_scale hc, List.getElem_map]
      rw [hSome, hSome', hGet i hi hj, hGet (i - 1) (by omega) (by omega), Option.map_some]
      have hRoot : Real.sqrt (c * values.mergeSort[i - 1] * (c * values.mergeSort[i])) =
          c * Real.sqrt (values.mergeSort[i - 1] * values.mergeSort[i]) := by
        have hSquare : c * values.mergeSort[i - 1] * (c * values.mergeSort[i]) =
            c ^ 2 * (values.mergeSort[i - 1] * values.mergeSort[i]) := by ring
        rw [hSquare, Real.sqrt_mul (sq_nonneg c), Real.sqrt_sq hc.le]
      rw [hRoot, mul_div_mul_left _ _ hc.ne']

/-! ## The tiers of a study -/

/-- A launch with all its times multiplied by `c`. -/
def scaleCells (c : ℝ) (cells : Cells) : Cells := cells.map fun cell => (cell.1, c * cell.2)

theorem isSlow_scale (hc : 0 < c) (threshold : ℝ) (cell : (Int × Int) × ℝ) :
    isSlow (c * threshold) (cell.1, c * cell.2) = isSlow threshold cell := by
  unfold isSlow
  rw [decide_eq_decide]
  exact mul_lt_mul_iff_of_pos_left hc

theorem isSlow_comp_scale (hc : 0 < c) (threshold : ℝ) :
    isSlow (c * threshold) ∘ (fun cell => (cell.1, c * cell.2)) = isSlow threshold :=
  funext (isSlow_scale hc threshold)

/-- Multiplying the times by a factor moves the threshold, and no instance to another tier. -/
theorem slowInBoth_scale (hc : 0 < c) (threshold : ℝ) (cells : Cells) :
    slowInBoth (c * threshold) (scaleCells c cells) = slowInBoth threshold cells := by
  have hTier : ∀ key : Int × Int,
      ((scaleCells c cells).find? fun cell => cell.1 = key).any (isSlow (c * threshold)) =
        (cells.find? fun cell => cell.1 = key).any (isSlow threshold) := by
    intro key
    rw [scaleCells, List.find?_map, Option.any_map]
    simp only [isSlow_scale hc]
    rfl
  unfold slowInBoth
  dsimp only
  simp only [hTier]
  rw [scaleCells, List.any_map]
  rfl

theorem slowShare_scale (hc : 0 < c) (threshold : ℝ) (cells : Cells) :
    slowShare (c * threshold) (scaleCells c cells) = slowShare threshold cells := by
  have hPlacements : (scaleCells c cells).map (fun cell => cell.1.2) =
      cells.map fun cell => cell.1.2 := by
    rw [scaleCells, List.map_map]
    rfl
  have hHere : ∀ p : Int, (scaleCells c cells).filter (fun cell => cell.1.2 = p) =
      scaleCells c (cells.filter fun cell => cell.1.2 = p) := by
    intro p
    rw [scaleCells, List.filter_map]
    rfl
  unfold slowShare
  dsimp only
  rw [hPlacements]
  apply List.map_congr_left
  intro p _
  rw [hHere, scaleCells, List.countP_map, List.length_map, isSlow_comp_scale hc]

theorem median_scale (hc : 0 < c) (values : List ℝ) :
    median (values.map (c * ·)) = c * median values := by
  have hGet : ∀ k, (values.mergeSort.map (c * ·)).getD k 0 = c * values.mergeSort.getD k 0 := by
    intro k
    rw [List.getD_eq_getElem?_getD, List.getElem?_map, List.getD_eq_getElem?_getD]
    cases values.mergeSort[k]? <;> simp
  unfold median
  dsimp only
  rw [mergeSort_scale hc, List.length_map, hGet, hGet]
  split_ifs
  · rfl
  · ring

/-- The times of a study. -/
def allTimes (launches : List Cells) : List ℝ := launches.flatMap fun cells => cells.map Prod.snd

theorem allTimes_scale (launches : List Cells) :
    allTimes (launches.map (scaleCells c)) = (allTimes launches).map (c * ·) := by
  unfold allTimes
  rw [List.flatMap_map, List.map_flatMap]
  congr 1
  funext cells
  rw [scaleCells, List.map_map, List.map_map]
  rfl

/-- The levels of a tier are multiplied with the times. -/
theorem levels_scale (hc : 0 < c) {slow slow' : (Int × Int) × ℝ → Bool}
    (hSlow : ∀ cell, slow' (cell.1, c * cell.2) = slow cell) (launches : List Cells) :
    ((launches.map (scaleCells c)).filter fun cells => !(cells.filter slow').isEmpty).map
        (fun cells => median ((cells.filter slow').map Prod.snd)) =
      ((launches.filter fun cells => !(cells.filter slow).isEmpty).map
        fun cells => median ((cells.filter slow).map Prod.snd)).map (c * ·) := by
  have hFilter : ∀ cells : Cells,
      (scaleCells c cells).filter slow' = scaleCells c (cells.filter slow) := by
    intro cells
    rw [scaleCells, List.filter_map]
    congr 2
    funext cell
    exact hSlow cell
  have hEmpty : ∀ cells : Cells,
      ((scaleCells c cells).filter slow').isEmpty = (cells.filter slow).isEmpty := by
    intro cells
    rw [hFilter, scaleCells, List.isEmpty_map]
  have hLevel : ∀ cells : Cells, median (((scaleCells c cells).filter slow').map Prod.snd) =
      c * median ((cells.filter slow).map Prod.snd) := by
    intro cells
    rw [hFilter, ← median_scale hc, scaleCells, List.map_map, List.map_map]
    rfl
  rw [List.filter_map, List.map_map, List.map_map]
  simp only [Function.comp_def, hEmpty, hLevel]

theorem tierSummary_scale (hc : 0 < c) {launches : List Cells}
    (hPos : ∀ v ∈ allTimes launches, 0 < v) :
    tierSummary (launches.map (scaleCells c)) = (tierSummary launches).map fun s =>
      { s with threshold := c * s.threshold, fast := s.fast.map (c * ·),
               slow := s.slow.map (c * ·) } := by
  have hSplit := tierThreshold_scale hc hPos
  rw [← allTimes_scale] at hSplit
  unfold tierSummary
  dsimp only
  change (tierThreshold (allTimes (launches.map (scaleCells c)))).map _ =
    ((tierThreshold (allTimes launches)).map _).map _
  rw [hSplit]
  cases tierThreshold (allTimes launches) with
  | none => rfl
  | some split =>
      have hSlow : ∀ cell : (Int × Int) × ℝ,
          isSlow (c * split.1) (cell.1, c * cell.2) = isSlow split.1 cell :=
        isSlow_scale hc split.1
      have hFast : ∀ cell : (Int × Int) × ℝ,
          (!isSlow (c * split.1) (cell.1, c * cell.2)) = !isSlow split.1 cell := by
        intro cell
        rw [hSlow]
      have hFlatten : (launches.map (scaleCells c)).flatten = scaleCells c launches.flatten := by
        rw [scaleCells, List.map_flatten]
        rfl
      simp only [Option.map_some, Option.some.injEq, TierSummary.mk.injEq, true_and]
      refine ⟨levels_scale hc hFast launches, levels_scale hc hSlow launches, ?_, ?_⟩
      · rw [hFlatten, slowShare_scale hc]
      · rw [List.countP_map]
        congr 1
        funext cells
        exact slowInBoth_scale hc split.1 cells

/-! ## The tiers at a cut -/

/-- The level of each launch that has times with `p`: the median of these. -/
noncomputable def tierLevels (p : ℝ → Prop) (launches : List Cells) : List ℝ :=
  launches.filterMap fun cells =>
    let tier := (cells.map Prod.snd).filter fun v => open Classical in decide (p v)
    if tier.isEmpty then none else some (median tier)

/-- The times of a study in one placement. -/
def placedTimes (launches : List Cells) (placement : Int) : List ℝ :=
  (launches.flatten.filter fun cell => cell.1.2 = placement).map Prod.snd

/-- The launch has a region that is slow in both placements. -/
def BothSlow (high : ℝ) (cells : Cells) : Prop :=
  ∃ (region : Int) (v w : ℝ), ((region, 0), v) ∈ cells ∧ high ≤ v ∧
    ((region, 1), w) ∈ cells ∧ high ≤ w

/-- What `tier_summary` says of a study whose values from `high` on are the slow tier, and those up
to `low` the fast one. -/
structure Summarizes (launches : List Cells) (low high : ℝ) (s : TierSummary) : Prop where
  fast_eq : s.fast = tierLevels (· ≤ low) launches
  slow_eq : s.slow = tierLevels (high ≤ ·) launches
  fast_ne_nil : s.fast ≠ []
  slow_ne_nil : s.slow ≠ []
  mem_share : ∀ placement share, (placement, share) ∈ s.share ↔
    placedTimes launches placement ≠ [] ∧
      share = ((placedTimes launches placement).countP fun v =>
        open Classical in decide (high ≤ v) : ℝ) / (placedTimes launches placement).length
  -- a launch is a dictionary: it has every instance once
  both_eq : (∀ cells ∈ launches, (cells.map Prod.fst).Nodup) →
    s.both = launches.countP fun cells => open Classical in decide (BothSlow high cells)

/-- The levels of a tier, which the code sorts out instance by instance. -/
theorem levels_eq (tier : (Int × Int) × ℝ → Bool) (p : ℝ → Prop) {launches : List Cells}
    (hTier : ∀ cells ∈ launches, ∀ cell ∈ cells, tier cell = true ↔ p cell.2) :
    ((launches.filter fun cells => !(cells.filter tier).isEmpty).map
      fun cells => median ((cells.filter tier).map Prod.snd)) = tierLevels p launches := by
  classical
  induction launches with
  | nil => rfl
  | cons cells launches ih =>
      have hTimes : (cells.map Prod.snd).filter (fun v => decide (p v)) =
          (cells.filter tier).map Prod.snd := by
        rw [List.filter_map]
        congr 1
        apply List.filter_congr
        intro cell hCell
        have hIff := hTier cells List.mem_cons_self cell hCell
        rw [Function.comp_apply, Bool.eq_iff_iff, decide_eq_true_iff, hIff]
      have hRest := ih fun cells' hMem => hTier cells' (List.mem_cons_of_mem _ hMem)
      unfold tierLevels at hRest ⊢
      rw [List.filterMap_cons]
      dsimp only
      rw [hTimes, List.isEmpty_map]
      cases hEmpty : (cells.filter tier).isEmpty with
      | true =>
          rw [List.filter_cons_of_neg (by simp [hEmpty]), hRest]
          rfl
      | false =>
          rw [List.filter_cons_of_pos (by simp [hEmpty]), List.map_cons, hRest]
          rfl

theorem mem_allTimes {launches : List Cells} {v : ℝ} :
    v ∈ allTimes launches ↔ ∃ cells ∈ launches, ∃ cell ∈ cells, cell.2 = v := by
  simp [allTimes, List.mem_flatMap]

/-- A tier with a time has a level. -/
theorem tierLevels_ne_nil {launches : List Cells} {p : ℝ → Prop} {v : ℝ}
    (hv : v ∈ allTimes launches) (hp : p v) : tierLevels p launches ≠ [] := by
  classical
  obtain ⟨cells, hCells, cell, hCell, rfl⟩ := mem_allTimes.mp hv
  have hMem : cell.2 ∈ (cells.map Prod.snd).filter fun v => decide (p v) :=
    List.mem_filter.mpr ⟨List.mem_map_of_mem hCell, decide_eq_true hp⟩
  have hTier : ((cells.map Prod.snd).filter fun v => decide (p v)).isEmpty = false :=
    List.isEmpty_eq_false_iff.mpr (List.ne_nil_of_mem hMem)
  have hLevel : median ((cells.map Prod.snd).filter fun v => decide (p v)) ∈
      tierLevels p launches := by
    refine List.mem_filterMap.mpr ⟨cells, hCells, ?_⟩
    dsimp only
    rw [hTier]
    rfl
  exact List.ne_nil_of_mem hLevel

/-- The tier of an instance of a launch whose instances have different keys. -/
theorem find?_any_iff {cells : Cells} (hKeys : (cells.map Prod.fst).Nodup) (key : Int × Int)
    (p : (Int × Int) × ℝ → Bool) :
    (cells.find? fun cell => cell.1 = key).any p = true ↔ ∃ v, (key, v) ∈ cells ∧ p (key, v) := by
  rw [Option.any_eq_true]
  constructor
  · rintro ⟨cell, hFind, hp⟩
    have hKey : cell.1 = key := by simpa using List.find?_some hFind
    subst hKey
    exact ⟨cell.2, List.mem_of_find?_eq_some hFind, hp⟩
  · rintro ⟨v, hMem, hp⟩
    have hFound : (cells.find? fun cell => cell.1 = key).isSome := by
      rw [List.find?_isSome]
      exact ⟨_, hMem, by simp⟩
    obtain ⟨cell, hCell⟩ := Option.isSome_iff_exists.mp hFound
    have hKey : cell.1 = key := by simpa using List.find?_some hCell
    have hSame : cell = (key, v) :=
      List.inj_on_of_nodup_map hKeys (List.mem_of_find?_eq_some hCell) hMem hKey
    exact ⟨cell, hCell, hSame ▸ hp⟩

section

variable {launches : List Cells} {threshold low high : ℝ}

/-- Counting the slow instances of a placement. -/
theorem mem_slowShare (hSlow : ∀ v ∈ allTimes launches, v > threshold ↔ high ≤ v)
    (placement : Int) (share : ℝ) : (placement, share) ∈ slowShare threshold launches.flatten ↔
      placedTimes launches placement ≠ [] ∧
        share = ((placedTimes launches placement).countP fun v =>
          open Classical in decide (high ≤ v) : ℝ) / (placedTimes launches placement).length := by
  classical
  have hCount : (launches.flatten.filter fun cell => cell.1.2 = placement).countP
      (isSlow threshold) = (placedTimes launches placement).countP fun v => decide (high ≤ v) := by
    rw [placedTimes, List.countP_map]
    apply List.countP_congr
    intro cell hCell
    obtain ⟨cells, hCells, hIn⟩ := List.mem_flatten.mp (List.mem_of_mem_filter hCell)
    have hIff := hSlow cell.2 (mem_allTimes.mpr ⟨cells, hCells, cell, hIn, rfl⟩)
    simpa [isSlow] using hIff
  have hPlaced : placement ∈ (launches.flatten.map fun cell => cell.1.2) ↔
      placedTimes launches placement ≠ [] := by
    rw [placedTimes, Ne, List.map_eq_nil_iff, List.filter_eq_nil_iff, List.mem_map]
    push Not
    exact ⟨fun ⟨cell, hCell, hEq⟩ => ⟨cell, hCell, by simpa using hEq⟩,
      fun ⟨cell, hCell, hEq⟩ => ⟨cell, hCell, by simpa using hEq⟩⟩
  unfold slowShare
  dsimp only
  rw [List.mem_map, ← hPlaced, ← hCount]
  have hLength : (placedTimes launches placement).length =
      (launches.flatten.filter fun cell => cell.1.2 = placement).length := List.length_map _
  rw [hLength]
  constructor
  · rintro ⟨p, hp, hEq⟩
    obtain ⟨rfl, rfl⟩ := Prod.mk.inj hEq
    exact ⟨List.mem_dedup.mp (List.mem_mergeSort.mp hp), rfl⟩
  · rintro ⟨hp, rfl⟩
    exact ⟨placement, List.mem_mergeSort.mpr (List.mem_dedup.mpr hp), rfl⟩

theorem slowInBoth_iff (hSlow : ∀ v ∈ allTimes launches, v > threshold ↔ high ≤ v)
    {cells : Cells} (hCells : cells ∈ launches) (hKeys : (cells.map Prod.fst).Nodup) :
    slowInBoth threshold cells = true ↔ BothSlow high cells := by
  have hTier : ∀ key v, (key, v) ∈ cells → (isSlow threshold (key, v) = true ↔ high ≤ v) := by
    intro key v hMem
    rw [← hSlow v (mem_allTimes.mpr ⟨cells, hCells, _, hMem, rfl⟩)]
    exact decide_eq_true_iff
  unfold slowInBoth
  dsimp only
  rw [List.any_eq_true]
  constructor
  · rintro ⟨cell, -, hBoth⟩
    obtain ⟨hZero, hOne⟩ := Bool.and_eq_true_iff.mp hBoth
    obtain ⟨v, hv, hvSlow⟩ := (find?_any_iff hKeys _ _).mp hZero
    obtain ⟨w, hw, hwSlow⟩ := (find?_any_iff hKeys _ _).mp hOne
    exact ⟨cell.1.1, v, w, hv, (hTier _ v hv).mp hvSlow, hw, (hTier _ w hw).mp hwSlow⟩
  · rintro ⟨region, v, w, hv, hvHigh, hw, hwHigh⟩
    exact ⟨_, hv, Bool.and_eq_true_iff.mpr
      ⟨(find?_any_iff hKeys _ _).mpr ⟨v, hv, (hTier _ v hv).mpr hvHigh⟩,
        (find?_any_iff hKeys _ _).mpr ⟨w, hw, (hTier _ w hw).mpr hwHigh⟩⟩⟩

/-- Where the threshold sorts the times as the cut does, the summary is that of the cut. -/
theorem tierSummary_spec {gap : ℝ}
    (hSplit : tierThreshold (allTimes launches) = some (threshold, gap))
    (hSlow : ∀ v ∈ allTimes launches, v > threshold ↔ high ≤ v)
    (hFast : ∀ v ∈ allTimes launches, ¬ v > threshold ↔ v ≤ low)
    (hLow : low ∈ allTimes launches) (hHigh : high ∈ allTimes launches) :
    ∃ s, tierSummary launches = some s ∧ s.threshold = threshold ∧ s.gap = gap ∧
      Summarizes launches low high s := by
  have hMem : ∀ cells ∈ launches, ∀ cell ∈ cells, cell.2 ∈ allTimes launches :=
    fun cells hCells cell hCell => mem_allTimes.mpr ⟨cells, hCells, cell, hCell, rfl⟩
  have hSlowTier : ∀ cells ∈ launches, ∀ cell ∈ cells,
      isSlow threshold cell = true ↔ high ≤ cell.2 := fun cells hCells cell hCell =>
    decide_eq_true_iff.trans (hSlow cell.2 (hMem cells hCells cell hCell))
  have hFastTier : ∀ cells ∈ launches, ∀ cell ∈ cells,
      (!isSlow threshold cell) = true ↔ cell.2 ≤ low := by
    intro cells hCells cell hCell
    rw [← hFast cell.2 (hMem cells hCells cell hCell), isSlow, Bool.not_eq_true',
      decide_eq_false_iff_not]
  have hSlowLevels := levels_eq (isSlow threshold) (high ≤ ·) hSlowTier
  have hFastLevels := levels_eq (fun cell => !isSlow threshold cell) (· ≤ low) hFastTier
  -- both tiers are now told by a bound on the value, not by the threshold
  unfold tierSummary
  dsimp only
  change ∃ s, (tierThreshold (allTimes launches)).map _ = some s ∧ _
  rw [hSplit]
  refine ⟨_, rfl, rfl, rfl, ?_⟩
  exact {
    fast_eq := hFastLevels
    slow_eq := hSlowLevels
    fast_ne_nil := hFastLevels.trans_ne (tierLevels_ne_nil hLow le_rfl)
    slow_ne_nil := hSlowLevels.trans_ne (tierLevels_ne_nil hHigh le_rfl)
    mem_share := mem_slowShare hSlow
    both_eq := by
      classical
      intro hKeys
      apply List.countP_congr
      intro cells hCells
      rw [slowInBoth_iff hSlow hCells (hKeys cells hCells), decide_eq_true_iff] }

end

/-- The code's cut, and what the threshold says of the values. -/
theorem tierThreshold_some {values : List ℝ} (hPos : ∀ v ∈ values, 0 < v) {threshold gap : ℝ}
    (hSplit : tierThreshold values = some (threshold, gap)) :
    ∃ (i : Nat) (low high : ℝ), BestCut values.mergeSort i ∧
      values.mergeSort[i - 1]? = some low ∧ values.mergeSort[i]? = some high ∧
      low < threshold ∧ threshold < high ∧ gap = high / low ∧
      ∀ k v, values.mergeSort[k]? = some v →
        (v > threshold ↔ i ≤ k) ∧ (v > threshold ↔ high ≤ v) ∧ (¬ v > threshold ↔ v ≤ low) := by
  rcases tierThreshold_spec hPos with ⟨hNone, -⟩ | ⟨i, hi, hBest, hValue⟩
  · rw [hNone] at hSplit
    cases hSplit
  · rw [hValue] at hSplit
    obtain ⟨hThreshold, hGap⟩ := Prod.mk.inj (Option.some.inj hSplit)
    obtain ⟨_, hI0, hNe⟩ := hBest.isCut
    have hLow : 0 < values.mergeSort[i - 1] := mergeSort_pos hPos _ (List.getElem_mem _)
    have hLt : values.mergeSort[i - 1] < values.mergeSort[i] :=
      lt_of_le_of_ne (sorted_le (by omega) hi) (Ne.symm hNe)
    obtain ⟨hLeft, hRight⟩ := sqrt_between hLow hLt
    rw [hThreshold] at hLeft hRight
    refine ⟨i, values.mergeSort[i - 1], values.mergeSort[i], hBest, List.getElem?_eq_getElem _,
      List.getElem?_eq_getElem _, hLeft, hRight, hGap.symm, fun k v hk => ?_⟩
    obtain ⟨hkLt, rfl⟩ := List.getElem?_eq_some_iff.mp hk
    -- from the cut on the values are large, before it they are small
    have hAbove : i ≤ k → values.mergeSort[i] ≤ values.mergeSort[k] := fun hik => sorted_le hik hkLt
    have hBelow : ¬ i ≤ k → values.mergeSort[k] ≤ values.mergeSort[i - 1] :=
      fun hki => sorted_le (by omega) (by omega)
    by_cases hik : i ≤ k
    · have hGt : values.mergeSort[k] > threshold := hRight.trans_le (hAbove hik)
      exact ⟨⟨fun _ => hik, fun _ => hGt⟩, ⟨fun _ => hAbove hik, fun _ => hGt⟩,
        ⟨fun hNot => absurd hGt hNot, fun hLe => absurd (hLe.trans_lt hLeft) (not_lt.mpr hGt.le)⟩⟩
    · have hNot : ¬ values.mergeSort[k] > threshold :=
        not_lt.mpr ((hBelow hik).trans hLeft.le)
      exact ⟨⟨fun hGt => absurd hGt hNot, fun hLe => absurd hLe hik⟩,
        ⟨fun hGt => absurd hGt hNot, fun hLe => absurd (hRight.trans_le hLe) hNot⟩,
        ⟨fun _ => hBelow hik, fun _ => hNot⟩⟩

/-- The split is the first optimal one, its threshold separates the two groups, the summary sorts
the instances of each launch by them, and a factor on all values moves the threshold only. -/
theorem tierThreshold_optimal {values : List ℝ} (hPos : ∀ v ∈ values, 0 < v) :
    (tierThreshold values = none ↔ ∀ v ∈ values, ∀ w ∈ values, v = w) ∧
    (∀ threshold gap, tierThreshold values = some (threshold, gap) →
      ∃ (i : Nat) (low high : ℝ), BestCut values.mergeSort i ∧
        values.mergeSort[i - 1]? = some low ∧ values.mergeSort[i]? = some high ∧
        low < threshold ∧ threshold < high ∧ gap = high / low ∧
        (∀ k v, values.mergeSort[k]? = some v → (v > threshold ↔ i ≤ k)) ∧
        (∃ v ∈ values, v > threshold) ∧ (∃ v ∈ values, ¬ v > threshold) ∧
        ∀ launches : List Cells, allTimes launches = values →
          ∃ s, tierSummary launches = some s ∧ s.threshold = threshold ∧ s.gap = gap ∧
            Summarizes launches low high s) ∧
    (∀ c > 0, tierThreshold (values.map (c * ·)) =
      (tierThreshold values).map fun split => (c * split.1, split.2)) ∧
    ∀ launches : List Cells, allTimes launches = values →
      (tierSummary launches = none ↔ tierThreshold values = none) ∧
      ∀ c > 0, tierSummary (launches.map (scaleCells c)) = (tierSummary launches).map fun s =>
        { s with threshold := c * s.threshold, fast := s.fast.map (c * ·),
                 slow := s.slow.map (c * ·) } := by
  refine ⟨?_, fun threshold gap hSplit => ?_, fun c hc => tierThreshold_scale hc hPos,
    fun launches hLaunches => ?_⟩
  · rw [← no_cut_iff]
    constructor
    · intro hNone
      rcases tierThreshold_spec hPos with ⟨-, hNo⟩ | ⟨i, _, -, hValue⟩
      · exact hNo
      · rw [hValue] at hNone
        cases hNone
    · intro hNo
      rcases tierThreshold_spec hPos with ⟨hNone, -⟩ | ⟨i, -, hBest, -⟩
      · exact hNone
      · exact absurd hBest.isCut (hNo i)
  -- no value lies between low and high, so the threshold splits the values as the cut does
  · obtain ⟨i, low, high, hBest, hLow, hHigh, hLeft, hRight, hGap, hAt⟩ :=
      tierThreshold_some hPos hSplit
    have hMemLow : low ∈ values := List.mem_mergeSort.mp (List.mem_of_getElem? hLow)
    have hMemHigh : high ∈ values := List.mem_mergeSort.mp (List.mem_of_getElem? hHigh)
    have hTiers : ∀ v ∈ values, (v > threshold ↔ high ≤ v) ∧ (¬ v > threshold ↔ v ≤ low) := by
      intro v hv
      obtain ⟨k, hk⟩ := List.mem_iff_getElem?.mp (List.mem_mergeSort.mpr hv)
      exact (hAt k v hk).2
    refine ⟨i, low, high, hBest, hLow, hHigh, hLeft, hRight, hGap, fun k v hk => (hAt k v hk).1,
      ⟨high, hMemHigh, hRight⟩, ⟨low, hMemLow, not_lt.mpr hLeft.le⟩, ?_⟩
    rintro launches rfl
    exact tierSummary_spec hSplit (fun v hv => (hTiers v hv).1) (fun v hv => (hTiers v hv).2)
      hMemLow hMemHigh
  · subst hLaunches
    exact ⟨Option.map_eq_none_iff, fun c hc => tierSummary_scale hc hPos⟩

/-- One launch has an instance of 1 ns and one of 4 ns, another only one of 4 ns: its level is
missing from the fast tier. -/
theorem tierThreshold_optimal_two :
    ∃ s, tierSummary [[((0, 0), 1), ((0, 1), 4)], [((0, 0), 4)]] = some s ∧
      1 < s.threshold ∧ s.threshold < 4 ∧ s.gap = 4 ∧ s.fast = [1] ∧ s.slow = [4, 4] := by
  have hPos : ∀ v ∈ ([1, 4, 4] : List ℝ), 0 < v := by
    intro v hv
    fin_cases hv <;> norm_num
  have hOptimal := tierThreshold_optimal hPos
  have hSorted : ([1, 4, 4] : List ℝ).mergeSort = [1, 4, 4] :=
    List.mergeSort_of_pairwise (by norm_num)
  have hSplit : tierThreshold [1, 4, 4] ≠ none := by
    intro hNone
    have hEq := hOptimal.1.mp hNone 1 (by simp) 4 (by simp)
    norm_num at hEq
  obtain ⟨⟨threshold, gap⟩, hSome⟩ := Option.ne_none_iff_exists'.mp hSplit
  obtain ⟨i, low, high, -, hLow, hHigh, hLeft, hRight, hGap, -, -, -, hStudy⟩ :=
    hOptimal.2.1 threshold gap hSome
  rw [hSorted] at hLow hHigh
  have hEnds : low = 1 ∧ high = 4 := by
    have hLt : low < high := hLeft.trans hRight
    rcases i with _ | _ | _ | i
    · simp at hLow hHigh
      linarith
    · simp at hLow hHigh
      exact ⟨hLow.symm, hHigh.symm⟩
    · simp at hLow hHigh
      linarith
    · simp at hHigh
  obtain ⟨rfl, rfl⟩ := hEnds
  obtain ⟨s, hSummary, rfl, rfl, hTiers⟩ :=
    hStudy [[((0, 0), 1), ((0, 1), 4)], [((0, 0), 4)]] (by simp [allTimes])
  refine ⟨s, hSummary, hLeft, hRight, by simpa using hGap, ?_, ?_⟩
  · rw [hTiers.fast_eq]
    simp [tierLevels, median]
  · rw [hTiers.slow_eq]
    simp [tierLevels, median]

end BenchReport

end MatchingMachine
