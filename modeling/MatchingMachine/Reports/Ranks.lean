import MatchingMachine.Lib.MidRank
import MatchingMachine.Model.BenchReport

/-!
# The ranks of the report are mid-ranks

The outer loop of `ranks` takes the runs of equal values one by one.  `Ranked` is its invariant:
the positions before `i` hold their mid-ranks, and their values are below all that follow.
-/

namespace MatchingMachine

namespace BenchReport

variable {α : Type} [LinearOrder α] {values : List α} {order : List (Fin values.length)}

/-! ## A run of equal values -/

/-- The inner loop stops where the values equal to the first one end. -/
theorem runEnd_eq (order : List (Fin values.length)) (first : Fin values.length) (j : Nat) :
    runEnd values order first j =
      j + ((order.drop (j + 1)).takeWhile fun k => values.get k = values.get first).length := by
  fun_induction runEnd with
  | case1 j hj hEq ih =>
      rw [ih, List.drop_eq_getElem_cons hj, List.takeWhile_cons_of_pos (by simpa using hEq),
        List.length_cons]
      omega
  | case2 j hj hNe =>
      rw [List.drop_eq_getElem_cons hj, List.takeWhile_cons_of_neg (by simpa using hNe),
        List.length_nil, Nat.add_zero]
  | case3 j hj =>
      rw [List.drop_eq_nil_of_le (by omega), List.takeWhile_nil, List.length_nil, Nat.add_zero]

/-- Writing one value to the positions in a list. -/
theorem getElem?_foldl_set {n : Nat} (ks : List (Fin n)) (x : ℚ) (out : List ℚ) (k : Fin n)
    (hOut : out.length = n) :
    (ks.foldl (fun out k => out.set k x) out)[(k : Nat)]? =
      if k ∈ ks then some x else out[(k : Nat)]? := by
  induction ks generalizing out with
  | nil => simp
  | cons l ks ih =>
      rw [List.foldl_cons, ih _ (by simpa using hOut), List.getElem?_set]
      by_cases hMem : k ∈ ks
      · simp [hMem]
      · by_cases hl : l = k
        · subst hl
          simp [hOut]
        · have hNe : (l : Nat) ≠ k := fun h => hl (Fin.ext h)
          simp [hMem, hNe, Ne.symm hl]

theorem length_foldl_set {n : Nat} (ks : List (Fin n)) (x : ℚ) (out : List ℚ) :
    (ks.foldl (fun out k => out.set k x) out).length = out.length := by
  induction ks generalizing out with
  | nil => rfl
  | cons l ks ih => rw [List.foldl_cons, ih, List.length_set]

omit [LinearOrder α] in
/-- Counting values in the order of a permutation of their positions. -/
theorem countP_values (hPerm : order.Perm (List.finRange values.length)) (p : α → Bool) :
    values.countP p = order.countP fun k => p (values.get k) := by
  have hValues : (List.finRange values.length).map values.get = values := List.map_get_finRange _
  calc values.countP p
      = ((List.finRange values.length).map values.get).countP p := by rw [hValues]
    _ = (List.finRange values.length).countP fun k => p (values.get k) := List.countP_map ..
    _ = order.countP fun k => p (values.get k) := (hPerm.countP_eq _).symm

/-- The mid-rank of a value whose run stands between smaller and larger values. -/
theorem midRank_of_split (hPerm : order.Perm (List.finRange values.length)) {v : α}
    {before run after : List (Fin values.length)} (hSplit : order = before ++ run ++ after)
    (hBefore : ∀ k ∈ before, values.get k < v) (hRun : ∀ k ∈ run, values.get k = v)
    (hAfter : ∀ k ∈ after, v < values.get k) :
    midRank values v = before.length + ((run.length : ℚ) + 1) / 2 := by
  have hLess : values.countP (fun w => w < v) = before.length := by
    rw [countP_values hPerm, hSplit, List.countP_append, List.countP_append,
      List.countP_eq_length.mpr fun k hk => decide_eq_true (hBefore k hk),
      List.countP_eq_zero.mpr fun k hk => by simpa using (hRun k hk).ge,
      List.countP_eq_zero.mpr fun k hk => by simpa using (hAfter k hk).le]
    omega
  have hEqual : values.countP (fun w => w = v) = run.length := by
    rw [countP_values hPerm, hSplit, List.countP_append, List.countP_append,
      List.countP_eq_zero.mpr fun k hk => by simpa using (hBefore k hk).ne,
      List.countP_eq_length.mpr fun k hk => decide_eq_true (hRun k hk),
      List.countP_eq_zero.mpr fun k hk => by simpa using (hAfter k hk).ne']
    omega
  rw [midRank, hLess, hEqual]

/-! ## The outer loop -/

/-- The invariant of the outer loop at `i`. -/
structure Ranked (values : List α) (order : List (Fin values.length)) (i : Nat) (out : List ℚ) :
    Prop where
  length_eq : out.length = values.length
  before_lt : ∀ k ∈ order.take i, ∀ l ∈ order.drop i, values.get k < values.get l
  ranked : ∀ k ∈ order.take i, out[(k : Nat)]? = some (midRank values (values.get k))

/-- The run that begins at `i` is followed by larger values only. -/
theorem exists_run (hSorted : order.Pairwise fun k l => values.get k ≤ values.get l) {i : Nat}
    (hi : i < order.length) :
    ∃ run after, order.drop i = run ++ after ∧
      run.length = runEnd values order order[i] i + 1 - i ∧
      (∀ k ∈ run, values.get k = values.get order[i]) ∧
      ∀ k ∈ after, values.get order[i] < values.get k := by
  have hDrop := List.drop_eq_getElem_cons hi
  have hSuffix : (order.drop i).Pairwise fun k l => values.get k ≤ values.get l := hSorted.drop
  rw [hDrop] at hSuffix
  obtain ⟨hLe, hRest⟩ := List.pairwise_cons.mp hSuffix
  -- in sorted order equal values stand together, so the run is what takeWhile takes
  let same : Fin values.length → Bool := fun k => decide (values.get k = values.get order[i])
  refine ⟨order[i] :: (order.drop (i + 1)).takeWhile same, (order.drop (i + 1)).dropWhile same,
    ?_, ?_, ?_, ?_⟩
  · rw [hDrop, List.cons_append, List.takeWhile_append_dropWhile]
  · have hEnd : runEnd values order order[i] i =
        i + ((order.drop (i + 1)).takeWhile same).length := runEnd_eq order order[i] i
    rw [hEnd, List.length_cons]
    omega
  · intro k hk
    rcases List.mem_cons.mp hk with rfl | hk
    · rfl
    · have hSame : same k = true := List.mem_takeWhile_imp hk
      exact of_decide_eq_true hSame
  · have hSub : ((order.drop (i + 1)).dropWhile same).Sublist (order.drop (i + 1)) :=
      List.dropWhile_sublist _
    have hHead := List.head?_dropWhile_not same (order.drop (i + 1))
    cases hAfter : (order.drop (i + 1)).dropWhile same with
    | nil => simp
    | cons b after =>
        rw [hAfter] at hHead hSub
        have hb : values.get order[i] < values.get b :=
          lt_of_le_of_ne (hLe b (hSub.subset List.mem_cons_self))
            (Ne.symm (of_decide_eq_false hHead))
        intro k hk
        rcases List.mem_cons.mp hk with rfl | hk
        · exact hb
        · exact hb.trans_le ((List.pairwise_cons.mp (hRest.sublist hSub)).1 k hk)

/-- One turn of the outer loop ranks the run of equal values that begins at `i`. -/
theorem Ranked.step (hPerm : order.Perm (List.finRange values.length))
    (hSorted : order.Pairwise fun k l => values.get k ≤ values.get l) {i : Nat} {out : List ℚ}
    (hi : i < order.length) (h : Ranked values order i out) :
    Ranked values order (runEnd values order order[i] i + 1)
      (writeRanks order i (runEnd values order order[i] i) out) := by
  obtain ⟨run, after, hDrop, hLength, hEqual, hGreater⟩ := exists_run hSorted hi
  have hFirst : order[i] ∈ order.drop i := by
    rw [List.drop_eq_getElem_cons hi]
    exact List.mem_cons_self
  have hLess : ∀ k ∈ order.take i, values.get k < values.get order[i] := fun k hk =>
    h.before_lt k hk _ hFirst
  have hLe := le_runEnd values order order[i] i
  generalize hj : runEnd values order order[i] i = j at hLength hLe
  generalize values.get order[i] = v at hEqual hGreater hLess
  -- smaller values, the run of equal ones, greater values
  have hSplit : order = order.take i ++ run ++ after := by
    rw [List.append_assoc, ← hDrop, List.take_append_drop]
  have hEnd : (order.take i ++ run).length = j + 1 := by
    rw [List.length_append, List.length_take, hLength]
    omega
  have hTake : order.take (j + 1) = order.take i ++ run := by
    conv_lhs => rw [hSplit]
    exact List.take_left' hEnd
  have hLeft : order.drop (j + 1) = after := by
    conv_lhs => rw [hSplit]
    exact List.drop_left' hEnd
  have hRun : (order.drop i).take (j + 1 - i) = run := by
    rw [hDrop]
    exact List.take_left' hLength
  have hRank := midRank_of_split hPerm hSplit hLess hEqual hGreater
  -- positions i to j, counted from 0: their ranks average (i + j) / 2 + 1
  have hValue : midRank values v = ((i + j : Nat) : ℚ) / 2 + 1 := by
    have hBefore : (order.take i).length = i := by
      rw [List.length_take]
      omega
    rw [hRank, hBefore, hLength]
    push_cast [Nat.cast_sub (show i ≤ j + 1 by omega)]
    ring
  constructor
  · rw [writeRanks, length_foldl_set, h.length_eq]
  · rw [hTake, hLeft]
    intro k hk l hl
    rcases List.mem_append.mp hk with hk | hk
    · exact (hLess k hk).trans (hGreater l hl)
    · rw [hEqual k hk]
      exact hGreater l hl
  · rw [hTake]
    intro k hk
    rw [writeRanks, hRun, getElem?_foldl_set _ _ _ _ h.length_eq]
    split_ifs with hMem
    · rw [hEqual k hMem, hValue]
    · exact h.ranked k ((List.mem_append.mp hk).resolve_right hMem)

theorem ranksLoop_eq (hPerm : order.Perm (List.finRange values.length))
    (hSorted : order.Pairwise fun k l => values.get k ≤ values.get l) {i : Nat} {out : List ℚ}
    (h : Ranked values order i out) :
    ranksLoop values order i out = values.map (midRank values) := by
  fun_induction ranksLoop with
  | case1 i out hi j ih => exact ih (h.step hPerm hSorted hi)
  | case2 i out hi =>
      have hAll : order.take i = order := List.take_of_length_le (by omega)
      apply List.ext_getElem?
      intro k
      by_cases hk : k < values.length
      · have hMem : (⟨k, hk⟩ : Fin values.length) ∈ order.take i := by
          rw [hAll]
          exact hPerm.mem_iff.mpr (List.mem_finRange _)
        rw [h.ranked _ hMem, List.getElem?_map, List.getElem?_eq_getElem hk]
        rfl
      · rw [List.getElem?_eq_none (by rw [h.length_eq]; omega),
          List.getElem?_eq_none (by rw [List.length_map]; omega)]

/-- Every rank is the mid-rank of its value. -/
theorem ranks_eq (values : List α) : ranks values = values.map (midRank values) := by
  unfold ranks
  apply ranksLoop_eq
  · exact List.mergeSort_perm _ _
  · have hBool : ((List.finRange values.length).mergeSort
        fun k l => decide (values.get k ≤ values.get l)).Pairwise
          fun k l => decide (values.get k ≤ values.get l) = true :=
      List.pairwise_mergeSort
        (fun a b c hab hbc =>
          decide_eq_true ((of_decide_eq_true hab).trans (of_decide_eq_true hbc)))
        (fun a b => by simpa using le_total (values.get a) (values.get b)) _
    exact hBool.imp of_decide_eq_true
  · constructor
    · exact List.length_replicate
    · intro k hk
      cases hk
    · intro k hk
      cases hk

theorem length_ranks (values : List α) : (ranks values).length = values.length := by
  rw [ranks_eq, List.length_map]

/-! ## What depends on the order only -/

theorem ranks_sameRelativeOrder {β : Type} [LinearOrder β] {values' : List β}
    (h : SameRelativeOrder values values') : ranks values' = ranks values := by
  rw [ranks_eq, ranks_eq]
  apply List.ext_getElem
  · rw [List.length_map, List.length_map, h.length_eq]
  · intro k hk hk'
    rw [List.getElem_map, List.getElem_map]
    exact (h.midRank_eq (by simpa using hk') (by simpa using hk)).symm

theorem spearman_sameRelativeOrder {β γ δ : Type} [LinearOrder β] [LinearOrder γ] [LinearOrder δ]
    {values' : List β} {x : List γ} {y : List δ} (hValues : SameRelativeOrder values values')
    (h : SameRelativeOrder x y) : spearman values' y = spearman values x := by
  unfold spearman
  rw [ranks_sameRelativeOrder hValues, ranks_sameRelativeOrder h, hValues.length_eq]
  simp only [hValues.dedup_length_lt_two, h.dedup_length_lt_two]

/-- A rearranged list has its ranks rearranged alike. -/
theorem ranks_perm (values : List α) (σ : Equiv.Perm (Fin values.length)) :
    ranks (List.ofFn fun k => values.get (σ k)) =
      List.ofFn fun k => (ranks values).getD (σ k) 0 := by
  have hPerm : (List.ofFn fun k => values.get (σ k)).Perm values := by
    have hValues : List.ofFn values.get = values := List.ofFn_get values
    calc (List.ofFn fun k => values.get (σ k)).Perm (List.ofFn values.get) :=
          σ.ofFn_comp_perm values.get
      _ = values := hValues
  rw [ranks_eq, ranks_eq, List.map_ofFn]
  congr 1
  funext k
  have hGet : (values.map (midRank values)).getD (σ k) 0 = midRank values (values.get (σ k)) := by
    rw [List.getD_eq_getElem?_getD, List.getElem?_map, List.getElem?_eq_getElem (σ k).isLt]
    rfl
  rw [hGet]
  exact midRank_perm hPerm _

/-- `ranks` gives every position its mid-rank; the statistics computed from the ranks see no more
of the values than their order. -/
theorem ranks_midRanks (values : List α) :
    (ranks values).length = values.length ∧
    (∀ k (hk : k < values.length), (ranks values)[k]? = some
      ((values.countP fun w => w < values[k] : ℚ) +
        ((values.countP fun w => w = values[k]) + 1) / 2)) ∧
    (ranks values).sum = (values.length * (values.length + 1) : ℚ) / 2 ∧
    (∀ k l (hk : k < values.length) (hl : l < values.length), values[k] = values[l] →
      (ranks values)[k]? = (ranks values)[l]?) ∧
    (∀ (β : Type) [LinearOrder β] (f : α → β), StrictMono f → ranks (values.map f) = ranks values) ∧
    (∀ σ : Equiv.Perm (Fin values.length), ranks (List.ofFn fun k => values.get (σ k)) =
      List.ofFn fun k => (ranks values).getD (σ k) 0) ∧
    ∀ (β : Type) [LinearOrder β] (values' : List β), SameRelativeOrder values values' →
      (∀ (γ : Type) (shuffle : γ → List ℚ → List ℚ × γ) (sizes : List Nat) (n : Nat) (rng : γ),
        rankSumTest shuffle (ranks values') sizes n rng =
          rankSumTest shuffle (ranks values) sizes n rng) ∧
      ∀ (γ δ : Type) [LinearOrder γ] [LinearOrder δ] (x : List γ) (y : List δ),
        SameRelativeOrder x y →
          spearman values' y = spearman values x ∧ spearman y values' = spearman x values := by
  have hRank : ∀ k (hk : k < values.length),
      (ranks values)[k]? = some (midRank values values[k]) := by
    intro k hk
    rw [ranks_eq, List.getElem?_map, List.getElem?_eq_getElem hk]
    rfl
  refine ⟨length_ranks values, hRank, ?_, ?_, ?_, ranks_perm values, ?_⟩
  · rw [ranks_eq]
    exact sum_midRank values
  · intro k l hk hl hEq
    rw [hRank k hk, hRank l hl, hEq]
  · intro β _ f hf
    exact ranks_sameRelativeOrder (SameRelativeOrder.map_strictMono hf values)
  · intro β _ values' hValues
    constructor
    · intro γ shuffle sizes n rng
      rw [ranks_sameRelativeOrder hValues]
    · intro γ δ _ _ x y h
      exact ⟨spearman_sameRelativeOrder hValues h, spearman_sameRelativeOrder h hValues⟩

end BenchReport

end MatchingMachine
