import Mathlib

/-!
# Mid-ranks

The mid-rank of a value in a list is the average of the positions that the values equal to it take
when the list is sorted.  It is defined by counting, so that it depends on the order of the values
only.
-/

namespace MatchingMachine

/-- Pairs counted by their first or by their second element. -/
theorem sum_countP_comm {α β : Type} (r : α → β → Bool) (xs : List α) (ys : List β) :
    (xs.map fun x => ys.countP fun y => r x y).sum =
      (ys.map fun y => xs.countP fun x => r x y).sum := by
  induction xs with
  | nil => simp
  | cons x xs ih =>
      have hFirst : ∀ zs : List β, (zs.map fun y => (x :: xs).countP fun x => r x y).sum =
          (zs.map fun y => xs.countP fun x => r x y).sum + zs.countP fun y => r x y := by
        intro zs
        induction zs with
        | nil => rfl
        | cons y zs ihz =>
            simp only [List.map_cons, List.sum_cons, List.countP_cons] at ihz ⊢
            omega
      rw [List.map_cons, List.sum_cons, hFirst, ih, Nat.add_comm]

variable {α β : Type} [LinearOrder α] [LinearOrder β]

/-- The values below `v`, and half of the values equal to `v` and one more. -/
def midRank (values : List α) (v : α) : ℚ :=
  (values.countP fun w => w < v) + ((values.countP fun w => w = v) + 1) / 2

/-- A value is above, below or equal to any other. -/
theorem countP_trichotomy (values : List α) (v : α) :
    (values.countP fun w => w < v) + (values.countP fun w => w = v) +
      (values.countP fun w => v < w) = values.length := by
  induction values with
  | nil => rfl
  | cons w values ih =>
      simp only [List.countP_cons, List.length_cons, decide_eq_true_eq]
      rcases lt_trichotomy w v with h | h | h
      · simp only [h, h.ne, h.not_gt, if_true, if_false]
        omega
      · simp only [h, lt_irrefl, if_true, if_false]
        omega
      · simp only [h, h.ne', h.not_gt, if_true, if_false]
        omega

/-- The mid-ranks of `n` values add up to `n (n + 1) / 2`. -/
theorem sum_midRank (values : List α) :
    (values.map (midRank values)).sum = (values.length * (values.length + 1) : ℚ) / 2 := by
  have hSwap := sum_countP_comm (fun v w : α => decide (w < v)) values values
  have hCount : ∀ xs : List α, 2 * (xs.map (midRank values)).sum =
      ((xs.map fun v => values.countP fun w => w < v).sum : ℚ) + xs.length +
        (((xs.map fun v => values.countP fun w => w < v).sum : ℚ) +
          (xs.map fun v => values.countP fun w => w = v).sum) := by
    intro xs
    induction xs with
    | nil => simp
    | cons v xs ih =>
        simp only [List.map_cons, List.sum_cons, List.length_cons, midRank] at ih ⊢
        simp only [Nat.cast_add, Nat.cast_one]
        linarith
  have hAll : ∀ xs : List α, (xs.map fun v => values.countP fun w => w < v).sum +
      (xs.map fun v => values.countP fun w => w = v).sum +
        (xs.map fun v => values.countP fun w => v < w).sum = xs.length * values.length := by
    intro xs
    induction xs with
    | nil => simp
    | cons v xs ih =>
        have hTri := countP_trichotomy values v
        simp only [List.map_cons, List.sum_cons, List.length_cons, Nat.succ_mul] at ih ⊢
        omega
  have hSquare : (((values.map fun v => values.countP fun w => w < v).sum : ℕ) : ℚ) +
      (values.map fun v => values.countP fun w => w = v).sum +
        (values.map fun v => values.countP fun w => w < v).sum = values.length * values.length := by
    have hPairs := hAll values
    rw [← hSwap] at hPairs
    exact_mod_cast hPairs
  have hTwice := hCount values
  linarith

/-! ## Relative order -/

/-- Lists whose values are in the same relative order. -/
structure SameRelativeOrder (xs : List α) (ys : List β) : Prop where
  length_eq : xs.length = ys.length
  lt_iff : ∀ k l (hk : k < xs.length) (hl : l < xs.length),
    xs[k] < xs[l] ↔ ys[k] < ys[l]

theorem SameRelativeOrder.map_strictMono {f : α → β} (hf : StrictMono f) (xs : List α) :
    SameRelativeOrder xs (xs.map f) where
  length_eq := (List.length_map f).symm
  lt_iff k l hk hl := by
    rw [List.getElem_map, List.getElem_map, hf.lt_iff_lt]

theorem SameRelativeOrder.eq_iff {xs : List α} {ys : List β} (h : SameRelativeOrder xs ys) {k l : Nat}
    (hk : k < xs.length) (hl : l < xs.length) (hk' : k < ys.length) (hl' : l < ys.length) :
    xs[k] = xs[l] ↔ ys[k] = ys[l] := by
  rw [eq_iff_le_not_lt, eq_iff_le_not_lt, ← not_lt, ← not_lt, h.lt_iff k l hk hl,
    h.lt_iff l k hl hk]

omit [LinearOrder α] [LinearOrder β] in
/-- A property of positions, counted in two lists of one length. -/
theorem countP_congr_position {xs : List α} {ys : List β} (hLength : xs.length = ys.length)
    {p : α → Bool} {q : β → Bool}
    (h : ∀ k (hx : k < xs.length) (hy : k < ys.length), p xs[k] = q ys[k]) :
    xs.countP p = ys.countP q := by
  induction xs generalizing ys with
  | nil =>
      rw [List.length_eq_zero_iff.mp hLength.symm]
      rfl
  | cons x xs ih =>
      cases ys with
      | nil => cases hLength
      | cons y ys =>
          have hHead : p x = q y := h 0 (by simp) (by simp)
          have hTail := ih (Nat.succ.inj hLength) fun k hx hy =>
            h (k + 1) (Nat.succ_lt_succ hx) (Nat.succ_lt_succ hy)
          rw [List.countP_cons, List.countP_cons, hHead, hTail]

/-- Mid-ranks depend on the relative order only. -/
theorem SameRelativeOrder.midRank_eq {xs : List α} {ys : List β} (h : SameRelativeOrder xs ys) {k : Nat}
    (hx : k < xs.length) (hy : k < ys.length) : midRank xs xs[k] = midRank ys ys[k] := by
  have hLt : xs.countP (fun w => w < xs[k]) = ys.countP fun w => w < ys[k] :=
    countP_congr_position h.length_eq fun l hl _ => by
      rw [decide_eq_decide]
      exact h.lt_iff l k hl hx
  have hEq : xs.countP (fun w => w = xs[k]) = ys.countP fun w => w = ys[k] :=
    countP_congr_position h.length_eq fun l hl _ => by
      rw [decide_eq_decide]
      exact h.eq_iff hl hx _ hy
  rw [midRank, hLt, hEq, midRank]

/-- Rearranged values keep their mid-ranks. -/
theorem midRank_perm {xs ys : List α} (h : xs.Perm ys) (v : α) : midRank xs v = midRank ys v := by
  rw [midRank, h.countP_eq, h.countP_eq, midRank]

/-- At most one value occurs. -/
theorem dedup_length_lt_two_iff (xs : List α) :
    xs.dedup.length < 2 ↔ ∀ a ∈ xs, ∀ b ∈ xs, a = b := by
  have hNodup := List.nodup_dedup xs
  constructor
  · intro hLt a ha b hb
    rw [← List.mem_dedup] at ha hb
    match hDedup : xs.dedup with
    | [] => simp [hDedup] at ha
    | [c] =>
        rw [hDedup, List.mem_singleton] at ha hb
        rw [ha, hb]
    | c :: d :: rest =>
        rw [hDedup, List.length_cons, List.length_cons] at hLt
        omega
  · intro hAll
    by_contra hGe
    match hDedup : xs.dedup with
    | [] => simp [hDedup] at hGe
    | [a] => simp [hDedup] at hGe
    | a :: b :: rest =>
        have ha : a ∈ xs := List.mem_dedup.mp (by simp [hDedup])
        have hb : b ∈ xs := List.mem_dedup.mp (by simp [hDedup])
        rw [hDedup, hAll a ha b hb] at hNodup
        simp at hNodup

theorem SameRelativeOrder.dedup_length_lt_two {xs : List α} {ys : List β} (h : SameRelativeOrder xs ys) :
    xs.dedup.length < 2 ↔ ys.dedup.length < 2 := by
  rw [dedup_length_lt_two_iff, dedup_length_lt_two_iff]
  constructor
  · intro hxs a ha b hb
    obtain ⟨k, hk, rfl⟩ := List.getElem_of_mem ha
    obtain ⟨l, hl, rfl⟩ := List.getElem_of_mem hb
    have hk' : k < xs.length := h.length_eq ▸ hk
    have hl' : l < xs.length := h.length_eq ▸ hl
    exact (h.eq_iff hk' hl' hk hl).mp (hxs _ (List.getElem_mem _) _ (List.getElem_mem _))
  · intro hys a ha b hb
    obtain ⟨k, hk, rfl⟩ := List.getElem_of_mem ha
    obtain ⟨l, hl, rfl⟩ := List.getElem_of_mem hb
    have hk' : k < ys.length := h.length_eq ▸ hk
    have hl' : l < ys.length := h.length_eq ▸ hl
    exact (h.eq_iff hk hl hk' hl').mpr (hys _ (List.getElem_mem _) _ (List.getElem_mem _))

end MatchingMachine
