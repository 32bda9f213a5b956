import MatchingMachine.Lib.Fallible
import MatchingMachine.Model.BenchRecord

/-!
# The intervals of a launch follow each other

`LineScanned` is the invariant of the loop over the lines: where the last line of each benchmark
ends, and that the benchmarks end in the order in which they appear.  The end marks are then in
order too, so that no time is negative.  What the clocks show from mark to mark adds up; the times
are rounded, and add up as far as rounding allows.
-/

namespace MatchingMachine

namespace BenchRecord

variable {lines : List (List UInt8)} {line : List UInt8} {name : Text} {s : LineScan}

/-! ## Lines -/

/-- The benchmark that a line belongs to, if any. -/
def benchmarkOf (line : List UInt8) : Option Text :=
  if isBenchmarkLine line then lineName line else none

/-- Where line `k` ends, counting a newline after each. -/
def lineEnd (lines : List (List UInt8)) (k : Nat) : Nat :=
  ((lines.take (k + 1)).map fun line => line.length + 1).sum

/-- Line `k` is the last one of a benchmark. -/
def IsLastLine (lines : List (List UInt8)) (name : Text) (k : Nat) : Prop :=
  (lines[k]?.bind (benchmarkOf)) = some name ∧
    ∀ l, k < l → (lines[l]?.bind (benchmarkOf)) ≠ some name

/-- Between two lines of a benchmark there are no lines of another. -/
def Contiguous (names : List Text) : Prop :=
  ∀ as bs cs name, names = as ++ name :: bs ++ name :: cs → ∀ b ∈ bs, b = name

theorem Contiguous.cons {names : List Text} (h : Contiguous names)
    (hHead : name ∈ names → names.head? = some name) : Contiguous (name :: names) := by
  rintro (_ | ⟨a, as⟩) bs cs other hSplit
  · simp only [List.nil_append, List.cons_append, List.cons.injEq] at hSplit
    obtain ⟨rfl, rfl⟩ := hSplit
    rcases bs with _ | ⟨b, bs⟩
    · simp
    · obtain rfl : b = name := by simpa using hHead (by simp)
      simpa using h [] bs cs b rfl
  · simp only [List.cons_append, List.cons.injEq] at hSplit
    exact h as bs cs other hSplit.2

theorem Contiguous.of_append {names more : List Text} (h : Contiguous (names ++ more)) :
    Contiguous names := by
  intro as bs cs name hNames
  apply h as bs (cs ++ more) name
  simp [hNames]

theorem lineEnd_le (k : Nat) : lineEnd lines k ≤ (lines.map fun line => line.length + 1).sum := by
  have h := congrArg (fun ls => (ls.map fun line => line.length + 1).sum)
    (List.take_append_drop (k + 1) lines)
  simp only [List.map_append, List.sum_append] at h
  unfold lineEnd
  omega

theorem lineEnd_append {k : Nat} (hk : k < lines.length) :
    lineEnd (lines ++ [line]) k = lineEnd lines k := by
  simp [lineEnd, List.take_append_of_le_length (Nat.succ_le_of_lt hk)]

theorem lineEnd_append_length :
    lineEnd (lines ++ [line]) lines.length =
      (lines.map fun line => line.length + 1).sum + (line.length + 1) := by
  simp [lineEnd]

theorem IsLastLine.lt_length {k : Nat} (h : IsLastLine lines name k) :
    k < lines.length := by
  by_contra hk
  have hNone : lines[k]? = none := List.getElem?_eq_none (by omega)
  simp [IsLastLine, hNone] at h

/-- A new line is the last one of its benchmark. -/
theorem isLastLine_append_self (h : benchmarkOf line = some name) (k : Nat) :
    IsLastLine (lines ++ [line]) name k ↔ k = lines.length := by
  constructor
  · intro hLast
    have hk := hLast.lt_length
    by_contra hNe
    have hLater : k < lines.length := by simp at hk; omega
    apply hLast.2 lines.length hLater
    simp [h]
  · rintro rfl
    constructor
    · simp [h]
    · intro l hl
      have hNone : (lines ++ [line])[l]? = none := List.getElem?_eq_none (by simp; omega)
      simp [hNone]

/-- Any other benchmark keeps its last line. -/
theorem isLastLine_append_of_ne (h : benchmarkOf line ≠ some name) (k : Nat) :
    IsLastLine (lines ++ [line]) name k ↔ IsLastLine lines name k := by
  have hSame : ∀ l : Nat, ((lines ++ [line])[l]?.bind (benchmarkOf) = some name) ↔
      (lines[l]?.bind (benchmarkOf) = some name) := by
    intro l
    rcases Nat.lt_trichotomy l lines.length with hl | rfl | hl
    · rw [List.getElem?_append_left hl]
    · simp [h]
    · have hNone : (lines ++ [line])[l]? = none := List.getElem?_eq_none (by simp; omega)
      have hNone' : lines[l]? = none := List.getElem?_eq_none (by omega)
      simp [hNone, hNone']
  simp only [IsLastLine, ne_eq, hSame]

/-! ## The scan -/

/-- After the lines in `lines`. -/
structure LineScanned (lines : List (List UInt8)) (s : LineScan) : Prop where
  offset_eq : s.offset = (lines.map fun line => line.length + 1).sum
  last_iff : ∀ name e, s.last name = some e ↔
    ∃ k, IsLastLine lines name k ∧ lineEnd lines k = e
  nodup : s.order.Nodup
  mem_iff : ∀ name, name ∈ s.order ↔ (s.last name).isSome
  sublist : s.order.Sublist (lines.filterMap (benchmarkOf))
  mem_order : ∀ name ∈ lines.filterMap (benchmarkOf), name ∈ s.order
  ordered : s.order.Pairwise fun a b => (s.last a).getD 0 ≤ (s.last b).getD 0
  last_eq : s.order.getLast? = (lines.filterMap (benchmarkOf)).getLast?

theorem LineScanned.last_le (h : LineScanned lines s) (name : Text) :
    (s.last name).getD 0 ≤ s.offset := by
  cases hLast : s.last name with
  | none => simp
  | some e =>
      obtain ⟨k, -, rfl⟩ := (h.last_iff name e).mp hLast
      simpa [h.offset_eq] using lineEnd_le k

/-- A line of benchmark `name`, which ends the order when it is in it. -/
theorem LineScanned.count (h : LineScanned lines s)
    (hLine : benchmarkOf line = some name) {before : List Text}
    (hBefore : s.order = before ∨ s.order = before ++ [name]) (hNew : name ∉ before) :
    LineScanned (lines ++ [line])
      { order := before ++ [name]
        last := Function.update s.last name (some (s.offset + (line.length + 1)))
        offset := s.offset + (line.length + 1) } where
  offset_eq := by simp [h.offset_eq]
  last_iff := by
    intro other e
    by_cases hOther : other = name
    · subst hOther
      simp only [Function.update_self, Option.some.injEq, isLastLine_append_self hLine,
        exists_eq_left, lineEnd_append_length, h.offset_eq]
    · have hNe : benchmarkOf line ≠ some other := by
        rw [hLine]
        simpa using fun h => hOther h.symm
      dsimp only
      rw [Function.update_of_ne hOther, h.last_iff]
      constructor
      · rintro ⟨k, hk, rfl⟩
        exact ⟨k, (isLastLine_append_of_ne hNe k).mpr hk, lineEnd_append hk.lt_length⟩
      · rintro ⟨k, hk, rfl⟩
        have hk' := (isLastLine_append_of_ne hNe k).mp hk
        exact ⟨k, hk', (lineEnd_append hk'.lt_length).symm⟩
  nodup := by
    have hNodup := h.nodup
    -- the name is new or the one of the line before
    rcases hBefore with hBefore | hBefore <;> rw [hBefore] at hNodup
    · simp only [List.nodup_append, List.nodup_singleton, List.mem_singleton, true_and]
      exact ⟨hNodup, fun a ha b hb hab => hNew (by rwa [← hb, ← hab])⟩
    · exact hNodup
  mem_iff := by
    intro other
    have hMem := h.mem_iff other
    by_cases hOther : other = name
    · simp [hOther]
    · dsimp only
      rw [Function.update_of_ne hOther, ← hMem]
      rcases hBefore with hBefore | hBefore <;> simp [hBefore, hOther]
  sublist := by
    have hSub := h.sublist
    rw [List.filterMap_append, List.filterMap_cons_some hLine]
    rcases hBefore with hBefore | hBefore <;> rw [hBefore] at hSub
    · exact hSub.append (List.Sublist.refl _)
    · exact (List.sublist_append_of_sublist_left hSub)
  mem_order := by
    intro other hMem
    rw [List.filterMap_append, List.filterMap_cons_some hLine, List.mem_append] at hMem
    rcases hMem with hMem | hMem
    · have hOrder := h.mem_order other hMem
      rcases hBefore with hBefore | hBefore
      · rw [hBefore] at hOrder
        simp [hOrder]
      · rwa [hBefore] at hOrder
    · simp at hMem
      simp [hMem]
  ordered := by
    have hOrdered : before.Pairwise fun a b => (s.last a).getD 0 ≤ (s.last b).getD 0 := by
      have hAll := h.ordered
      rcases hBefore with hBefore | hBefore <;> rw [hBefore] at hAll
      · exact hAll
      · exact (List.pairwise_append.mp hAll).1
    have hOld : ∀ a ∈ before, Function.update s.last name (some (s.offset + (line.length + 1))) a =
        s.last a := by
      intro a ha
      apply Function.update_of_ne
      rintro rfl
      exact hNew ha
    rw [List.pairwise_append]
    refine ⟨?_, by simp, ?_⟩
    · apply hOrdered.imp_of_mem
      intro a b ha hb hab
      simpa only [hOld a ha, hOld b hb] using hab
    · intro a ha b hb
      have hLe := h.last_le a
      simp only [List.mem_singleton] at hb
      simp only [hb, hOld a ha, Function.update_self, Option.getD_some]
      omega
  last_eq := by simp [List.filterMap_append, hLine]

/-- `mark` is the first one at which the output reached `offset`. -/
def FirstCovering (marks : List Mark) (offset : Nat) (mark : Mark) : Prop :=
  ∃ before after, marks = before ++ mark :: after ∧ offset ≤ mark.offset ∧
    ∀ m ∈ before, m.offset < offset

/-- No clock of `m'` is behind that of `m`. -/
def Mark.Le (m m' : Mark) : Prop := m.clock ≤ m'.clock ∧ m.cpu ≤ m'.cpu ∧ m.wait ≤ m'.wait

theorem Mark.Le.refl (m : Mark) : m.Le m := ⟨le_rfl, le_rfl, le_rfl⟩

variable {marks : List Mark} {first final : Mark}

/-- Of two offsets the smaller one is covered first. -/
theorem FirstCovering.le {e e' : Nat} {m m' : Mark} (hClocks : marks.Pairwise Mark.Le)
    (h : FirstCovering marks e m) (h' : FirstCovering marks e' m') (hee' : e ≤ e') :
    m.Le m' := by
  obtain ⟨before, after, rfl, -, hBefore⟩ := h
  obtain ⟨before', after', hMarks, hm', -⟩ := h'
  have hMem : m' ∈ before ++ m :: after := by simp [hMarks]
  simp only [List.mem_append, List.mem_cons] at hMem
  rcases hMem with hMem | rfl | hMem
  · have hLt := hBefore m' hMem
    omega
  · exact Mark.Le.refl _
  · have hSuffix := (List.pairwise_append.mp hClocks).2.1
    exact (List.pairwise_cons.mp hSuffix).1 m' hMem

theorem FirstCovering.mem {e : Nat} {m : Mark} (h : FirstCovering marks e m) : m ∈ marks := by
  obtain ⟨before, after, rfl, -⟩ := h
  simp

/-- What a clock shows from each mark in `start :: ends` to the next. -/
def steps (c : Mark → Int) : Mark → List Mark → List Int
  | _, [] => []
  | start, stop :: ends => (c stop - c start) :: steps c stop ends

/-- A number of ns as a float, divided by another one. -/
def quotient (d : ℚ) (n : Int) : ℚ := Binary64.round (Binary64.round n / d)

section

variable {last : Text → Option Nat} {start : Mark} {ends : List Mark} {c : Mark → Int} {d : ℚ}

/-- Between its first mark and its last a clock shows what it shows step by step. -/
theorem steps_sum (c : Mark → Int) (start : Mark) (ends : List Mark) :
    (steps c start ends).sum = c (ends.getLastD start) - c start := by
  induction ends generalizing start with
  | nil => simp [steps]
  | cons stop ends ih =>
      rw [steps, List.sum_cons, ih, List.getLastD_cons]
      ring

theorem steps_nonneg (hOrdered : (start :: ends).Pairwise fun m m' => c m ≤ c m') :
    ∀ n ∈ steps c start ends, 0 ≤ n := by
  induction ends generalizing start with
  | nil => simp [steps]
  | cons stop ends ih =>
      rw [List.pairwise_cons] at hOrdered
      rw [steps, List.forall_mem_cons]
      exact ⟨Int.sub_nonneg.mpr (hOrdered.1 stop (by simp)), ih hOrdered.2⟩

theorem quotient_nonneg (hd : 0 < d) {n : Int} (hn : 0 ≤ n) : 0 ≤ quotient d n :=
  Binary64.round_nonneg (div_nonneg (Binary64.round_nonneg (by exact_mod_cast hn)) hd.le)

/-- Rounding moves a sum by as little as its summands. -/
theorem abs_sum_quotient_sub_le (hd : 0 < d) {ns : List Int} (hns : ∀ n ∈ ns, 0 ≤ n) :
    |(ns.map (quotient d)).sum - (ns.sum : ℚ) / d| ≤ (ns.sum : ℚ) / d / 2 ^ 51 := by
  induction ns with
  | nil => simp
  | cons n ns ih =>
      rw [List.forall_mem_cons] at hns
      have hHead := Binary64.abs_round_div_sub_le (q := n) (by exact_mod_cast hns.1) hd
      have hTail := ih hns.2
      rw [List.map_cons, List.sum_cons, List.sum_cons, Int.cast_add]
      calc |quotient d n + (ns.map (quotient d)).sum - ((n : ℚ) + ns.sum) / d|
          = |(quotient d n - n / d) + ((ns.map (quotient d)).sum - ns.sum / d)| := by
            congr 1
            ring
        _ ≤ |quotient d n - n / d| + |(ns.map (quotient d)).sum - ns.sum / d| := abs_add_le _ _
        _ ≤ n / d / 2 ^ 51 + ns.sum / d / 2 ^ 51 := add_le_add hHead hTail
        _ = (n + ns.sum) / d / 2 ^ 51 := by ring

end

/-- The times that a clock gives, in units of `d` ns. -/
structure Accounted (c : Mark → Int) (d : ℚ) (first : Mark) (ends : List Mark) (times : List ℚ) :
    Prop where
  times_eq : times = (steps c first ends).map (quotient d)
  nonneg : ∀ t ∈ times, 0 ≤ t
  steps_nonneg : ∀ n ∈ steps c first ends, 0 ≤ n
  /-- What lies between the first mark and the last is split without a rest. -/
  steps_sum : (steps c first ends).sum = c (ends.getLastD first) - c first
  sum_close : |times.sum - ((c (ends.getLastD first) - c first : Int) : ℚ) / d| ≤
    ((c (ends.getLastD first) - c first : Int) : ℚ) / d / 2 ^ 51

theorem accounted {c : Mark → Int} {d : ℚ} {ends : List Mark} {times : List ℚ} (hd : 0 < d)
    (hOrdered : (first :: ends).Pairwise fun m m' => c m ≤ c m')
    (hTimes : times = (steps c first ends).map (quotient d)) :
    Accounted c d first ends times := by
  have hSteps := steps_nonneg hOrdered
  constructor
  case times_eq => exact hTimes
  case steps_nonneg => exact hSteps
  case steps_sum => exact steps_sum c first ends
  case nonneg =>
    subst hTimes
    intro t ht
    obtain ⟨n, hn, rfl⟩ := List.mem_map.mp ht
    exact quotient_nonneg hd (hSteps n hn)
  case sum_close =>
    subst hTimes
    rw [← steps_sum]
    exact abs_sum_quotient_sub_le hd hSteps

end BenchRecord

end MatchingMachine
