import MatchingMachine.Lib.Fallible
import MatchingMachine.Model.DiagnoseReport

/-!
# Which losses `summarize` notices

The rows of `samples.csv` are read into samples; the table of repetitions that the loop builds is a
function of them, so that the later checks can be stated on lists of samples.  A loss goes unnoticed
when it takes whole benchmarks of launches that keep another one.
-/

namespace MatchingMachine

namespace DiagnoseReport

section

variable {F α β : Type}

def RaisesValueError (x : Py F α) : Prop := ∃ problem, x = .error (.valueError problem)

@[simp] theorem raisesValueError_raise (problem : Problem F) :
    RaisesValueError (raise problem : Py F α) := ⟨problem, rfl⟩

theorem RaisesValueError.bind {x : Py F α} {f : α → Py F β} (h : RaisesValueError x) :
    RaisesValueError (x >>= f) := by
  obtain ⟨problem, rfl⟩ := h
  exact ⟨problem, rfl⟩

/-- A list of computations that raise nothing but a `ValueError`, one of which raises. -/
theorem RaisesValueError.mapM {f : α → Py F β} {xs : List α} {x : α} (hx : x ∈ xs)
    (hRaises : RaisesValueError (f x))
    (hOnly : ∀ y ∈ xs, ∀ e, f y = .error e → RaisesValueError (f y)) :
    RaisesValueError (xs.mapM f) := by
  cases hAll : xs.mapM f with
  | ok ys =>
      obtain ⟨problem, hProblem⟩ := hRaises
      obtain ⟨y, hy⟩ := exists_mapM_ok_iff.mp ⟨ys, hAll⟩ x hx
      rw [hProblem] at hy
      cases hy
  | error e =>
      obtain ⟨y, hy, hError⟩ := mapM_eq_error hAll
      obtain ⟨problem, hProblem⟩ := hOnly y hy e hError
      rw [hError] at hProblem
      exact ⟨problem, congrArg Except.error (Except.error.inj hProblem)⟩

/-! ## Samples -/

/-- A counted measurement. -/
structure Sample (F : Type) where
  group : Group
  index : Int
  value : F

/-- The indices that a group has so far. -/
def indices (d : Dict Group (Dict Int F)) (group : Group) : List Int :=
  ((d.get? group).getD Dict.empty).keys

/-- The table of a list of samples. -/
def table (samples : List (Sample F)) : Dict Group (Dict Int F) :=
  Dict.gather Dict.empty Sample.group (fun group s => group.set s.index s.value) samples

theorem table_append_singleton (samples : List (Sample F)) (s : Sample F) :
    table (samples ++ [s]) =
      (table samples).modify s.group Dict.empty fun group => group.set s.index s.value :=
  Dict.gather_append_singleton _ _ _ samples s

/-- No repetition twice. -/
def Distinct (samples : List (Sample F)) : Prop :=
  (samples.map fun s => (s.group, s.index)).Nodup

theorem mem_indices_table (samples : List (Sample F)) (group : Group) (i : Int) :
    i ∈ indices (table samples) group ↔ ∃ s ∈ samples, s.group = group ∧ s.index = i := by
  have hFold : ∀ ss : List (Sample F),
      i ∈ (ss.foldl (fun group s => group.set s.index s.value) Dict.empty).keys ↔
        ∃ s ∈ ss, s.index = i := by
    intro ss
    induction ss using List.reverseRecOn with
    | nil => simp
    | append_singleton ss s ih =>
        rw [List.foldl_append]
        simp [Dict.mem_keys_set, ih, or_comm, or_and_right, exists_or, eq_comm]
  rw [indices, table, Dict.getD_gather, hFold]
  simp [and_assoc]

theorem distinct_append_singleton (samples : List (Sample F)) (s : Sample F) :
    Distinct (samples ++ [s]) ↔
      Distinct samples ∧ s.index ∉ indices (table samples) s.group := by
  rw [mem_indices_table]
  simp only [Distinct, List.map_append, List.map_cons, List.map_nil, List.nodup_append,
    List.nodup_singleton, List.mem_singleton, List.mem_map, true_and]
  constructor
  · rintro ⟨hNodup, hNew⟩
    refine ⟨hNodup, ?_⟩
    rintro ⟨t, ht, hGroup, hIndex⟩
    exact hNew _ ⟨t, ht, rfl⟩ _ rfl (by rw [hGroup, hIndex])
  · rintro ⟨hNodup, hNew⟩
    refine ⟨hNodup, ?_⟩
    rintro _ ⟨t, ht, rfl⟩ _ rfl hEq
    exact hNew ⟨t, ht, congrArg Prod.fst hEq, congrArg Prod.snd hEq⟩

end

variable {F : Type} [Python F]

/-! ## Reading the samples -/

/-- What a row says, whatever the rows before it said: nothing when it is a warm-up. -/
inductive Reads (records : Dict LaunchKey Row) (row : Row) : Option (Sample F) → Prop where
  | warmup {key : LaunchKey} {mark : Int} :
      launchKey (F := F) row = .ok key → key ∈ records.keys →
      warmupMark (F := F) row = .ok mark → mark ≠ 0 → Reads records row none
  | counted {key : LaunchKey} {benchmark : Cell} {index : Int} {value : F} :
      launchKey (F := F) row = .ok key → key ∈ records.keys →
      warmupMark (F := F) row = .ok 0 →
      Row.item (F := F) row .benchmark = .ok benchmark →
      (Row.item (F := F) row .repetition >>= parseInt) = .ok index →
      (Row.item row .realTimeNs >>= parseFloat) = .ok value →
      Python.lt ((0 : Nat) : F) value ∧ Python.lt value Python.inf →
      Reads records row (some ⟨(key, benchmark), index, value⟩)

variable {records : Dict LaunchKey Row} {row : Row} {d : Dict Group (Dict Int F)}
  {s : Sample F} {o : Option (Sample F)}

theorem Reads.addSample_none (h : Reads (F := F) records row none) :
    addSample records d row = .ok d := by
  cases h with
  | warmup hKey hKnown hMark hWarmup =>
      simp only [addSample, hKey, hMark, bind, Except.bind]
      rw [if_neg (not_not.mpr hKnown), if_pos hWarmup]
      rfl

theorem Reads.addSample_some (h : Reads records row (some s)) :
    addSample records d row =
      if s.index ∈ indices d s.group then
        raise (.duplicateRepetition s.index s.group.1 s.group.2)
      else .ok (d.modify s.group Dict.empty fun group => group.set s.index s.value) := by
  cases h with
  | counted hKey hKnown hMark hBenchmark hIndex hValue hValid =>
      obtain ⟨cell, hCell, hParse⟩ := Except.bind_eq_ok hIndex
      obtain ⟨cell', hCell', hParse'⟩ := Except.bind_eq_ok hValue
      simp only [addSample, hKey, hMark, hBenchmark, hCell, hCell', hParse, hParse', bind,
        Except.bind]
      rw [if_neg (not_not.mpr hKnown), if_neg (not_not.mpr rfl), if_neg (not_not.mpr hValid)]
      rfl

theorem reads_of_addSample {d' : Dict Group (Dict Int F)} (h : addSample records d row = .ok d') :
    ∃ o, Reads (F := F) records row o := by
  unfold addSample at h
  obtain ⟨key, hKey, h⟩ := Except.bind_eq_ok h
  split at h
  case isTrue => cases h
  case isFalse hKnown =>
    rw [not_not] at hKnown
    obtain ⟨mark, hMark, h⟩ := Except.bind_eq_ok h
    split at h
    case isTrue hWarmup => exact ⟨none, .warmup hKey hKnown hMark hWarmup⟩
    case isFalse hCounted =>
      rw [not_not] at hCounted
      subst hCounted
      obtain ⟨benchmark, hBenchmark, h⟩ := Except.bind_eq_ok h
      obtain ⟨cell, hCell, h⟩ := Except.bind_eq_ok h
      obtain ⟨index, hIndex, h⟩ := Except.bind_eq_ok h
      split at h
      case isTrue => cases h
      case isFalse =>
        obtain ⟨cell', hCell', h⟩ := Except.bind_eq_ok h
        obtain ⟨value, hValue, h⟩ := Except.bind_eq_ok h
        split at h
        case isTrue => cases h
        case isFalse hValid =>
          rw [not_not] at hValid
          exact ⟨_, .counted hKey hKnown hMark hBenchmark (by rw [hCell]; exact hIndex)
            (by rw [hCell']; exact hValue) hValid⟩

/-! ## The loop over the rows -/

open Classical in
/-- The sample of a row that can be read. -/
noncomputable def sampleOf (records : Dict LaunchKey Row) (row : Row) : Option (Sample F) :=
  if h : ∃ o, Reads (F := F) records row o then h.choose else none

noncomputable def samplesOf (records : Dict LaunchKey Row) (rows : List Row) : List (Sample F) :=
  rows.filterMap (sampleOf records)

/-- Each row can be read. -/
def Readable (F : Type) [Python F] (records : Dict LaunchKey Row) (rows : List Row) : Prop :=
  ∀ row ∈ rows, ∃ o, Reads (F := F) records row o

variable {rows : List Row}

theorem Readable.reads (h : Readable F records rows) (hRow : row ∈ rows) :
    Reads (F := F) records row (sampleOf records row) := by
  have hExists := h row hRow
  rw [sampleOf, dif_pos hExists]
  exact hExists.choose_spec

theorem Readable.of_append {rows' : List Row} (h : Readable F records (rows ++ rows')) :
    Readable F records rows := fun row hRow => h row (by simp [hRow])

/-- Distinct samples fill the table. -/
theorem Readable.foldlM_ok (h : Readable F records rows)
    (hDistinct : Distinct (samplesOf (F := F) records rows)) :
    rows.foldlM (addSample (F := F) records) Dict.empty = .ok (table (samplesOf records rows)) := by
  induction rows using List.reverseRecOn with
  | nil => rfl
  | append_singleton rows row ih =>
      have hReads := h.reads (List.mem_append_right rows (List.mem_singleton_self row))
      rw [List.foldlM_append]
      simp only [samplesOf, List.filterMap_append, List.filterMap_cons, List.filterMap_nil]
        at hDistinct ih ⊢
      cases hSample : sampleOf (F := F) records row with
      | none =>
          rw [hSample] at hReads
          simp only [hSample, List.append_nil] at hDistinct ⊢
          rw [ih h.of_append hDistinct]
          simp [bind, Except.bind, pure, Except.pure, hReads.addSample_none]
      | some s =>
          rw [hSample] at hReads
          simp only [hSample] at hDistinct ⊢
          rw [distinct_append_singleton] at hDistinct
          rw [ih h.of_append hDistinct.1]
          simp [bind, Except.bind, pure, Except.pure, hReads.addSample_some, hDistinct.2,
            table_append_singleton]

/-- The first repeated sample raises. -/
theorem Readable.foldlM_raises (h : Readable F records rows)
    (hDistinct : ¬Distinct (samplesOf (F := F) records rows)) :
    RaisesValueError (rows.foldlM (addSample (F := F) records) Dict.empty) := by
  induction rows using List.reverseRecOn with
  | nil => simp [Distinct, samplesOf] at hDistinct
  | append_singleton rows row ih =>
      have hReads := h.reads (List.mem_append_right rows (List.mem_singleton_self row))
      rw [List.foldlM_append]
      by_cases hBefore : Distinct (samplesOf (F := F) records rows)
      · rw [h.of_append.foldlM_ok hBefore]
        simp only [samplesOf, List.filterMap_append, List.filterMap_cons, List.filterMap_nil]
          at hDistinct hBefore ⊢
        cases hSample : sampleOf (F := F) records row with
        | none =>
            simp only [hSample, List.append_nil] at hDistinct
            exact absurd hBefore hDistinct
        | some s =>
            rw [hSample] at hReads
            simp only [hSample, distinct_append_singleton, not_and, not_not] at hDistinct
            simp only [List.foldlM_cons, List.foldlM_nil, bind, Except.bind,
              hReads.addSample_some, hDistinct hBefore]
            exact ⟨_, rfl⟩
      · exact (ih h.of_append hBefore).bind

theorem readable_of_foldlM {d : Dict Group (Dict Int F)}
    (h : rows.foldlM (addSample (F := F) records) Dict.empty = .ok d) :
    Readable F records rows := by
  induction rows using List.reverseRecOn generalizing d with
  | nil => simp [Readable]
  | append_singleton rows row ih =>
      rw [List.foldlM_append] at h
      obtain ⟨d', hRows, h⟩ := Except.bind_eq_ok h
      obtain ⟨d'', hRow, -⟩ := Except.bind_eq_ok h
      intro row' hMem
      rcases List.mem_append.mp hMem with hMem | hMem
      · exact ih hRows row' hMem
      · obtain rfl : row' = row := by simpa using hMem
        exact reads_of_addSample hRow

/-! ## Statistics of something -/

theorem exists_median {values : List F} (h : values ≠ []) : ∃ m, median values = .ok m := by
  have hLength : (sortFloats values).length = values.length := List.length_insertionSort _ _
  have hPos : 0 < values.length := List.length_pos_iff.mpr h
  have hHigh : (sortFloats values).length / 2 < (sortFloats values).length := by omega
  have hLow : (sortFloats values).length / 2 - 1 < (sortFloats values).length := by omega
  simp only [median, List.getElem?_eq_getElem hHigh, List.getElem?_eq_getElem hLow]
  exact ⟨_, rfl⟩

theorem median_raises {values : List F} {e : Raised F} (h : median values = .error e) :
    RaisesValueError (median values) := by
  by_cases hEmpty : values = []
  · subst hEmpty
    exact ⟨.noData, rfl⟩
  · obtain ⟨m, hm⟩ := exists_median hEmpty
    rw [hm] at h
    cases h

theorem exists_minimum {values : List F} (h : values ≠ []) : ∃ m, minimum values = .ok m := by
  obtain ⟨x, xs, rfl⟩ := List.exists_cons_of_ne_nil h
  exact ⟨_, rfl⟩

theorem exists_maximum {values : List F} (h : values ≠ []) : ∃ m, maximum values = .ok m := by
  obtain ⟨x, xs, rfl⟩ := List.exists_cons_of_ne_nil h
  exact ⟨_, rfl⟩

theorem exists_quartile {data : List F} {i : Nat} (h : 1 < data.length) (hi : i < 4) :
    ∃ q, quartile data i = .ok q := by
  have hLess : i * (data.length - 1) / 4 + 1 < data.length := by
    have hMul : i * (data.length - 1) ≤ 3 * (data.length - 1) := Nat.mul_le_mul_right _ (by omega)
    omega
  have hLow : i * (data.length - 1) / 4 < data.length := by omega
  simp only [quartile, List.getElem?_eq_getElem hLow, List.getElem?_eq_getElem hLess]
  exact ⟨_, rfl⟩

theorem exists_iqrPercent {values : List F} (h : values ≠ []) :
    ∃ x, iqrPercent values = .ok x := by
  obtain ⟨m, hm⟩ := exists_median h
  rcases values with _ | ⟨x, _ | ⟨y, values⟩⟩
  · exact absurd rfl h
  · simp only [iqrPercent, hm, bind, Except.bind, pure, Except.pure]
    exact ⟨_, rfl⟩
  · have hLength : 1 < (sortFloats (x :: y :: values)).length := by
      simp only [sortFloats, List.length_insertionSort, List.length_cons]
      omega
    obtain ⟨q, hq⟩ := exists_quartile (i := 1) hLength (by omega)
    obtain ⟨q', hq'⟩ := exists_quartile (i := 3) hLength (by omega)
    simp only [iqrPercent, hm, hq, hq', bind, Except.bind, pure, Except.pure]
    exact ⟨_, rfl⟩

/-! ## Sorting by a key -/

section

variable {α κ : Type} [LinearOrder κ] {key : α → Py F κ} {xs ys : List α}

omit [Python F] in
theorem exists_sortedBy_iff :
    (∃ ys, sortedBy key xs = .ok ys) ↔ ∀ x ∈ xs, ∃ k, key x = .ok k := by
  have hKeyed : (∃ keyed, (xs.mapM fun x => do return (← key x, x)) = .ok keyed) ↔
      ∀ x ∈ xs, ∃ k, key x = .ok k := by
    rw [exists_mapM_ok_iff]
    apply forall₂_congr
    intro x hx
    constructor
    · rintro ⟨y, h⟩
      obtain ⟨k, hk, -⟩ := Except.bind_eq_ok h
      exact ⟨k, hk⟩
    · rintro ⟨k, hk⟩
      exact ⟨(k, x), by rw [hk]; rfl⟩
  rw [← hKeyed]
  constructor
  · rintro ⟨ys, h⟩
    obtain ⟨keyed, hk, -⟩ := Except.bind_eq_ok h
    exact ⟨keyed, hk⟩
  · rintro ⟨keyed, hk⟩
    exact ⟨_, by rw [sortedBy, hk]; rfl⟩

omit [Python F] in
theorem sortedBy_perm (h : sortedBy key xs = .ok ys) : ys.Perm xs := by
  obtain ⟨keyed, hKeyed, hSort⟩ := Except.bind_eq_ok h
  obtain rfl := (Except.ok.inj hSort).symm
  have hSnd : keyed.map Prod.snd = xs := by
    have hAll := mapM_eq_ok_iff.mp hKeyed
    clear h hSort hKeyed
    induction hAll with
    | nil => rfl
    | cons hx hRest ih =>
        obtain ⟨k, hk, hx⟩ := Except.bind_eq_ok hx
        obtain rfl := (Except.ok.inj hx).symm
        simp [ih]
  rw [← hSnd]
  exact (List.perm_insertionSort _ keyed).map Prod.snd

end

/-! ## Scores -/

/-- The repetitions of each group that is there are the counted ones. -/
def Complete (warmup expected : Int) (samples : List (Sample F)) : Prop :=
  ∀ s ∈ samples, ∀ i, (∃ t ∈ samples, t.group = s.group ∧ t.index = i) ↔
    i ∈ countedIndices warmup expected

/-- Each launch has a sample. -/
def Covers (records : Dict LaunchKey Row) (samples : List (Sample F)) : Prop :=
  ∀ key ∈ records.keys, ∃ s ∈ samples, s.group.1 = key

variable {warmup expected : Int} {samples : List (Sample F)}

theorem mem_countedIndices (i : Int) :
    i ∈ countedIndices warmup expected ↔ warmup ≤ i ∧ i < expected := by
  simp only [countedIndices, List.mem_toFinset, List.mem_map, List.mem_range]
  constructor
  · rintro ⟨n, hn, rfl⟩
    omega
  · rintro ⟨hLow, hHigh⟩
    exact ⟨(i - warmup).toNat, by omega, by omega⟩

omit [Python F] in
theorem mem_keys_table (group : Group) :
    group ∈ (table samples).keys ↔ ∃ s ∈ samples, s.group = group :=
  Dict.mem_keys_gather _ _ _ samples group

omit [Python F] in
/-- The indices of an entry of the table. -/
theorem mem_keys_of_mem_table {entry : Group × Dict Int F} (h : entry ∈ (table samples).entries)
    (i : Int) : i ∈ entry.2.keys ↔ ∃ s ∈ samples, s.group = entry.1 ∧ s.index = i := by
  have hGet := ((table samples).get?_eq_some_iff entry.1 entry.2).mpr h
  rw [← mem_indices_table, indices, hGet]
  rfl

omit [Python F] in
theorem complete_iff :
    Complete warmup expected samples ↔ ∀ entry ∈ (table samples).entries,
      entry.2.keys.toFinset = countedIndices warmup expected := by
  constructor
  · rintro hComplete ⟨group, values⟩ hEntry
    have hKey : group ∈ (table samples).keys := ((table samples).mem_keys_iff group).mpr ⟨_, hEntry⟩
    obtain ⟨s, hs, rfl⟩ := (mem_keys_table group).mp hKey
    ext i
    rw [List.mem_toFinset, mem_keys_of_mem_table hEntry, hComplete s hs]
  · intro hAll s hs i
    have hKey : s.group ∈ (table samples).keys := (mem_keys_table _).mpr ⟨s, hs, rfl⟩
    obtain ⟨values, hEntry⟩ := ((table samples).mem_keys_iff s.group).mp hKey
    rw [← hAll _ hEntry, List.mem_toFinset, mem_keys_of_mem_table hEntry]

theorem score_raises {entry : Group × Dict Int F} {e : Raised F}
    (h : score warmup expected entry = .error e) : RaisesValueError (score warmup expected entry) := by
  obtain ⟨⟨key, benchmark⟩, values⟩ := entry
  simp only [score] at h ⊢
  split
  case isTrue => exact ⟨_, rfl⟩
  case isFalse hComplete =>
    rw [if_neg hComplete] at h
    cases hMedian : median values.values with
    | error e => exact (hMedian ▸ median_raises hMedian).bind
    | ok m =>
        rw [hMedian] at h
        cases h

theorem exists_score (hLess : warmup < expected) {entry : Group × Dict Int F}
    (h : entry.2.keys.toFinset = countedIndices warmup expected) :
    ∃ x, score warmup expected entry = .ok x := by
  have hMem : warmup ∈ entry.2.keys := by
    rw [← List.mem_toFinset, h, mem_countedIndices]
    omega
  have hSome : entry.2.values ≠ [] := by
    intro hEmpty
    have hEntries : entry.2.entries = [] := List.map_eq_nil_iff.mp hEmpty
    simp [Dict.keys, hEntries] at hMem
  obtain ⟨m, hm⟩ := exists_median hSome
  obtain ⟨⟨key, benchmark⟩, values⟩ := entry
  simp only [score]
  rw [if_neg (not_not.mpr h), hm]
  exact ⟨_, rfl⟩

theorem score_group {entry : Group × Dict Int F} {x : Score F}
    (h : score warmup expected entry = .ok x) :
    entry.2.keys.toFinset = countedIndices warmup expected ∧ (x.key, x.benchmark) = entry.1 := by
  obtain ⟨⟨key, benchmark⟩, values⟩ := entry
  simp only [score] at h
  split at h
  case isTrue => cases h
  case isFalse hComplete =>
    obtain ⟨m, -, h⟩ := Except.bind_eq_ok h
    obtain rfl := (Except.ok.inj h).symm
    exact ⟨not_not.mp hComplete, rfl⟩

/-! ## Rows of the report -/

/-- The names by which a score is sorted can be read. -/
def Nameable (x : Score F) : Prop :=
  (∃ k, natural (F := F) x.key.condition = .ok k) ∧ (∃ k, natural (F := F) x.key.binary = .ok k) ∧
    ∃ k, natural (F := F) x.benchmark = .ok k

omit [Python F] in
theorem mem_grouped {scores : List (Score F)} {entry : ((Cell × Cell) × Cell) × List (Score F)}
    (h : entry ∈ (grouped scores).entries) :
    entry.2 ≠ [] ∧ ∃ x ∈ scores, ((x.key.condition, x.key.binary), x.benchmark) = entry.1 := by
  have hFold : ∀ (xs ys : List (Score F)), xs.foldl (fun group s => group ++ [s]) ys = ys ++ xs := by
    intro xs
    induction xs with
    | nil => simp
    | cons x xs ih => simp [ih]
  obtain ⟨⟨x, hx, hKey⟩, hEntry⟩ := (Dict.mem_gather _ _ _ scores).mp h
  refine ⟨?_, x, hx, hKey⟩
  rw [hEntry, hFold, List.nil_append]
  exact List.ne_nil_of_mem (List.mem_filter.mpr ⟨hx, by simpa using hKey⟩)

theorem exists_benchmarkRow {n : Int} {entry : ((Cell × Cell) × Cell) × List (Score F)}
    (h : entry.2 ≠ []) : ∃ row, benchmarkRow n entry = .ok row := by
  obtain ⟨⟨⟨condition, binary⟩, benchmark⟩, entries⟩ := entry
  have hMedians : entries.map Score.median ≠ [] := by simpa using h
  obtain ⟨low, hLow⟩ := exists_minimum hMedians
  obtain ⟨high, hHigh⟩ := exists_maximum hMedians
  obtain ⟨m, hm⟩ := exists_median hMedians
  obtain ⟨x, hx⟩ := exists_iqrPercent hMedians
  simp only [benchmarkRow, hLow, hHigh, hm, hx, bind, Except.bind]
  split
  case isTrue => exact ⟨_, rfl⟩
  case isFalse hInside =>
    obtain ⟨w, hw⟩ := exists_median hInside
    obtain ⟨w', hw'⟩ := exists_maximum hInside
    rw [hw, hw']
    exact ⟨_, rfl⟩

theorem exists_benchmarkRows_iff {n : Int} {scores : List (Score F)} :
    (∃ rows, benchmarkRows n scores = .ok rows) ↔ ∀ x ∈ scores, Nameable x := by
  constructor
  · rintro ⟨rows, h⟩ x hx
    obtain ⟨sorted, hSorted, -⟩ := Except.bind_eq_ok h
    have hKey : ((x.key.condition, x.key.binary), x.benchmark) ∈ (grouped scores).keys :=
      (Dict.mem_keys_gather _ _ _ scores _).mpr ⟨x, hx, rfl⟩
    obtain ⟨entries, hEntry⟩ := ((grouped scores).mem_keys_iff _).mp hKey
    obtain ⟨k, hk⟩ := exists_sortedBy_iff.mp ⟨sorted, hSorted⟩ _ hEntry
    obtain ⟨k₁, h₁, hk⟩ := Except.bind_eq_ok hk
    obtain ⟨k₂, h₂, hk⟩ := Except.bind_eq_ok hk
    obtain ⟨k₃, h₃, -⟩ := Except.bind_eq_ok hk
    exact ⟨⟨k₁, h₁⟩, ⟨k₂, h₂⟩, ⟨k₃, h₃⟩⟩
  · intro hNames
    have hSorts : ∃ sorted, sortedBy benchmarkOrder (grouped scores).entries = .ok sorted := by
      rw [exists_sortedBy_iff]
      rintro ⟨key, entries⟩ hEntry
      obtain ⟨-, x, hx, hKey⟩ := mem_grouped hEntry
      obtain ⟨⟨k₁, h₁⟩, ⟨k₂, h₂⟩, ⟨k₃, h₃⟩⟩ := hNames x hx
      dsimp only at hKey
      subst hKey
      simp only [benchmarkOrder, h₁, h₂, h₃, bind, Except.bind]
      exact ⟨_, rfl⟩
    obtain ⟨sorted, hSorted⟩ := hSorts
    unfold benchmarkRows
    rw [hSorted]
    apply exists_mapM_ok_iff.mpr
    intro entry hEntry
    exact exists_benchmarkRow (mem_grouped ((sortedBy_perm hSorted).mem_iff.mp hEntry)).1

theorem exists_launchLayoutRow {medians : Dict LaunchKey (Dict Cell F)}
    {entry : LaunchKey × Addresses}
    (h : ∀ benchmark ∈ ((medians.get? entry.1).getD Dict.empty).keys,
      ∃ k, natural (F := F) benchmark = .ok k) :
    ∃ row, launchLayoutRow medians entry = .ok row := by
  have hSorts : ∃ scores, sortedBy (fun score : Cell × F => natural (F := F) score.1)
      ((medians.get? entry.1).getD Dict.empty).entries = .ok scores := by
    rw [exists_sortedBy_iff]
    rintro ⟨benchmark, value⟩ hScore
    exact h benchmark ((Dict.mem_keys_iff _ _).mpr ⟨value, hScore⟩)
  obtain ⟨scores, hScores⟩ := hSorts
  unfold launchLayoutRow
  rw [hScores]
  exact ⟨_, rfl⟩

omit [Python F] in
theorem mem_launchMedians {scores : List (Score F)} {key : LaunchKey} {benchmark : Cell}
    (h : benchmark ∈ (((launchMedians scores).get? key).getD Dict.empty).keys) :
    ∃ x ∈ scores, x.benchmark = benchmark := by
  have hFold : ∀ xs : List (Score F), benchmark ∈
      (xs.foldl (fun medians s => medians.set s.benchmark s.median) Dict.empty).keys →
        ∃ x ∈ xs, x.benchmark = benchmark := by
    intro xs
    induction xs using List.reverseRecOn with
    | nil => simp
    | append_singleton xs x ih =>
        rw [List.foldl_append]
        simp only [List.foldl_cons, List.foldl_nil, Dict.mem_keys_set]
        rintro (rfl | hMem)
        · exact ⟨x, by simp, rfl⟩
        · obtain ⟨y, hy, hKey⟩ := ih hMem
          exact ⟨y, by simp [hy], hKey⟩
  rw [launchMedians, Dict.getD_gather] at h
  obtain ⟨x, hx, hKey⟩ := hFold _ h
  exact ⟨x, (List.mem_filter.mp hx).1, hKey⟩

/-- The layout rows need the scores for their names only. -/
theorem exists_layoutRows {raw : Py F RawFiles} {medians : Dict LaunchKey (Dict Cell F)}
    {rows : List LayoutRow × List (LaunchLayoutRow F)} {scores : List (Score F)}
    (h : layoutRows raw records medians = .ok rows) (hNames : ∀ x ∈ scores, Nameable x) :
    ∃ rows', layoutRows raw records (launchMedians scores) = .ok rows' := by
  unfold layoutRows at h ⊢
  obtain ⟨files, hFiles, h⟩ := Except.bind_eq_ok h
  obtain ⟨observations, hObservations, h⟩ := Except.bind_eq_ok h
  obtain ⟨sorted, hSorted, h⟩ := Except.bind_eq_ok h
  obtain ⟨listed, hListed, -⟩ := Except.bind_eq_ok h
  have hRows : ∃ ls, listed.mapM (launchLayoutRow (launchMedians scores)) = .ok ls := by
    rw [exists_mapM_ok_iff]
    intro entry hEntry
    apply exists_launchLayoutRow
    intro benchmark hMem
    obtain ⟨x, hx, rfl⟩ := mem_launchMedians hMem
    exact (hNames x hx).2.2
  obtain ⟨ls, hLs⟩ := hRows
  simp only [hFiles, hObservations, hSorted, hListed, hLs, bind, Except.bind]
  exact ⟨_, rfl⟩

/-! ## The whole -/

/-- What is done once the samples are read. -/
def finish (study : Study F) (expected warmup : Int) (records : Dict LaunchKey Row)
    (repetitions : Dict Group (Dict Int F)) : Py F (Report F) := do
  let scores ← repetitions.entries.mapM (score warmup expected)
  let missing := records.keys.filter fun key => key ∉ repetitions.keys.map Prod.fst
  if missing ≠ [] then
    raise (.launchesWithoutSamples (missing.insertionSort fun a b => a.order ≤ b.order))
  else
    let benchmarks ← benchmarkRows (expected - warmup) scores
    let telemetry ← telemetryRows study.launches
    let (layout, launchLayout) ← layoutRows study.raw records (launchMedians scores)
    return ⟨benchmarks, telemetry, layout, launchLayout⟩

variable {study : Study F} {report : Report F}

/-- A study that passes the checks made before the samples are read. -/
structure Opens (study : Study F) (expected warmup : Int) (records : Dict LaunchKey Row) :
    Prop where
  complete : study.environment.incomplete = false
  counts : repetitionCounts (F := F) study.environment = .ok (expected, warmup)
  launch_records : launchRecords (F := F) study.launches = .ok records
  launches_distinct : records.entries.length = study.launches.length
  launches_ne_nil : study.launches ≠ []
  launches_ok : records.entries.forM (checkLaunch (F := F)) = .ok ()

theorem exists_opens (h : summarize study = .ok report) :
    study.samples ≠ [] ∧ ∃ expected warmup records, Opens study expected warmup records := by
  unfold summarize at h
  split at h
  case isTrue => cases h
  case isFalse hComplete =>
    obtain ⟨⟨expected, warmup⟩, hCounts, h⟩ := Except.bind_eq_ok h
    obtain ⟨records, hRecords, h⟩ := Except.bind_eq_ok h
    split at h
    case isTrue => cases h
    case isFalse hDistinct =>
      split at h
      case isTrue => cases h
      case isFalse hSome =>
        obtain ⟨u, hLaunches, -⟩ := Except.bind_eq_ok h
        rw [not_or] at hSome
        exact ⟨hSome.1, expected, warmup, records, by simpa using hComplete, hCounts, hRecords,
          not_not.mp hDistinct, hSome.2, hLaunches⟩

theorem Opens.warmup_lt (h : Opens study expected warmup records) : warmup < expected := by
  have hCounts := h.counts
  unfold repetitionCounts at hCounts
  simp only at hCounts
  split at hCounts
  case h_1 =>
    split at hCounts
    case isTrue hLess =>
      obtain ⟨rfl, rfl⟩ := Prod.mk.inj (Except.ok.inj hCounts)
      exact hLess.2
    case isFalse => cases hCounts
  case h_2 => cases hCounts

theorem Opens.summarize_eq (h : Opens study expected warmup records) (rows : List Row) :
    summarize { study with samples := rows } =
      if rows = [] then raise .noCompleteMeasurements
      else rows.foldlM (addSample records) Dict.empty >>= finish study expected warmup records := by
  simp only [summarize, h.complete, h.counts, h.launch_records, h.launches_ok,
    h.launches_distinct, bind, Except.bind]
  simp only [Bool.false_eq_true, if_false, ne_eq, not_true_eq_false, h.launches_ne_nil, or_false]
  rfl

theorem finish_raises (h : ¬Complete warmup expected samples ∨ ¬Covers records samples) :
    RaisesValueError (finish study expected warmup records (table samples)) := by
  -- the scores are made first, so an incomplete group raises before a missing launch does
  by_cases hComplete : Complete warmup expected samples
  case neg =>
    obtain ⟨entry, hEntry, hNot⟩ : ∃ entry ∈ (table samples).entries,
        entry.2.keys.toFinset ≠ countedIndices warmup expected := by
      simpa [complete_iff] using hComplete
    apply RaisesValueError.bind
    apply RaisesValueError.mapM hEntry
    · obtain ⟨⟨key, benchmark⟩, values⟩ := entry
      simp only [score]
      rw [if_pos hNot]
      exact raisesValueError_raise _
    · intro entry _ e hError
      exact score_raises hError
  case pos =>
    have hMissing : (records.keys.filter fun key =>
        key ∉ (table samples).keys.map Prod.fst) ≠ [] := by
      have hCovers := h.resolve_left (not_not.mpr hComplete)
      simp only [Covers, not_forall] at hCovers
      obtain ⟨key, hKey, hNone⟩ := hCovers
      apply List.ne_nil_of_mem (a := key)
      simp only [List.mem_filter, hKey, true_and, decide_eq_true_eq, List.mem_map]
      rintro ⟨group, hGroup, rfl⟩
      obtain ⟨s, hs, rfl⟩ := (mem_keys_table group).mp hGroup
      exact hNone ⟨s, hs, rfl⟩
    unfold finish
    cases hScores : (table samples).entries.mapM (score warmup expected) with
    | error e =>
        obtain ⟨entry, -, hError⟩ := mapM_eq_error hScores
        obtain ⟨problem, hProblem⟩ := score_raises hError
        rw [hError] at hProblem
        obtain rfl := Except.error.inj hProblem
        exact ⟨problem, rfl⟩
    | ok scores =>
        simp only [bind, Except.bind]
        rw [if_pos hMissing]
        exact ⟨_, rfl⟩

/-- What it takes to finish, apart from the samples. -/
structure Finishes (study : Study F) (records : Dict LaunchKey Row)
    (samples : List (Sample F)) : Prop where
  nameable : ∀ s ∈ samples, (∃ k, natural (F := F) s.group.1.condition = .ok k) ∧
    (∃ k, natural (F := F) s.group.1.binary = .ok k) ∧ ∃ k, natural (F := F) s.group.2 = .ok k
  telemetry : ∃ rows, telemetryRows (F := F) study.launches = .ok rows
  layout : ∃ medians rows, layoutRows study.raw records medians = .ok rows

/-- The scores are those of the groups that have samples. -/
theorem group_of_score {scores : List (Score F)}
    (h : (table samples).entries.mapM (score warmup expected) = .ok scores) (group : Group) :
    (∃ x ∈ scores, (x.key, x.benchmark) = group) ↔ ∃ s ∈ samples, s.group = group := by
  have hGroups : scores.map (fun x => (x.key, x.benchmark)) = (table samples).keys := by
    have hAll := mapM_eq_ok_iff.mp h
    unfold Dict.keys
    clear h
    generalize (table samples).entries = entries at hAll
    induction hAll with
    | nil => rfl
    | cons hx hRest ih => simp [ih, (score_group hx).2]
  rw [← mem_keys_table, ← hGroups, List.mem_map]

theorem finishes_of_finish
    (h : finish study expected warmup records (table samples) = .ok report) :
    Finishes study records samples := by
  unfold finish at h
  obtain ⟨scores, hScores, h⟩ := Except.bind_eq_ok h
  simp only at h
  split at h
  case isTrue => cases h
  case isFalse hMissing =>
    obtain ⟨benchmarks, hBenchmarks, h⟩ := Except.bind_eq_ok h
    obtain ⟨telemetry, hTelemetry, h⟩ := Except.bind_eq_ok h
    obtain ⟨layout, hLayout, -⟩ := Except.bind_eq_ok h
    constructor
    case nameable =>
      intro s hs
      obtain ⟨x, hx, hGroup⟩ := (group_of_score hScores s.group).mpr ⟨s, hs, rfl⟩
      rw [← hGroup]
      exact exists_benchmarkRows_iff.mp ⟨benchmarks, hBenchmarks⟩ x hx
    case telemetry => exact ⟨telemetry, hTelemetry⟩
    case layout => exact ⟨_, layout, hLayout⟩

theorem Finishes.finish_ok (h : Finishes study records samples) (hLess : warmup < expected)
    (hComplete : Complete warmup expected samples) (hCovers : Covers records samples) :
    ∃ report, finish study expected warmup records (table samples) = .ok report := by
  have hAll : ∃ scores, (table samples).entries.mapM (score warmup expected) = .ok scores := by
    rw [exists_mapM_ok_iff]
    intro entry hEntry
    exact exists_score hLess (complete_iff.mp hComplete entry hEntry)
  obtain ⟨scores, hScores⟩ := hAll
  have hNames : ∀ x ∈ scores, Nameable x := by
    intro x hx
    obtain ⟨s, hs, hGroup⟩ := (group_of_score hScores _).mp ⟨x, hx, rfl⟩
    have hName := h.nameable s hs
    rw [hGroup] at hName
    exact hName
  have hMissing : (records.keys.filter fun key =>
      key ∉ (table samples).keys.map Prod.fst) = [] := by
    rw [List.filter_eq_nil_iff]
    intro key hKey
    obtain ⟨s, hs, rfl⟩ := hCovers key hKey
    simp only [decide_eq_true_eq, not_not, List.mem_map]
    exact ⟨s.group, (mem_keys_table _).mpr ⟨s, hs, rfl⟩, rfl⟩
  obtain ⟨benchmarks, hBenchmarks⟩ :=
    exists_benchmarkRows_iff (n := expected - warmup).mpr hNames
  obtain ⟨telemetry, hTelemetry⟩ := h.telemetry
  obtain ⟨medians, rows, hRows⟩ := h.layout
  obtain ⟨layout, hLayout⟩ := exists_layoutRows hRows hNames
  simp only [finish, hScores, hBenchmarks, hTelemetry, hLayout, bind, Except.bind]
  rw [if_neg (not_not.mpr hMissing)]
  exact ⟨_, rfl⟩

/-! ## Losses -/

/-- The row is not marked as a warm-up. -/
def IsCounted (F : Type) [Python F] (row : Row) : Prop := warmupMark (F := F) row = .ok 0

def SameLaunch (F : Type) [Python F] (row row' : Row) : Prop :=
  launchKey (F := F) row = launchKey row'

/-- Of each benchmark of a launch with a row in `deleted`, no row is kept, while some other
benchmark of that launch is. -/
def WholeBenchmarks (F : Type) [Python F] (kept deleted : List Row) : Prop :=
  ∀ row ∈ deleted,
    (∀ row' ∈ kept, IsCounted F row' → SameLaunch F row row' →
      Row.item (F := F) row .benchmark ≠ Row.item row' .benchmark) ∧
    ∃ row' ∈ kept, IsCounted F row' ∧ SameLaunch F row row'

theorem Reads.of_some (h : Reads (F := F) records row (some s)) :
    IsCounted F row ∧ launchKey (F := F) row = .ok s.group.1 ∧
      Row.item (F := F) row .benchmark = .ok s.group.2 ∧ s.group.1 ∈ records.keys := by
  cases h with
  | counted hKey hKnown hMark hBenchmark _ _ _ => exact ⟨hMark, hKey, hBenchmark, hKnown⟩

theorem Readable.exists_sample (h : Readable F records rows) (hRow : row ∈ rows)
    (hCounted : IsCounted F row) :
    ∃ s, s ∈ samplesOf (F := F) records rows ∧ Reads records row (some s) := by
  have hReads := h.reads hRow
  cases hSample : sampleOf (F := F) records row with
  | none =>
      rw [hSample] at hReads
      cases hReads with
      | warmup hKey hKnown hMark hWarmup =>
          rw [hCounted] at hMark
          exact absurd (Except.ok.inj hMark).symm hWarmup
  | some s =>
      rw [hSample] at hReads
      exact ⟨s, List.mem_filterMap.mpr ⟨row, hRow, hSample⟩, hReads⟩

theorem Readable.exists_row (h : Readable F records rows)
    (hs : s ∈ samplesOf (F := F) records rows) : ∃ row ∈ rows, Reads records row (some s) := by
  obtain ⟨row, hRow, hSample⟩ := List.mem_filterMap.mp hs
  have hReads := h.reads hRow
  rw [hSample] at hReads
  exact ⟨row, hRow, hReads⟩

theorem samplesOf_perm {rows rows' rows'' : List Row} (h : (rows ++ rows').Perm rows'') :
    (samplesOf (F := F) records rows ++ samplesOf records rows').Perm (samplesOf records rows'') := by
  have hFilter := h.filterMap (sampleOf (F := F) records)
  rwa [List.filterMap_append] at hFilter

/-- What is known of the samples of a study that was accepted. -/
structure Accepted (study : Study F) (expected warmup : Int) (records : Dict LaunchKey Row) :
    Prop where
  opens : Opens study expected warmup records
  readable : Readable F records study.samples
  distinct : Distinct (samplesOf (F := F) records study.samples)
  complete : Complete warmup expected (samplesOf (F := F) records study.samples)
  covers : Covers records (samplesOf (F := F) records study.samples)
  finishes : Finishes study records (samplesOf records study.samples)

theorem exists_accepted (h : summarize study = .ok report) :
    ∃ expected warmup records, Accepted study expected warmup records := by
  obtain ⟨hSome, expected, warmup, records, hOpens⟩ := exists_opens h
  have hRun : summarize { study with samples := study.samples } = .ok report := h
  rw [hOpens.summarize_eq, if_neg hSome] at hRun
  obtain ⟨d, hFold, hFinish⟩ := Except.bind_eq_ok hRun
  have hReadable := readable_of_foldlM hFold
  have hDistinct : Distinct (samplesOf (F := F) records study.samples) := by
    by_contra hNot
    obtain ⟨problem, hProblem⟩ := hReadable.foldlM_raises hNot
    rw [hProblem] at hFold
    cases hFold
  rw [hReadable.foldlM_ok hDistinct] at hFold
  obtain rfl := Except.ok.inj hFold
  have hNot : ¬(¬Complete warmup expected (samplesOf (F := F) records study.samples) ∨
      ¬Covers records (samplesOf (F := F) records study.samples)) := by
    intro hOr
    obtain ⟨problem, hProblem⟩ : RaisesValueError (finish study expected warmup records
        (table (samplesOf records study.samples))) := finish_raises hOr
    rw [hProblem] at hFinish
    cases hFinish
  rw [not_or, not_not, not_not] at hNot
  exact ⟨expected, warmup, records, hOpens, hReadable, hDistinct, hNot.1, hNot.2,
    finishes_of_finish hFinish⟩

section

variable {kept deleted : List Row} (hStudy : Accepted study expected warmup records)
  (hSplit : (kept ++ deleted).Perm study.samples)

include hStudy hSplit

theorem Accepted.readable_append : Readable F records (kept ++ deleted) := fun row hRow =>
  hStudy.readable row (hSplit.mem_iff.mp hRow)

theorem Accepted.distinct_append :
    Distinct (samplesOf (F := F) records kept ++ samplesOf records deleted) :=
  ((samplesOf_perm (F := F) hSplit).map _).nodup_iff.mpr hStudy.distinct

theorem Accepted.summarize_kept (hKept : kept ≠ []) :
    summarize { study with samples := kept } =
      finish study expected warmup records (table (samplesOf records kept)) := by
  have hReadable := (hStudy.readable_append hSplit).of_append
  have hDistinct : Distinct (samplesOf (F := F) records kept) := by
    have h := hStudy.distinct_append hSplit
    rw [Distinct, List.map_append] at h
    exact h.of_append_left
  rw [hStudy.opens.summarize_eq, if_neg hKept, hReadable.foldlM_ok hDistinct]
  rfl

/-- A part of a benchmark, or all of a launch, is missed. -/
theorem Accepted.summarize_raises (hCounted : ∀ row ∈ deleted, IsCounted F row)
    (hNot : ¬WholeBenchmarks F kept deleted) :
    RaisesValueError (summarize { study with samples := kept }) := by
  have hReadable := hStudy.readable_append hSplit
  have hKeptReadable := hReadable.of_append
  by_cases hKept : kept = []
  · rw [hStudy.opens.summarize_eq, if_pos hKept]
    exact raisesValueError_raise _
  rw [hStudy.summarize_kept hSplit hKept]
  apply finish_raises
  simp only [WholeBenchmarks, not_forall] at hNot
  obtain ⟨row, hRow, hNot⟩ := hNot
  have hDeletedReadable : Readable F records deleted :=
    fun r hr => hReadable r (List.mem_append_right _ hr)
  obtain ⟨s, hs, hReads⟩ := hDeletedReadable.exists_sample hRow (hCounted row hRow)
  obtain ⟨-, hKey, hBenchmark, hKnown⟩ := hReads.of_some
  rw [not_and_or] at hNot
  rcases hNot with hPart | hLaunch
  · left
    intro hComplete
    simp only [not_forall, not_not] at hPart
    obtain ⟨row', hRow', hCounted', hSame, hEq⟩ := hPart
    obtain ⟨s', hs', hReads'⟩ := hKeptReadable.exists_sample hRow' hCounted'
    obtain ⟨-, hKey', hBenchmark', -⟩ := hReads'.of_some
    have hGroup : s'.group = s.group := by
      rw [SameLaunch, hKey, hKey'] at hSame
      rw [hBenchmark, hBenchmark'] at hEq
      exact (Prod.ext (Except.ok.inj hSame) (Except.ok.inj hEq)).symm
    have hAll : s ∈ samplesOf (F := F) records study.samples :=
      (samplesOf_perm hSplit).mem_iff.mp (List.mem_append_right _ hs)
    have hIndex := (hStudy.complete s hAll s.index).mp ⟨s, hAll, rfl, rfl⟩
    -- another sample with this index is kept
    obtain ⟨t, ht, hGroupT, hIndexT⟩ := (hComplete s' hs' s.index).mpr hIndex
    have hDistinct := hStudy.distinct_append hSplit
    rw [Distinct, List.map_append, List.nodup_append] at hDistinct
    exact hDistinct.2.2 _ (List.mem_map.mpr ⟨t, ht, rfl⟩) _ (List.mem_map.mpr ⟨s, hs, rfl⟩)
      (Prod.ext (hGroupT.trans hGroup) hIndexT)
  · right
    intro hCovers
    obtain ⟨t, ht, hKeyT⟩ := hCovers s.group.1 hKnown
    obtain ⟨row', hRow', hReads'⟩ := hKeptReadable.exists_row ht
    obtain ⟨hCounted', hKey', -⟩ := hReads'.of_some
    exact hLaunch ⟨row', hRow', hCounted', by rw [SameLaunch, hKey, hKey', hKeyT]⟩

/-- Whole benchmarks are not missed. -/
theorem Accepted.summarize_ok (hSome : deleted ≠ []) (hWhole : WholeBenchmarks F kept deleted) :
    ∃ report, summarize { study with samples := kept } = .ok report := by
  have hReadable := hStudy.readable_append hSplit
  have hKeptReadable := hReadable.of_append
  have hDeletedReadable : Readable F records deleted :=
    fun r hr => hReadable r (List.mem_append_right _ hr)
  have hPerm : (samplesOf (F := F) records kept ++ samplesOf records deleted).Perm
      (samplesOf records study.samples) := samplesOf_perm hSplit
  obtain ⟨row, rest, rfl⟩ := List.exists_cons_of_ne_nil hSome
  obtain ⟨row', hRow', -⟩ := (hWhole row (by simp)).2
  rw [hStudy.summarize_kept hSplit (List.ne_nil_of_mem hRow')]
  have hSubset : ∀ t ∈ samplesOf (F := F) records kept,
      t ∈ samplesOf (F := F) records study.samples :=
    fun t ht => hPerm.mem_iff.mp (List.mem_append_left _ ht)
  have hFinishes : Finishes study records (samplesOf (F := F) records kept) :=
    { hStudy.finishes with nameable := fun t ht => hStudy.finishes.nameable t (hSubset t ht) }
  apply hFinishes.finish_ok hStudy.opens.warmup_lt
  · intro t ht i
    rw [← hStudy.complete t (hSubset t ht) i]
    constructor
    · rintro ⟨u, hu, hGroup, hIndex⟩
      exact ⟨u, hSubset u hu, hGroup, hIndex⟩
    · rintro ⟨u, hu, hGroup, hIndex⟩
      rcases List.mem_append.mp (hPerm.mem_iff.mpr hu) with hu | hu
      · exact ⟨u, hu, hGroup, hIndex⟩
      · -- a deleted sample of a benchmark that is kept
        obtain ⟨r, hr, hReads⟩ := hDeletedReadable.exists_row hu
        obtain ⟨r', hr', hReads'⟩ := hKeptReadable.exists_row ht
        obtain ⟨-, hKey, hBenchmark, -⟩ := hReads.of_some
        obtain ⟨hCounted', hKey', hBenchmark', -⟩ := hReads'.of_some
        refine absurd ?_ ((hWhole r hr).1 r' hr' hCounted' ?_)
        · rw [hBenchmark, hBenchmark', hGroup]
        · rw [SameLaunch, hKey, hKey', hGroup]
  · intro key hMem
    obtain ⟨u, hu, rfl⟩ := hStudy.covers key hMem
    rcases List.mem_append.mp (hPerm.mem_iff.mpr hu) with hu | hu
    · exact ⟨u, hu, rfl⟩
    · obtain ⟨r, hr, hReads⟩ := hDeletedReadable.exists_row hu
      obtain ⟨-, hKey, -, -⟩ := hReads.of_some
      obtain ⟨r', hr', hCounted', hSame⟩ := (hWhole r hr).2
      obtain ⟨t, ht, hReads'⟩ := hKeptReadable.exists_sample hr' hCounted'
      obtain ⟨-, hKey', -, -⟩ := hReads'.of_some
      rw [SameLaunch, hKey, hKey'] at hSame
      exact ⟨t, ht, (Except.ok.inj hSame).symm⟩

/-- A second copy of a counted row is noticed wherever it stands. -/
theorem Accepted.summarize_copies {rows : List Row} (hSome : deleted ≠ [])
    (hCounted : ∀ row ∈ deleted, IsCounted F row) (hRows : rows.Perm (study.samples ++ deleted)) :
    RaisesValueError (summarize { study with samples := rows }) := by
  have hReadable : Readable F records rows := by
    intro row hRow
    rcases List.mem_append.mp (hRows.mem_iff.mp hRow) with hRow | hRow
    · exact hStudy.readable row hRow
    · exact hStudy.readable_append hSplit row (List.mem_append_right _ hRow)
  have hNonempty : rows ≠ [] := by
    rintro rfl
    simp [hSome] at hRows
  rw [hStudy.opens.summarize_eq, if_neg hNonempty]
  apply RaisesValueError.bind
  apply hReadable.foldlM_raises
  intro hDistinct
  obtain ⟨row, rest, rfl⟩ := List.exists_cons_of_ne_nil hSome
  have hDeletedReadable : Readable F records (row :: rest) :=
    fun r hr => hStudy.readable_append hSplit r (List.mem_append_right _ hr)
  obtain ⟨s, hs, -⟩ :=
    hDeletedReadable.exists_sample List.mem_cons_self (hCounted row List.mem_cons_self)
  have hAll : s ∈ samplesOf (F := F) records study.samples :=
    (samplesOf_perm hSplit).mem_iff.mp (List.mem_append_right _ hs)
  have hPerm : (samplesOf (F := F) records rows).Perm
      (samplesOf records study.samples ++ samplesOf records (row :: rest)) :=
    (samplesOf_perm hRows.symm).symm
  have hNodup := (hPerm.map fun s : Sample F => (s.group, s.index)).nodup_iff.mp hDistinct
  rw [List.map_append, List.nodup_append] at hNodup
  exact hNodup.2.2 _ (List.mem_map.mpr ⟨s, hAll, rfl⟩) _ (List.mem_map.mpr ⟨s, hs, rfl⟩) rfl

end

/-- Deleting counted rows of a study that was accepted raises a `ValueError`, unless what is deleted
is whole benchmarks of launches that keep another one: then the report is computed from the rest.
A second copy of counted rows always raises. -/
theorem summarize_notices (study : Study F) (report : Report F)
    (hAccepted : summarize study = .ok report) (kept deleted : List Row)
    (hSplit : (kept ++ deleted).Perm study.samples) (hSome : deleted ≠ [])
    (hCounted : ∀ row ∈ deleted, IsCounted F row) :
    (¬WholeBenchmarks F kept deleted →
      RaisesValueError (summarize { study with samples := kept })) ∧
    (WholeBenchmarks F kept deleted →
      ∃ report', summarize { study with samples := kept } = .ok report') ∧
    ∀ rows : List Row, rows.Perm (study.samples ++ deleted) →
      RaisesValueError (summarize { study with samples := rows }) := by
  obtain ⟨expected, warmup, records, hStudy⟩ := exists_accepted hAccepted
  refine ⟨?_, ?_, ?_⟩
  · exact hStudy.summarize_raises hSplit hCounted
  · exact hStudy.summarize_ok hSplit hSome
  · intro rows hRows
    exact hStudy.summarize_copies hSplit hSome hCounted hRows

/-! ### A study of one launch -/

/-- What `int` and `float` make of a text of digits. -/
def digitsOnly (text : Text) : Option Nat :=
  if text ≠ [] ∧ text.all Char.isDigit then
    some (text.foldl (fun n c => 10 * n + (c.toNat - 48)) 0)
  else none

/-- Exact numbers, written in digits; square roots to nine places. -/
instance exactNumbers : Python ℚ where
  int text := (digitsOnly text).map Nat.cast
  intBase0 text := (digitsOnly text).map Nat.cast
  float text := (digitsOnly text).map Nat.cast
  inf := 2 ^ 1024
  lt x y := x < y
  le x y := x ≤ y
  truncate x := .ok (x.num.tdiv x.den)
  mean xs := xs.sum / xs.length
  stdev xs :=
    let mean := xs.sum / xs.length
    let variance := (xs.map fun x => (x - mean) * (x - mean)).sum / (xs.length - 1)
    (Nat.sqrt (variance * 10 ^ 18).floor.toNat : ℚ) / 10 ^ 9
  isDecimal := Char.isDigit
  isDigit := Char.isDigit
  digit c := c.toNat - 48

/-- The columns that identify the launch. -/
def launchColumns : Row :=
  [(.session, some ['1']), (.block, some ['1']), (.condition, some ['c']), (.binary, some ['b'])]

def sampleRow (benchmark : String) (repetition : Char) : Row :=
  launchColumns ++ [(.benchmark, some benchmark.toList), (.repetition, some [repetition]),
    (.realTimeNs, some ['9'])]

def oneLaunch (repetitions : Int) (samples : List Row) : Study ℚ where
  environment := { repetitions := .integer repetitions }
  samples := samples
  launches := [launchColumns ++ [(.exitStatus, some ['0']), (.wallS, some ['2']),
    (.foreignMs, some ['4']), (.throttleCore, some ['0']), (.throttlePackage, some ['0']),
    (.deviceIrqs, some ['0']), (.irqTrm, some ['0']), (.suspendedS, some ['0'])]]

theorem exists_ok_of_isOk {F α : Type} {x : Py F α} (h : x.isOk = true) : ∃ a, x = .ok a := by
  cases x with
  | error e => cases h
  | ok a => exact ⟨a, rfl⟩

/-- Of two benchmarks of a launch one may be missing. -/
theorem summarize_misses_benchmark :
    let study := oneLaunch 1 [sampleRow "BM_A/1" '0', sampleRow "BM_B/1" '0']
    (∃ report, summarize study = .ok report) ∧
      ([sampleRow "BM_A/1" '0'] ++ [sampleRow "BM_B/1" '0']).Perm study.samples ∧
      IsCounted ℚ (sampleRow "BM_B/1" '0') ∧
      ¬RaisesValueError (summarize { study with samples := [sampleRow "BM_A/1" '0'] }) := by
  intro study
  refine ⟨exists_ok_of_isOk (by decide +kernel), .refl _, rfl, ?_⟩
  rintro ⟨problem, hProblem⟩
  obtain ⟨report, hReport⟩ : ∃ report,
      summarize { study with samples := [sampleRow "BM_A/1" '0'] } = .ok report :=
    exists_ok_of_isOk (by decide +kernel)
  rw [hProblem] at hReport
  cases hReport

/-- Two repetitions of two benchmarks.  That one repetition is missing is noticed, that both of a
benchmark are is not; a second copy is noticed. -/
theorem summarize_notices_two_repetitions :
    let a₀ := sampleRow "BM_A/1" '0'
    let a₁ := sampleRow "BM_A/1" '1'
    let b₀ := sampleRow "BM_B/1" '0'
    let b₁ := sampleRow "BM_B/1" '1'
    let study := oneLaunch 2 [a₀, b₀, a₁, b₁]
    RaisesValueError (summarize { study with samples := [a₀, b₀, a₁] }) ∧
      (∃ report, summarize { study with samples := [a₀, a₁] } = .ok report) ∧
      RaisesValueError (summarize { study with samples := [b₁, a₀, b₀, a₁, b₁] }) := by
  intro a₀ a₁ b₀ b₁ study
  obtain ⟨report, hReport⟩ : ∃ report, summarize study = .ok report :=
    exists_ok_of_isOk (by decide +kernel)
  have hRepetition := summarize_notices study report hReport [a₀, b₀, a₁] [b₁] (.refl _) (by simp)
    (List.forall_mem_singleton.mpr rfl)
  have hCounted : ∀ row ∈ [b₀, b₁], IsCounted ℚ row := by
    intro row hRow
    rcases List.mem_pair.mp hRow with rfl | rfl <;> rfl
  have hBenchmark := summarize_notices study report hReport [a₀, a₁] [b₀, b₁]
    (.cons a₀ (.swap b₀ a₁ [b₁])) (by simp) hCounted
  have hName : ∀ {row : Row} {name : Text}, Row.item (F := ℚ) row .benchmark = .ok name →
      name = "BM_B/1".toList → ∀ row' ∈ [a₀, a₁],
        Row.item (F := ℚ) row .benchmark ≠ Row.item row' .benchmark := by
    intro row name hRow hB row' hRow' hEq
    have hA : Row.item (F := ℚ) row' .benchmark = .ok "BM_A/1".toList := by
      rcases List.mem_pair.mp hRow' with rfl | rfl <;> rfl
    rw [hRow, hA, hB] at hEq
    exact absurd (Except.ok.inj hEq) (by decide)
  refine ⟨hRepetition.1 fun hWhole => ?_, hBenchmark.2.1 fun row hRow => ?_,
    hRepetition.2.2 _ (List.perm_append_singleton b₁ study.samples).symm⟩
  · exact (hWhole b₁ (by simp)).1 b₀ (by simp) rfl rfl rfl
  · rcases List.mem_pair.mp hRow with rfl | rfl
    · exact ⟨fun row' hRow' _ _ => hName rfl rfl row' hRow', a₀, by simp, rfl, rfl⟩
    · exact ⟨fun row' hRow' _ _ => hName rfl rfl row' hRow', a₀, by simp, rfl, rfl⟩

end DiagnoseReport

end MatchingMachine
