import MatchingMachine.Recording.ReportText

/-!
# Latency reports are read as they are printed

The loop over the pieces of the console output, what is between the reports, and the console output
of a run as a whole.
-/

namespace MatchingMachine

namespace BenchRecord

open Regex LatencyRecorder

open Unicode hiding isSpace

variable [Unicode]

/-! ## The loop over the pieces -/

/-- The five labels with the printed values. -/
def ticks (r : Report) : Dict Text Nat where
  entries := [("P50".toList, r.p50.toNat), ("P95".toList, r.p95.toNat),
    ("P99".toList, r.p99.toNat), ("P999".toList, r.p999.toNat), ("Max".toList, r.pmax.toNat)]
  nodup := by simp

theorem readTicks_lines (r : Report) : readTicks ((lines r).map Line.groups) = .ok (ticks r) := by
  have hSet : ((((Dict.empty.set "P50".toList r.p50.toNat).set "P95".toList r.p95.toNat).set
      "P99".toList r.p99.toNat).set "P999".toList r.p999.toNat).set "Max".toList r.pmax.toNat =
      ticks r := by
    simp [Dict.set, Dict.setEntries, Dict.empty, ticks]
  rw [← hSet]
  simp [readTicks, lines, Line.groups, int_digits]
  rfl

/-- One entry for each report, with the number of earlier reports of its quantity. -/
def numbered (reports : List Report) : List LatencyReport :=
  reports.mapIdx fun i r =>
    { quantity := r.quantity
      repetition := (reports.take i).countP fun r' => r'.quantity = r.quantity
      ticks := ticks r }

/-- What the loop has gathered after some reports. -/
def scanned (reports : List Report) : ReportScan where
  reports := numbered reports
  seen := Dict.gather 0 Report.quantity (fun n _ => n + 1) reports

omit [Unicode] in
theorem numbered_append_singleton (reports : List Report) (r : Report) :
    numbered (reports ++ [r]) = numbered reports ++
      [{ quantity := r.quantity
         repetition := reports.countP fun r' => r'.quantity = r.quantity
         ticks := ticks r }] := by
  unfold numbered
  rw [List.mapIdx_append]
  congr 1
  · apply List.ext_getElem
    · simp
    · intro i h₁ h₂
      have hi : i ≤ reports.length := by
        simp at h₁
        omega
      simp [List.take_append_of_le_length hi]
  · simp

omit [Unicode] in
theorem foldl_count {α : Type} (xs : List α) (n : Nat) :
    xs.foldl (fun n _ => n + 1) n = n + xs.length := by
  induction xs generalizing n with
  | nil => rfl
  | cons x xs ih =>
      rw [List.foldl_cons, ih, List.length_cons]
      omega

/-- A piece of the output: the header of a report, its lines, and what is printed after it. -/
def piece (s : Report × Text) : Piece Char where
  word := title s.1
  groups := [s.1.quantity]
  rest := ((lines s.1).flatMap fun l => l.text ++ ['\n']) ++ s.2

theorem scanReport_piece (done : List Report) (r : Report) {y : Text} (hy : NoPercentiles y) :
    scanReport (scanned done) ((piece (r, y)).groups, (piece (r, y)).rest) =
      .ok (scanned (done ++ [r])) := by
  have hLines : lines r ≠ [] := by simp [lines]
  have hFound := findAll_lines readable_of_mem_lines hLines hy
  have hRepetition : ((scanned done).seen.get? r.quantity).getD 0 =
      done.countP fun r' => r'.quantity = r.quantity := by
    rw [scanned, Dict.getD_gather, foldl_count, Nat.zero_add, List.countP_eq_length_filter]
  have hSome : ((lines r).map Line.groups).isEmpty = false := rfl
  simp only [scanReport, piece, hFound, hSome, readTicks_lines, List.head?_cons, Option.getD_some,
    hRepetition]
  simp [scanned, numbered_append_singleton, Dict.gather_append_singleton]

theorem foldlM_scanReport (done : List Report) (sections : List (Report × Text))
    (h : ∀ s ∈ sections, NoPercentiles s.2) :
    ((sections.map piece).map fun p => (p.groups, p.rest)).foldlM scanReport (scanned done) =
      .ok (scanned (done ++ sections.map Prod.fst)) := by
  induction sections generalizing done with
  | nil => simp [pure, Except.pure]
  | cons s sections ih =>
      rw [List.forall_mem_cons] at h
      rw [List.map_cons, List.map_cons, List.foldlM_cons, scanReport_piece done s.1 h.1]
      have hMore := ih (done ++ [s.1]) h.2
      rw [List.append_assoc] at hMore
      exact hMore

/-! ## Between the reports -/

theorem nil_notMem_latencyHeader : [] ∉ latencyHeader.lang := by
  intro h
  obtain ⟨inner, hWord, -, -⟩ := exists_of_mem_latencyHeader h
  simp at hWord

theorem noPart_nil : NoPart latencyHeader [] := by
  intro u w v h
  obtain ⟨h, -⟩ := List.append_eq_nil_iff.mp h.symm
  rw [(List.append_eq_nil_iff.mp h).2, ← Bool.not_eq_true, fullMatch_iff plain_latencyHeader]
  exact nil_notMem_latencyHeader

/-- No header begins in a text without equals signs. -/
theorem noPart_append {u y : Text} (hu : '=' ∉ u) (hy : NoPart latencyHeader y) :
    NoPart latencyHeader (u ++ y) := by
  induction u with
  | nil => exact hy
  | cons c u ih =>
      rw [List.mem_cons, not_or] at hu
      intro a w b h
      cases a with
      | cons d a =>
          rw [List.cons_append, List.cons_append, List.cons_append, List.cons.injEq] at h
          exact ih hu.2 a w b h.2
      | nil =>
          rw [← Bool.not_eq_true, fullMatch_iff plain_latencyHeader]
          intro hWord
          obtain ⟨inner, rfl, -, -⟩ := exists_of_mem_latencyHeader hWord
          simp at h
          exact hu.1 h.1.symm

omit [Unicode] in
theorem equals_notMem_lines (r : Report) :
    '=' ∉ (lines r).flatMap fun l => l.text ++ ['\n'] := by
  intro h
  obtain ⟨l, hl, hMem⟩ := List.mem_flatMap.mp h
  have hLabel : '=' ∉ l.label := fun hMem => by
    simpa using (readable_of_mem_lines l hl).label_ascii _ hMem
  have hDigits : '=' ∉ digits l.value.toNat := fun hMem => by
    simpa using isDigit_of_mem_digits hMem
  simp [Line.text, hLabel, hDigits] at hMem

theorem noPercentiles_nil : NoPercentiles [] := by
  have hSearch := search_append (r := percentilePattern) (v := []) (passed_newline [] [])
  rw [search, run_percentilePattern_eq_nil (by simp)] at hSearch
  exact hSearch

/-- The text of a report begins like its title. -/
theorem passed_of_titled {u t : Text} (hu : NoPart latencyHeader u)
    (ht : t = [] ∨ ∃ r : Report, title r <+: t) : Passed latencyHeader u t := by
  apply passed_of_noPart plain_latencyHeader hu
  intro a b d hWord ha hb
  rcases ht with rfl | ⟨r, more, rfl⟩
  · intro h
    exact hb (List.append_eq_nil_iff.mp h).1
  · exact not_across hWord ha hb

/-- A report and what is printed after it. -/
structure SectionReads (s : Report × Text) : Prop where
  quantity : IsQuantity s.1.quantity
  noHeader : NoPart latencyHeader s.2
  noPercentiles : NoPercentiles s.2

omit [Unicode] in
theorem text_piece_ne_nil (s : Report × Text) : (piece s).text ≠ [] := by
  intro h
  have hTitle := (List.append_eq_nil_iff.mp (List.append_eq_nil_iff.mp h).1).1
  simp at hTitle

theorem split_sections {u : Text} (hu : NoPart latencyHeader u) {sections : List (Report × Text)}
    (h : ∀ s ∈ sections, SectionReads s) :
    split latencyHeader (u ++ (sections.map piece).flatMap Piece.text) =
      (u, (sections.map piece).map fun p => (p.groups, p.rest)) := by
  apply splitFrom_pieces (sections.map piece) _ nil_notMem_latencyHeader
  · intro p hp before t
    obtain ⟨s, hs, rfl⟩ := List.mem_map.mp hp
    exact takes_title (h s hs).quantity before t
  · intro v hv t ht
    apply passed_of_titled
    · rcases List.mem_cons.mp hv with rfl | hv
      · exact hu
      · obtain ⟨p, hp, rfl⟩ := List.mem_map.mp hv
        obtain ⟨s, hs, rfl⟩ := List.mem_map.mp hp
        exact noPart_append (equals_notMem_lines s.1) (h s hs).noHeader
    · apply ht.imp_right
      rintro ⟨p, hp, hPrefix⟩
      obtain ⟨s, -, rfl⟩ := List.mem_map.mp hp
      exact ⟨s.1, hPrefix⟩
  · -- No piece is empty, so there are no more pieces than characters.
    have hLength : ∀ n ∈ (sections.map piece).map fun p => p.text.length, 1 ≤ n := by
      intro n hn
      obtain ⟨p, hp, rfl⟩ := List.mem_map.mp hn
      obtain ⟨s, -, rfl⟩ := List.mem_map.mp hp
      exact List.length_pos_iff.mpr (text_piece_ne_nil s)
    have hSum := List.length_le_sum_of_one_le _ hLength
    rw [List.length_map] at hSum
    rw [List.length_append, List.length_flatMap]
    omega

/-! ## The console output -/

/-- Reports that are printed one after the other, and the bytes printed after the last one. -/
structure Group where
  reports : List Report
  after : List UInt8
  deriving DecidableEq

def Group.bytes (g : Group) : List UInt8 := Utf8.encode (g.reports.flatMap Report.text) ++ g.after

/-- What a binary prints: groups of reports with other output before, between and after them. -/
def console (before : List UInt8) (groups : List Group) : List UInt8 :=
  before ++ groups.flatMap Group.bytes

/-- Calls of `report` with a quantity and samples, and the bytes printed after the last one. -/
structure Calls where
  calls : List (Text × List UInt64)
  after : List UInt8

def Calls.bytes (index : ℚ → Nat → Nat) (c : Calls) : List UInt8 :=
  Utf8.encode (c.calls.flatMap fun call => report index call.1 call.2) ++ c.after

def Calls.group (index : ℚ → Nat → Nat) (c : Calls) : Group where
  reports := c.calls.map fun call => reported index call.1 call.2
  after := c.after

omit [Unicode] in
theorem Calls.bytes_eq (index : ℚ → Nat → Nat) {c : Calls} (h : ∀ call ∈ c.calls, call.2 ≠ []) :
    c.bytes index = (c.group index).bytes := by
  have hText : (c.calls.flatMap fun call => report index call.1 call.2) =
      (c.group index).reports.flatMap Report.text := by
    rw [Calls.group, List.flatMap_map]
    apply List.flatMap_congr
    intro call hCall
    exact report_eq_text index call.1 (h call hCall)
  rw [Calls.bytes, hText]
  rfl

omit [Unicode] in
theorem console_calls (index : ℚ → Nat → Nat) (before : List UInt8) {runs : List Calls}
    (h : ∀ run ∈ runs, ∀ call ∈ run.calls, call.2 ≠ []) :
    before ++ runs.flatMap (Calls.bytes index) = console before (runs.map (Calls.group index)) := by
  rw [console, List.flatMap_map]
  congr 1
  apply List.flatMap_congr
  intro run hRun
  exact Calls.bytes_eq index (h run hRun)

/-- The reports of a group, each with what is printed between it and the next one. -/
def sectionsOf (y : Text) : List Report → List (Report × Text)
  | [] => []
  | [r] => [(r, y)]
  | r :: r' :: rs => (r, []) :: sectionsOf y (r' :: rs)

omit [Unicode] in
theorem map_fst_sectionsOf (y : Text) (rs : List Report) : (sectionsOf y rs).map Prod.fst = rs := by
  induction rs with
  | nil => rfl
  | cons r rs ih =>
      cases rs with
      | nil => rfl
      | cons r' rs => rw [sectionsOf, List.map_cons, ih]

omit [Unicode] in
theorem piece_text (r : Report) (y : Text) : (piece (r, y)).text = r.text ++ y := by
  rw [text_eq, Piece.text, piece, List.append_assoc]

omit [Unicode] in
theorem flatMap_sectionsOf (y : Text) {rs : List Report} (hNe : rs ≠ []) :
    ((sectionsOf y rs).map piece).flatMap Piece.text = rs.flatMap Report.text ++ y := by
  induction rs with
  | nil => exact absurd rfl hNe
  | cons r rs ih =>
      cases rs with
      | nil => simp [sectionsOf, piece_text]
      | cons r' rs =>
          rw [sectionsOf, List.map_cons, List.flatMap_cons, ih (by simp), piece_text,
            List.append_nil, ← List.append_assoc, ← List.flatMap_cons]

theorem sectionReads_sectionsOf {y : Text} (hHeader : NoPart latencyHeader y)
    (hPercentiles : NoPercentiles y) {rs : List Report} (h : ∀ r ∈ rs, IsQuantity r.quantity) :
    ∀ s ∈ sectionsOf y rs, SectionReads s := by
  induction rs with
  | nil => simp [sectionsOf]
  | cons r rs ih =>
      rw [List.forall_mem_cons] at h
      cases rs with
      | nil =>
          intro s hs
          rw [sectionsOf, List.mem_singleton] at hs
          subst hs
          exact ⟨h.1, hHeader, hPercentiles⟩
      | cons r' rs =>
          rw [sectionsOf, List.forall_mem_cons]
          exact ⟨⟨h.1, noPart_nil, noPercentiles_nil⟩, ih h.2⟩

omit [Unicode] in
theorem decode_console {groups : List Group} (h : ∀ g ∈ groups, g.reports ≠ [])
    (before : List UInt8) :
    Utf8.decode (console before groups) = Utf8.decode before ++
      ((groups.flatMap fun g => sectionsOf (Utf8.decode g.after) g.reports).map piece).flatMap
        Piece.text := by
  induction groups generalizing before with
  | nil => simp [console]
  | cons g groups ih =>
      rw [List.forall_mem_cons] at h
      obtain ⟨cs, hText⟩ : ∃ cs, g.reports.flatMap Report.text = '=' :: cs := by
        obtain ⟨r, rs, hReports⟩ := List.exists_cons_of_ne_nil h.1
        exact ⟨_, by rw [hReports]; rfl⟩
      have hMore := ih h.2 g.after
      have hDecode := Utf8.decode_append_encode before (console g.after groups)
        (c := '=') (by decide) cs
      rw [← hText, hMore] at hDecode
      have hConsole : console before (g :: groups) =
          before ++ Utf8.encode (g.reports.flatMap Report.text) ++ console g.after groups := by
        simp [console, Group.bytes]
      rw [hConsole, hDecode, List.flatMap_cons, List.map_append, List.flatMap_append,
        flatMap_sectionsOf _ h.1]
      simp only [List.append_assoc]

/-- Quantities of letters, digits, underscores and hyphens, no header in what is printed after the
reports, and no percentile there up to the first blank line. -/
structure Group.Reads (g : Group) : Prop where
  nonempty : g.reports ≠ []
  quantities : ∀ r ∈ g.reports, IsQuantity r.quantity
  noHeader : NoPart latencyHeader (Utf8.decode g.after)
  noPercentiles : NoPercentiles (Utf8.decode g.after)

/-- `latency_reports` returns one entry for each printed report, in order, with its quantity, the
number of earlier reports of that quantity, and the printed values; and so it does where the
reports are what calls of `report` with samples print. -/
theorem latencyReports_console {before : List UInt8} {groups : List Group}
    (hBefore : NoPart latencyHeader (Utf8.decode before)) (hGroups : ∀ g ∈ groups, g.Reads) :
    latencyReports (console before groups) = .ok (numbered (groups.flatMap Group.reports)) ∧
    ∀ (index : ℚ → Nat → Nat) (runs : List Calls),
      (∀ run ∈ runs, ∀ call ∈ run.calls, call.2 ≠ []) → runs.map (Calls.group index) = groups →
      latencyReports (before ++ runs.flatMap (Calls.bytes index)) =
        .ok (numbered (groups.flatMap Group.reports)) := by
  have hSections : ∀ s ∈ groups.flatMap fun g => sectionsOf (Utf8.decode g.after) g.reports,
      SectionReads s := by
    intro s hs
    obtain ⟨g, hg, hs⟩ := List.mem_flatMap.mp hs
    have hReads := hGroups g hg
    exact sectionReads_sectionsOf hReads.noHeader hReads.noPercentiles hReads.quantities s hs
  have hReports : (groups.flatMap fun g => sectionsOf (Utf8.decode g.after) g.reports).map Prod.fst =
      groups.flatMap Group.reports := by
    rw [List.map_flatMap]
    simp only [map_fst_sectionsOf]
  have hScan := foldlM_scanReport [] _ fun s hs => (hSections s hs).noPercentiles
  rw [List.nil_append, hReports] at hScan
  have hParts : (split latencyHeader (Utf8.decode (console before groups))).2 =
      ((groups.flatMap fun g => sectionsOf (Utf8.decode g.after) g.reports).map piece).map
        fun p => (p.groups, p.rest) := by
    rw [decode_console (fun g hg => (hGroups g hg).nonempty) before,
      split_sections hBefore hSections]
  have hStart : scanned [] = {} := rfl
  have hConsole : latencyReports (console before groups) =
      .ok (numbered (groups.flatMap Group.reports)) := by
    unfold latencyReports
    dsimp only
    rw [hParts, ← hStart, hScan]
    rfl
  refine ⟨hConsole, fun index runs hSamples hRuns => ?_⟩
  rw [console_calls index before hSamples, hRuns]
  exact hConsole

/-- The classes, of the ASCII characters only. -/
@[reducible] def asciiClasses : Unicode where
  isWord c := c.isAlphanum || c == '_'
  isSpace c := c == ' ' || (9 ≤ c.toNat && c.toNat ≤ 13) || (28 ≤ c.toNat && c.toNat ≤ 31)
  isDecimal c := c.isDigit
  digit c := c.toNat - '0'.toNat
  isWord_ascii _ _ := rfl
  isSpace_ascii _ _ := rfl
  isDecimal_ascii _ _ := rfl
  digit_ascii _ _ := rfl

/-- `p * n`, rounded down. -/
def exactIndex (p : ℚ) (n : Nat) : Nat := (p * n).floor.toNat

omit [Unicode] in
/-- The queueing times of two repetitions, with a service time between them; and what two calls of
`report` print. -/
theorem latencyReports_console_two_repetitions :
    @latencyReports asciiClasses (console [45, 45, 10]
      [{ reports := [{ quantity := "queue".toList, count := 3, p50 := 900000, p95 := 2000000,
                       p99 := 3, p999 := 18446744073709551615, pmax := 0 },
                     { quantity := "service-time".toList, count := 3, p50 := 600, p95 := 700,
                       p99 := 800, p999 := 900, pmax := 41000 }]
         after := [32, 80, 32, 58, 32, 55, 10, 10, 80, 58, 55, 32, 116, 105, 99, 107, 115] },
       { reports := [{ quantity := "queue".toList, count := 3, p50 := 1, p95 := 2, p99 := 3,
                       p999 := 4, pmax := 5 }]
         after := [255, 10] }]) = .ok (numbered
      [{ quantity := "queue".toList, count := 3, p50 := 900000, p95 := 2000000, p99 := 3,
         p999 := 18446744073709551615, pmax := 0 },
       { quantity := "service-time".toList, count := 3, p50 := 600, p95 := 700, p99 := 800,
         p999 := 900, pmax := 41000 },
       { quantity := "queue".toList, count := 3, p50 := 1, p95 := 2, p99 := 3, p999 := 4,
         pmax := 5 }]) ∧
    @latencyReports asciiClasses ([45, 45, 10] ++ [({
        calls := [("queue".toList, [7, 5, 6]), ("service-time".toList, [41000])]
        after := [10] } : Calls)].flatMap (Calls.bytes exactIndex)) = .ok (numbered
      [{ quantity := "queue".toList, count := 3, p50 := 6, p95 := 6, p99 := 6, p999 := 6,
         pmax := 7 },
       { quantity := "service-time".toList, count := 1, p50 := 41000, p95 := 41000, p99 := 41000,
         p999 := 41000, pmax := 41000 }]) := by
  let classes : Unicode := asciiClasses
  have hNoEquals : ∀ text : Text, '=' ∉ text → NoPart latencyHeader text := fun text h => by
    have hNo := noPart_append h noPart_nil
    rwa [List.append_nil] at hNo
  have hQuantity : ∀ quantity ∈ ["queue", "service-time"], IsQuantity quantity.toList := by
    simp [IsQuantity, isQuantityChar, isWord_ascii]
  have hQueue := hQuantity "queue" (by simp)
  have hService := hQuantity "service-time" (by simp)
  constructor
  · refine (latencyReports_console (hNoEquals _ (by decide +kernel)) ?_).1
    simp only [List.forall_mem_cons, List.not_mem_nil, IsEmpty.forall_iff, implies_true, and_true]
    constructor
    · refine ⟨by simp, ?_, hNoEquals _ (by decide +kernel), rfl⟩
      simp only [List.forall_mem_cons, List.not_mem_nil, IsEmpty.forall_iff, implies_true, and_true]
      exact ⟨hQueue, hService⟩
    · refine ⟨by simp, ?_, hNoEquals _ (by decide +kernel), rfl⟩
      simp only [List.forall_mem_cons, List.not_mem_nil, IsEmpty.forall_iff, implies_true, and_true]
      exact hQueue
  · let group : Group :=
      { reports := [{ quantity := "queue".toList, count := 3, p50 := 6, p95 := 6, p99 := 6,
                      p999 := 6, pmax := 7 },
                    { quantity := "service-time".toList, count := 1, p50 := 41000, p95 := 41000,
                      p99 := 41000, p999 := 41000, pmax := 41000 }]
        after := [10] }
    have hReads : ∀ g ∈ [group], g.Reads := by
      refine List.forall_mem_singleton.mpr
        ⟨by simp [group], ?_, hNoEquals _ (by decide +kernel), rfl⟩
      simp only [group, List.forall_mem_cons, List.not_mem_nil, IsEmpty.forall_iff, implies_true,
        and_true]
      exact ⟨hQueue, hService⟩
    exact (latencyReports_console (hNoEquals _ (by decide +kernel)) hReads).2 exactIndex _
      (by decide) (by decide +kernel)

end BenchRecord

end MatchingMachine
