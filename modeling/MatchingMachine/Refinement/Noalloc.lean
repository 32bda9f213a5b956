import MatchingMachine.Refinement.MatchStep

/-!
# The matching loops of the allocation-free path

The two loops of `match_noalloc` keep `MatchContext.Inv` under the deallocator protocol.  A
round of the inner loop is one fill, and shortens the first level or fills the incoming
order; a round of the outer loop exhausts the first level or fills the incoming order.
-/

namespace MatchingMachine

open Interaction

variable {k : Nat}

namespace MatchContext

variable {c : MatchContext k}

/-- The invariant of the inner loop: the level is the first one, in front of `es`. -/
structure LevelInv (c : MatchContext k) (price : Int) (es : List (Int × PriceLevel))
    (log : List OrderPtr) (s : BookState k) (o : Order) (tradeId : UInt64)
    (rs done : List Resting) (level : PriceLevel) : Prop where
  inv : c.Inv log s o tradeId rs done
  entries_eq : (s.book.levels c.opp).entries = (price, level) :: es

/-- The inner loop goes on. -/
def InLevel (c : MatchContext k) (price : Int) (es : List (Int × PriceLevel))
    (log : List OrderPtr) (s : BookState k) : Prop :=
  ∃ o tradeId rs done level, c.LevelInv price es log s o tradeId rs done level

/-- The inner loop is over: the incoming order is full or the level is exhausted. -/
def LevelDone (c : MatchContext k) (price : Int) (es : List (Int × PriceLevel))
    (log : List OrderPtr) (s : BookState k) : Prop :=
  ∃ o tradeId rs done level, c.LevelInv price es log s o tradeId rs done level ∧
    (o.isFilled = true ∨ level.empty = true)

/-- Rounds the inner loop may still take. -/
def levelMeasure (c : MatchContext k) (s : BookState k) : Nat :=
  s.frontSize c.opp + if (s.heap c.inc).isFilled then 0 else 1

/-- The measure after a change of the heap that spares the incoming order. -/
theorem levelMeasure_withHeap {s : BookState k} {h : Heap} (hInc : h c.inc = s.heap c.inc) :
    c.levelMeasure { s with heap := h } = c.levelMeasure s := by
  unfold levelMeasure BookState.frontSize
  simp only [hInc]

/-- One round of the inner loop. -/
theorem matchLevelRoundNoalloc_wp (hc : c.Valid) {price : Int} {es : List (Int × PriceLevel)}
    (hCross : ¬ c.opp.before c.order.price price) (log : List OrderPtr) (s : BookState k)
    (hs : c.InLevel price es log s) :
    wp (ownership c.inc c.ptrs c.stable)
      (roundPost (c.InLevel price es) (c.LevelDone price es) c.levelMeasure s)
      log (BookState.matchLevelRoundNoalloc c.opp c.inc s) := by
  obtain ⟨o, tradeId, rs, done, level, hI, hEntries⟩ := hs
  have hM := hI.matching
  have hBegin : (s.book.levels c.opp).begin? = some (price, level) := by
    simp [OrderedMap.begin?, hEntries]
  have hClean : level.Clean := hM.frontClean (price, level) (by simp [hEntries])
  have hIncoming := hM.incoming
  simp only [BookState.matchLevelRoundNoalloc, hBegin]
  by_cases hStop : ((s.heap c.inc).isFilled || level.empty) = true
  · rw [if_pos hStop, wp_ret]
    rw [hIncoming, Bool.or_eq_true] at hStop
    exact ⟨o, tradeId, rs, done, level, ⟨hI, hEntries⟩, hStop⟩
  rw [if_neg hStop]
  simp only [hIncoming, Bool.or_eq_true, not_or, Bool.not_eq_true] at hStop
  obtain ⟨hOpen, hNonempty⟩ := hStop
  -- a clean level that is not exhausted has a live order at its cursor
  obtain ⟨q, hFront⟩ : ∃ q, level.front = some q := by
    cases hq : level.front with
    | some q => exact ⟨q, rfl⟩
    | none =>
        rw [hClean.front_eq, List.head?_eq_none_iff] at hq
        rw [hClean.empty_iff.mpr hq] at hNonempty
        exact Bool.noConfusion hNonempty
  obtain ⟨r, rs', rfl, rfl, hPrice⟩ := hM.front_eq hEntries hFront
  have hCross' : ¬ c.opp.before o.price price := hI.price_eq ▸ hCross
  have hNe : r.ptr ≠ c.inc := hM.front_ne
  have hRes : s.heap r.ptr = r.order := hM.contents r (List.mem_cons_self ..)
  have hFillRes : ((s.fill c.opp c.inc r.ptr price).1.writeTrade
      (s.fill c.opp c.inc r.ptr price).2).heap r.ptr =
        r.order.addFilled (matchQty o r.order) := by
    have hHeap := (s.partState_fillStep c.opp price hNe).heap_res
    rw [hIncoming, hRes] at hHeap
    simp [BookState.writeTrade, BookState.fill, Heap.modify_of_ne hNe, hIncoming, hRes]
  have hBefore : c.levelMeasure s = level.size + 1 := by
    rw [levelMeasure, BookState.frontSize_eq hEntries, hIncoming, hOpen]
    rfl
  simp only [hFront]
  rw [hFillRes]
  by_cases hFull : (r.order.addFilled (matchQty o r.order)).isFilled = true
  · rw [if_pos hFull]
    have hI' := hI.fill_full hc hEntries hFront hPrice hOpen hCross' hFull
    have hEntries' := OrderedMap.entries_modifyBegin hEntries PriceLevel.popFront
    rw [← s.levels_fullState c.opp price] at hEntries'
    refine wp_bind ⟨hI'.guar hc hNe, fun s' hRely => ?_⟩
    have hI'' := hI'.of_rely hNe hRely
    obtain ⟨h, rfl, hAgree⟩ := hRely
    refine ⟨⟨_, _, _, _, level.popFront, hI'', hEntries'⟩, ?_⟩
    have hInc' : h c.inc = (s.fullState c.opp c.inc r.ptr price).heap c.inc :=
      hAgree c.inc (Or.inl (Or.inr ⟨rfl, hNe⟩))
    have hMeasure : c.levelMeasure { s.fullState c.opp c.inc r.ptr price with heap := h } ≤
        level.popFront.size + 1 := by
      rw [levelMeasure_withHeap hInc', levelMeasure, BookState.frontSize_eq hEntries']
      split <;> omega
    have hPop := PriceLevel.size_popFront_lt hNonempty
    exact lt_of_le_of_lt hMeasure (by omega)
  · rw [if_neg hFull, wp_ret]
    have hPart : (r.order.addFilled (matchQty o r.order)).isFilled = false := by simpa using hFull
    have hI' := hI.fill_part hc hPrice hOpen hCross' hPart
    have hEntries' := hEntries
    rw [← s.levels_partState c.opp price c.opp] at hEntries'
    refine ⟨⟨_, _, _, _, level, hI', hEntries'⟩, ?_⟩
    have hInc' := (isFilled_of_match o r.order).resolve_right hFull
    have hAfter : c.levelMeasure (s.partState c.opp c.inc r.ptr price) = level.size := by
      rw [levelMeasure, BookState.frontSize_eq hEntries', hI'.matching.incoming, if_pos hInc']
      rfl
    exact lt_of_eq_of_lt hAfter (by omega)

/-- Every level of the side being matched has a live order at its cursor. -/
def AllLive (c : MatchContext k) (s : BookState k) : Prop :=
  ∀ e ∈ (s.book.levels c.opp).entries, e.2.Live

/-- The outer loop goes on. -/
def InMatch (c : MatchContext k) (log : List OrderPtr) (s : BookState k) : Prop :=
  c.AllLive s ∧ ∃ o tradeId rs done, c.Inv log s o tradeId rs done

/-- The outer loop is over: the sweep of what is left does nothing. -/
def MatchDone (c : MatchContext k) (log : List OrderPtr) (s : BookState k) : Prop :=
  c.AllLive s ∧ ∃ o tradeId rs done, c.Inv log s o tradeId rs done ∧
    (o.isFilled = true ∨ ∀ r ∈ rs.head?, c.opp.before o.price r.order.price)

/-- Rounds the outer loop may still take. -/
def matchMeasure (c : MatchContext k) (s : BookState k) : Nat :=
  (s.book.levels c.opp).size + if (s.heap c.inc).isFilled then 0 else 1

theorem matchMeasure_lt (c : MatchContext k) (s : BookState k) :
    c.matchMeasure s < (s.book.levels c.opp).size + 2 := by
  unfold matchMeasure
  split <;> omega

/-- The first level's price is the price of the first order in the queue. -/
theorem Inv.exists_head {log : List OrderPtr} {s : BookState k} {o : Order} {tradeId : UInt64}
    {rs done : List Resting} (hI : c.Inv log s o tradeId rs done) {price : Int}
    {level : PriceLevel} {es : List (Int × PriceLevel)}
    (hEntries : (s.book.levels c.opp).entries = (price, level) :: es) (hLive : level.Live) :
    ∃ r rs', rs = r :: rs' ∧ r.order.price = price := by
  have hFront := hLive.clean.front_eq
  obtain ⟨q, qs, hq⟩ := List.exists_cons_of_ne_nil hLive.live_ne_nil
  rw [hq, List.head?_cons] at hFront
  obtain ⟨r, rs', hrs, -, hPrice⟩ := hI.matching.front_eq hEntries hFront
  exact ⟨r, rs', hrs, hPrice⟩

/-- The end of an outer round, after the inner loop. -/
theorem after_level {price : Int} {es : List (Int × PriceLevel)} {log : List OrderPtr}
    {s : BookState k} (hes : ∀ e ∈ es, e.2.Live) (hDone : c.LevelDone price es log s) :
    c.InMatch log (if s.frontEmpty c.opp then s.eraseFront c.opp else s) ∧
      c.matchMeasure (if s.frontEmpty c.opp then s.eraseFront c.opp else s) < es.length + 2 := by
  obtain ⟨o, tradeId, rs, done, level, ⟨hI, hEntries⟩, hExit⟩ := hDone
  have hClean : level.Clean := hI.matching.frontClean (price, level) (by simp [hEntries])
  rw [BookState.frontEmpty_eq hEntries]
  -- an emptied level is erased; otherwise the incoming order is full
  by_cases hEmpty : level.empty = true
  · rw [if_pos hEmpty]
    have hEntries' := OrderedMap.entries_eraseBegin hEntries
    have hLevels : ((s.eraseFront c.opp).book.levels c.opp).entries = es := by
      rw [BookState.eraseFront, OrderBook.levels_setLevels, hEntries']
    refine ⟨⟨?_, o, tradeId, rs, done, ?_⟩, ?_⟩
    · intro e he
      rw [hLevels] at he
      exact hes e he
    · exact
        { matching := hI.matching.erase_front hEntries (hClean.empty_iff.mp hEmpty)
          result_eq := hI.result_eq
          log_eq := hI.log_eq
          queue_eq := hI.queue_eq
          buf_eq := hI.buf_eq
          done_stable := hI.done_stable
          frame := hI.frame
          price_eq := hI.price_eq
          id_eq := hI.id_eq }
    · have hLe : c.matchMeasure (s.eraseFront c.opp) ≤ es.length + 1 := by
        rw [matchMeasure, OrderedMap.size, hLevels]
        split <;> omega
      omega
  · rw [if_neg hEmpty]
    have hLive : level.Live := hClean.live_of_ne fun hNil => hEmpty (hClean.empty_iff.mpr hNil)
    refine ⟨⟨?_, o, tradeId, rs, done, hI⟩, ?_⟩
    · intro e he
      rw [hEntries] at he
      rcases List.mem_cons.mp he with rfl | he
      · exact hLive
      · exact hes e he
    · rw [matchMeasure, OrderedMap.size, hEntries, hI.matching.incoming,
        if_pos (hExit.resolve_right hEmpty), List.length_cons]
      omega

/-- One round of the outer loop. -/
theorem matchRoundNoalloc_wp (hc : c.Valid) (log : List OrderPtr) (s : BookState k)
    (hs : c.InMatch log s) :
    wp (ownership c.inc c.ptrs c.stable)
      (roundPost c.InMatch c.MatchDone c.matchMeasure s)
      log (BookState.matchRoundNoalloc c.opp c.inc s) := by
  obtain ⟨hLive, o, tradeId, rs, done, hI⟩ := hs
  have hIncoming := hI.matching.incoming
  unfold BookState.matchRoundNoalloc
  cases hBegin : (s.book.levels c.opp).begin? with
  | none =>
      have hEntries := OrderedMap.begin?_eq_none.mp hBegin
      have hQueue := hI.matching.queue_eq
      rw [queueOf, hEntries, List.flatMap_nil] at hQueue
      have hNil : rs = [] := List.map_eq_nil_iff.mp hQueue.symm
      exact ⟨hLive, o, tradeId, rs, done, hI, Or.inr (by simp [hNil])⟩
  | some e =>
      obtain ⟨price, level⟩ := e
      obtain ⟨es, hEntries⟩ := OrderedMap.begin?_eq_some hBegin
      have hLevel : level.Live := hLive (price, level) (by simp [hEntries])
      dsimp only
      by_cases hFull : (s.heap c.inc).isFilled = true
      · rw [if_pos hFull, wp_ret]
        exact ⟨hLive, o, tradeId, rs, done, hI, Or.inl (hIncoming ▸ hFull)⟩
      rw [if_neg hFull]
      by_cases hCross : c.opp.before (s.heap c.inc).price price
      · rw [if_pos hCross, wp_ret]
        obtain ⟨r, rs', rfl, hPrice⟩ := hI.exists_head hEntries hLevel
        refine ⟨hLive, o, tradeId, r :: rs', done, hI, Or.inr ?_⟩
        intro x hx
        obtain rfl : r = x := by simpa using hx
        rw [hPrice, ← hIncoming]
        exact hCross
      · have hCross' : ¬ c.opp.before c.order.price price := by
          rw [← hI.price_eq, ← hIncoming]
          exact hCross
        -- no level of a book at rest starts with a hole
        rw [if_neg hCross, BookState.modifyFront_of_eq hEntries
          (PriceLevel.dropHoles_of_clean hLevel.clean), BookState.frontEmpty_eq hEntries]
        have hNonempty : level.empty = false := by
          cases hEmpty : level.empty with
          | false => rfl
          | true => exact absurd (hLevel.clean.empty_iff.mp hEmpty) hLevel.live_ne_nil
        simp only [hNonempty, Bool.false_eq_true, if_false]
        have hes : ∀ e ∈ es, e.2.Live := fun e he =>
          hLive e (by rw [hEntries]; exact List.mem_cons_of_mem _ he)
        have hMeasure : c.levelMeasure s < s.frontSize c.opp + 2 := by
          unfold levelMeasure
          split <;> omega
        have hBefore : c.matchMeasure s = es.length + 2 := by
          rw [matchMeasure, OrderedMap.size, hEntries, if_neg hFull, List.length_cons]
        have hLoop : wp (ownership c.inc c.ptrs c.stable) (c.LevelDone price es) log
            (loop .stuck (BookState.matchLevelRoundNoalloc c.opp c.inc)
              (s.frontSize c.opp + 2) s) :=
          wp_loop (c.InLevel price es) c.levelMeasure (c.matchLevelRoundNoalloc_wp hc hCross')
            hMeasure ⟨o, tradeId, rs, done, level, hI, hEntries⟩
        refine wp_bind (wp_mono (fun log' s' hDone => ?_) hLoop)
        obtain ⟨hin, hLt⟩ := after_level hes hDone
        exact ⟨hin, hBefore ▸ hLt⟩

end MatchContext

end MatchingMachine
