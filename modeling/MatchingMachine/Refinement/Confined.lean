import MatchingMachine.Refinement.Calls

/-!
# What a call of the book writes to

Between two deallocator calls `add_order_noalloc` writes to its own order and to orders that rest
in the book, and only its own order joins the book.  Unlike the protocol of `MatchStep` this does
not depend on what the environment does during the calls: `addOrderNoalloc_confined` is about every
memory a call may return with.

An order that has been handed to the deallocator is not touched again.  For resting orders that is
part of `Confined`; for the own order it is `addOrderNoalloc_lastCall`.
-/

namespace MatchingMachine

open Interaction

variable {k : Nat}

/-- From `s` to `t` only `inc` and resting orders are written to, and only `inc` may join the
book. -/
structure Confined (inc : OrderPtr) (s t : BookState k) : Prop where
  heap_eq : ∀ q, q ≠ inc → q ∉ s.book.livePtrs → t.heap q = s.heap q
  live : ∀ q ∈ t.book.livePtrs, q = inc ∨ q ∈ s.book.livePtrs

theorem Confined.refl (inc : OrderPtr) (s : BookState k) : Confined inc s s where
  heap_eq _ _ _ := rfl
  live _ hq := Or.inr hq

theorem Confined.trans {inc : OrderPtr} {s t u : BookState k} (hst : Confined inc s t)
    (htu : Confined inc t u) : Confined inc s u where
  heap_eq q hq hLive := by
    have hLive' : q ∉ t.book.livePtrs := fun hMem => (hst.live q hMem).elim hq hLive
    exact (htu.heap_eq q hq hLive').trans (hst.heap_eq q hq hLive)
  live q hq := (htu.live q hq).elim Or.inl (hst.live q)

instance confinedTrans (inc : OrderPtr) : IsTrans (BookState k) (Confined inc) :=
  ⟨fun _ _ _ => Confined.trans⟩

/-! ## Orders in the levels -/

theorem OrderBook.mem_livePtrs_iff {b : OrderBook} {q : OrderPtr} :
    q ∈ b.livePtrs ↔ ∃ s, ∃ e ∈ (b.levels s).entries, q ∈ e.2.live := by
  have hSide : ∀ {s : Side} (ls : Levels s),
      q ∈ (queueOf ls).map Prod.snd ↔ ∃ e ∈ ls.entries, q ∈ e.2.live := by
    intro s ls
    simp only [queueOf, List.mem_map, List.mem_flatMap]
    constructor
    · rintro ⟨_, ⟨e, he, p, hp, rfl⟩, rfl⟩
      exact ⟨e, he, hp⟩
    · rintro ⟨e, he, hq⟩
      exact ⟨(e.1, q), ⟨e, he, q, hq, rfl⟩, rfl⟩
  rw [OrderBook.livePtrs, List.map_append, List.mem_append, hSide, hSide]
  constructor
  · rintro (h | h)
    · exact ⟨.BUY, h⟩
    · exact ⟨.SELL, h⟩
  · rintro ⟨s, h⟩
    cases s with
    | BUY => exact Or.inl h
    | SELL => exact Or.inr h

/-- The live orders are those of the levels. -/
theorem OrderBook.livePtrs_congr {b b' : OrderBook} (h : ∀ s, b'.levels s = b.levels s)
    (q : OrderPtr) : q ∈ b'.livePtrs ↔ q ∈ b.livePtrs := by
  simp only [OrderBook.mem_livePtrs_iff, h]

/-- After the levels of one side are replaced, a live order is in the new ones or was there. -/
theorem OrderBook.mem_livePtrs_setLevels {b : OrderBook} {side : Side} {ls : Levels side}
    {q : OrderPtr} (hq : q ∈ (b.setLevels side ls).livePtrs) :
    (∃ e ∈ ls.entries, q ∈ e.2.live) ∨ q ∈ b.livePtrs := by
  obtain ⟨t, e, he, hLive⟩ := OrderBook.mem_livePtrs_iff.mp hq
  by_cases hSide : t = side
  · subst hSide
    rw [OrderBook.levels_setLevels] at he
    exact Or.inl ⟨e, he, hLive⟩
  · rw [OrderBook.levels_setLevels_of_ne _ hSide] at he
    exact Or.inr (OrderBook.mem_livePtrs_iff.mpr ⟨t, e, he, hLive⟩)

namespace PriceLevel

variable {l : PriceLevel} {q : OrderPtr}

theorem mem_live_of_mem_popFront (h : q ∈ l.popFront.live) : q ∈ l.live := by
  rw [live, pending_popFront, reduceOption_dropWhile, List.reduceOption_mem_iff] at h
  exact List.reduceOption_mem_iff.mpr (List.mem_of_mem_tail h)

theorem mem_live_of_mem_dropHoles (h : q ∈ l.dropHoles.live) : q ∈ l.live := by
  fun_induction dropHoles l with
  | case1 l hFront ih => exact mem_live_of_mem_popFront (ih h)
  | case2 l hFront => exact h

theorem mem_live_of_mem_push {p : OrderPtr} (h : q ∈ (l.push p).live) : q = p ∨ q ∈ l.live := by
  rw [live, List.reduceOption_mem_iff, pending, push, List.drop_append] at h
  rcases List.mem_append.mp h with h | h
  · exact Or.inr (List.reduceOption_mem_iff.mpr h)
  · have hMem := List.mem_of_mem_drop h
    exact Or.inl (by simpa using hMem)

/-- Of the orders, a cancel looks at the IDs of the live ones only. -/
theorem removeId_congr {h h' : Heap} {id : UInt64}
    (hIds : ∀ p ∈ l.live, (h' p).orderId = (h p).orderId) : l.removeId h' id = l.removeId h id := by
  have hPunch : ∀ es : List (Option OrderPtr), (∀ p ∈ es.reduceOption,
      (h' p).orderId = (h p).orderId) → punch h' id es = punch h id es := by
    intro es hes
    induction es with
    | nil => rfl
    | cons e es ih =>
        cases e with
        | none => simp [punch, ih hes]
        | some p =>
            rw [List.reduceOption_cons_of_some, List.forall_mem_cons] at hes
            simp [punch, ih hes.2, hes.1]
  rw [removeId, show punch h' id (l.orders.drop l.head) = punch h id (l.orders.drop l.head) from
    hPunch _ hIds]
  rfl

theorem mem_live_of_front (h : l.front = some q) : q ∈ l.live := by
  rw [live_popFront h]
  exact List.mem_cons_self ..

end PriceLevel

/-! ## Statements -/

namespace BookState

variable (s : BookState k) {inc : OrderPtr}

theorem modifyFront_subset (opp : Side) {f : PriceLevel → PriceLevel}
    (hf : ∀ l q, q ∈ (f l).live → q ∈ l.live) :
    (s.modifyFront opp f).book.livePtrs ⊆ s.book.livePtrs := by
  intro q hq
  rcases OrderBook.mem_livePtrs_setLevels hq with ⟨e, he, hLive⟩ | hOld
  · rcases OrderedMap.mem_modifyBegin he with hOld | ⟨e', he', hNew⟩
    · exact OrderBook.mem_livePtrs_iff.mpr ⟨opp, e, hOld, hLive⟩
    · rw [hNew] at hLive
      exact OrderBook.mem_livePtrs_iff.mpr ⟨opp, e', he', hf _ q hLive⟩
  · exact hOld

theorem eraseFront_subset (opp : Side) :
    (s.eraseFront opp).book.livePtrs ⊆ s.book.livePtrs := by
  intro q hq
  rcases OrderBook.mem_livePtrs_setLevels hq with ⟨e, he, hLive⟩ | hOld
  · exact OrderBook.mem_livePtrs_iff.mpr ⟨opp, e, List.mem_of_mem_tail he, hLive⟩
  · exact hOld

/-- Statements that leave the levels alone. -/
theorem subset_of_levels {t : BookState k}
    (hLevels : ∀ side, t.book.levels side = s.book.levels side) :
    t.book.livePtrs ⊆ s.book.livePtrs := fun q hq => (OrderBook.livePtrs_congr hLevels q).mp hq

theorem insertIndex_subset (id : UInt64) (p : OrderPtr) :
    (s.insertIndex id p).book.livePtrs ⊆ s.book.livePtrs :=
  s.subset_of_levels fun side => OrderBook.levels_mk _ _ _ side

theorem partState_subset (opp : Side) (inc res : OrderPtr) (price : Int) :
    (s.partState opp inc res price).book.livePtrs ⊆ s.book.livePtrs :=
  s.subset_of_levels fun side => s.levels_partState opp price side

/-- Of the levels, a full match only pops the front. -/
theorem levels_fullState_eq (opp : Side) (inc res : OrderPtr) (price : Int) (side : Side) :
    (s.fullState opp inc res price).book.levels side =
      (s.modifyFront opp PriceLevel.popFront).book.levels side := by
  by_cases hSide : side = opp
  · subst hSide
    rw [levels_fullState, modifyFront]
    exact (OrderBook.levels_setLevels _ _ _).symm
  · have hOther : side = opp.opposite := by
      cases side <;> cases opp <;> first | rfl | exact absurd rfl hSide
    subst hOther
    rw [levels_fullState_opposite, modifyFront]
    exact (OrderBook.levels_setLevels_of_ne _ (Side.opposite_ne opp) _).symm

theorem fullState_subset (opp : Side) (inc res : OrderPtr) (price : Int) :
    (s.fullState opp inc res price).book.livePtrs ⊆ s.book.livePtrs := fun q hq =>
  s.modifyFront_subset opp (fun _ _ => PriceLevel.mem_live_of_mem_popFront)
    ((OrderBook.livePtrs_congr (s.levels_fullState_eq opp inc res price) q).mp hq)

theorem levels_settleIncoming (inc : OrderPtr) (side : Side) :
    (s.settleIncoming inc).book.levels side = s.book.levels side := by
  unfold settleIncoming
  split
  · exact OrderBook.levels_mk _ _ _ side
  · split <;> rfl

theorem settleIncoming_subset (inc : OrderPtr) :
    (s.settleIncoming inc).book.livePtrs ⊆ s.book.livePtrs :=
  s.subset_of_levels (s.levels_settleIncoming inc)

/-- A match writes to the two orders it is about. -/
theorem partState_heap_of_ne (opp : Side) {res q : OrderPtr} (price : Int) (hInc : q ≠ inc)
    (hRes : q ≠ res) : (s.partState opp inc res price).heap q = s.heap q := by
  simp [partState, setStatus, modifyOrder, writeTrade, fill, Heap.modify_of_ne hRes,
    Heap.modify_of_ne hInc]

theorem fullState_heap_of_ne (opp : Side) {res q : OrderPtr} (price : Int) (hInc : q ≠ inc)
    (hRes : q ≠ res) : (s.fullState opp inc res price).heap q = s.heap q := by
  simp [fullState, modifyFront, eraseIndex, setStatus, modifyOrder, writeTrade, fill,
    Heap.modify_of_ne hRes, Heap.modify_of_ne hInc]

/-- Statements that let no order join the book and write to the orders they may write to. -/
theorem confined_of_subset {t : BookState k}
    (hHeap : ∀ q, q ≠ inc → q ∉ s.book.livePtrs → t.heap q = s.heap q)
    (hLive : t.book.livePtrs ⊆ s.book.livePtrs) : Confined inc s t :=
  ⟨hHeap, fun _ hq => Or.inr (hLive hq)⟩

theorem modifyFront_confined (inc : OrderPtr) (opp : Side) {f : PriceLevel → PriceLevel}
    (hf : ∀ l q, q ∈ (f l).live → q ∈ l.live) : Confined inc s (s.modifyFront opp f) :=
  s.confined_of_subset (fun _ _ _ => rfl) (s.modifyFront_subset opp hf)

theorem eraseFront_confined (opp : Side) : Confined inc s (s.eraseFront opp) :=
  s.confined_of_subset (fun _ _ _ => rfl) (s.eraseFront_subset opp)

theorem insertIndex_confined (inc : OrderPtr) (id : UInt64) (p : OrderPtr) :
    Confined inc s (s.insertIndex id p) :=
  s.confined_of_subset (fun _ _ _ => rfl) (s.insertIndex_subset id p)

theorem partState_confined (opp : Side) {res : OrderPtr} (price : Int)
    (hRes : res ∈ s.book.livePtrs) : Confined inc s (s.partState opp inc res price) :=
  s.confined_of_subset
    (fun _ hq hLive => s.partState_heap_of_ne opp price hq fun hEq => hLive (hEq ▸ hRes))
    (s.partState_subset opp inc res price)

theorem fullState_confined (opp : Side) {res : OrderPtr} (price : Int)
    (hRes : res ∈ s.book.livePtrs) : Confined inc s (s.fullState opp inc res price) :=
  s.confined_of_subset
    (fun _ hq hLive => s.fullState_heap_of_ne opp price hq fun hEq => hLive (hEq ▸ hRes))
    (s.fullState_subset opp inc res price)

theorem settleIncoming_confined (inc : OrderPtr) : Confined inc s (s.settleIncoming inc) :=
  s.confined_of_subset (fun _ hq _ => s.settleIncoming_heap_of_ne inc hq)
    (s.settleIncoming_subset inc)

theorem restOrder_confined (inc : OrderPtr) : Confined inc s (s.restOrder inc) := by
  unfold restOrder
  dsimp only
  split
  · refine ⟨fun _ _ _ => rfl, fun q hq => ?_⟩
    rcases OrderBook.mem_livePtrs_setLevels hq with ⟨e, he, hLive⟩ | hOld
    · rcases OrderedMap.mem_upsertEntries he with hOld | hNew | ⟨e', he', hNew⟩
      · exact Or.inr (OrderBook.mem_livePtrs_iff.mpr ⟨_, e, hOld, hLive⟩)
      · rw [hNew] at hLive
        exact Or.inl ((PriceLevel.mem_live_of_mem_push hLive).resolve_right List.not_mem_nil)
      · rw [hNew] at hLive
        refine (PriceLevel.mem_live_of_mem_push hLive).imp id fun hMem => ?_
        exact OrderBook.mem_livePtrs_iff.mpr ⟨_, e', he', hMem⟩
    · exact Or.inr hOld
  · exact Confined.refl inc s

/-! ## The matching loops -/

theorem matchLevelRoundNoalloc_confined (opp : Side) (inc : OrderPtr) :
    within (Confined inc) ForInStep.value s (matchLevelRoundNoalloc opp inc s) := by
  unfold matchLevelRoundNoalloc
  cases hBegin : (s.book.levels opp).begin? with
  | none => exact Confined.refl inc s
  | some e =>
      obtain ⟨price, level⟩ := e
      dsimp only
      split
      · exact Confined.refl inc s
      cases hFront : level.front with
      | none =>
          exact s.modifyFront_confined inc opp fun _ _ => PriceLevel.mem_live_of_mem_popFront
      | some res =>
          obtain ⟨es, hEntries⟩ := OrderedMap.begin?_eq_some hBegin
          have hRes : res ∈ s.book.livePtrs := OrderBook.mem_livePtrs_iff.mpr
            ⟨opp, (price, level), by rw [hEntries]; exact List.mem_cons_self ..,
              PriceLevel.mem_live_of_front hFront⟩
          dsimp only
          split
          · exact ⟨s.fullState_confined opp price hRes, fun s' => Confined.refl inc s'⟩
          · exact s.partState_confined opp price hRes

theorem matchRoundNoalloc_confined (opp : Side) (inc : OrderPtr) :
    within (Confined inc) ForInStep.value s (matchRoundNoalloc opp inc s) := by
  unfold matchRoundNoalloc
  cases (s.book.levels opp).begin? with
  | none => exact Confined.refl inc s
  | some e =>
      dsimp only
      split
      · exact Confined.refl inc s
      split
      · exact Confined.refl inc s
      have hDrop : Confined inc s (s.modifyFront opp PriceLevel.dropHoles) :=
        s.modifyFront_confined inc opp fun _ _ => PriceLevel.mem_live_of_mem_dropHoles
      split
      · exact hDrop.trans (eraseFront_confined _ opp)
      · refine within_bind (within_trans hDrop (within_loop (Confined.refl inc)
          (fun s => s.matchLevelRoundNoalloc_confined opp inc) _ _)) fun s' => ?_
        show Confined inc s' (if s'.frontEmpty opp then s'.eraseFront opp else s')
        split
        · exact s'.eraseFront_confined opp
        · exact Confined.refl inc s'

theorem matchNoalloc_confined (inc : OrderPtr) :
    within (Confined inc) id s (s.matchNoalloc inc) := by
  unfold matchNoalloc
  refine within_bind (within_loop (Confined.refl inc)
    (fun s => s.matchRoundNoalloc_confined _ inc) _ _) fun s' => ?_
  exact s'.settleIncoming_confined inc

/-! ## The calls of the matching loops -/

/-- The order is not in the book. -/
abbrev Outside (inc : OrderPtr) (s : BookState k) : Prop := inc ∉ s.book.livePtrs

variable {s}

theorem matchLevelRoundNoalloc_avoids (opp : Side) (hs : Outside inc s) :
    avoids (Outside inc) inc ForInStep.value (matchLevelRoundNoalloc opp inc s) := by
  unfold matchLevelRoundNoalloc
  cases hBegin : (s.book.levels opp).begin? with
  | none => exact hs
  | some e =>
      obtain ⟨price, level⟩ := e
      dsimp only
      split
      · exact hs
      cases hFront : level.front with
      | none =>
          exact fun hMem => hs
            (s.modifyFront_subset opp (fun _ _ => PriceLevel.mem_live_of_mem_popFront) hMem)
      | some res =>
          obtain ⟨es, hEntries⟩ := OrderedMap.begin?_eq_some hBegin
          have hRes : res ∈ s.book.livePtrs := OrderBook.mem_livePtrs_iff.mpr
            ⟨opp, (price, level), by rw [hEntries]; exact List.mem_cons_self ..,
              PriceLevel.mem_live_of_front hFront⟩
          dsimp only
          split
          · exact ⟨ne_of_mem_of_not_mem hRes hs, fun _ hs' => hs'⟩
          · exact fun hMem => hs (s.partState_subset opp inc res price hMem)

theorem matchRoundNoalloc_avoids (opp : Side) (hs : Outside inc s) :
    avoids (Outside inc) inc ForInStep.value (matchRoundNoalloc opp inc s) := by
  unfold matchRoundNoalloc
  cases (s.book.levels opp).begin? with
  | none => exact hs
  | some e =>
      dsimp only
      split
      · exact hs
      split
      · exact hs
      have hDrop : Outside inc (s.modifyFront opp PriceLevel.dropHoles) := fun hMem => hs
        (s.modifyFront_subset opp (fun _ _ => PriceLevel.mem_live_of_mem_dropHoles) hMem)
      split
      · exact fun hMem => hDrop (eraseFront_subset _ opp hMem)
      · refine avoids_bind (avoids_loop (fun _ ht => matchLevelRoundNoalloc_avoids opp ht) _ hDrop)
          fun s' hs' => ?_
        show Outside inc (if s'.frontEmpty opp then s'.eraseFront opp else s')
        split
        · exact fun hMem => hs' (s'.eraseFront_subset opp hMem)
        · exact hs'

theorem matchNoalloc_avoids (hs : Outside inc s) :
    avoids (Outside inc) inc id (s.matchNoalloc inc) := by
  unfold matchNoalloc
  refine avoids_bind (avoids_loop (fun _ ht => matchRoundNoalloc_avoids _ ht) _ hs)
    fun s' hs' => ?_
  exact fun hMem => hs' (s'.settleIncoming_subset inc hMem)

end BookState

/-! ## A call -/

/-- Stamping writes to the order only. -/
theorem stamped_confined (s : BookState k) (p : OrderPtr) (now : UInt64) :
    Confined p s (s.stamped p now) := by
  refine s.confined_of_subset (fun q hq _ => stamped_heap_of_ne s p now hq) fun q hq => ?_
  rwa [stamped_eq] at hq

/-- Taking an order out of the book. -/
theorem cancelResting_confined {s : BookState k} {F : PriorityBook}
    (hR : Represents s.heap s.book F) (inc : OrderPtr) (id : UInt64) :
    Confined inc s (s.cancelResting id).2 := by
  cases hLook : F.lookup id with
  | none =>
      rw [cancelResting_of_none hR hLook]
      exact Confined.refl inc s
  | some r =>
      obtain ⟨b, hCall, hRep⟩ := cancelResting_of_some hR hLook
      have hMem : r.ptr ∈ s.book.livePtrs := by
        rw [hR.livePtrs_eq]
        exact List.mem_map_of_mem (PriorityBook.lookup_eq_some hLook).1
      rw [hCall]
      refine ⟨fun q _ hLive => ?_, fun q hq => ?_⟩
      · have hNe : q ≠ r.ptr := fun hEq => hLive (hEq ▸ hMem)
        dsimp only
        rw [Heap.modify_of_ne hNe]
      dsimp only at hq
      rw [hRep.livePtrs_eq] at hq
      rw [hR.livePtrs_eq]
      obtain ⟨x, hx, rfl⟩ := List.mem_map.mp hq
      rw [PriorityBook.all_remove] at hx
      exact Or.inr (List.mem_map_of_mem (List.mem_of_mem_filter hx))

/-- A call writes to its own order and to resting orders, whatever memory its deallocator
calls return with, and lets only its own order join the book. -/
theorem addOrderNoalloc_confined {s : BookState k} {F : PriorityBook}
    (hR : Represents s.heap s.book F) {p : OrderPtr} (hp : p ∉ F.ptrs) (now : UInt64) :
    within (Confined p) id s (s.addOrderNoalloc (some p) now) := by
  have hStamp := stamped_confined s p now
  have hR' : Represents (s.stamped p now).heap (s.stamped p now).book F := by
    have hBook : (s.stamped p now).book = s.book := by rw [stamped_eq]
    rw [hBook]
    exact hR.congr_heap fun q hq => stamped_heap_of_ne s p now fun hEq => hp (hEq ▸ hq)
  have hBack : ∀ (q : OrderPtr) (t : BookState k),
      within (Confined p) id t (BookState.deallocator q t) := fun _ t =>
    ⟨Confined.refl p t, fun s' => Confined.refl p s'⟩
  unfold BookState.addOrderNoalloc
  simp only [← BookState.stamped.eq_def]
  split
  · have hCancel := cancelResting_confined hR' p ((s.stamped p now).heap p).orderId
    cases hCall : ((s.stamped p now).cancelResting ((s.stamped p now).heap p).orderId).1 with
    | none =>
        dsimp only
        exact within_trans (hStamp.trans hCancel) (hBack p _)
    | some c =>
        dsimp only
        refine within_trans (hStamp.trans hCancel) (within_bind (hBack c _) fun t => ?_)
        exact hBack p t
  · have hIndex := (s.stamped p now).insertIndex_confined p ((s.stamped p now).heap p).orderId p
    refine within_trans (hStamp.trans hIndex) ?_
    refine within_bind (BookState.matchNoalloc_confined _ p) fun t => ?_
    have hRest := t.restOrder_confined p
    split
    · exact within_trans hRest (hBack p _)
    · exact hRest

/-- Its own order is the last one a call hands to the deallocator, and after that it does
nothing. -/
theorem addOrderNoalloc_lastCall {s : BookState k} {F : PriorityBook}
    (hR : Represents s.heap s.book F) {p : OrderPtr} (hp : p ∉ F.ptrs) (now : UInt64) :
    lastCall (BookState.Outside p) p (s.addOrderNoalloc (some p) now) := by
  have hR' : Represents (s.stamped p now).heap (s.stamped p now).book F := by
    have hBook : (s.stamped p now).book = s.book := by rw [stamped_eq]
    rw [hBook]
    exact hR.congr_heap fun q hq => stamped_heap_of_ne s p now fun hEq => hp (hEq ▸ hq)
  have hBack : ∀ t : BookState k,
      lastCall (BookState.Outside p) p (BookState.deallocator p t) := fun t =>
    ⟨fun _ _ => rfl, fun hNe => absurd rfl hNe⟩
  unfold BookState.addOrderNoalloc
  simp only [← BookState.stamped.eq_def]
  split
  · cases hCall : ((s.stamped p now).cancelResting ((s.stamped p now).heap p).orderId).1 with
    | none =>
        dsimp only
        exact hBack _
    | some c =>
        dsimp only
        have hNe : c ≠ p := by
          rintro rfl
          cases hLook : F.lookup ((s.stamped c now).heap c).orderId with
          | none =>
              rw [cancelResting_of_none hR' hLook] at hCall
              cases hCall
          | some r =>
              obtain ⟨b, hCancel, -⟩ := cancelResting_of_some hR' hLook
              rw [hCancel] at hCall
              exact hp (Option.some.inj hCall ▸
                List.mem_map_of_mem (PriorityBook.lookup_eq_some hLook).1)
        have hFirst : avoids (BookState.Outside p) p id (BookState.deallocator c
            ((s.stamped p now).cancelResting ((s.stamped p now).heap p).orderId).2) :=
          ⟨hNe, fun _ ht => ht⟩
        exact lastCall_bind hFirst fun t _ => hBack t
  · have hOut : BookState.Outside p
        ((s.stamped p now).insertIndex ((s.stamped p now).heap p).orderId p) := fun hMem => by
      have hMem' := (s.stamped p now).insertIndex_subset _ p hMem
      rw [hR'.livePtrs_eq] at hMem'
      exact hp hMem'
    refine lastCall_bind (BookState.matchNoalloc_avoids hOut) fun t _ => ?_
    split
    · exact hBack _
    · trivial

end MatchingMachine
