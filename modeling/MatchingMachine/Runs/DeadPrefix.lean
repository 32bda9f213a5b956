import MatchingMachine.Refinement.Levels

/-!
# The dead prefix of a level

`pop_front` erases the entries before the cursor once they are many and more than half of the
vector, so matching keeps every level `Bounded`.  A cancel of the front order advances the cursor
over the holes behind it as well, but erases nothing.  `Compact` says of a state that a cancel does
not leave a long prefix behind.

Nothing is assumed about the orders: the runs here contain calls with any orders, and memory may
change between the calls and in the deallocator, also where orders rest.
-/

namespace MatchingMachine

open Interaction

variable {k : Nat}

/-! ## One level -/

namespace PriceLevel

/-- The dead prefix is short or at most half of the vector. -/
def Bounded (l : PriceLevel) : Prop := l.head ≤ 16 ∨ l.head ≤ l.orders.length / 2

instance (l : PriceLevel) : Decidable l.Bounded := inferInstanceAs (Decidable (_ ∨ _))

theorem stable_bounded : Stable Bounded where
  popFront l h := by
    unfold PriceLevel.popFront
    split
    · dsimp only
      split
      · exact Or.inl (Nat.zero_le _)
      · rename_i hKeep
        unfold Bounded
        dsimp only
        omega
    · exact h
  push l p h := by
    have hLen : (l.push p).orders.length = l.orders.length + 1 := List.length_append
    have hHead : (l.push p).head = l.head := rfl
    unfold Bounded at h ⊢
    omega
  new _ := Or.inl (Nat.zero_le _)

/-- Cancelling `id` moves the cursor to a short or empty distance: if the order at the cursor is
the one that is cancelled, then the next order behind it is near, in the first half of the vector,
or absent. -/
def StaysBounded (l : PriceLevel) (h : Heap) (id : UInt64) : Prop :=
  ∀ p ∈ l.front, (h p).orderId = id →
    skipHoles l.orders (l.head + 1) = l.orders.length ∨
      skipHoles l.orders (l.head + 1) ≤ 16 ∨
      skipHoles l.orders (l.head + 1) ≤ l.orders.length / 2

instance (l : PriceLevel) (h : Heap) (id : UInt64) : Decidable (l.StaysBounded h id) :=
  inferInstanceAs (Decidable (∀ p ∈ l.front, (h p).orderId = id → _))

theorem length_punch (h : Heap) (id : UInt64) (es : List (Option OrderPtr)) :
    (punch h id es).length = es.length := by
  induction es with
  | nil => rfl
  | cons e es ih =>
      cases e with
      | none => simp [punch, ih]
      | some p =>
          unfold punch
          split <;> simp [ih]

/-- Where a cancel leaves the cursor. -/
theorem head_removeId {l : PriceLevel} (hLe : l.head ≤ l.orders.length) (h : Heap) (id : UInt64) :
    (l.removeId h id).head =
      l.head + ((punch h id l.pending).takeWhile Option.isNone).length := by
  have hLen : (l.orders.take l.head).length = l.head := by simp [hLe]
  simp only [removeId, skipHoles]
  rw [List.drop_append_of_le_length (by omega), List.drop_eq_nil_of_le (by omega),
    List.nil_append]
  rfl

/-- A cancel leaves the level empty or bounded if and only if it is one of those described. -/
theorem removeId_bounded_iff {l : PriceLevel} (hTidy : l.Tidy) (hBounded : l.Bounded) (h : Heap)
    (id : UInt64) :
    (l.removeId h id).empty = true ∨ (l.removeId h id).Bounded ↔ l.StaysBounded h id := by
  have hHead := hTidy.head_le
  have hLen : (l.removeId h id).orders.length = l.orders.length := by
    simp only [removeId, List.length_append, length_punch, List.length_take, List.length_drop]
    omega
  have hEmpty : (l.removeId h id).empty = true ↔ l.orders.length ≤ (l.removeId h id).head := by
    rw [empty, decide_eq_true_iff, hLen]
  have hLe := (hTidy.removeId h id).head_le
  have hCursor := head_removeId hHead h id
  have hPendingLen : l.pending.length = l.orders.length - l.head := List.length_drop
  have hClean := hTidy.clean
  rw [hEmpty, Bounded, hLen, StaysBounded, PriceLevel.front_eq]
  unfold Bounded at hBounded
  rw [hLen] at hLe
  cases hPending : l.pending with
  | nil =>
      -- an empty level is erased
      rw [hPending] at hCursor hPendingLen
      simp only [punch, List.takeWhile_nil, List.length_nil] at hCursor hPendingLen
      exact iff_of_true (Or.inl (by omega)) (by simp)
  | cons e es =>
      cases e with
      | none =>
          rw [Clean, hPending] at hClean
          exact absurd rfl hClean
      | some p =>
          rw [hPending] at hCursor
          have hNext : skipHoles l.orders (l.head + 1) =
              l.head + 1 + (es.takeWhile Option.isNone).length := by
            rw [skipHoles, ← List.drop_drop, ← pending, hPending, List.drop_one, List.tail_cons]
          simp only [List.head?_cons, Option.join_some, Option.mem_def, Option.some.injEq,
            forall_eq']
          by_cases hId : (h p).orderId = id
          · -- the front order is cancelled: the cursor moves to the next order
            rw [punch, if_pos hId, List.takeWhile_cons] at hCursor
            simp only [Option.isNone_none, if_true, List.length_cons] at hCursor
            have hMoved : (l.removeId h id).head = skipHoles l.orders (l.head + 1) := by omega
            rw [← hMoved]
            constructor
            · intro hOr _
              omega
            · intro hOr
              have hOr := hOr hId
              omega
          · -- another order is cancelled: the cursor stays
            rw [punch, if_neg hId, List.takeWhile_cons] at hCursor
            have hSame : (l.removeId h id).head = l.head := by simpa using hCursor
            rw [hSame]
            exact iff_of_true (Or.inr hBounded) fun hEq => absurd hEq hId

end PriceLevel

/-! ## Cancels -/

namespace BookState

variable {P : PriceLevel → Prop} {s : BookState k}

/-- The cancel of `id` finds no resting order, or one whose level stays bounded. -/
def Compact (s : BookState k) (id : UInt64) : Prop :=
  ∀ p ∈ s.book.orderIndex.find? id,
    (s.heap p).status = .FILLED ∨ (s.heap p).status = .CANCELLED ∨
      ∀ level ∈ (s.book.levels (s.heap p).side).find? (s.heap p).price,
        level.StaysBounded s.heap id

instance (s : BookState k) (id : UInt64) : Decidable (s.Compact id) :=
  inferInstanceAs (Decidable (∀ p ∈ s.book.orderIndex.find? id, _ ∨ _ ∨ ∀ level ∈ _, _))

/-- A cancel leaves the levels alone, or it takes an order out of the level it finds. -/
theorem cancelResting_levels (s : BookState k) (id : UInt64) :
    ((∀ t, (s.cancelResting id).2.book.levels t = s.book.levels t) ∧ s.Compact id) ∨
    ∃ side price level, (s.book.levels side).find? price = some level ∧
      (s.Compact id ↔ level.StaysBounded s.heap id) ∧
      ∀ t, (s.cancelResting id).2.book.levels t =
        (s.removeFromLevel side price id).book.levels t := by
  unfold Compact
  rcases s.cancelResting_cases id with ⟨hCall, hClosed⟩ | ⟨p, hFind, hOpen, hCall⟩
  · rw [hCall]
    exact Or.inl ⟨fun _ => rfl, fun p hp => (hClosed p hp).imp_right Or.inl⟩
  · have hLevels : ∀ t, (s.cancelResting id).2.book.levels t =
        (s.removeFromLevel (s.heap p).side (s.heap p).price id).book.levels t := by
      intro t
      rw [hCall, eraseIndex, OrderBook.levels_mk, book_cancelled_level]
    simp only [hFind, Option.mem_def, Option.some.injEq, forall_eq']
    cases hLevel : (s.book.levels (s.heap p).side).find? (s.heap p).price with
    | none =>
        refine Or.inl ⟨fun t => ?_, by simp⟩
        rw [hLevels t]
        unfold removeFromLevel
        rw [hLevel]
    | some level =>
        refine Or.inr ⟨_, _, level, hLevel, ?_, hLevels⟩
        simp only [Option.some.injEq, forall_eq']
        rw [← or_assoc]
        exact or_iff_right hOpen

/-- A cancel leaves every level bounded if and only if it is compact. -/
theorem bounded_cancelResting_iff (hTidy : s.book.All PriceLevel.Tidy)
    (hBounded : s.book.All PriceLevel.Bounded) (id : UInt64) :
    (s.cancelResting id).2.book.All PriceLevel.Bounded ↔ s.Compact id := by
  rcases s.cancelResting_levels id with
    ⟨hLevels, hCompact⟩ | ⟨side, price, level, hFind, hCompact, hLevels⟩
  · exact iff_of_true (hBounded.congr hLevels) hCompact
  · have hMem := (OrderedMap.mem_entries_iff _ _ _).mpr hFind
    rw [hCompact, ← PriceLevel.removeId_bounded_iff (hTidy side _ hMem) (hBounded side _ hMem),
      ← all_removeFromLevel_iff hBounded hFind]
    exact ⟨fun h => h.congr fun t => (hLevels t).symm, fun h => h.congr hLevels⟩

/-- What a cancel does to the book does not depend on timestamps. -/
theorem book_cancelResting_stamped (s : BookState k) (p : OrderPtr) (now : UInt64) (id : UInt64) :
    ((s.stamped p now).cancelResting id).2.book = (s.cancelResting id).2.book := by
  have hHeap := s.stamped_heap_eq p now
  have hBook : (s.stamped p now).book = s.book := by rw [stamped_eq]
  unfold cancelResting
  rw [hBook]
  cases s.book.orderIndex.find? id with
  | none => exact hBook
  | some q =>
      obtain ⟨_, hq⟩ := hHeap q
      dsimp only
      rw [hq]
      dsimp only
      split
      · exact hBook
      obtain ⟨_, hq₁⟩ := (s.stamped p now).setStatus_heap_eq q .CANCELLED q
      obtain ⟨_, hq₂⟩ := s.setStatus_heap_eq q .CANCELLED q
      have hIds : ∀ x, (((s.stamped p now).setStatus q .CANCELLED).heap x).orderId =
          ((s.setStatus q .CANCELLED).heap x).orderId := by
        intro x
        obtain ⟨_, h₁⟩ := (s.stamped p now).setStatus_heap_eq q .CANCELLED x
        obtain ⟨_, h₂⟩ := s.setStatus_heap_eq q .CANCELLED x
        obtain ⟨_, hx⟩ := hHeap x
        rw [h₁, h₂, hx]
      have hLevel := book_removeFromLevel_congr (s.setStatus q .CANCELLED)
        ((s.stamped p now).setStatus q .CANCELLED) hBook hIds (s.heap q).side (s.heap q).price id
      rw [hq₁, hq₂, hq]
      dsimp only [eraseIndex]
      rw [hLevel]

/-- A cancel request through the pipeline's entry point. -/
theorem run_cancelRequest_book {p : OrderPtr} {now : UInt64}
    {handler : List OrderPtr → OrderPtr → BookState k → BookState k}
    (hHandler : ∀ log q s, (handler log q s).book = s.book)
    (hType : (s.heap p).type = .CANCEL) {log : List OrderPtr} {s' : BookState k}
    (hCall : run handler [] (s.addOrderNoalloc (some p) now) = some (log, s')) :
    s'.book = (s.cancelResting (s.heap p).orderId).2.book := by
  rw [← book_cancelResting_stamped s p now]
  obtain ⟨_, hp⟩ := s.stamped_heap_eq p now p
  have hType' : ((s.stamped p now).heap p).type = .CANCEL := by rw [hp, ← hType]
  unfold addOrderNoalloc at hCall
  simp only [← stamped.eq_def] at hCall
  rw [if_pos hType', hp] at hCall
  dsimp only at hCall
  generalize (s.stamped p now).cancelResting (s.heap p).orderId = r at hCall ⊢
  obtain ⟨cancelled, t⟩ := r
  -- what is left only hands orders to the deallocator
  let I : BookState k → Prop := fun u => u.book = t.book
  have hKeep : ∀ log q u, I u → I (handler log q u) := fun log q u hu =>
    (hHandler log q u).trans hu
  have hBack : ∀ (q : OrderPtr) (u : BookState k), within (Keeps I) id u (deallocator q u) :=
    fun _ _ => ⟨id, fun _ => id⟩
  cases cancelled with
  | none => exact run_keeps (I := I) hKeep (hBack p t) rfl hCall
  | some c =>
      exact run_keeps (I := I) hKeep (within_bind (hBack c t) fun u => hBack p u) rfl hCall

end BookState

/-! ## Runs -/

/-- A call with any order, or a change of memory; the cancels satisfy `ok`. -/
inductive LevelStep (ok : BookState k → UInt64 → Prop) : BookState k → BookState k → Prop
  | outside {s : BookState k} (heap : Heap) (buf : TradeRingBuffer k) :
      LevelStep ok s { s with heap := heap, buf := buf }
  | addOrder {s s' : BookState k} {order : Option OrderPtr} {now : UInt64}
      (hCall : s.addOrder order now = some s') : LevelStep ok s s'
  | addOrderNoalloc {s s' : BookState k} {order : Option OrderPtr} {now : UInt64}
      {handler : List OrderPtr → OrderPtr → BookState k → BookState k} {log : List OrderPtr}
      (hHandler : ∀ log q s, (handler log q s).book = s.book)
      (hCancel : ∀ p, order = some p → (s.heap p).type = .CANCEL → ok s (s.heap p).orderId)
      (hCall : run handler [] (s.addOrderNoalloc order now) = some (log, s')) : LevelStep ok s s'
  | cancelOrder {s : BookState k} {id : UInt64} (hCancel : ok s id) :
      LevelStep ok s (s.cancelOrder id).2
  | clear {s : BookState k} : LevelStep ok s s.clear

/-- The states of runs whose cancels satisfy `ok`. -/
inductive LevelRun (ok : BookState k → UInt64 → Prop) : BookState k → Prop
  | new (heap : Heap) (buf : TradeRingBuffer k) :
      LevelRun ok { heap := heap, book := {}, buf := buf }
  | step {s s' : BookState k} (hRun : LevelRun ok s) (hStep : LevelStep ok s s') : LevelRun ok s'

/-- A property of levels that matching and resting keep is kept by every step whose cancel
keeps it. -/
theorem LevelStep.all {P : PriceLevel → Prop} (hP : PriceLevel.Stable P)
    {ok : BookState k → UInt64 → Prop} {s s' : BookState k} (hStep : LevelStep ok s s')
    (h : s.book.All P) (hKeep : ∀ id, ok s id → (s.cancelResting id).2.book.All P) :
    s'.book.All P := by
  cases hStep with
  | outside heap buf => exact h
  | addOrder hCall => exact BookState.addOrder_keeps hP h hCall
  | @addOrderNoalloc _ order now handler log hHandler hCancel hCall =>
      cases order with
      | none =>
          obtain ⟨-, rfl⟩ : [] = log ∧ { s with trades := [] } = s' := by
            simpa [BookState.addOrderNoalloc, run] using hCall
          exact h
      | some p =>
          by_cases hType : (s.heap p).type = .CANCEL
          · rw [BookState.run_cancelRequest_book hHandler hType hCall]
            exact hKeep _ (hCancel p rfl hType)
          · have hBack : ∀ log q (u : BookState k), u.book.All P →
                (handler log q u).book.All P := by
              intro log q u hu
              rwa [hHandler]
            exact run_keeps hBack (BookState.addOrderNoalloc_keeps hP s hType) h hCall
  | cancelOrder hCancel => exact hKeep _ hCancel
  | clear =>
      intro side e he
      cases side <;> exact absurd he List.not_mem_nil

/-- Whatever is submitted and cancelled, every level is tidy. -/
theorem LevelRun.tidy {ok : BookState k → UInt64 → Prop} {s : BookState k}
    (hRun : LevelRun ok s) : s.book.All PriceLevel.Tidy := by
  induction hRun with
  | new heap buf =>
      intro side e he
      cases side <;> exact absurd he List.not_mem_nil
  | step _ hStep ih =>
      exact hStep.all PriceLevel.stable_tidy ih fun id _ => BookState.tidy_cancelResting ih id

/-- In runs whose cancels are compact, every level is bounded. -/
theorem LevelRun.bounded {s : BookState k} (hRun : LevelRun BookState.Compact s) :
    s.book.All PriceLevel.Bounded := by
  induction hRun with
  | new heap buf =>
      intro side e he
      cases side <;> exact absurd he List.not_mem_nil
  | step hRun hStep ih =>
      exact hStep.all PriceLevel.stable_bounded ih fun id hCompact =>
        (BookState.bounded_cancelResting_iff hRun.tidy ih id).mpr hCompact

/-- The dead prefix of every level stays bounded in runs whose cancels are compact, and a cancel
that is not breaks the bound, through either entry point. -/
theorem deadPrefixBounded {s : BookState k} (hRun : LevelRun BookState.Compact s) :
    s.book.All PriceLevel.Bounded ∧
    (∀ id, (s.cancelOrder id).2.book.All PriceLevel.Bounded ↔ s.Compact id) ∧
    ∀ p now handler log s', (∀ log q u, (handler log q u).book = u.book) →
      (s.heap p).type = .CANCEL →
      run handler [] (s.addOrderNoalloc (some p) now) = some (log, s') →
        (s'.book.All PriceLevel.Bounded ↔ s.Compact (s.heap p).orderId) := by
  have hExact := BookState.bounded_cancelResting_iff hRun.tidy hRun.bounded
  refine ⟨hRun.bounded, hExact, fun p now handler log s' hHandler hType hCall => ?_⟩
  rw [BookState.run_cancelRequest_book hHandler hType hCall]
  exact hExact _

/-- Of two orders at one price the first is cancelled. -/
theorem deadPrefixBounded_two_orders :
    ∃ s : BookState 4, s.book.orderCount = 1 ∧
      (s.book.askLevels.entries.map fun e => (e.2.head, e.2.orders.length)) = [(1, 2)] ∧
      s.book.All PriceLevel.Bounded := by
  let s₀ : BookState 4 :=
    { heap := fun p => { orderId := p.toUInt64, timestampNs := 1, price := 100, quantity := 5,
                         side := .SELL }
      book := {} }
  have hSeen : (s₀.addOrder (some 1) 7).any (fun s₁ => (s₁.addOrder (some 2) 7).any fun s₂ =>
      s₂.Compact 1 ∧ (s₂.cancelOrder 1).2.book.orderCount = 1 ∧
        ((s₂.cancelOrder 1).2.book.askLevels.entries.map fun e =>
          (e.2.head, e.2.orders.length)) = [(1, 2)]) = true := by decide +kernel
  obtain ⟨s₁, hFirst, hSeen⟩ := (Option.any_eq_true ..).mp hSeen
  obtain ⟨s₂, hSecond, hSeen⟩ := (Option.any_eq_true ..).mp hSeen
  obtain ⟨hCompact, hCount, hLevels⟩ := of_decide_eq_true hSeen
  have hRun : LevelRun BookState.Compact (s₂.cancelOrder 1).2 :=
    .step (.step (.step (.new _ _) (.addOrder hFirst)) (.addOrder hSecond)) (.cancelOrder hCompact)
  exact ⟨_, hCount, hLevels, (deadPrefixBounded hRun).1⟩

theorem LevelRun.addAll {ok : BookState k → UInt64 → Prop} {ps : List OrderPtr} {now : UInt64}
    {s s' : BookState k} (hRun : LevelRun ok s)
    (hCalls : ps.foldlM (fun s p => s.addOrder (some p) now) s = some s') : LevelRun ok s' := by
  induction ps generalizing s with
  | nil => exact Option.some.inj hCalls ▸ hRun
  | cons p ps ih =>
      obtain ⟨t, hCall, hRest⟩ := Option.bind_eq_some_iff.mp hCalls
      exact ih (hRun.step (.addOrder hCall)) hRest

/-- Several cancels one after the other. -/
def BookState.cancelAll (s : BookState k) (ids : List UInt64) : BookState k :=
  ids.foldl (fun s id => (s.cancelOrder id).2) s

theorem LevelRun.cancelAll {s : BookState k} (hRun : LevelRun (fun _ _ => True) s)
    (ids : List UInt64) : LevelRun (fun _ _ => True) (s.cancelAll ids) := by
  induction ids generalizing s with
  | nil => exact hRun
  | cons id ids ih => exact ih (hRun.step (.cancelOrder trivial))

/-- Eighteen orders at one price, of which the first seventeen are cancelled from the front: the
dead prefix is all of the vector but one entry. -/
theorem dead_prefix_of_cancels :
    ∃ s : BookState 4, LevelRun (fun _ _ => True) s ∧ s.book.orderCount = 1 ∧
      (s.book.askLevels.entries.map fun e => (e.1, e.2.head, e.2.orders.length)) =
        [(100, 17, 18)] ∧
      ¬ s.book.All PriceLevel.Bounded := by
  let s₀ : BookState 4 :=
    { heap := fun p => { orderId := p.toUInt64, timestampNs := 1, price := 100, quantity := 5,
                         side := .SELL }
      book := {} }
  let cancelled : List UInt64 := (List.range 17).map Nat.toUInt64
  have hSeen : ((List.range 18).foldlM (fun (s : BookState 4) p => s.addOrder (some p) 7)
      s₀).any (fun s =>
        (s.cancelAll cancelled).book.orderCount = 1 ∧
        ((s.cancelAll cancelled).book.askLevels.entries.map
          fun e => (e.1, e.2.head, e.2.orders.length)) = [(100, 17, 18)]) = true := by
    decide +kernel
  obtain ⟨s, hCalls, hSeen⟩ := (Option.any_eq_true ..).mp hSeen
  obtain ⟨hCount, hLevels⟩ := of_decide_eq_true hSeen
  have hStart : LevelRun (fun _ _ => True) s₀ := .new _ _
  have hRun := (hStart.addAll hCalls).cancelAll cancelled
  generalize s.cancelAll cancelled = t at hCount hLevels hRun
  refine ⟨t, hRun, hCount, hLevels, fun hAll => ?_⟩
  obtain ⟨e, hEntries, hEq⟩ := List.map_eq_singleton_iff.mp hLevels
  have he : e ∈ (t.book.levels .SELL).entries := by
    show e ∈ t.book.askLevels.entries
    rw [hEntries]
    exact List.mem_singleton_self e
  have hBounded := hAll .SELL e he
  obtain ⟨-, hHead, hLen⟩ : e.1 = 100 ∧ e.2.head = 17 ∧ e.2.orders.length = 18 := by
    simpa using hEq
  unfold PriceLevel.Bounded at hBounded
  omega

end MatchingMachine
