import MatchingMachine.Baseline.Wakeups
import MatchingMachine.Pipeline.Stream
import MatchingMachine.Reference.OriginalBook
import MatchingMachine.Runs.Symbols

/-!
# Orders on the original book, one after the other

`serveAll` is a stream of orders that one thread matches, each by the `match()` of the mutex
baseline (`enter`).  A call reads and writes its own order and the ones that rest, so it does the
same in a memory in which another thread writes elsewhere (`enter_spec`).
-/

namespace MatchingMachine

namespace V1State

/-! ## Serving on one thread -/

/-- The trades of a call that left `s`; a cancel has none. -/
def tradesOf (type : OrderType) (s : V1State) : List Trade := if type = .CANCEL then [] else s.trades

/-- Write the orders to their objects and match them, one after the other: the trades, and what is
left. -/
def serveAll (s : V1State) : List Submission → Option (List Trade × V1State)
  | [] => some ([], s)
  | x :: xs => do
      let s ← (s.place x.ptr x.order).enter x.ptr x.now
      let (trades, final) ← s.serveAll xs
      return (s.tradesOf x.order.type ++ trades, final)

theorem serveAll_concat {s mid : V1State} {xs : List Submission} {trades : List Trade}
    (h : s.serveAll xs = some (trades, mid)) (x : Submission) {final : V1State}
    (hEnter : (mid.place x.ptr x.order).enter x.ptr x.now = some final) :
    s.serveAll (xs ++ [x]) = some (trades ++ final.tradesOf x.order.type, final) := by
  induction xs generalizing s trades with
  | nil =>
      obtain ⟨rfl, rfl⟩ := Prod.mk.inj (Option.some.inj h)
      simp [serveAll, hEnter]
  | cons y ys ih =>
      obtain ⟨s₁, hFirst, h⟩ := Option.bind_eq_some_iff.mp h
      obtain ⟨⟨rest, final'⟩, hRest, h⟩ := Option.bind_eq_some_iff.mp h
      obtain ⟨rfl, rfl⟩ := Prod.mk.inj (Option.some.inj h)
      have hAll := ih hRest
      simp [serveAll, hFirst, hAll]

/-- A cancel does not look at the trades of the last call. -/
theorem cancelOrder_trades (s : V1State) (trades : List Trade) (id : UInt64) :
    ({ s with trades := trades } : V1State).cancelOrder id =
      ((s.cancelOrder id).1, { (s.cancelOrder id).2 with trades := trades }) := by
  unfold cancelOrder
  dsimp only
  cases s.book.orderIndex.find? id with
  | none => rfl
  | some order =>
      dsimp only
      split
      · rfl
      · unfold removeFromLevel
        dsimp only [setStatus, modifyOrder]
        cases (s.book.levels _).find? _ <;> rfl

end V1State

/-! ## A call on the original book -/

theorem Represents.quiet {h : Heap} {b : OrderBook} {F : PriorityBook} (hR : Represents h b F) :
    Quiet h b where
  tidy side e he := by
    have hLive := (hR.sideRep side).live e he
    exact ⟨hLive.head_le, hLive.clean⟩
  indexed :=
    { nodup := hR.livePtrs_eq ▸ hR.wellFormed.ptrs_nodup
      live := fun q hq => by
        rw [hR.livePtrs_eq] at hq
        obtain ⟨r, hr, rfl⟩ := List.mem_map.mp hq
        obtain ⟨side, hSide⟩ := PriorityBook.mem_all_iff.mp hr
        refine ⟨not_false, ?_⟩
        rw [hR.contents hr]
        exact (hR.wellFormed.openOrder side r hSide).not_isFilled
      index := fun e he => by
        obtain ⟨r, hr, rfl⟩ := List.mem_map.mp (hR.index.mem_iff.mp he)
        refine ⟨?_, Or.inr ?_⟩
        · show (h r.ptr).orderId = r.order.orderId
          rw [hR.contents hr]
        · rw [hR.livePtrs_eq]
          exact List.mem_map_of_mem hr }

namespace BookState

/-- The books add an order the same way by the same clock, whether or not it has a timestamp. -/
theorem addOrder_original_now {k : Nat} {s t : BookState k} (h : s.AtRest) {p : OrderPtr}
    {now : UInt64} (hAdd : s.addOrder (some p) now = some t) :
    s.original.addOrder (some p) now = some t.original := by
  have hEntered : ((s.stamped p now).insertIndex ((s.stamped p now).heap p).orderId p).AtRest := by
    refine AtRest.congr_levels h fun side => ?_
    rw [insertIndex, OrderBook.levels_mk, stamped_eq]
  obtain ⟨u, hMatch, hMatch', hRest⟩ := matchOrder_original hEntered p
  obtain ⟨hJoin, -⟩ := restOrder_original hRest p
  have hEq : s.addOrder (some p) now = some (u.restOrder p) := by
    show ((s.stamped p now).insertIndex ((s.stamped p now).heap p).orderId p).matchOrder p >>=
      (fun s => some (s.restOrder p)) = _
    rw [hMatch]
    rfl
  obtain rfl := Option.some.inj (hEq.symm.trans hAdd)
  have hStamp : ({ s.original with trades := [] } : V1State).stampIncoming p now =
      (s.stamped p now).original := by
    unfold V1State.stampIncoming stamped stampIncoming
    by_cases hClock : (s.heap p).timestampNs = 0
    · rw [if_pos hClock]
      exact (if_pos hClock).trans rfl
    · rw [if_neg hClock]
      exact (if_neg hClock).trans rfl
  unfold V1State.addOrder
  dsimp only
  rw [hStamp]
  refine (congrArg (Option.bind · fun t => some (t.restOrder p)) hMatch').trans ?_
  exact congrArg some hJoin

end BookState

/-- What a call that is given the order at `p` depends on: that order and the ones that rest. -/
def Touched (F : PriorityBook) (p : OrderPtr) (q : OrderPtr) : Prop := q = p ∨ q ∈ F.ptrs

/-- A call on the original book carries out the abstract request.  It ends the same way in every
memory that has the same orders where it looks, and writes nowhere else. -/
theorem enter_spec {h : Heap} {b : OrderBook} {F : PriorityBook} (hR : Represents h b F)
    {p : OrderPtr} {now : UInt64} (hAdmits : F.Admissible p ((h p).stamp now)) :
    ∃ h' b', Represents h' b' (F.submit p ((h p).stamp now)).book ∧
      ∀ s : V1State, s.book = b.original → (∀ q, Touched F p q → s.heap q = h q) →
        ∃ s', s.enter p now = some s' ∧ s'.book = b'.original ∧
          (∀ q, Touched F p q → s'.heap q = h' q) ∧
          (∀ q, ¬ Touched F p q → s'.heap q = s.heap q) ∧
          s'.tradesOf (h p).type = (F.submit p ((h p).stamp now)).trades := by
  let u : BookState 0 := { heap := h, book := b }
  have hQuiet : Quiet u.heap u.book := hR.quiet
  have hRest : u.AtRest := fun side => (hR.sideRep side).live
  have hOut : p ∉ u.book.livePtrs := by
    rw [hR.livePtrs_eq]
    exact hAdmits.ptr_fresh
  obtain ⟨time, hStamp⟩ := (h p).stamp_eq now
  -- the orders that the call looks at
  let S : Finset OrderPtr := insert p F.ptrs.toFinset
  have hTouched : ∀ q, q ∈ S ↔ Touched F p q := by simp [S, Touched]
  have hLive : ∀ q ∈ u.book.livePtrs, q ∈ S := by
    intro q hq
    rw [hR.livePtrs_eq] at hq
    exact (hTouched q).mpr (Or.inr hq)
  have hOverlay : ∀ s : V1State, s.book = b.original → (∀ q, Touched F p q → s.heap q = h q) →
      s = { (u.overlay S s.heap).original with trades := s.trades } := by
    intro s hBook hSame
    have hHeap : S.piecewise h s.heap = s.heap := by
      ext1 q
      by_cases hq : q ∈ S
      · rw [Finset.piecewise_eq_of_mem _ _ _ hq, hSame q ((hTouched q).mp hq)]
      · rw [Finset.piecewise_eq_of_notMem _ _ _ hq]
    obtain ⟨heap, book, trades⟩ := s
    obtain rfl : book = b.original := hBook
    exact congrArg (fun heap => V1State.mk heap b.original trades) hHeap.symm
  have hWritten : ∀ (t : BookState 0) (g : Heap),
      (∀ q, Touched F p q → (t.overlay S g).heap q = t.heap q) ∧
        ∀ q, ¬ Touched F p q → (t.overlay S g).heap q = g q := fun t g =>
    ⟨fun q hq => Finset.piecewise_eq_of_mem _ _ _ ((hTouched q).mpr hq),
      fun q hq => Finset.piecewise_eq_of_notMem _ _ _ (mt (hTouched q).mp hq)⟩
  have hSelf : Touched F p p := Or.inl rfl
  cases hType : (h p).type with
  | LIMIT =>
      obtain ⟨t, hAdd, hPost⟩ := addOrder_post (s := u) hR hType hAdmits.accepts
      refine ⟨t.heap, t.book, hPost.represents, fun s hBook hSame => ?_⟩
      obtain ⟨t', hAdd', hAddOver, -, -⟩ := BookState.addOrder_frame hQuiet hLive
        ((hTouched p).mpr hSelf) hOut hType now s.heap
      obtain rfl := Option.some.inj (hAdd.symm.trans hAdd')
      have hCall : s.addOrder (some p) now = some (t.overlay S s.heap).original := by
        have hRest' : (u.overlay S s.heap).AtRest := hRest
        calc s.addOrder (some p) now
            = ({ (u.overlay S s.heap).original with trades := s.trades } : V1State).addOrder
                (some p) now := congrArg (V1State.addOrder (some p) now) (hOverlay s hBook hSame)
          _ = (u.overlay S s.heap).original.addOrder (some p) now := rfl
          _ = some (t.overlay S s.heap).original :=
                BookState.addOrder_original_now hRest' hAddOver
      have hEnter : s.enter p now = s.addOrder (some p) now := by
        rw [V1State.enter, if_neg]
        rw [hSame p hSelf, hType]
        simp
      exact ⟨_, hEnter.trans hCall, rfl, (hWritten t s.heap).1, (hWritten t s.heap).2,
        hPost.trades_eq⟩
  | CANCEL =>
      obtain ⟨-, hRep, -⟩ := cancelOrder_post (s := u) hR (h p).orderId
      have hSubmit : F.submit p ((h p).stamp now) = F.cancelRequest p ((h p).stamp now) := by
        rw [PriorityBook.submit, hStamp]
        dsimp only
        rw [hType]
      have hBookEq : (F.submit p ((h p).stamp now)).book = F.remove (h p).orderId := by
        rw [hSubmit, PriorityBook.cancelRequest, hStamp]
      have hTrades : (F.submit p ((h p).stamp now)).trades = [] := by
        rw [hSubmit, PriorityBook.cancelRequest]
      refine ⟨(u.cancelOrder (h p).orderId).2.heap, (u.cancelOrder (h p).orderId).2.book,
        hBookEq ▸ hRep, fun s hBook hSame => ?_⟩
      obtain ⟨hOver, -⟩ := BookState.cancelOrder_frame hQuiet hLive (h p).orderId s.heap
      have hRest' : (u.overlay S s.heap).AtRest := hRest
      obtain ⟨hOriginal, -⟩ := BookState.cancelOrder_original hRest' (h p).orderId
      have hCall : s.cancelOrder (h p).orderId = ((u.cancelOrder (h p).orderId).1,
          { ((u.cancelOrder (h p).orderId).2.overlay S s.heap).original with
            trades := s.trades }) := by
        rw [hOver] at hOriginal
        calc s.cancelOrder (h p).orderId
            = ({ (u.overlay S s.heap).original with trades := s.trades } : V1State).cancelOrder
                (h p).orderId :=
              congrArg (V1State.cancelOrder · (h p).orderId) (hOverlay s hBook hSame)
          _ = _ := V1State.cancelOrder_trades ..
          _ = _ := by rw [hOriginal]
      have hEnter : s.enter p now = some (s.cancelOrder (h p).orderId).2 := by
        rw [V1State.enter, hSame p hSelf, if_pos hType]
      refine ⟨_, hEnter, ?_, ?_, ?_, ?_⟩
      · rw [hCall]
        rfl
      · rw [hCall]
        exact (hWritten _ s.heap).1
      · rw [hCall]
        exact (hWritten _ s.heap).2
      · rw [hTrades]
        rfl

end MatchingMachine
