import MatchingMachine.Model.SingleThreaded
import MatchingMachine.Refinement.Frame
import MatchingMachine.Model.FeedSimulator

/-!
# Symbols do not interfere

A call for one symbol reads and writes the orders of its own book only, so the calls for a symbol
can be run alone: `symbolsIsolated` projects any run of the engine to the calls for one symbol.

`Isolated` is the invariant: every book is quiet, and no order rests in two of them.  `Agree s` is
the relation between a run and its projection to the symbol `s`.
-/

namespace MatchingMachine

/-- The object that a call submits. -/
def EngineCall.object : EngineCall → Option OrderPtr
  | submit order _ _ => some order
  | _ => none

namespace SingleThreaded

/-- What the caller owes: `submit` is given a limit order whose object does not rest. -/
def Admits (e : SingleThreaded) : EngineCall → Prop
  | .addSymbol _ => True
  | .submit order contents _ =>
      contents.type = .LIMIT ∧ ∀ s b, e.books s = some b → order ∉ b.livePtrs
  | .cancelOrder _ _ => True

/-- Calls one after the other, with what they return. -/
inductive Run : SingleThreaded → List (EngineCall × EngineReply) → SingleThreaded → Prop
  | nil (e : SingleThreaded) : Run e [] e
  | cons {e e' e'' : SingleThreaded} {c : EngineCall} {r : EngineReply}
      {cs : List (EngineCall × EngineReply)} (hAdmits : e.Admits c)
      (hServe : e.serve c = some (r, e')) (hRest : Run e' cs e'') : Run e ((c, r) :: cs) e''

/-! ## The invariant -/

/-- Every book is quiet and no order rests in two books. -/
structure Isolated (e : SingleThreaded) : Prop where
  quiet : ∀ s b, e.books s = some b → Quiet e.heap b
  disjoint : ∀ s t b c, s ≠ t → e.books s = some b → e.books t = some c →
    ∀ q ∈ b.livePtrs, q ∉ c.livePtrs

theorem isolated_new (heap : Heap) : Isolated { heap := heap } where
  quiet _ _ h := by cases h
  disjoint _ _ _ _ _ h := by cases h

end SingleThreaded

/-- Quiet books do not notice changes of memory elsewhere. -/
theorem Quiet.congr_heap {h h' : Heap} {b : OrderBook} (hb : Quiet h b)
    (hEq : ∀ q ∈ b.livePtrs, h' q = h q) : Quiet h' b := by
  refine ⟨hb.tidy, hb.indexed.nodup, fun q hq => ?_, fun e he => ?_⟩
  · rw [hEq q hq]
    exact hb.indexed.live q hq
  · obtain ⟨hId, hOr⟩ := hb.indexed.index e he
    rw [hEq e.2 (hOr.resolve_left not_false)]
    exact ⟨hId, hOr⟩

/-! ## Calls on one book -/

/-- A call that works on the orders in `S`: with other memory around them it does the same. -/
structure LocalCall {α : Type} (S : Finset OrderPtr) (call : BookState 0 → Option (α × BookState 0))
    (s : BookState 0) (r : α) (t : BookState 0) : Prop where
  returns : call s = some (r, t)
  overlay : ∀ g, call (s.overlay S g) = some (r, t.overlay S g)
  quiet : Quiet t.heap t.book
  subset : ∀ q ∈ t.book.livePtrs, q ∈ S

namespace LocalCall

variable {α : Type} {S : Finset OrderPtr} {call : BookState 0 → Option (α × BookState 0)}
  {s t : BookState 0} {r : α}

/-- It writes to no other order. -/
theorem heap_eq (h : LocalCall S call s r t) {q : OrderPtr} (hq : q ∉ S) :
    t.heap q = s.heap q := by
  have hCall := h.overlay s.heap
  rw [BookState.overlay_self, h.returns] at hCall
  have ht : t = t.overlay S s.heap := congrArg Prod.snd (Option.some.inj hCall)
  rw [ht]
  exact Finset.piecewise_eq_of_notMem _ _ _ hq

/-- The same call on a memory that agrees on the orders of the call. -/
theorem transfer (h : LocalCall S call s r t) {heap : Heap}
    (hAgree : ∀ q ∈ S, heap q = s.heap q) :
    call { s with heap := heap } = some (r, t.overlay S heap) := by
  have hSame : s.overlay S heap = { s with heap := heap } := by
    have hHeap : S.piecewise s.heap heap = heap := by
      ext1 q
      by_cases hq : q ∈ S
      · rw [Finset.piecewise_eq_of_mem _ _ _ hq, hAgree q hq]
      · rw [Finset.piecewise_eq_of_notMem _ _ _ hq]
    rw [BookState.overlay, hHeap]
  rw [← hSame]
  exact h.overlay heap

end LocalCall

/-- Submitting a limit order that does not rest. -/
theorem addOrder_local {s : BookState 0} (hs : Quiet s.heap s.book) {p : OrderPtr}
    (hOut : p ∉ s.book.livePtrs) (hLimit : (s.heap p).type = .LIMIT) (now : UInt64) :
    ∃ t : BookState 0, LocalCall (insert p s.book.livePtrs.toFinset)
      (fun s => (s.addOrder (some p) now).map fun t => (t.trades, t)) s t.trades t := by
  have hLive : ∀ q ∈ s.book.livePtrs, q ∈ insert p s.book.livePtrs.toFinset := fun q hq =>
    Finset.mem_insert_of_mem (List.mem_toFinset.mpr hq)
  have hFrame := fun g =>
    BookState.addOrder_frame hs hLive (Finset.mem_insert_self p _) hOut hLimit now g
  obtain ⟨t, hCall, -, hQuiet, hSubset⟩ := hFrame s.heap
  refine ⟨t, ?_, fun g => ?_, hQuiet, hSubset⟩
  · rw [hCall]
    rfl
  · obtain ⟨t', hCall', hOver, -⟩ := hFrame g
    obtain rfl := Option.some.inj (hCall.symm.trans hCall')
    rw [hOver]
    rfl

theorem cancelOrder_local {s : BookState 0} (hs : Quiet s.heap s.book) (id : UInt64) :
    LocalCall s.book.livePtrs.toFinset (fun s => some (s.cancelOrder id)) s (s.cancelOrder id).1
      (s.cancelOrder id).2 := by
  have hLive : ∀ q ∈ s.book.livePtrs, q ∈ s.book.livePtrs.toFinset := fun q hq =>
    List.mem_toFinset.mpr hq
  have hFrame := fun g => BookState.cancelOrder_frame hs hLive id g
  exact
    { returns := rfl
      overlay := fun g => congrArg some (hFrame g).1
      quiet := (hFrame s.heap).2.1
      subset := fun q hq => hLive q ((hFrame s.heap).2.2 q hq) }

/-! ## Calls of the engine -/

namespace SingleThreaded

/-- The book of a symbol, which is new on first use. -/
def bookOf (e : SingleThreaded) (symbol : Symbol) : OrderBook := (e.books symbol).getD {}

/-- Two engines that show the same for the symbol `s`; the second has no other books. -/
structure Agree (s : Symbol) (e e' : SingleThreaded) : Prop where
  books_eq : e'.books s = e.books s
  alone : ∀ t, t ≠ s → e'.books t = none
  heap_eq : ∀ b, e.books s = some b → ∀ q ∈ b.livePtrs, e'.heap q = e.heap q

/-- What a call for one symbol does, as far as the others are concerned. -/
structure Serves (e : SingleThreaded) (c : EngineCall) (r : EngineReply) (e₁ : SingleThreaded) :
    Prop where
  serve_eq : e.serve c = some (r, e₁)
  isolated : Isolated e₁
  books_eq : ∀ s, s ≠ c.symbol → e₁.books s = e.books s
  heap_eq : ∀ s b, s ≠ c.symbol → e.books s = some b → ∀ q ∈ b.livePtrs, e₁.heap q = e.heap q
  total_eq : e.totalTrades < 2 ^ 64 →
    e₁.totalTrades = (e.totalTrades + r.trades.length) % 2 ^ 64
  rests : ∀ q ∈ (e₁.bookOf c.symbol).livePtrs, q ∈ c.object ∨ q ∈ (e.bookOf c.symbol).livePtrs
  alone : ∀ e', Agree c.symbol e e' → ∃ e₁', e'.serve c = some (r, e₁') ∧ Agree c.symbol e₁ e₁'

variable {e : SingleThreaded} {key : Symbol} {S : Finset OrderPtr} {t : BookState 0}

@[simp] theorem store_books_self : (e.store key t).books key = some t.book :=
  Function.update_self ..

@[simp] theorem bookOf_store_self : (e.store key t).bookOf key = t.book := by
  rw [bookOf, store_books_self, Option.getD_some]

theorem store_books_of_ne {s : Symbol} (hs : s ≠ key) : (e.store key t).books s = e.books s :=
  Function.update_of_ne hs ..

/-- Storing what a call on the orders in `S` leaves, where these rest in no other book. -/
theorem Isolated.store (hI : Isolated e)
    (hS : ∀ s b, s ≠ key → e.books s = some b → ∀ q ∈ b.livePtrs, q ∉ S)
    (hQuiet : Quiet t.heap t.book) (hSubset : ∀ q ∈ t.book.livePtrs, q ∈ S)
    (hHeap : ∀ q, q ∉ S → t.heap q = e.heap q) : Isolated (e.store key t) := by
  have hBooks : ∀ s b, (e.store key t).books s = some b →
      s = key ∧ b = t.book ∨ s ≠ key ∧ e.books s = some b := by
    intro s b hb
    by_cases hs : s = key
    · subst hs
      rw [store_books_self] at hb
      exact Or.inl ⟨rfl, (Option.some.inj hb).symm⟩
    · rw [store_books_of_ne hs] at hb
      exact Or.inr ⟨hs, hb⟩
  refine ⟨fun s b hb => ?_, fun s u b c hNe hb hc q hq => ?_⟩
  · rcases hBooks s b hb with ⟨-, rfl⟩ | ⟨hs, hOld⟩
    · exact hQuiet
    · exact (hI.quiet s b hOld).congr_heap fun q hq => hHeap q (hS s b hs hOld q hq)
  · rcases hBooks s b hb with ⟨rfl, rfl⟩ | ⟨hs, hOld⟩
    · rcases hBooks u c hc with ⟨rfl, -⟩ | ⟨hu, hOld'⟩
      · exact absurd rfl hNe
      · exact fun hMem => hS u c hu hOld' q hMem (hSubset q hq)
    · rcases hBooks u c hc with ⟨rfl, rfl⟩ | ⟨hu, hOld'⟩
      · exact fun hMem => hS s b hs hOld q hq (hSubset q hMem)
      · exact hI.disjoint s u b c hNe hOld hOld' q hq

/-- The same stored in two engines that agree. -/
theorem Agree.store {e' : SingleThreaded} (h : Agree key e e')
    (hSubset : ∀ q ∈ t.book.livePtrs, q ∈ S) (heap : Heap) :
    Agree key (e.store key t) (e'.store key (t.overlay S heap)) := by
  refine ⟨?_, fun u hu => ?_, fun b hb q hq => ?_⟩
  · rw [store_books_self, store_books_self]
    rfl
  · rw [store_books_of_ne hu]
    exact h.alone u hu
  · rw [store_books_self] at hb
    obtain rfl := Option.some.inj hb
    exact BookState.overlay_heap (hSubset q hq)

/-- The caller writes an order to its object. -/
def place (e : SingleThreaded) (p : OrderPtr) (o : Order) : SingleThreaded :=
  { e with heap := Function.update e.heap p o }

theorem Isolated.place (hI : Isolated e) {p : OrderPtr}
    (hp : ∀ s b, e.books s = some b → p ∉ b.livePtrs) (o : Order) : Isolated (e.place p o) where
  quiet s b hb := (hI.quiet s b hb).congr_heap fun _ hq =>
    Function.update_of_ne (ne_of_mem_of_not_mem hq (hp s b hb)) _ _
  disjoint := hI.disjoint

theorem Isolated.quiet_bookOf (hI : Isolated e) (symbol : Symbol) :
    Quiet e.heap (e.bookOf symbol) := by
  unfold bookOf
  cases hb : e.books symbol with
  | none => exact quiet_new e.heap
  | some b => exact hI.quiet symbol b hb

/-- The orders in the book of a symbol rest in no other. -/
theorem Isolated.notMem_of_bookOf (hI : Isolated e) {s symbol : Symbol} (hNe : s ≠ symbol)
    {b : OrderBook} (hb : e.books s = some b) {q : OrderPtr} (hq : q ∈ b.livePtrs) :
    q ∉ (e.bookOf symbol).livePtrs := by
  unfold bookOf
  cases hc : e.books symbol with
  | none => exact List.not_mem_nil
  | some c => exact hI.disjoint s symbol b c hNe hb hc q hq

theorem serve_submit (e : SingleThreaded) (p : OrderPtr) (o : Order) (now : UInt64) :
    e.serve (.submit p o now) =
      (((e.place p o).bookState (e.bookOf o.symbolKey)).addOrder (some p) now).map fun t =>
        ({ trades := t.trades }, { (e.place p o).store o.symbolKey t with
          totalTrades := wrap64 (e.totalTrades + t.trades.length) }) := by
  have hSelf : (e.place p o).heap p = o := Function.update_self ..
  show ((e.place p o).submit p now).bind
    (fun r => some (({ trades := r.1 } : EngineReply), r.2)) = _
  unfold submit bookOf
  rw [hSelf]
  cases hb : e.books o.symbolKey with
  | none =>
      have hPlace : (e.place p o).books o.symbolKey = none := hb
      dsimp only
      rw [hPlace]
      dsimp only
      rw [Function.update_self, Option.getD_none]
      show ((((e.place p o).bookState {}).addOrder (some p) now).bind _).bind _ = _
      cases ((e.place p o).bookState {}).addOrder (some p) now with
      | none => rfl
      | some t =>
          unfold store
          dsimp only [Option.bind_some, Option.map_some, Option.pure_def]
          rw [Function.update_idem]
          rfl
  | some b =>
      have hPlace : (e.place p o).books o.symbolKey = some b := hb
      dsimp only
      rw [hPlace]
      dsimp only
      rw [hPlace]
      show ((((e.place p o).bookState b).addOrder (some p) now).bind _).bind _ = _
      rw [Option.getD_some]
      cases ((e.place p o).bookState b).addOrder (some p) now with
      | none => rfl
      | some t => rfl

/-- Agreeing engines agree on the orders of a call. -/
theorem Agree.heap_bookOf {e' : SingleThreaded} (h : Agree key e e') {q : OrderPtr}
    (hq : q ∈ (e.bookOf key).livePtrs) : e'.heap q = e.heap q := by
  unfold bookOf at hq
  cases hb : e.books key with
  | none =>
      rw [hb] at hq
      exact absurd hq List.not_mem_nil
  | some b =>
      rw [hb] at hq
      exact h.heap_eq b hb q hq

theorem Agree.bookOf_eq {e' : SingleThreaded} (h : Agree key e e') :
    e'.bookOf key = e.bookOf key := by
  rw [bookOf, h.books_eq, bookOf]

theorem Agree.place {e' : SingleThreaded} (h : Agree key e e') {p : OrderPtr}
    (hp : ∀ s b, e.books s = some b → p ∉ b.livePtrs) (o : Order) :
    Agree key (e.place p o) (e'.place p o) where
  books_eq := h.books_eq
  alone := h.alone
  heap_eq b hb q hq := by
    have hNe : q ≠ p := ne_of_mem_of_not_mem hq (hp key b hb)
    show Function.update e'.heap p o q = Function.update e.heap p o q
    rw [Function.update_of_ne hNe, Function.update_of_ne hNe, h.heap_eq b hb q hq]

theorem submit_serves (hI : Isolated e) {p : OrderPtr} {o : Order} (now : UInt64)
    (hAdmits : e.Admits (.submit p o now)) : ∃ r e₁, Serves e (.submit p o now) r e₁ := by
  obtain ⟨hLimit, hp⟩ := hAdmits
  have hI' := hI.place hp o
  have hSelf : ∀ e : SingleThreaded, (e.place p o).heap p = o := fun _ => Function.update_self ..
  have hOut : p ∉ (e.bookOf o.symbolKey).livePtrs := by
    unfold bookOf
    cases hb : e.books o.symbolKey with
    | none => exact List.not_mem_nil
    | some b => exact hp _ b hb
  have hLimit' : (((e.place p o).bookState (e.bookOf o.symbolKey)).heap p).type = .LIMIT := by
    show ((e.place p o).heap p).type = .LIMIT
    rw [hSelf, hLimit]
  -- the call touches p and the orders that rest at this symbol, nothing else
  obtain ⟨t, hCall⟩ := addOrder_local (s := (e.place p o).bookState (e.bookOf o.symbolKey))
    (hI'.quiet_bookOf o.symbolKey) hOut hLimit' now
  have hOther : ∀ s b, s ≠ o.symbolKey → e.books s = some b → ∀ q ∈ b.livePtrs,
      q ∉ insert p (e.bookOf o.symbolKey).livePtrs.toFinset := by
    intro s b hs hb q hq hMem
    rcases Finset.mem_insert.mp hMem with rfl | hMem
    · exact hp s b hb hq
    · exact hI.notMem_of_bookOf hs hb hq (List.mem_toFinset.mp hMem)
  have hStore := hI'.store hOther hCall.quiet hCall.subset fun q hq => hCall.heap_eq hq
  have hServe : ∀ (e' : SingleThreaded) (u : BookState 0),
      ((e'.place p o).bookState (e'.bookOf o.symbolKey)).addOrder (some p) now = some u →
      e'.serve (.submit p o now) = some ({ trades := u.trades },
        { (e'.place p o).store o.symbolKey u with
          totalTrades := wrap64 (e'.totalTrades + u.trades.length) }) := by
    intro e' u hu
    rw [serve_submit, hu]
    rfl
  have hReturns := Option.map_eq_some_iff.mp hCall.returns
  obtain ⟨u, hu, hEq⟩ := hReturns
  obtain rfl : u = t := congrArg Prod.snd hEq
  refine ⟨{ trades := u.trades }, _, hServe e u hu, { hStore with }, fun s hs =>
    store_books_of_ne hs, fun s b hs hb q hq => ?_, fun _ => rfl, fun q hq => ?_,
    fun e' hAgree => ?_⟩
  · have hNe : q ≠ p := ne_of_mem_of_not_mem hq (hp s b hb)
    exact (hCall.heap_eq (hOther s b hs hb q hq)).trans (Function.update_of_ne hNe _ _)
  · have hMem : q ∈ ((e.place p o).store o.symbolKey u |>.bookOf o.symbolKey).livePtrs := hq
    rw [bookOf_store_self] at hMem
    rcases Finset.mem_insert.mp (hCall.subset q hMem) with rfl | hMem
    · exact Or.inl rfl
    · exact Or.inr (List.mem_toFinset.mp hMem)
  · -- in the other engine the call finds the same orders
    have hAgree : Agree o.symbolKey e e' := hAgree
    have hRead : ∀ q ∈ insert p (e.bookOf o.symbolKey).livePtrs.toFinset,
        (e'.place p o).heap q = (e.place p o).heap q := by
      intro q hq
      by_cases hqp : q = p
      · rw [hqp, hSelf, hSelf]
      · have hLive := List.mem_toFinset.mp (Finset.mem_of_mem_insert_of_ne hq hqp)
        show Function.update e'.heap p o q = Function.update e.heap p o q
        rw [Function.update_of_ne hqp, Function.update_of_ne hqp, hAgree.heap_bookOf hLive]
    obtain ⟨u', hu', hEq'⟩ := Option.map_eq_some_iff.mp (hCall.transfer hRead)
    obtain ⟨-, rfl⟩ := Prod.mk.inj hEq'
    have hCall' : ((e'.place p o).bookState (e'.bookOf o.symbolKey)).addOrder (some p) now =
        some (u.overlay (insert p (e.bookOf o.symbolKey).livePtrs.toFinset)
          (e'.place p o).heap) := by
      rw [hAgree.bookOf_eq]
      exact hu'
    have hStored := (hAgree.place hp o).store hCall.subset (e'.place p o).heap
    exact ⟨_, hServe e' (u.overlay _ (e'.place p o).heap) hCall', { hStored with }⟩

/-- A call on the resting orders of one book, whose result is stored. -/
theorem store_serves (hI : Isolated e) {α : Type} {c : EngineCall} (hKey : c.symbol = key) {r : α}
    {x : EngineReply} {call : BookState 0 → Option (α × BookState 0)}
    (hCall : LocalCall (e.bookOf key).livePtrs.toFinset call (e.bookState (e.bookOf key)) r t)
    (hServe : ∀ (e' : SingleThreaded) (u : BookState 0), e'.books key = e.books key →
      call (e'.bookState (e.bookOf key)) = some (r, u) → e'.serve c = some (x, e'.store key u))
    (hNone : x.trades = []) : Serves e c x (e.store key t) := by
  subst hKey
  have hOther : ∀ s b, s ≠ c.symbol → e.books s = some b → ∀ q ∈ b.livePtrs,
      q ∉ (e.bookOf c.symbol).livePtrs.toFinset := fun s b hs hb q hq hMem =>
    hI.notMem_of_bookOf hs hb hq (List.mem_toFinset.mp hMem)
  refine ⟨hServe e t rfl hCall.returns,
    hI.store hOther hCall.quiet hCall.subset fun q hq => hCall.heap_eq hq,
    fun s hs => store_books_of_ne hs, fun s b hs hb q hq => hCall.heap_eq (hOther s b hs hb q hq),
    fun hLt => ?_, fun q hq => Or.inr ?_, fun e' hAgree => ?_⟩
  · rw [hNone, List.length_nil, Nat.add_zero, Nat.mod_eq_of_lt hLt]
    rfl
  · rw [bookOf_store_self] at hq
    exact List.mem_toFinset.mp (hCall.subset q hq)
  · have hRead : ∀ q ∈ (e.bookOf c.symbol).livePtrs.toFinset, e'.heap q = e.heap q := fun q hq =>
      hAgree.heap_bookOf (List.mem_toFinset.mp hq)
    exact ⟨_, hServe e' _ hAgree.books_eq (hCall.transfer hRead),
      hAgree.store hCall.subset e'.heap⟩

/-- Adding a symbol stores the book the symbol has. -/
theorem addSymbol_eq (e : SingleThreaded) (symbol : Symbol) :
    e.addSymbol symbol = e.store symbol (e.bookState (e.bookOf symbol)) := by
  unfold addSymbol bookOf store
  cases hb : e.books symbol with
  | none => rfl
  | some b =>
      have hSelf : Function.update e.books symbol (some b) = e.books := by
        rw [← hb, Function.update_eq_self]
      show e = { e with books := Function.update e.books symbol (some b) }
      rw [hSelf]

theorem addSymbol_serves (hI : Isolated e) (symbol : Symbol) :
    ∃ r e₁, Serves e (.addSymbol symbol) r e₁ := by
  have hCall : LocalCall (e.bookOf symbol).livePtrs.toFinset (fun s => some ((), s))
      (e.bookState (e.bookOf symbol)) () (e.bookState (e.bookOf symbol)) :=
    { returns := rfl
      overlay := fun _ => rfl
      quiet := hI.quiet_bookOf symbol
      subset := fun q hq => List.mem_toFinset.mpr hq }
  have hServe : ∀ (e' : SingleThreaded) (u : BookState 0), e'.books symbol = e.books symbol →
      some ((), e'.bookState (e.bookOf symbol)) = some ((), u) →
      e'.serve (.addSymbol symbol) = some ({}, e'.store symbol u) := by
    intro e' u hEq hu
    have hBook : e'.bookOf symbol = e.bookOf symbol := by
      rw [bookOf, hEq, bookOf]
    have hState : e'.bookState (e.bookOf symbol) = u := congrArg Prod.snd (Option.some.inj hu)
    rw [← hState, ← hBook, ← addSymbol_eq]
    rfl
  exact ⟨{}, _, store_serves hI rfl hCall hServe rfl⟩

theorem cancelOrder_serves (hI : Isolated e) (symbol : Symbol) (id : UInt64) :
    ∃ r e₁, Serves e (.cancelOrder symbol id) r e₁ := by
  cases hb : e.books symbol with
  | none =>
      have hServe : ∀ e' : SingleThreaded, e'.books symbol = none →
          e'.serve (.cancelOrder symbol id) = some ({}, e') := by
        intro e' hNone
        show some (({ found := (e'.cancelOrder symbol id).1 } : EngineReply),
          (e'.cancelOrder symbol id).2) = _
        unfold cancelOrder getOrderBook
        rw [hNone]
      exact ⟨{}, e, hServe e hb, hI, fun _ _ => rfl, fun _ _ _ _ _ _ => rfl,
        fun hLt => (Nat.mod_eq_of_lt hLt).symm, fun _ hq => Or.inr hq,
        fun e' h => ⟨e', hServe e' (h.books_eq.trans hb), h⟩⟩
  | some b =>
      have hBook : e.bookOf symbol = b := by
        rw [bookOf, hb, Option.getD_some]
      have hCall := cancelOrder_local (s := e.bookState (e.bookOf symbol))
        (hI.quiet_bookOf symbol) id
      generalize ((e.bookState (e.bookOf symbol)).cancelOrder id).1 = found at hCall
      have hServe : ∀ (e' : SingleThreaded) (u : BookState 0), e'.books symbol = e.books symbol →
          some ((e'.bookState (e.bookOf symbol)).cancelOrder id) = some (found, u) →
          e'.serve (.cancelOrder symbol id) =
            some ({ found := some found }, e'.store symbol u) := by
        intro e' u hEq hu
        have hPair := Option.some.inj hu
        show some (({ found := (e'.cancelOrder symbol id).1 } : EngineReply),
          (e'.cancelOrder symbol id).2) = _
        unfold cancelOrder getOrderBook
        rw [hEq, hb]
        dsimp only
        rw [← hBook, hPair]
      have hKey : (EngineCall.cancelOrder symbol id).symbol = symbol := rfl
      exact ⟨_, _, store_serves hI hKey hCall hServe rfl⟩

/-- Every call the caller may make is served. -/
theorem serve_total (hI : Isolated e) {c : EngineCall} (hAdmits : e.Admits c) :
    ∃ r e₁, Serves e c r e₁ := by
  cases c with
  | addSymbol symbol => exact addSymbol_serves hI symbol
  | submit p o now => exact submit_serves hI now hAdmits
  | cancelOrder symbol id => exact cancelOrder_serves hI symbol id

/-! ## Runs -/

variable {e' e₁ e₂ : SingleThreaded} {c : EngineCall} {r : EngineReply} {s : Symbol}
  {cs : List (EngineCall × EngineReply)}

/-- What a call that was made does. -/
theorem serves_of_serve (hI : Isolated e) (hAdmits : e.Admits c)
    (hServe : e.serve c = some (r, e₁)) : Serves e c r e₁ := by
  obtain ⟨r', e', hServes⟩ := serve_total hI hAdmits
  have hPair := Option.some.inj (hServes.serve_eq.symm.trans hServe)
  obtain ⟨rfl, rfl⟩ := Prod.mk.inj hPair
  exact hServes

/-- A call for another symbol does not show. -/
theorem Serves.agree_of_ne (h : Serves e c r e₁) (hNe : s ≠ c.symbol) (hAgree : Agree s e e') :
    Agree s e₁ e' where
  books_eq := hAgree.books_eq.trans (h.books_eq s hNe).symm
  alone := hAgree.alone
  heap_eq b hb q hq := by
    rw [h.books_eq s hNe] at hb
    rw [hAgree.heap_eq b hb q hq, h.heap_eq s b hNe hb q hq]

/-- A call for the symbol may be made of the other engine too. -/
theorem Agree.admits (hAgree : Agree s e e') (hAdmits : e.Admits c) : e'.Admits c := by
  cases c with
  | addSymbol symbol => trivial
  | cancelOrder symbol id => trivial
  | submit p o now =>
      refine ⟨hAdmits.1, fun t b hb => ?_⟩
      by_cases hts : t = s
      · subst hts
        rw [hAgree.books_eq] at hb
        exact hAdmits.2 t b hb
      · rw [hAgree.alone t hts] at hb
        exact absurd hb nofun

theorem Run.isolated (hRun : Run e cs e₂) (hI : Isolated e) : Isolated e₂ := by
  induction hRun with
  | nil e => exact hI
  | cons hAdmits hServe hRest ih => exact ih (serves_of_serve hI hAdmits hServe).isolated

/-- The calls for one symbol run alone. -/
theorem Run.project (hRun : Run e cs e₂) (hI : Isolated e) (hAgree : Agree s e e') :
    ∃ e₂', Run e' (cs.filter fun c => c.1.symbol = s) e₂' ∧ Agree s e₂ e₂' := by
  induction hRun generalizing e' with
  | nil e => exact ⟨e', .nil e', hAgree⟩
  | @cons e e₁ e₂ c r cs hAdmits hServe hRest ih =>
      have hServes := serves_of_serve hI hAdmits hServe
      by_cases hs : c.symbol = s
      · subst hs
        obtain ⟨e₁', hServe', hAgree'⟩ := hServes.alone e' hAgree
        obtain ⟨e₂', hRun', hEnd⟩ := ih hServes.isolated hAgree'
        rw [List.filter_cons_of_pos (by simp)]
        exact ⟨e₂', .cons (hAgree.admits hAdmits) hServe' hRun', hEnd⟩
      · rw [List.filter_cons_of_neg (by simpa using hs)]
        exact ih hServes.isolated (hServes.agree_of_ne (Ne.symm hs) hAgree)

/-- The counter counts the trades of all symbols. -/
theorem Run.totalTrades_eq (hRun : Run e cs e₂) (hI : Isolated e) (hLt : e.totalTrades < 2 ^ 64) :
    e₂.totalTrades = (e.totalTrades + (cs.map fun c => c.2.trades.length).sum) % 2 ^ 64 := by
  induction hRun with
  | nil e => exact (Nat.mod_eq_of_lt hLt).symm
  | @cons e e₁ e₂ c r cs hAdmits hServe hRest ih =>
      have hServes := serves_of_serve hI hAdmits hServe
      have hTotal := hServes.total_eq hLt
      have hLt₁ : e₁.totalTrades < 2 ^ 64 := by
        rw [hTotal]
        exact Nat.mod_lt _ (by norm_num)
      rw [ih hServes.isolated hLt₁, hTotal, Nat.mod_add_mod, Nat.add_assoc]
      rfl

/-- Limit orders in objects of their own can be submitted in any order, with any calls between. -/
theorem exists_run (calls : List EngineCall) (hI : Isolated e)
    (hLimit : ∀ p o now, .submit p o now ∈ calls → o.type = .LIMIT)
    (hNodup : (calls.filterMap EngineCall.object).Nodup)
    (hFresh : ∀ s, ∀ q ∈ (e.bookOf s).livePtrs, q ∉ calls.filterMap EngineCall.object) :
    ∃ cs e₂, cs.map Prod.fst = calls ∧ Run e cs e₂ := by
  induction calls generalizing e with
  | nil => exact ⟨[], e, rfl, .nil e⟩
  | cons c calls ih =>
      have hAdmits : e.Admits c := by
        cases c with
        | addSymbol symbol => trivial
        | cancelOrder symbol id => trivial
        | submit p o now =>
            refine ⟨hLimit p o now List.mem_cons_self, fun s b hb hp => ?_⟩
            have hMem : p ∈ (e.bookOf s).livePtrs := by
              rw [bookOf, hb]
              exact hp
            exact hFresh s p hMem List.mem_cons_self
      obtain ⟨r, e₁, hServes⟩ := serve_total hI hAdmits
      -- the later calls bring objects that neither this call nor the book knows
      have hSub : calls.filterMap EngineCall.object <:+
          (c :: calls).filterMap EngineCall.object := (List.suffix_cons c calls).filterMap _
      have hFresh₁ : ∀ s, ∀ q ∈ (e₁.bookOf s).livePtrs,
          q ∉ calls.filterMap EngineCall.object := by
        intro s q hq hMem
        by_cases hs : s = c.symbol
        · subst hs
          rcases hServes.rests q hq with hObj | hOld
          · -- an object submitted now is not submitted again
            rw [List.filterMap_cons_some hObj] at hNodup
            exact (List.nodup_cons.mp hNodup).1 hMem
          · exact hFresh _ q hOld (hSub.subset hMem)
        · rw [bookOf, hServes.books_eq s hs] at hq
          exact hFresh s q hq (hSub.subset hMem)
      obtain ⟨cs, e₂, hCalls, hRun⟩ := ih hServes.isolated
        (fun p o now hMem => hLimit p o now (List.mem_cons_of_mem _ hMem))
        (hNodup.sublist hSub.sublist) hFresh₁
      exact ⟨(c, r) :: cs, e₂, congrArg (c :: ·) hCalls, .cons hAdmits hServes.serve_eq hRun⟩

/-- The trades of each symbol add up to the trades of all. -/
theorem sum_trades_eq (cs : List (EngineCall × EngineReply)) {symbols : Finset Symbol}
    (hSymbols : ∀ c ∈ cs, c.1.symbol ∈ symbols) :
    ∑ s ∈ symbols, ((cs.filter fun c => c.1.symbol = s).map fun c => c.2.trades.length).sum =
      (cs.map fun c => c.2.trades.length).sum := by
  induction cs with
  | nil => exact Finset.sum_eq_zero fun _ _ => rfl
  | cons c cs ih =>
      have hMem := hSymbols c List.mem_cons_self
      have hOne : ∀ s, (((c :: cs).filter fun c => c.1.symbol = s).map
          fun c => c.2.trades.length).sum =
          (if c.1.symbol = s then c.2.trades.length else 0) +
            ((cs.filter fun c => c.1.symbol = s).map fun c => c.2.trades.length).sum := by
        intro s
        by_cases hs : c.1.symbol = s
        · rw [List.filter_cons_of_pos (by simpa using hs), if_pos hs, List.map_cons, List.sum_cons]
        · rw [List.filter_cons_of_neg (by simpa using hs), if_neg hs, Nat.zero_add]
      rw [Finset.sum_congr rfl fun s _ => hOne s, Finset.sum_add_distrib, Finset.sum_ite_eq,
        if_pos hMem, ih fun c hc => hSymbols c (List.mem_cons_of_mem _ hc), List.map_cons,
        List.sum_cons]

/-- New engines agree. -/
theorem agree_new (s : Symbol) (h h' : Heap) :
    Agree s { heap := h } { heap := h' } where
  books_eq := rfl
  alone _ _ := rfl
  heap_eq _ hb := by cases hb

/-- In every run of a new engine, each symbol's calls return what they return when they are made
alone of another new engine, and leave the same book; the counter counts the trades of all
symbols.  Whatever was called before, a call that the caller may make is served. -/
theorem symbolsIsolated {h : Heap} (hRun : Run { heap := h } cs e) :
    (∀ s h', ∃ e', Run { heap := h' } (cs.filter fun c => c.1.symbol = s) e' ∧
      e'.getOrderBook s = e.getOrderBook s ∧
      ∀ b, e.getOrderBook s = some b → ∀ q ∈ b.livePtrs, e'.heap q = e.heap q) ∧
    e.totalTrades = wrap64 (∑ s ∈ (cs.map fun c => c.1.symbol).toFinset,
      ((cs.filter fun c => c.1.symbol = s).map fun c => c.2.trades.length).sum) ∧
    ∀ c, e.Admits c → ∃ r e', e.serve c = some (r, e') := by
  have hI := isolated_new h
  refine ⟨fun s h' => ?_, ?_, fun c hAdmits => ?_⟩
  · obtain ⟨e', hRun', hAgree⟩ := hRun.project hI (agree_new s h h')
    exact ⟨e', hRun', hAgree.books_eq, hAgree.heap_eq⟩
  · have hSymbols : ∀ c ∈ cs, c.1.symbol ∈ (cs.map fun c => c.1.symbol).toFinset :=
      fun c hc => List.mem_toFinset.mpr (List.mem_map_of_mem hc)
    rw [hRun.totalTrades_eq hI (by norm_num), sum_trades_eq cs hSymbols, Nat.zero_add]
    rfl
  · obtain ⟨r, e', hServes⟩ := serve_total (hRun.isolated hI) hAdmits
    exact ⟨r, e', hServes.serve_eq⟩

/-- Two symbols whose orders share their IDs; the first symbol trades, the second cancels. -/
theorem symbolsIsolated_shared_ids :
    let a : Symbol := [66, 84, 67]
    let b : Symbol := [69, 84, 72]
    let order (symbol : Symbol) (id : UInt64) (side : Side) : Order :=
      { orderId := id, side := side, price := 100, quantity := 5, symbol := strncpy symbol 7 }
    ∃ (cs : List (EngineCall × EngineReply)) (e : SingleThreaded),
      cs.map Prod.fst = [.addSymbol a, .submit 1 (order a 1 .BUY) 10,
        .submit 2 (order b 1 .BUY) 11, .submit 3 (order a 2 .SELL) 12, .cancelOrder b 1] ∧
      ∀ h', ∃ e', Run { heap := h' } (cs.filter fun c => c.1.symbol = b) e' ∧
        e'.getOrderBook b = e.getOrderBook b := by
  intro a b order
  have hLimit : ∀ p o now, .submit p o now ∈ [EngineCall.addSymbol a,
      .submit 1 (order a 1 .BUY) 10, .submit 2 (order b 1 .BUY) 11,
      .submit 3 (order a 2 .SELL) 12, .cancelOrder b 1] → o.type = .LIMIT := by
    simp only [List.mem_cons, List.not_mem_nil, EngineCall.submit.injEq, reduceCtorEq, false_or,
      or_false]
    rintro p o now (⟨-, rfl, -⟩ | ⟨-, rfl, -⟩ | ⟨-, rfl, -⟩) <;> rfl
  obtain ⟨cs, e, hCalls, hRun⟩ := exists_run _ (isolated_new fun _ => {}) hLimit (by decide)
    fun _ _ hq => by cases hq
  refine ⟨cs, e, hCalls, fun h' => ?_⟩
  obtain ⟨e', hRun', hBook, -⟩ := (symbolsIsolated hRun).1 b h'
  exact ⟨e', hRun', hBook⟩

end SingleThreaded

end MatchingMachine
