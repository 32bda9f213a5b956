import MatchingMachine.Model.Session
import MatchingMachine.Refinement.Calls

/-!
# The two paths in lockstep

`match` and `match_noalloc` are separate copies of one algorithm.  Run with a deallocator
that leaves the orders alone, the allocation-free path goes through the same states as the
path that returns a vector, but for the trade buffer: `withBuf b s` is the state `s` with the
trades of the call written behind the contents of `b`.  One lemma per statement, loop body
and function, up to `exec_addOrderNoalloc`.

No assumption on the orders is needed for this: the two copies agree also where the book is
given a repeated ID or an order that is already full.
-/

namespace MatchingMachine

open Interaction

variable {k : Nat}

namespace BookState

/-- The state with the trades of the call written into the trade buffer. -/
def withBuf (b : TradeRingBuffer k) (s : BookState k) : BookState k :=
  { s with buf := b.pushAll s.trades }

section WithBuf

variable (b : TradeRingBuffer k) (s : BookState k)

@[simp] theorem withBuf_heap : (s.withBuf b).heap = s.heap := rfl

@[simp] theorem withBuf_book : (s.withBuf b).book = s.book := rfl

@[simp] theorem withBuf_modifyFront (opp : Side) (f : PriceLevel → PriceLevel) :
    (s.withBuf b).modifyFront opp f = (s.modifyFront opp f).withBuf b := rfl

@[simp] theorem withBuf_eraseFront (opp : Side) :
    (s.withBuf b).eraseFront opp = (s.eraseFront opp).withBuf b := rfl

@[simp] theorem withBuf_frontEmpty (opp : Side) :
    (s.withBuf b).frontEmpty opp = s.frontEmpty opp := rfl

@[simp] theorem withBuf_frontSize (opp : Side) :
    (s.withBuf b).frontSize opp = s.frontSize opp := rfl

@[simp] theorem withBuf_setStatus (p : OrderPtr) (status : OrderStatus) :
    (s.withBuf b).setStatus p status = (s.setStatus p status).withBuf b := rfl

@[simp] theorem withBuf_eraseIndex (id : UInt64) :
    (s.withBuf b).eraseIndex id = (s.eraseIndex id).withBuf b := rfl

@[simp] theorem withBuf_insertIndex (id : UInt64) (p : OrderPtr) :
    (s.withBuf b).insertIndex id p = (s.insertIndex id p).withBuf b := rfl

theorem withBuf_ite (c : Prop) [Decidable c] (t : BookState k) :
    (if c then s.withBuf b else t.withBuf b) = (if c then s else t).withBuf b := by
  split <;> rfl

variable {s} in
theorem withBuf_nil (h : s.trades = []) : s.withBuf s.buf = s := by
  unfold withBuf
  rw [h]
  cases s
  cases h
  rfl

/-- Recording a trade in the buffer keeps up with recording it in the vector. -/
theorem withBuf_fill (opp : Side) (inc res : OrderPtr) (price : Int) :
    ((s.withBuf b).fill opp inc res price).1.writeTrade
        ((s.withBuf b).fill opp inc res price).2 =
      (s.fill opp inc res price).1.withBuf b := by
  simp only [withBuf, fill, writeTrade, TradeRingBuffer.pushAll_append]
  rfl

theorem withBuf_settleIncoming (p : OrderPtr) :
    (s.withBuf b).settleIncoming p = (s.settleIncoming p).withBuf b := by
  unfold settleIncoming
  rw [withBuf_heap, withBuf_setStatus, withBuf_setStatus, withBuf_eraseIndex, withBuf_ite,
    withBuf_ite]

theorem withBuf_restOrder (p : OrderPtr) :
    (s.withBuf b).restOrder p = (s.restOrder p).withBuf b := by
  unfold restOrder
  dsimp only [withBuf_heap, withBuf_book]
  split <;> rfl

end WithBuf

/-- One round of the inner loops. -/
theorem exec_matchLevelRoundNoalloc (b : TradeRingBuffer k) (opp : Side) (inc : OrderPtr)
    (s : BookState k) :
    (matchLevelRoundNoalloc opp inc (s.withBuf b)).exec =
      some (mapStep (withBuf b) (matchLevelRound opp inc s)) := by
  unfold matchLevelRoundNoalloc matchLevelRound
  rw [withBuf_book]
  cases (s.book.levels opp).begin? with
  | none => rfl
  | some e =>
      dsimp only
      rw [withBuf_heap]
      by_cases hStop : ((s.heap inc).isFilled || e.2.empty) = true
      · rw [if_pos hStop, if_pos hStop]
        rfl
      rw [if_neg hStop, if_neg hStop]
      cases e.2.front with
      | none => rfl
      | some res =>
          dsimp only
          rw [withBuf_fill, withBuf_heap]
          split <;> rfl

/-- One round of the outer loops. -/
theorem exec_matchRoundNoalloc (b : TradeRingBuffer k) (opp : Side) (inc : OrderPtr)
    (s : BookState k) :
    (matchRoundNoalloc opp inc (s.withBuf b)).exec =
      (matchRound opp inc s).map (mapStep (withBuf b)) := by
  unfold matchRoundNoalloc matchRound
  rw [withBuf_book]
  cases (s.book.levels opp).begin? with
  | none => rfl
  | some e =>
      dsimp only
      rw [withBuf_heap, withBuf_modifyFront, withBuf_frontEmpty, withBuf_frontSize,
        withBuf_eraseFront]
      by_cases hFull : (s.heap inc).isFilled = true
      · rw [if_pos hFull, if_pos hFull]
        rfl
      rw [if_neg hFull, if_neg hFull]
      by_cases hCross : opp.before (s.heap inc).price e.1
      · rw [if_pos hCross, if_pos hCross]
        rfl
      rw [if_neg hCross, if_neg hCross]
      by_cases hEmpty : (s.modifyFront opp PriceLevel.dropHoles).frontEmpty opp = true
      · rw [if_pos hEmpty, if_pos hEmpty]
        rfl
      rw [if_neg hEmpty, if_neg hEmpty, exec_bind]
      -- the bound on the inner loop is read from the level, so it is the same in both
      have hBody : ∀ s : BookState k, (matchLevelRoundNoalloc opp inc (s.withBuf b)).exec =
          (some (matchLevelRound opp inc s)).map (mapStep (withBuf b)) :=
        exec_matchLevelRoundNoalloc b opp inc
      have hLoop := exec_loop (withBuf b) hBody
        ((s.modifyFront opp PriceLevel.dropHoles).frontSize opp + 2)
        (s.modifyFront opp PriceLevel.dropHoles)
      rw [hLoop]
      cases loop none (fun s => some (matchLevelRound opp inc s))
          ((s.modifyFront opp PriceLevel.dropHoles).frontSize opp + 2)
          (s.modifyFront opp PriceLevel.dropHoles) with
      | none => rfl
      | some s' =>
          rw [Option.map_some, Option.bind_some, withBuf_frontEmpty, withBuf_eraseFront, withBuf_ite]
          rfl

/-- `match_noalloc` and `match`. -/
theorem exec_matchNoalloc (b : TradeRingBuffer k) (inc : OrderPtr) (s : BookState k) :
    ((s.withBuf b).matchNoalloc inc).exec = (s.matchOrder inc).map (withBuf b) := by
  have hLoop := exec_loop (withBuf b)
    (exec_matchRoundNoalloc b (s.heap inc).side.opposite inc)
    ((s.book.levels (s.heap inc).side.opposite).size + 2) s
  unfold matchNoalloc matchOrder
  dsimp only
  rw [exec_bind, withBuf_heap, withBuf_book, hLoop]
  cases loop none (matchRound (s.heap inc).side.opposite inc)
      ((s.book.levels (s.heap inc).side.opposite).size + 2) s with
  | none => rfl
  | some s' =>
      rw [Option.map_some, Option.bind_some, withBuf_settleIncoming]
      rfl

/-- `add_order_noalloc` for a limit order and `add_order`. -/
theorem exec_addOrderNoalloc {p : OrderPtr} {now : UInt64} {s : BookState k}
    (hType : ((s.stamped p now).heap p).type = .LIMIT) :
    (s.addOrderNoalloc (some p) now).exec =
      (s.addOrder (some p) now).map (withBuf s.buf) := by
  have hBuf : (s.stamped p now).buf = s.buf := by rw [stamped_eq]
  have hTrades : (s.stamped p now).trades = [] := by rw [stamped_eq]
  have hStart : (s.stamped p now).insertIndex ((s.stamped p now).heap p).orderId p =
      ((s.stamped p now).insertIndex ((s.stamped p now).heap p).orderId p).withBuf s.buf := by
    rw [← withBuf_insertIndex, ← hBuf, withBuf_nil hTrades]
  have hMatch := exec_matchNoalloc s.buf p
    ((s.stamped p now).insertIndex ((s.stamped p now).heap p).orderId p)
  rw [← hStart] at hMatch
  unfold addOrderNoalloc addOrder
  simp only [← stamped.eq_def, hType, reduceCtorEq, if_false]
  rw [exec_bind, hMatch]
  cases ((s.stamped p now).insertIndex ((s.stamped p now).heap p).orderId p).matchOrder p with
  | none => rfl
  | some s' =>
      rw [Option.map_some, Option.bind_some, withBuf_restOrder]
      split <;> rfl

end BookState

/-! ## The path that returns a vector -/

/-- Placing an object that does not rest. -/
theorem Represents.place {s : BookState k} {F : PriorityBook} (hR : Represents s.heap s.book F)
    {p : OrderPtr} (hp : p ∉ F.ptrs) (o : Order) :
    Represents (s.place p o).heap (s.place p o).book F :=
  hR.congr_heap fun _ hq => BookState.place_heap_of_ne (ne_of_mem_of_not_mem hq hp) s o

/-- What `add_order` owes: what the abstract request says, and nothing else changed. -/
structure AddPost (F : PriorityBook) (p : OrderPtr) (out : Outcome) (s₀ s : BookState k) :
    Prop where
  represents : Represents s.heap s.book out.book
  trades_eq : s.trades = out.trades
  overflow_eq : s.overflow = (s₀.overflow || out.overflow)
  returned : ∀ r ∈ out.returned, s.heap r.ptr = r.order
  frame : ∀ q, q ≠ p → q ∉ F.ptrs → s.heap q = s₀.heap q

/-- `add_order` terminates and carries out the abstract request. -/
theorem addOrder_post {s : BookState k} {F : PriorityBook} (hR : Represents s.heap s.book F)
    {p : OrderPtr} {now : UInt64} (hType : (s.heap p).type = .LIMIT)
    (hAdm : F.Accepts p ((s.heap p).stamp now)) :
    ∃ s', s.addOrder (some p) now = some s' ∧
      AddPost F p (F.submit p ((s.heap p).stamp now)) s s' := by
  have hwp := addOrderNoalloc_wp hR hAdm fun _ => True
  -- the protocol admits a deallocator that leaves the orders alone
  have hRely : ∀ log a (s : BookState k), (ownership p F.ptrs fun _ => True).guar log a s →
      (ownership p F.ptrs fun _ => True).rely log a s s :=
    fun _ _ s _ => ⟨s.heap, rfl, fun _ _ => rfl⟩
  obtain ⟨log, s₁, hRun, hPost⟩ := run_of_wp hRely hwp
  have hExec := run_inert [] (s.addOrderNoalloc (some p) now)
  have hType' : ((s.stamped p now).heap p).type = .LIMIT := by
    rw [stamped_heap_self, Order.stamp]
    split <;> exact hType
  rw [hRun, BookState.exec_addOrderNoalloc hType', Option.map_some, eq_comm] at hExec
  obtain ⟨s', hAdd, rfl⟩ := Option.map_eq_some_iff.mp hExec
  exact ⟨s', hAdd,
    { represents := hPost.represents
      trades_eq := hPost.trades_eq
      overflow_eq := hPost.overflow_eq
      returned := fun r hr => hPost.returned_stable r hr trivial
      frame := fun q hq hMem => hPost.frame q trivial hq hMem }⟩

/-- `cancel_order` takes the order out of the book and says whether there was one. -/
theorem cancelOrder_post {s : BookState k} {F : PriorityBook} (hR : Represents s.heap s.book F)
    (id : UInt64) :
    (s.cancelOrder id).1 = (F.lookup id).isSome ∧
      Represents (s.cancelOrder id).2.heap (s.cancelOrder id).2.book (F.remove id) ∧
      (s.cancelOrder id).2.overflow = s.overflow ∧
      (∀ r, F.lookup id = some r →
        (s.cancelOrder id).2.heap r.ptr = (PriorityBook.cancelled r).order) ∧
      ∀ q, q ∉ F.ptrs → (s.cancelOrder id).2.heap q = s.heap q := by
  unfold BookState.cancelOrder
  cases hLook : F.lookup id with
  | none =>
      rw [cancelResting_of_none hR hLook, PriorityBook.remove_of_lookup_none hLook]
      exact ⟨rfl, hR, rfl, by simp, fun _ _ => rfl⟩
  | some r =>
      obtain ⟨b, hCall, hRep⟩ := cancelResting_of_some hR hLook
      have hr := (PriorityBook.lookup_eq_some hLook).1
      rw [hCall]
      refine ⟨rfl, hRep, rfl, ?_, ?_⟩
      · intro x hx
        obtain rfl : r = x := by simpa using hx
        dsimp only
        rw [Heap.modify_same, hR.contents hr]
        rfl
      · intro q hq
        have hNe : q ≠ r.ptr := fun hEq => hq (hEq ▸ List.mem_map_of_mem hr)
        dsimp only
        rw [Heap.modify_of_ne hNe]

end MatchingMachine
