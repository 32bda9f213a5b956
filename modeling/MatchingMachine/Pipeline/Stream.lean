import MatchingMachine.Model.FeedSimulator
import MatchingMachine.Priority.Blind
import MatchingMachine.Runs.Paths

/-!
# Generated streams, and replaying them

The simulator numbers the orders of a stream (`Numbered`): a limit order has its own number as
ID, and a cancel names a number that is not larger.  A book that has been given the first `n`
orders has IDs up to `n` only, so it admits the next one, whatever object the order lives in.

`submitAll` and `tradesAll` are the run of the priority book on a stream.  Two streams of the
same orders, in different objects and with other timestamps, give the same run up to these
(`submitAll_blind`), and serving one on a single thread is such a run (`replay_spec`).
-/

namespace MatchingMachine

variable {k : Nat}

/-! ## Numbering -/

/-- Order number `n` of a stream, counted from 0. -/
structure Numbered (n : Nat) (o : Order) : Prop where
  limit : o.type = .LIMIT → FreshLimit o ∧ o.orderId.toNat = n + 1
  id_le : o.orderId.toNat ≤ n + 1

theorem Numbered.untimed_iff {n : Nat} {o : Order} : Numbered n o.untimed ↔ Numbered n o := by
  constructor
  · rintro ⟨hLimit, hId⟩
    refine ⟨fun hType => ?_, hId⟩
    obtain ⟨⟨_, hStatus, hFilled⟩, hNumber⟩ := hLimit hType
    exact ⟨⟨hType, hStatus, hFilled⟩, hNumber⟩
  · rintro ⟨hLimit, hId⟩
    refine ⟨fun hType => ?_, hId⟩
    obtain ⟨⟨_, hStatus, hFilled⟩, hNumber⟩ := hLimit hType
    exact ⟨⟨hType, hStatus, hFilled⟩, hNumber⟩

/-- A simulator that has generated `n` orders. -/
def FeedSimulator.After (sim : FeedSimulator) (n : Nat) : Prop :=
  sim.nextOrderId = UInt64.ofNat (n + 1)

theorem FeedSimulator.nextOrder_spec {sim : FeedSimulator} {n : Nat} (h : sim.After n)
    (hn : n + 1 < 2 ^ 64) (d : Draws) :
    Numbered n (sim.nextOrder d).1 ∧ (sim.nextOrder d).1.timestampNs = 0 ∧
      (sim.nextOrder d).2.After (n + 1) := by
  have hNext : sim.nextOrderId.toNat = n + 1 := by
    rw [h, UInt64.toNat_ofNat']
    omega
  have hAfter : sim.nextOrderId + 1 = UInt64.ofNat (n + 1 + 1) := by
    rw [h, UInt64.ofNat_add (n + 1) 1]
    rfl
  unfold FeedSimulator.nextOrder FeedSimulator.makeRandomOrder
  cases hCancel : d.cancel && decide (sim.nextOrderId > 1) with
  | true =>
      -- there has been an order before, so the range of IDs is not empty
      have hGt : 1 < sim.nextOrderId.toNat := by
        rw [Bool.and_eq_true, decide_eq_true_iff] at hCancel
        exact UInt64.lt_iff_toNat_lt.mp hCancel.2
      have hhi : (sim.nextOrderId + 1 - 2).toNat = n := by
        have hTwo : (2 : UInt64).toNat = 2 := rfl
        rw [hAfter, UInt64.toNat_sub, UInt64.toNat_ofNat', hTwo]
        omega
      obtain ⟨hlo, hLe⟩ := uniformInt_mem (show 1 ≤ n by omega) d.cancelId
      refine ⟨⟨fun hType => ?_, ?_⟩, rfl, hAfter⟩
      · exact nomatch hType
      · show (UInt64.ofNat (uniformInt 1 (sim.nextOrderId + 1 - 2).toNat d.cancelId)).toNat ≤ n + 1
        rw [hhi, UInt64.toNat_ofNat']
        exact (Nat.mod_le _ _).trans (by omega)
  | false => exact ⟨⟨fun _ => ⟨⟨rfl, rfl, rfl⟩, hNext⟩, hNext.le⟩, rfl, hAfter⟩

theorem FeedSimulator.untimed_nextOrder (sim : FeedSimulator) (d : Draws) :
    (sim.nextOrder d).1.untimed = (sim.nextOrder d).1 := by
  unfold FeedSimulator.nextOrder FeedSimulator.makeRandomOrder
  cases d.cancel && decide (sim.nextOrderId > 1) <;> rfl

/-- One more order. -/
theorem FeedSimulator.generateRandom_concat (sim : FeedSimulator) (ds : List Draws) (d : Draws) :
    sim.generateRandom (ds ++ [d]) =
      ((sim.generateRandom ds).1 ++ [((sim.generateRandom ds).2.nextOrder d).1],
        ((sim.generateRandom ds).2.nextOrder d).2) := by
  induction ds generalizing sim with
  | nil => rfl
  | cons d' ds ih =>
      show ((sim.nextOrder d').1 :: ((sim.nextOrder d').2.generateRandom (ds ++ [d])).1,
        ((sim.nextOrder d').2.generateRandom (ds ++ [d])).2) = _
      rw [ih]
      rfl

/-- The orders of a stream are numbered from `n`. -/
def NumberedFrom (n : Nat) (os : List Order) : Prop := ∀ i o, os[i]? = some o → Numbered (n + i) o

theorem NumberedFrom.tail {n : Nat} {o : Order} {os : List Order} (h : NumberedFrom n (o :: os)) :
    NumberedFrom (n + 1) os := fun i x hx => by
  have hNumbered := h (i + 1) x hx
  rwa [Nat.add_comm i 1, ← Nat.add_assoc] at hNumbered

theorem FeedSimulator.generateRandom_spec {sim : FeedSimulator} {n : Nat} (h : sim.After n)
    {ds : List Draws} (hn : n + ds.length < 2 ^ 64) :
    NumberedFrom n (sim.generateRandom ds).1 ∧
      (∀ o ∈ (sim.generateRandom ds).1, o.timestampNs = 0) ∧
      (sim.generateRandom ds).1.length = ds.length ∧
      (sim.generateRandom ds).2.After (n + ds.length) := by
  induction ds generalizing sim n with
  | nil => exact ⟨fun i o ho => by simp [generateRandom] at ho, by simp [generateRandom], rfl, h⟩
  | cons d ds ih =>
      rw [List.length_cons] at hn
      obtain ⟨hNumbered, hTimestamp, hNext⟩ := nextOrder_spec h (by omega) d
      obtain ⟨hRest, hTimestamps, hLength, hAfter⟩ := ih hNext (by omega)
      rw [generateRandom]
      refine ⟨fun i o ho => ?_, ?_, ?_, ?_⟩
      · cases i with
        | zero =>
            obtain rfl : (sim.nextOrder d).1 = o := Option.some.inj ho
            exact hNumbered
        | succ i =>
            have hTail := hRest i o ho
            rwa [Nat.add_assoc, Nat.add_comm 1 i] at hTail
      · exact List.forall_mem_cons.mpr ⟨hTimestamp, hTimestamps⟩
      · exact congrArg Nat.succ hLength
      · rwa [Nat.add_assoc, Nat.add_comm 1] at hAfter

/-! ## What the book admits -/

namespace PriorityBook

/-- Every open order has an ID up to `n`. -/
def IdsUpTo (F : PriorityBook) (n : Nat) : Prop := ∀ r ∈ F.all, r.order.orderId.toNat ≤ n

variable {F : PriorityBook} {n : Nat} {p : OrderPtr} {o : Order}

/-- The next order of a stream may be entered. -/
theorem admissible_of_numbered (h : F.IdsUpTo n) (hp : p ∉ F.ptrs) (ho : Numbered n o)
    (now : UInt64) : F.Admissible p (o.stamp now) := by
  obtain ⟨t, ht⟩ := o.stamp_eq now
  rw [ht]
  refine { ptr_fresh := hp, limit := fun hType => ?_ }
  obtain ⟨⟨_, hStatus, hFilled⟩, hId⟩ := ho.limit hType
  refine ⟨⟨hType, hStatus, hFilled⟩, fun hMem => ?_⟩
  obtain ⟨r, hr, hEq⟩ := List.mem_map.mp hMem
  have hLe := h r hr
  rw [hEq, hId] at hLe
  exact absurd hLe (Nat.not_succ_le_self n)

theorem idsUpTo_submit (hF : F.WellFormed) (h : F.IdsUpTo n) (ho : Numbered n o) (p : OrderPtr)
    (now : UInt64) : (F.submit p (o.stamp now)).book.IdsUpTo (n + 1) := by
  intro r hr
  obtain ⟨t, ht⟩ := o.stamp_eq now
  have hConserves := submit_conserves hF p (o.stamp now) (f := fun r => r.order.orderId)
    fun _ _ h => h.orderId_eq
  have hMem := hConserves.mem_iff.mp (List.mem_map_of_mem (List.mem_append_right _ hr))
  rcases List.mem_cons.mp hMem with hNew | hOld
  · rw [hNew, ht]
    exact ho.id_le
  · obtain ⟨x, hx, hEq⟩ := List.mem_map.mp hOld
    rw [← hEq]
    exact (h x hx).trans (Nat.le_succ n)

/-- A stream in distinct objects is admitted. -/
theorem admitsAll_of_numbered (hF : F.WellFormed) (h : F.IdsUpTo n) {xs : List Submission}
    (hNumbered : NumberedFrom n (xs.map Submission.order)) (hObjects : (xs.map Submission.ptr).Nodup)
    (hFresh : ∀ x ∈ xs, x.ptr ∉ F.ptrs) : F.AdmitsAll xs := by
  induction xs generalizing F n with
  | nil => trivial
  | cons x xs ih =>
      rw [List.map_cons, List.nodup_cons] at hObjects
      have ho : Numbered n x.order := hNumbered 0 x.order rfl
      have hAdm := admissible_of_numbered h (hFresh x (List.mem_cons_self ..)) ho x.now
      refine ⟨hAdm, ih (submit_wellFormed hF hAdm.accepts) (idsUpTo_submit hF h ho _ _) hNumbered.tail
        hObjects.2 fun y hy hMem => ?_⟩
      rcases mem_ptrs_submit hF hMem with hEq | hOld
      · exact hObjects.1 (hEq ▸ List.mem_map_of_mem hy)
      · exact hFresh y (List.mem_cons_of_mem _ hy) hOld

/-! ## Runs of the priority book -/

/-- The trades of a stream. -/
def tradesAll (F : PriorityBook) : List Submission → List Trade
  | [] => []
  | x :: xs =>
      (F.submit x.ptr (x.order.stamp x.now)).trades ++
        (F.submit x.ptr (x.order.stamp x.now)).book.tradesAll xs

theorem submitAll_concat (F : PriorityBook) (xs : List Submission) (x : Submission) :
    F.submitAll (xs ++ [x]) = ((F.submitAll xs).submit x.ptr (x.order.stamp x.now)).book := by
  induction xs generalizing F with
  | nil => rfl
  | cons y ys ih => exact ih _

theorem tradesAll_concat (F : PriorityBook) (xs : List Submission) (x : Submission) :
    F.tradesAll (xs ++ [x]) =
      F.tradesAll xs ++ ((F.submitAll xs).submit x.ptr (x.order.stamp x.now)).trades := by
  induction xs generalizing F with
  | nil => simp [tradesAll, submitAll]
  | cons y ys ih => rw [List.cons_append, tradesAll, ih, tradesAll, List.append_assoc, submitAll]

theorem untimed_stamp (o : Order) (now : UInt64) : (o.stamp now).untimed = o.untimed := by
  obtain ⟨t, ht⟩ := o.stamp_eq now
  rw [ht]
  rfl

/-- The run depends on the orders only, not on the objects they are in or on the clock. -/
theorem submitAll_blind {F G : PriorityBook} (hFG : F.blind = G.blind) {xs ys : List Submission}
    (hSame : xs.map (fun x => x.order.untimed) = ys.map fun y => y.order.untimed) :
    (F.submitAll xs).blind = (G.submitAll ys).blind ∧
      (F.tradesAll xs).map Trade.untimed = (G.tradesAll ys).map Trade.untimed := by
  induction xs generalizing F G ys with
  | nil =>
      obtain rfl : ys = [] := List.map_eq_nil_iff.mp hSame.symm
      exact ⟨hFG, rfl⟩
  | cons x xs ih =>
      obtain ⟨y, ys', rfl, hOrder, hRest⟩ := List.map_eq_cons_iff.mp hSame.symm
      have hStep : (F.submit x.ptr (x.order.stamp x.now)).blind =
          (G.submit y.ptr (y.order.stamp y.now)).blind := by
        rw [← submit_blind, ← submit_blind, hFG, untimed_stamp, untimed_stamp, hOrder]
      obtain ⟨hBook, hTrades⟩ := ih (congrArg Outcome.book hStep) hRest.symm
      refine ⟨hBook, ?_⟩
      have hHead : (F.submit x.ptr (x.order.stamp x.now)).trades.map Trade.untimed =
          (G.submit y.ptr (y.order.stamp y.now)).trades.map Trade.untimed :=
        congrArg Outcome.trades hStep
      rw [tradesAll, tradesAll, List.map_append, List.map_append, hHead, hTrades]

/-- Books that are the same up to addresses and timestamps are of the same size. -/
theorem length_all_of_blind {F G : PriorityBook} (h : F.blind = G.blind) :
    F.all.length = G.all.length := by
  have hAll : F.blind.all.length = G.blind.all.length :=
    congrArg (fun B : PriorityBook => B.all.length) h
  rwa [all_blind, all_blind, List.length_map, List.length_map] at hAll

end PriorityBook

/-- The trades of a served stream are those of the priority book. -/
theorem Served.allTrades_eq {stable : OrderPtr → Prop} {F : PriorityBook}
    {entries : Nat → Entry k} {s final : BookState k} {xs : List Submission}
    {calls : List (Call k)} (h : Served stable F entries s xs calls final) :
    Call.allTrades calls = F.tradesAll xs := by
  induction h with
  | nil hR => rfl
  | @cons F entries s final x xs reply calls hR hAdm hPost hRest ih =>
      rw [Call.allTrades, List.flatMap_cons, PriorityBook.tradesAll, ← ih]
      exact congrArg (· ++ _) hPost.trades_eq

/-- Replaying a stream on one thread, on a new book and with the orders in objects of their
own, does what any run of the same orders does. -/
theorem replay_spec {xs ys : List Submission}
    (hSame : xs.map (fun x => x.order.untimed) = ys.map fun y => y.order.untimed)
    (hNumbered : NumberedFrom 0 (ys.map Submission.order))
    (hObjects : (ys.map Submission.ptr).Nodup) (heap : Heap) (buf : TradeRingBuffer k) :
    ∃ calls final, ({ heap := heap, book := {}, buf := buf } : BookState k).serveAll
          (fun _ => .noalloc (.inert k)) ys = some (calls, final) ∧
        (Call.allTrades calls).map Trade.untimed =
          (({} : PriorityBook).tradesAll xs).map Trade.untimed ∧
        final.book.orderCount = (({} : PriorityBook).submitAll xs).all.length := by
  have hAdm : ({} : PriorityBook).AdmitsAll ys := PriorityBook.admitsAll_of_numbered
    PriorityBook.wellFormed_empty (fun r hr => absurd hr List.not_mem_nil) hNumbered hObjects
    fun _ _ => List.not_mem_nil
  have hWrites : ∀ _ : Nat, (Entry.noalloc (.inert k) : Entry k).WritesOnly fun _ => False :=
    fun _ => Deallocator.inert_writesOnly _
  obtain ⟨calls, final, hRun, hServed⟩ := serveAll_served
    (s := { heap := heap, book := {}, buf := buf }) (represents_empty heap) hWrites hAdm
  obtain ⟨hBook, hTrades⟩ := PriorityBook.submitAll_blind (F := {}) rfl hSame
  refine ⟨calls, final, hRun, ?_, ?_⟩
  · rw [hServed.allTrades_eq, hTrades]
  · rw [hServed.represents.orderCount_eq, PriorityBook.length_all_of_blind hBook]

end MatchingMachine
