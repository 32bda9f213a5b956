import MatchingMachine.Baseline.Serial
import MatchingMachine.Pipeline.Outcome

/-!
# The mutex baseline does what one thread does

While the consumer matches an order the producer may be generating the next one.  `Serial` says that
this does not show: the book, and every order that has been given to it, are what serving the
generated orders on one thread leaves (`V1State.serveAll`).  Hence the book never hangs, and the
trades are those of the pipeline for the same draws.

A match is one step of the model, so that no state shows one in progress.  The code's takes many,
between which the producer writes to the order that it generates; but a match reads and writes only
its own order and those that rest (`enter_spec`), which the producer does not touch.
-/

namespace MatchingMachine

namespace MutexMatchingEngine

/-! ## The draws of a run -/

/-- The draws that a step uses. -/
def drawsAt (s : MutexMatchingEngine) : Action → List Draws
  | .producer d _ => if s.producer = .generate then [d] else []
  | _ => []

/-- The draws that a run uses. -/
def drawsUsed (s : MutexMatchingEngine) : List Action → List Draws
  | [] => []
  | a :: as =>
      match s.perform a with
      | none => []
      | some s' => s.drawsAt a ++ s'.drawsUsed as

/-- The orders that the simulator generates from some draws. -/
def generatedFrom (s : MutexMatchingEngine) (ds : List Draws) : List Order :=
  (s.config.simulator.generateRandom ds).1

/-- The consumer has a book. -/
@[simp] def ConsumerPc.hasBook : ConsumerPc → Bool
  | .notStarted | .exited => false
  | _ => true

/-! ## The invariant -/

/-- What serving `xs` on one thread leaves, and what the threads have made of the same orders. -/
structure Agrees (ds : List Draws) (s : MutexMatchingEngine) (xs : List Submission)
    (trades : List Trade) (final : V1State) (b : OrderBook) : Prop where
  objects : xs.map Submission.ptr = s.processed
  orders : xs.map (fun x => x.order.untimed) = (s.generatedFrom ds).take s.processed.length
  book_eq : final.book = b.original
  represents : Represents final.heap b (({} : PriorityBook).submitAll xs)
  trades_eq : trades = ({} : PriorityBook).tradesAll xs
  ids : (({} : PriorityBook).submitAll xs).IdsUpTo s.processed.length
  rests : ∀ q ∈ (({} : PriorityBook).submitAll xs).ptrs, q ∈ s.processed
  contents : ∀ q ∈ s.processed, s.mem.heap q = final.heap q
  sameBook : s.consumer.hasBook = true → s.mem.book = final.book

/-- Nobody sees that there is more than one thread; `heap` is any memory to start from. -/
structure Serial (config : RunConfig) (heap : Heap) (ds : List Draws) (s : MutexMatchingEngine) :
    Prop where
  config_eq : s.config = config
  drawn : ds.length = s.producer.generated s.i
  sim_eq : s.producer ≠ .notStarted → s.sim = (s.config.simulator.generateRandom ds).2
  waiting : ∀ q o, s.processed.length ≤ q → (s.generatedFrom ds)[q]? = some o →
    (s.mem.heap q).untimed = o
  unstuck : ∀ order, s.consumer ≠ .stuck order
  served : ∃ xs trades final b,
    ({ heap := heap, book := {} } : V1State).serveAll xs = some (trades, final) ∧
      s.Agrees ds xs trades final b

variable {config : RunConfig} {heap : Heap} {ds : List Draws} {s s' : MutexMatchingEngine} {n : Nat}

theorem Begins.serial (h : s.Begins) (heap : Heap) : s.Serial s.config heap [] where
  config_eq := rfl
  drawn := by simp [h.producer]
  sim_eq hStarted := absurd h.producer hStarted
  waiting q o _ hOrder := by cases hOrder
  unstuck order := by simp [h.consumer]
  served := ⟨[], [], _, {}, rfl,
    { objects := h.processed.symm
      orders := by simp [h.processed]
      book_eq := rfl
      represents := represents_empty _
      trades_eq := rfl
      ids := fun r hr => absurd hr List.not_mem_nil
      rests := fun q hq => absurd hq List.not_mem_nil
      contents := by simp [h.processed]
      sameBook := by simp [h.consumer] }⟩

/-! ## Steps that do not touch the orders -/

/-- A step that generates no order, stamps none and matches none. -/
structure Untouched (s s' : MutexMatchingEngine) : Prop where
  config_eq : s'.config = s.config
  mem_eq : s'.mem = s.mem
  processed_eq : s'.processed = s.processed
  sim_eq : s'.sim = s.sim
  generated_eq : s'.producer.generated s'.i = s.producer.generated s.i
  started : s'.producer ≠ .notStarted → s.producer ≠ .notStarted
  unstuck : ∀ order, s'.consumer = .stuck order → s.consumer = .stuck order
  hasBook : s'.consumer.hasBook = true → s.consumer.hasBook = true

theorem Serial.untouched (h : s.Serial config heap ds) (hSame : s.Untouched s') : s'.Serial config heap ds := by
  have hStream : s'.generatedFrom ds = s.generatedFrom ds := by
    rw [generatedFrom, hSame.config_eq]
    rfl
  obtain ⟨xs, trades, final, b, hRun, hAgrees⟩ := h.served
  exact
    { config_eq := hSame.config_eq.trans h.config_eq
      drawn := h.drawn.trans hSame.generated_eq.symm
      sim_eq := fun hStarted => by
        rw [hSame.sim_eq, hSame.config_eq]
        exact h.sim_eq (hSame.started hStarted)
      waiting := fun q o hq hOrder => by
        rw [hSame.processed_eq] at hq
        rw [hStream] at hOrder
        rw [hSame.mem_eq]
        exact h.waiting q o hq hOrder
      unstuck := fun order hStuck => h.unstuck order (hSame.unstuck order hStuck)
      served := ⟨xs, trades, final, b, hRun,
        { hAgrees with
          objects := hAgrees.objects.trans hSame.processed_eq.symm
          orders := by
            rw [hStream, hSame.processed_eq]
            exact hAgrees.orders
          ids := hSame.processed_eq ▸ hAgrees.ids
          rests := hSame.processed_eq ▸ hAgrees.rests
          contents := fun q hq => by
            rw [hSame.mem_eq]
            exact hAgrees.contents q (hSame.processed_eq ▸ hq)
          sameBook := fun hBook => by
            rw [hSame.mem_eq]
            exact hAgrees.sameBook (hSame.hasBook hBook) }⟩ }

theorem untouched_notify (s : MutexMatchingEngine) : s.Untouched s.notify := by
  unfold MutexMatchingEngine.notify
  split
  case isTrue hBlocked => constructor <;> simp [hBlocked]
  case isFalse => constructor <;> simp

/-! ## The starter -/

/-- Before the threads are created no order has been generated. -/
theorem Serial.nothing (h : s.Serial config heap ds) (hProducer : s.producer = .notStarted) : ds = [] := by
  have hDrawn := h.drawn
  rw [hProducer] at hDrawn
  exact List.length_eq_zero_iff.mp hDrawn

/-- A new book. -/
theorem Serial.createConsumer (hInv : s.Inv n) (h : s.Serial config heap ds)
    (hPc : s.starter = .createConsumer) (thread : PinnedThread) :
    Serial config heap ds { s with
      consumerThread := thread, consumer := .lock, mem := { s.mem with book := {} }
      starter := .createProducer } := by
  obtain ⟨-, -, hProcessed⟩ := hInv.nobody (by rw [hPc]; rfl)
  obtain ⟨xs, trades, final, b, hRun, hAgrees⟩ := h.served
  have hNone : xs = [] := by
    have hObjects := hAgrees.objects
    rw [hProcessed] at hObjects
    exact List.map_eq_nil_iff.mp hObjects
  subst hNone
  obtain ⟨-, rfl⟩ := Prod.mk.inj (Option.some.inj hRun)
  exact { h with
    unstuck := by simp
    served := ⟨[], trades, _, b, hRun, { hAgrees with sameBook := fun _ => rfl }⟩ }

theorem Serial.createProducer (hInv : s.Inv n) (h : s.Serial config heap ds)
    (hPc : s.starter = .createProducer) (thread : PinnedThread) :
    Serial config heap ds { s with
      producerThread := thread, producer := .loop, i := 0
      sim := { symbol := s.config.symbol, basePrice := s.config.basePrice }
      starter := .joinProducer } := by
  have hProducer : s.producer = .notStarted := by
    by_contra hNot
    have hLate := hInv.late hNot
    rw [hPc] at hLate
    cases hLate
  obtain rfl := h.nothing hProducer
  obtain ⟨xs, trades, final, b, hRun, hAgrees⟩ := h.served
  exact { h with
    drawn := rfl
    sim_eq := fun _ => rfl
    served := ⟨xs, trades, final, b, hRun, { hAgrees with }⟩ }

theorem Serial.starterStep (hInv : s.Inv n) (h : s.Serial config heap ds) {created : Option ThreadId}
    (hStep : s.starterStep created = some s') : s'.Serial config heap ds := by
  unfold MutexMatchingEngine.starterStep at hStep
  split at hStep
  case h_2 | h_8 =>
    obtain ⟨s₁, hAcquire, hStep⟩ := Option.bind_eq_some_iff.mp hStep
    obtain ⟨-, rfl⟩ := acquire_eq hAcquire
    obtain rfl := Option.some.inj hStep
    exact h.untouched (by constructor <;> simp)
  -- the first thread starts on an empty book
  case h_6 hPc =>
    split at hStep
    case h_1 =>
      obtain rfl := Option.some.inj hStep
      exact h.untouched (by constructor <;> simp)
    case h_2 id =>
      obtain ⟨t, -, hStep⟩ := Option.bind_eq_some_iff.mp hStep
      obtain rfl := Option.some.inj hStep
      exact h.createConsumer hInv hPc t
  -- the second thread starts with a simulator of its own
  case h_7 hPc =>
    split at hStep
    case h_1 =>
      obtain rfl := Option.some.inj hStep
      exact h.untouched (by constructor <;> simp)
    case h_2 id =>
      obtain ⟨t, -, hStep⟩ := Option.bind_eq_some_iff.mp hStep
      obtain rfl := Option.some.inj hStep
      exact h.createProducer hInv hPc t
  case h_11 =>
    obtain rfl := Option.some.inj hStep
    exact (h.untouched (untouched_notify s)).untouched (by constructor <;> simp)
  case h_12 | h_13 | h_14 =>
    split at hStep
    case isTrue =>
      split at hStep
      case isTrue =>
        obtain rfl := Option.some.inj hStep
        exact h.untouched (by constructor <;> simp)
      case isFalse => cases hStep
    case isFalse =>
      obtain rfl := Option.some.inj hStep
      exact h.untouched (by constructor <;> simp)
  case h_15 | h_16 => cases hStep
  all_goals
    obtain rfl := Option.some.inj hStep
    exact h.untouched (by constructor <;> simp [release])

/-! ## The producer -/

/-- The orders that have been processed are the first ones. -/
theorem Inv.processed_range (h : s.Inv n) : s.processed = List.range s.processed.length ∧
    s.processed.length ≤ s.producer.generated s.i := by
  by_cases hStarted : s.consumer = .notStarted
  · obtain ⟨hProducer, hProcessed⟩ := h.unstarted hStarted
    simp [hProcessed]
  · have hStream := h.stream hStarted
    rw [List.append_assoc, List.append_assoc] at hStream
    have hLength := congrArg List.length hStream
    rw [List.length_append, List.length_range] at hLength
    have hTake := congrArg (List.take s.processed.length) hStream
    rw [List.take_left, List.take_range] at hTake
    have hLe : s.processed.length ≤ s.producer.generated s.i := by omega
    rw [Nat.min_eq_left hLe] at hTake
    exact ⟨hTake, hLe⟩

theorem Inv.lt_of_processed (h : s.Inv n) {q : OrderPtr} (hq : q ∈ s.processed) :
    q < s.processed.length := by
  rw [h.processed_range.1] at hq
  exact List.mem_range.mp hq

/-- The next order of the stream, in a new object. -/
theorem Serial.generate (hInv : s.Inv n) (h : s.Serial config heap ds) (hPc : s.producer = .generate)
    (d : Draws) : Serial config heap (ds ++ [d]) { s.generateOrder d with producer := .stamp s.i } := by
  have hDrawn := h.drawn
  have hSim := h.sim_eq (by simp [hPc])
  obtain ⟨-, hLe⟩ := hInv.processed_range
  rw [hPc] at hDrawn hLe
  simp only [ProducerPc.generated] at hDrawn hLe
  have hHeap : (s.generateOrder d).mem.heap =
      s.mem.heap.modify s.i fun _ => (s.sim.nextOrder d).1 := rfl
  -- one more draw gives one more order and leaves the earlier ones as they were
  have hStream : s.generatedFrom (ds ++ [d]) = s.generatedFrom ds ++ [(s.sim.nextOrder d).1] := by
    rw [generatedFrom, FeedSimulator.generateRandom_concat, hSim]
    rfl
  -- the producer fills slot i with order i, so the stream is as long as i
  have hCount : (s.generatedFrom ds).length = s.i := by
    have hLess := s.config.orderCount_lt
    have hRound := hInv.round
    rw [hPc] at hRound
    simp only [ProducerPc.RoundAt] at hRound
    have hAfter : s.config.simulator.After 0 := rfl
    exact (FeedSimulator.generateRandom_spec hAfter (by omega)).2.2.1.trans hDrawn
  obtain ⟨xs, trades, final, b, hRun, hAgrees⟩ := h.served
  exact
    { config_eq := h.config_eq
      drawn := by
        rw [List.length_append, hDrawn]
        rfl
      sim_eq := fun _ => by
        show (s.sim.nextOrder d).2 = (s.config.simulator.generateRandom (ds ++ [d])).2
        rw [FeedSimulator.generateRandom_concat, hSim]
      waiting := fun q o hq hOrder => by
        show ((s.generateOrder d).mem.heap q).untimed = o
        change (s.generatedFrom (ds ++ [d]))[q]? = some o at hOrder
        rw [hStream] at hOrder
        rw [hHeap]
        by_cases hNew : q = s.i
        · subst hNew
          rw [Heap.modify_same, FeedSimulator.untimed_nextOrder]
          rw [List.getElem?_append_right hCount.le, hCount, Nat.sub_self] at hOrder
          exact Option.some.inj hOrder
        · rw [Heap.modify_of_ne hNew]
          refine h.waiting q o hq ?_
          by_cases hOld : q < s.i
          · rwa [List.getElem?_append_left (by omega)] at hOrder
          · rw [List.getElem?_eq_none (by simp; omega)] at hOrder
            cases hOrder
      unstuck := h.unstuck
      served := ⟨xs, trades, final, b, hRun,
        { hAgrees with
          orders := by
            show _ = (s.generatedFrom (ds ++ [d])).take s.processed.length
            rw [hStream, List.take_append_of_le_length (hLe.trans hCount.ge)]
            exact hAgrees.orders
          contents := fun q hq => by
            show (s.generateOrder d).mem.heap q = final.heap q
            have hOld := hInv.lt_of_processed hq
            rw [hHeap, Heap.modify_of_ne (Nat.ne_of_lt (hOld.trans_le hLe))]
            exact hAgrees.contents q hq }⟩ }

/-- The timestamp of an order that has not been processed. -/
theorem Serial.stamp (hInv : s.Inv n) (h : s.Serial config heap ds) {order : OrderPtr}
    (hPc : s.producer = .stamp order) (now : UInt64) :
    Serial config heap ds { s.stampOrder order now with producer := .lock order } := by
  have hStarted := hInv.started (by simp [hPc])
  have hNew : order ∉ s.processed := by
    intro hOrder
    have hStream := hInv.stream hStarted
    have hNodup := List.nodup_range (n := s.producer.generated s.i)
    rw [← hStream, List.append_assoc, List.append_assoc] at hNodup
    exact List.disjoint_of_nodup_append hNodup hOrder (by simp [hPc])
  have hHeap : (s.stampOrder order now).mem.heap =
      s.mem.heap.modify order fun o => { o with timestampNs := now } := rfl
  obtain ⟨xs, trades, final, b, hRun, hAgrees⟩ := h.served
  exact
    { config_eq := h.config_eq
      drawn := by
        have hDrawn := h.drawn
        rw [hPc] at hDrawn
        exact hDrawn
      sim_eq := fun _ => h.sim_eq (by simp [hPc])
      waiting := fun q o hq hOrder => by
        show ((s.stampOrder order now).mem.heap q).untimed = o
        rw [hHeap]
        by_cases hSame : q = order
        · subst hSame
          rw [Heap.modify_same]
          exact h.waiting q o hq hOrder
        · rw [Heap.modify_of_ne hSame]
          exact h.waiting q o hq hOrder
      unstuck := h.unstuck
      served := ⟨xs, trades, final, b, hRun,
        { hAgrees with
          contents := fun q hq => by
            show (s.stampOrder order now).mem.heap q = final.heap q
            rw [hHeap, Heap.modify_of_ne (ne_of_mem_of_not_mem hq hNew)]
            exact hAgrees.contents q hq }⟩ }

theorem Serial.producerStep (hInv : s.Inv n) (h : s.Serial config heap ds) {d : Draws} {now : UInt64}
    (hStep : s.producerStep d now = some s') :
    s'.Serial config heap (ds ++ s.drawsAt (.producer d now)) := by
  have hNone : s.producer ≠ .generate → s.drawsAt (.producer d now) = [] := fun hNot => if_neg hNot
  unfold MutexMatchingEngine.producerStep at hStep
  split at hStep
  case h_1 | h_13 => cases hStep
  case h_3 hPc =>
    obtain rfl := Option.some.inj hStep
    rw [show s.drawsAt (.producer d now) = [d] from if_pos hPc]
    exact h.generate hInv hPc d
  all_goals
    rename_i hPc
    rw [hNone (by simp [hPc]), List.append_nil]
  case h_4 order hPc =>
    obtain rfl := Option.some.inj hStep
    exact h.stamp hInv hPc now
  case h_5 | h_9 =>
    obtain ⟨s₁, hAcquire, hStep⟩ := Option.bind_eq_some_iff.mp hStep
    obtain ⟨-, rfl⟩ := acquire_eq hAcquire
    obtain rfl := Option.some.inj hStep
    exact h.untouched (by constructor <;> simp [hPc])
  case h_8 | h_12 =>
    obtain rfl := Option.some.inj hStep
    exact (h.untouched (untouched_notify s)).untouched (by constructor <;> simp [hPc])
  case h_2 =>
    obtain rfl := Option.some.inj hStep
    refine h.untouched ?_
    split <;> constructor <;> simp [hPc]
  all_goals
    obtain rfl := Option.some.inj hStep
    exact h.untouched (by constructor <;> simp [hPc, release])

/-! ## The consumer -/

/-- The order that the consumer has popped is the first one that is not processed. -/
theorem Inv.order_eq (h : s.Inv n) {order : OrderPtr} (hPc : s.consumer = .process order) :
    order = s.processed.length ∧ s.processed.length < s.producer.generated s.i := by
  have hStream := h.stream (by simp [hPc])
  simp only [hPc, ConsumerPc.inHand, List.append_assoc, List.cons_append, List.nil_append] at hStream
  have hLength := congrArg List.length hStream
  rw [List.length_append, List.length_cons, List.length_range] at hLength
  have hLess : s.processed.length < s.producer.generated s.i := by omega
  have hGet := congrArg (fun l : List OrderPtr => l[s.processed.length]?) hStream
  simp only [List.getElem?_append_right le_rfl, Nat.sub_self, List.getElem?_cons_zero,
    List.getElem?_range hLess] at hGet
  exact ⟨Option.some.inj hGet, hLess⟩

/-- The number of orders that have been generated is one of 64 bits. -/
theorem Inv.drawn_lt (h : s.Inv n) (hDrawn : ds.length = s.producer.generated s.i) :
    ds.length < 2 ^ 64 := by
  have hLimit := s.config.orderCount_lt
  have hRound := h.round
  cases hPc : s.producer <;>
    simp only [hPc, ProducerPc.RoundAt, ProducerPc.generated] at hRound hDrawn <;> omega

/-- It is the next one of the stream. -/
theorem Serial.next (hInv : s.Inv n) (h : s.Serial config heap ds) {order : OrderPtr}
    (hPc : s.consumer = .process order) :
    (s.generatedFrom ds)[s.processed.length]? = some (s.mem.heap order).untimed ∧
      Numbered s.processed.length (s.mem.heap order) := by
  obtain ⟨hOrder, hLess⟩ := hInv.order_eq hPc
  have hBound := hInv.drawn_lt h.drawn
  have hAfter : s.config.simulator.After 0 := rfl
  obtain ⟨hNumbered, -, hLength, -⟩ := FeedSimulator.generateRandom_spec hAfter
    (show 0 + ds.length < 2 ^ 64 by omega)
  have hIn : s.processed.length < (s.generatedFrom ds).length := by
    rw [generatedFrom, hLength, h.drawn]
    exact hLess
  have hNext : (s.generatedFrom ds)[s.processed.length]? = some (s.mem.heap order).untimed := by
    rw [List.getElem?_eq_getElem hIn, hOrder]
    exact congrArg some
      (h.waiting s.processed.length _ le_rfl (List.getElem?_eq_getElem hIn)).symm
  have hNumber := hNumbered s.processed.length _ hNext
  rw [Nat.zero_add] at hNumber
  exact ⟨hNext, Numbered.untimed_iff.mp hNumber⟩

/-- A call of the book ends, and does what it does on one thread. -/
theorem Serial.process (hInv : s.Inv n) (h : s.Serial config heap ds) {order : OrderPtr}
    (hPc : s.consumer = .process order) (tPop now tDone : UInt64) :
    (s.processOrder order tPop now tDone).Serial config heap ds := by
  obtain ⟨hOrder, -⟩ := hInv.order_eq hPc
  obtain ⟨hNext, hNumber⟩ := h.next hInv hPc
  obtain ⟨xs, trades, final, b, hRun, hAgrees⟩ := h.served
  -- every resting object was processed before, and this one is next
  have hFresh : order ∉ (({} : PriorityBook).submitAll xs).ptrs := fun hMem =>
    absurd (hInv.lt_of_processed (hAgrees.rests order hMem)) (by rw [hOrder]; exact lt_irrefl _)
  let x : Submission := { ptr := order, order := s.mem.heap order, now := now }
  have hPlaced : (final.place order (s.mem.heap order)).heap order = s.mem.heap order :=
    Heap.modify_same final.heap order fun _ => s.mem.heap order
  have hOther : ∀ q, q ≠ order → (final.place order (s.mem.heap order)).heap q = final.heap q :=
    fun q hq => Heap.modify_of_ne hq final.heap fun _ => s.mem.heap order
  have hRep : Represents (final.place order (s.mem.heap order)).heap b
      (({} : PriorityBook).submitAll xs) :=
    hAgrees.represents.congr_heap fun q hq => hOther q (ne_of_mem_of_not_mem hq hFresh)
  have hAdmits := PriorityBook.admissible_of_numbered hAgrees.ids hFresh hNumber now
  rw [← hPlaced] at hAdmits
  -- the call does the same from both heaps: they agree on what it can reach
  obtain ⟨h', b', hRep', hCall⟩ := enter_spec hRep hAdmits
  rw [hPlaced] at hRep' hCall
  obtain ⟨final', hEnter, hBook', hIn, hOut, hTrades⟩ :=
    hCall (final.place order (s.mem.heap order)) hAgrees.book_eq fun q _ => rfl
  obtain ⟨mem, hMatch, hMemBook, hMemIn, hMemOut, -⟩ :=
    hCall s.mem ((hAgrees.sameBook (by simp [hPc])).trans hAgrees.book_eq) (by
      rintro q (rfl | hq)
      · exact hPlaced.symm
      · rw [hOther q (ne_of_mem_of_not_mem hq hFresh)]
        exact hAgrees.contents q (hAgrees.rests q hq))
  have hStep : s.processOrder order tPop now tDone = { s with
      mem := mem
      queueLatency :=
        if s.config.recordLatency then s.queueLatency ++ [tPop - (s.mem.heap order).timestampNs]
        else s.queueLatency
      serviceLatency :=
        if s.config.recordLatency then s.serviceLatency ++ [tDone - tPop] else s.serviceLatency
      alive := s.alive ++ [order]
      processed := s.processed ++ [order]
      consumer := .lock } := by
    have hMatch' : s.matchOrder order now = some mem := hMatch
    rw [processOrder, hMatch']
  rw [hStep]
  have hSubmit := PriorityBook.submitAll_concat {} xs x
  have hWF := hAgrees.represents.wellFormed
  exact
    { config_eq := h.config_eq
      drawn := h.drawn
      sim_eq := h.sim_eq
      waiting := fun q o hq hStream => by
        show (mem.heap q).untimed = o
        simp only [List.length_append, List.length_singleton] at hq
        have hLater : ¬ Touched (({} : PriorityBook).submitAll xs) order q := by
          rintro (rfl | hMem)
          · rw [← hOrder] at hq
            exact absurd hq (Nat.not_succ_le_self _)
          · have hOld := hInv.lt_of_processed (hAgrees.rests q hMem)
            exact absurd (hOld.trans_le (Nat.le_of_succ_le hq)) (Nat.lt_irrefl q)
        rw [hMemOut q hLater]
        exact h.waiting q o (Nat.le_of_succ_le hq) hStream
      unstuck := by simp
      served := ⟨xs ++ [x], trades ++ final'.tradesOf (s.mem.heap order).type, final', b',
        V1State.serveAll_concat hRun x hEnter,
        { objects := by
            rw [List.map_append, hAgrees.objects]
            rfl
          orders := by
            show _ = (s.generatedFrom ds).take (s.processed ++ [order]).length
            rw [List.map_append, hAgrees.orders, List.length_append, List.length_singleton,
              List.take_add_one, hNext]
            rfl
          book_eq := hBook'
          represents := by
            rw [hSubmit]
            exact hRep'.congr_heap fun q hq =>
              hIn q (PriorityBook.mem_ptrs_submit hWF hq)
          trades_eq := by
            rw [PriorityBook.tradesAll_concat, hTrades, hAgrees.trades_eq]
          ids := by
            rw [hSubmit, List.length_append, List.length_singleton]
            exact PriorityBook.idsUpTo_submit hWF hAgrees.ids hNumber order now
          rests := fun q hq => by
            rw [hSubmit] at hq
            rcases PriorityBook.mem_ptrs_submit hWF hq with rfl | hOld
            · exact List.mem_append_right _ (List.mem_singleton_self _)
            · exact List.mem_append_left _ (hAgrees.rests q hOld)
          contents := fun q hq => by
            show mem.heap q = final'.heap q
            by_cases hTouched : Touched (({} : PriorityBook).submitAll xs) order q
            · rw [hMemIn q hTouched, hIn q hTouched]
            · have hNe : q ≠ order := fun hSame => hTouched (Or.inl hSame)
              have hOld : q ∈ s.processed := by simpa [hNe] using hq
              rw [hMemOut q hTouched, hOut q hTouched, hOther q hNe]
              exact hAgrees.contents q hOld
          sameBook := fun _ => hMemBook.trans hBook'.symm }⟩ }

theorem Serial.consumerStep (hInv : s.Inv n) (h : s.Serial config heap ds) {tPop now tDone : UInt64}
    (hStep : s.consumerStep tPop now tDone = some s') : s'.Serial config heap ds := by
  unfold MutexMatchingEngine.consumerStep at hStep
  split at hStep
  case h_1 | h_6 | h_12 | h_14 => cases hStep
  case h_2 hPc | h_7 hPc =>
    obtain ⟨s₁, hAcquire, hStep⟩ := Option.bind_eq_some_iff.mp hStep
    obtain ⟨-, rfl⟩ := acquire_eq hAcquire
    obtain rfl := Option.some.inj hStep
    exact h.untouched (by constructor <;> simp [hPc])
  case h_3 hPc | h_4 hPc =>
    obtain rfl := Option.some.inj hStep
    refine h.untouched ?_
    split <;> constructor <;> simp [hPc]
  case h_8 hPc =>
    split at hStep
    all_goals
      obtain rfl := Option.some.inj hStep
      exact h.untouched (by constructor <;> simp [hPc])
  case h_11 order hPc =>
    obtain rfl := Option.some.inj hStep
    exact h.process hInv hPc tPop now tDone
  case h_13 hPc =>
    -- the book is cleared, and the orders are left alone
    obtain rfl := Option.some.inj hStep
    obtain ⟨xs, trades, final, b, hRun, hAgrees⟩ := h.served
    exact { h with
      unstuck := by simp
      served := ⟨xs, trades, final, b, hRun, { hAgrees with sameBook := by simp }⟩ }
  all_goals
    rename_i hPc
    obtain rfl := Option.some.inj hStep
    exact h.untouched (by constructor <;> simp [hPc, release])

/-! ## Runs -/

theorem Serial.perform (hInv : s.Inv n) (h : s.Serial config heap ds) {a : Action}
    (hStep : s.perform a = some s') : s'.Serial config heap (ds ++ s.drawsAt a) := by
  cases a with
  | starter created =>
      rw [show s.drawsAt (.starter created) = [] from rfl, List.append_nil]
      exact h.starterStep hInv hStep
  | producer d now => exact h.producerStep hInv hStep
  | consumer tPop now tDone =>
      rw [show s.drawsAt (.consumer tPop now tDone) = [] from rfl, List.append_nil]
      exact h.consumerStep hInv hStep
  | wake =>
      rw [show s.drawsAt .wake = [] from rfl, List.append_nil]
      rw [MutexMatchingEngine.perform] at hStep
      split at hStep
      case isTrue hBlocked =>
        obtain rfl := Option.some.inj hStep
        exact h.untouched (by constructor <;> simp [hBlocked])
      case isFalse => cases hStep

theorem Serial.performAll (hInv : s.Inv n) (h : s.Serial config heap ds) {actions : List Action}
    (hRun : s.performAll actions = some s') : s'.Serial config heap (ds ++ s.drawsUsed actions) := by
  induction actions generalizing s ds with
  | nil =>
      obtain rfl := Option.some.inj hRun
      rw [drawsUsed, List.append_nil]
      exact h
  | cons a actions ih =>
      obtain ⟨s₁, hStep, hRun⟩ := Option.bind_eq_some_iff.mp hRun
      have hNext := ih (hInv.perform hStep) (h.perform hInv hStep) hRun
      rw [drawsUsed, hStep]
      rwa [List.append_assoc] at hNext

/-- In every state of a run the orders that the consumer has been given are what matching them one
after the other on one thread leaves, and as long as it has a book, so is the book; no call of the
book hangs.  The orders are those that the simulator generates from the draws, in this order. -/
theorem worksAsOneThread (hBegins : s.Begins) {actions : List Action}
    (hRun : s.performAll actions = some s') (heap : Heap) :
    (∀ order, s'.consumer ≠ .stuck order) ∧
      ∃ xs trades final,
        ({ heap := heap, book := {} } : V1State).serveAll xs = some (trades, final) ∧
          xs.map Submission.ptr = s'.processed ∧
          xs.map (fun x => x.order.untimed) =
            (s.generatedFrom (s.drawsUsed actions)).take s'.processed.length ∧
          (∀ order ∈ s'.processed, s'.mem.heap order = final.heap order) ∧
          (s'.consumer.hasBook = true → s'.mem.book = final.book) := by
  have h := (hBegins.serial heap).performAll hBegins.inv hRun
  rw [List.nil_append] at h
  obtain ⟨xs, trades, final, b, hServe, hAgrees⟩ := h.served
  have hOrders := hAgrees.orders
  rw [generatedFrom, h.config_eq] at hOrders
  exact ⟨h.unstuck, xs, trades, final, hServe, hAgrees.objects, hOrders, hAgrees.contents,
    hAgrees.sameBook⟩

/-- Before the consumer clears its book: the sell order is filled, and the buy order, which traded with
it, cancelled. -/
theorem worksAsOneThread_three_orders :
    ∃ s', threeOrders.performAll (threeOrdersRun.take 57) = some s' ∧
      s'.processed = [0, 1, 2] ∧
      ∃ xs trades final,
        ({ heap := fun _ => {}, book := {} } : V1State).serveAll xs = some (trades, final) ∧
          xs.map Submission.ptr = [0, 1, 2] ∧ (final.heap 0).status = .FILLED ∧
          (final.heap 1).filledQty = 3 ∧ (final.heap 1).status = .CANCELLED ∧
          s'.mem.book = final.book := by
  have hBegins : threeOrders.Begins := ⟨rfl, rfl, rfl, rfl, rfl, rfl, rfl⟩
  have hEnd : (threeOrders.performAll (threeOrdersRun.take 57)).any (fun s' =>
      decide (s'.consumer = .clear ∧ s'.processed = [0, 1, 2] ∧
        (s'.mem.heap 0).status = .FILLED ∧ (s'.mem.heap 1).filledQty = 3 ∧
        (s'.mem.heap 1).status = .CANCELLED)) = true := by
    decide +kernel
  rw [Option.any_eq_true] at hEnd
  obtain ⟨s', hRun, hSeen⟩ := hEnd
  obtain ⟨hPc, hProcessed, hFilled, hPart, hCancelled⟩ := of_decide_eq_true hSeen
  obtain ⟨-, xs, trades, final, hServe, hObjects, -, hContents, hBook⟩ :=
    worksAsOneThread hBegins hRun fun _ => {}
  have hFirst := hContents 0 (by simp [hProcessed])
  have hSecond := hContents 1 (by simp [hProcessed])
  exact ⟨s', hRun, hProcessed, xs, trades, final, hServe, hObjects.trans hProcessed,
    hFirst ▸ hFilled, hSecond ▸ hPart, hSecond ▸ hCancelled, hBook (by rw [hPc]; rfl)⟩

/-! ## The baseline and the pipeline -/

/-- When both threads have ended, the whole stream has been processed. -/
theorem Inv.processed_of_exited (h : s.Inv n) (hExited : s.exited) :
    s.processed.length = s.producer.generated s.i := by
  rw [h.processed_eq hExited, produced, List.length_range]

/-- The mutex baseline and the pipeline do the same.  If a run of each has ended and both simulators
were given the same symbol, base price and draws, then there is one sequence of calls, made by one
thread on the original book, that leaves every order of the baseline as it is, whose orders are
those that the pipeline has processed, whose trades are those that the pipeline has written, and
after which as many orders rest as the pipeline's pool misses. -/
theorem agreesWithPipeline (hBegins : s.Begins) {actions : List Action}
    (hRun : s.performAll actions = some s') (hExited : s'.exited) {cap : Nat} (hPos : 0 < cap)
    (hLt : cap < 2 ^ 64) {e : MatchingEngine} (hIdle : Idle cap e) {config : RunConfig}
    {consumer producer : ThreadId} {p₀ p : Pipeline} {steps : List PipelineAction}
    (hStart : e.start config (some consumer) (some producer) = .started p₀)
    (hRun' : p₀.performAll steps = some p) (hExited' : p.exited = true)
    (hSame : config.simulator = s.config.simulator) (hDraws : p.draws = s.drawsUsed actions)
    (heap : Heap) :
    ∃ xs trades final,
      ({ heap := heap, book := {} } : V1State).serveAll xs = some (trades, final) ∧
        xs.map Submission.ptr = s'.processed ∧
        (∀ order ∈ s'.processed, s'.mem.heap order = final.heap order) ∧
        xs.map (fun x => x.order.untimed) = p.processed.map (fun x => x.order.untimed) ∧
        trades.map Trade.untimed = p.written.map Trade.untimed ∧
        final.book.orderCount + p.pool.available = cap := by
  have hInv := hBegins.inv.performAll hRun
  have h := (hBegins.serial heap).performAll hBegins.inv hRun
  rw [List.nil_append] at h
  obtain ⟨h', -⟩ := hIdle.inv hPos hLt hStart hRun'
  obtain ⟨xs, trades, final, b, hServe, hAgrees⟩ := h.served
  have hWhole : (s'.generatedFrom (s.drawsUsed actions)).take s'.processed.length =
      s'.generatedFrom (s.drawsUsed actions) := by
    have hBound := hInv.drawn_lt h.drawn
    have hAfter : s'.config.simulator.After 0 := rfl
    obtain ⟨-, -, hLength, -⟩ := FeedSimulator.generateRandom_spec hAfter
      (show 0 + (s.drawsUsed actions).length < 2 ^ 64 by omega)
    refine List.take_of_length_le ?_
    rw [generatedFrom, hLength, hInv.processed_of_exited hExited]
    exact h.drawn.le
  -- both engines have processed the whole stream, and it is the same one
  have hOrders : xs.map (fun x => x.order.untimed) = p.processed.map fun x => x.order.untimed := by
    obtain ⟨-, hProcessed, -⟩ := h'.exited_spec hExited'
    rw [hAgrees.orders, hWhole, hProcessed, hDraws, hSame, generatedFrom, h.config_eq]
  -- time stamps and objects do not matter to who trades with whom
  obtain ⟨hBook, hTrades⟩ := PriorityBook.submitAll_blind rfl hOrders
  refine ⟨xs, trades, final, hServe, hAgrees.objects, hAgrees.contents, hOrders, ?_, ?_⟩
  · rw [hAgrees.trades_eq, h'.written_eq]
    exact hTrades
  · have hSize : final.book.orderCount = p.bookOf.all.length := by
      rw [hAgrees.book_eq]
      exact hAgrees.represents.orderCount_eq.trans (PriorityBook.length_all_of_blind hBook)
    have hAvailable := h'.available_eq hExited'
    omega

/-- A run of the baseline that is given the draws of the crossing run. -/
def crossingBaseline : MutexMatchingEngine where
  config := crossingConfig
  sharedQueue := []
  producerDone := false
  running := false
  mem := { heap := fun _ => {}, book := {} }
  sim := crossingConfig.simulator

/-- The producer generates both orders before the consumer gets the lock. -/
def crossingBaselineRun : List Action :=
  let starter : Action := .starter (some ⟨1, Nat.one_ne_zero⟩)
  List.replicate 7 starter ++ List.replicate 7 (.producer { buy := true } 7) ++
    List.replicate 12 (.producer {} 7) ++ List.replicate 16 (.consumer 9 9 9) ++
      [starter, starter]

theorem agreesWithPipeline_crossing :
    ∃ s' p, crossingBaseline.performAll crossingBaselineRun = some s' ∧
      crossingStart.performAll crossingActions = some p ∧
      ∃ xs trades final,
        ({ heap := fun _ => {}, book := {} } : V1State).serveAll xs = some (trades, final) ∧
          xs.map Submission.ptr = s'.processed ∧
          (∀ order ∈ s'.processed, s'.mem.heap order = final.heap order) ∧
          xs.map (fun x => x.order.untimed) = p.processed.map (fun x => x.order.untimed) ∧
          trades.map Trade.untimed = p.written.map Trade.untimed ∧
          final.book.orderCount + p.pool.available = 2 := by
  have hBegins : crossingBaseline.Begins := ⟨rfl, rfl, rfl, rfl, rfl, rfl, rfl⟩
  have hEnd : (crossingBaseline.performAll crossingBaselineRun).any (fun s' =>
      decide (s'.producer = .exited ∧ s'.consumer = .exited)) = true := by
    decide +kernel
  rw [Option.any_eq_true] at hEnd
  obtain ⟨s', hRun, hPcs⟩ := hEnd
  obtain ⟨hProducer, hConsumer⟩ := of_decide_eq_true hPcs
  have hDraws : (crossingStart.performAll crossingActions).map (fun p => (p.exited, p.draws)) =
      some (true, crossingBaseline.drawsUsed crossingBaselineRun) := by
    decide +kernel
  obtain ⟨p, hRun', hPair⟩ := Option.map_eq_some_iff.mp hDraws
  exact ⟨s', p, hRun, hRun', agreesWithPipeline hBegins hRun ⟨.inl hProducer, hConsumer⟩ (by decide)
    (by decide) .new rfl hRun' (congrArg Prod.fst hPair) rfl (congrArg Prod.snd hPair) _⟩

end MutexMatchingEngine

end MatchingMachine
