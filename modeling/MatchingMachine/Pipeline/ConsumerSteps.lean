import MatchingMachine.Pipeline.ProducerSteps

/-!
# The consumer keeps the invariant

One lemma for each step of `consumer_loop`.  The two steps that run the book, `addOrder` and
`resume`, take one stretch of a call: `Carries.advance` says where it leads, `advance` that the
invariant holds there.  The stretch writes to slots the consumer holds only, so what is on its
way stays as it was generated.
-/

namespace MatchingMachine

open Interaction (wp within lastCall)

/-! ## One stretch of a call -/

section Stretch

variable {F : PriorityBook} {x : Submission} {buf : TradeRingBuffer kTradeBufBits}
  {log : List OrderPtr} {s : BookState kTradeBufBits}

/-- During a call the own order is not in the book. -/
theorem outside_of_slots {ret : OrderPtr} (hFresh : x.ptr ∉ F.ptrs)
    (hSlots : (log ++ inHand x.ptr ret ++ s.book.livePtrs).Perm (x.ptr :: F.ptrs)) :
    BookState.Outside x.ptr s := by
  have hCount := List.perm_iff_count.mp hSlots x.ptr
  have hZero := List.count_eq_zero.mpr hFresh
  have hHand : x.ptr ∈ inHand x.ptr ret := by
    unfold inHand
    split
    · rename_i hEq
      exact List.mem_singleton.mpr hEq.symm
    · simp
  have hPos := List.count_pos_iff.mpr hHand
  rw [List.count_append, List.count_append, List.count_cons_self, hZero] at hCount
  exact List.count_eq_zero.mp (by omega)

/-- A call goes on to its end or to its next call of the deallocator. -/
theorem Carries.advance {program : BookState.BookProgram kTradeBufBits (BookState kTradeBufBits)}
    (h : Carries F x buf log s program) (hF : F.WellFormed) (hFresh : x.ptr ∉ F.ptrs) :
    (∃ t, program = .ret t ∧ Confined x.ptr s t ∧ CallDone F x buf log t ∧
      (log ++ t.book.livePtrs).Perm (x.ptr :: F.ptrs)) ∨
    (∃ ret t rest, program = .call ret t rest ∧ Confined x.ptr s t ∧
      InCall F x buf log ret t rest) := by
  cases program with
  | ret t =>
      have hDone : CallDone F x buf log t := h.correct
      refine Or.inl ⟨t, rfl, h.confined, hDone, ?_⟩
      rw [hDone.log_eq, hDone.represents.livePtrs_eq]
      exact PriorityBook.submit_ptrs_perm hF x.ptr (x.order.stamp x.now)
  | call ret t rest =>
      have hSlots : (log ++ inHand x.ptr ret ++ t.book.livePtrs).Perm (x.ptr :: F.ptrs) :=
        h.correct.1
      have hOut := outside_of_slots hFresh hSlots
      refine Or.inr ⟨ret, t, rest, rfl, h.confined.1, ?_⟩
      refine
        { wellFormed := hF
          fresh := hFresh
          slots := hSlots
          last := h.last.1
          carries := fun heap hSame => ?_ }
      refine
        { correct := h.correct.2 _ ⟨heap, rfl, fun q hq => hSame q (hq.resolve_right id)⟩
          confined := h.confined.2 _
          last := ?_ }
      by_cases hRet : ret = x.ptr
      · rw [h.last.1 hRet]
        trivial
      · exact h.last.2 hRet _ hOut
  | stuck => exact h.correct.elim

end Stretch

namespace Pipeline

variable {config : RunConfig} {cap : Nat} {buf : TradeRingBuffer kTradeBufBits} {p : Pipeline}

namespace Inv

/-! ## Steps that run the book -/

/-- What is behind the order being worked on is out of the consumer's reach. -/
theorem not_mem_of_behind (h : p.Inv config cap buf) {q : OrderPtr} (hq : q ∈ p.orderQueue ++ p.ready) :
    q ∉ p.consumerHand ∧ q ∉ p.resting := by
  have hPlace : q ∈ p.producerHand ++ p.orderQueue := by
    rcases List.mem_append.mp hq with hQueue | hReady
    · exact List.mem_append_right _ hQueue
    · exact List.mem_append_left _ (ready_subset p hReady)
  have hLe := h.count_le q
  have hPos := List.count_pos_iff.mpr hPlace
  rw [List.count_append] at hPos
  rw [← List.count_eq_zero, ← List.count_eq_zero]
  omega

/-- A step that takes the book to `t`, keeping the consumer's slots together. -/
theorem of_memory (h : p.Inv config cap buf) {t : BookState kTradeBufBits} {pc : ConsumerLoopPc}
    {x : Submission} (hBegun : ({ p with mem := t, consumer := pc } : Pipeline).begun = [x])
    (hPopped : ({ p with mem := t, consumer := pc } : Pipeline).popped = [])
    (hSlots : (({ p with mem := t, consumer := pc } : Pipeline).consumerHand ++
      t.book.livePtrs).Perm (p.consumerHand ++ p.resting))
    (hHeap : ∀ q ∈ p.orderQueue ++ p.ready, t.heap q = p.mem.heap q)
    (hOrders : p.generated = (p.processed ++ [x]).map (fun x => x.order.untimed) ++
      (p.orderQueue ++ p.ready).map fun q => (p.mem.heap q).untimed)
    (hAt : p.ConsumerAt pc)
    (hBook : ({ p with mem := t, consumer := pc } : Pipeline).BookAt buf pc) :
    ({ p with mem := t, consumer := pc } : Pipeline).Inv config cap buf :=
  { h with
    consumerAt := by cases pc <;> exact hAt
    places := by
      have hPlaces := List.perm_iff_count.mp h.places
      refine List.perm_iff_count.mpr fun q => ?_
      have hCount := hPlaces q
      have hHand := List.perm_iff_count.mp hSlots q
      rw [List.count_append, List.count_append] at hHand
      simp only [Pipeline.places, List.count_append] at hCount ⊢
      show p.pool.freeSlots.count q + p.producerHand.count q + p.orderQueue.count q +
        _ + t.book.livePtrs.count q + p.returnQueue.count q = _
      omega
    orders := by
      rw [onTheWay, hPopped, hBegun, List.nil_append]
      show p.generated = _ ++ (p.orderQueue ++ p.ready).map fun q => (t.heap q).untimed
      rw [List.map_congr_left fun q hq => congrArg Order.untimed (hHeap q hq)]
      exact hOrders
    bookAt := hBook }

/-- A stretch of a call of the book. -/
theorem advance (h : p.Inv config cap buf) {job : Job} {log : List OrderPtr}
    {program : BookState.BookProgram kTradeBufBits (BookState kTradeBufBits)}
    (hCarries : Carries p.bookOf job.request (buf.pushAll p.written) log p.mem program)
    (hF : p.bookOf.WellFormed) (hFresh : job.request.ptr ∉ p.bookOf.ptrs)
    (hSlots : (log ++ p.consumerHand ++ p.resting).Perm (job.request.ptr :: p.bookOf.ptrs))
    (hOwn : job.request.ptr ∈ p.consumerHand ∨ program = .ret p.mem)
    (hOrders : p.generated = (p.processed ++ [job.request]).map (fun x => x.order.untimed) ++
      (p.orderQueue ++ p.ready).map fun q => (p.mem.heap q).untimed)
    (hDone : p.consumerDone = false) : (p.advance job program).Inv config cap buf := by
  -- the own order and the resting orders are the consumer's
  have hHeap : ∀ t, Confined job.request.ptr p.mem t → job.request.ptr ∈ p.consumerHand →
      ∀ q ∈ p.orderQueue ++ p.ready, t.heap q = p.mem.heap q := by
    intro t hConfined hMem q hq
    obtain ⟨hHand, hRest⟩ := h.not_mem_of_behind hq
    exact hConfined.heap_eq q (ne_of_mem_of_not_mem hMem hHand).symm hRest
  have hCancel : ∀ hand : List OrderPtr,
      (log ++ hand).Perm (job.request.ptr :: p.bookOf.ptrs) →
        hand.Perm (p.consumerHand ++ p.resting) := by
    intro hand hPerm
    rw [List.append_assoc] at hSlots
    exact (List.perm_append_left_iff log).mp (hPerm.trans hSlots.symm)
  rcases hCarries.advance hF hFresh with ⟨t, rfl, hConfined, hCall, hPerm⟩ |
    ⟨ret, t, rest, rfl, hConfined, hCall⟩
  · refine h.of_memory rfl rfl (hCancel _ hPerm) ?_ hOrders hDone ⟨log, hCall⟩
    rcases hOwn with hMem | hRet
    · exact hHeap t hConfined hMem
    · obtain rfl : t = p.mem := by injection hRet
      exact fun _ _ => rfl
  · refine h.of_memory rfl rfl (hCancel _ ?_) ?_ hOrders hDone ⟨log, hCall⟩
    · rw [← List.append_assoc]
      exact hCall.slots
    · rcases hOwn with hMem | hRet
      · exact hHeap t hConfined hMem
      · exact nomatch hRet

/-! ## What the book is given -/

/-- There are at most as many orders as are to be generated. -/
theorem length_draws_le (h : p.Inv config cap buf) : p.draws.length ≤ p.config.orderCount := by
  have hAt := h.producerAt
  have hLe := h.pushed_le
  rw [h.length_eq]
  unfold ready
  split
  · rename_i hPc
    rw [hPc] at hAt
    exact hAt.1
  · rename_i hPc
    rw [hPc] at hAt
    exact hAt.1
  · rename_i hPc
    rw [hPc] at hAt
    exact hAt.1
  · rename_i hPc
    rw [hPc] at hAt
    exact hAt.1
  · exact hLe

/-- The orders of a run are numbered. -/
theorem numberedFrom_generated (h : p.Inv config cap buf) : NumberedFrom 0 p.generated := by
  have hCount : p.config.orderCount < 2 ^ 64 := p.config.orderCount_lt
  have hLe := h.length_draws_le
  have hAfter : p.config.simulator.After 0 := rfl
  exact (FeedSimulator.generateRandom_spec hAfter (by omega)).1

theorem length_generated (h : p.Inv config cap buf) : p.generated.length = p.draws.length := by
  have hCount : p.config.orderCount < 2 ^ 64 := p.config.orderCount_lt
  have hLe := h.length_draws_le
  have hAfter : p.config.simulator.After 0 := rfl
  exact (FeedSimulator.generateRandom_spec hAfter (by omega)).2.2.1

/-- The order behind the processed ones has the next number. -/
theorem numbered_of_generated (h : p.Inv config cap buf) {o : Order} {os : List Order}
    (hOrders : p.generated = p.processed.map (fun x => x.order.untimed) ++ o.untimed :: os) :
    Numbered p.processed.length o := by
  have hGet : p.generated[p.processed.length]? = some o.untimed := by
    rw [hOrders, List.getElem?_append_right (by simp), List.length_map, Nat.sub_self]
    rfl
  have hNumbered := h.numberedFrom_generated _ _ hGet
  rw [Nat.zero_add] at hNumbered
  exact Numbered.untimed_iff.mp hNumbered

/-- A slot in the consumer's hand is not in the book. -/
theorem not_mem_ptrs (h : p.Inv config cap buf) {q : OrderPtr} (hq : q ∈ p.consumerHand)
    (hR : Represents p.mem.heap p.mem.book p.bookOf) : q ∉ p.bookOf.ptrs := by
  intro hMem
  have hLe := h.count_le q
  have hPos := List.count_pos_iff.mpr hq
  have hRest := List.count_pos_iff.mpr (mem_resting hR hMem)
  omega

theorem addOrder (h : p.Inv config cap buf) {order : OrderPtr} {tPop tPush : UInt64}
    (hPc : p.consumer = .addOrder order tPop tPush) (now : UInt64) :
    (p.addOrder order tPop tPush now).Inv config cap buf := by
  have hAt := h.consumerAt
  have hBook := h.bookAt
  rw [hPc] at hAt hBook
  obtain ⟨hR, hBuf⟩ := hBook
  have hHand : p.consumerHand = [order] := by simp [consumerHand, hPc]
  have hFresh : order ∉ p.bookOf.ptrs := h.not_mem_ptrs (by simp [hHand]) hR
  have hOrders := h.orders
  have hBegun : p.begun = [] := by simp [begun, hPc]
  have hPopped : p.popped = [order] := by simp [popped, hPc]
  rw [hBegun, List.append_nil, onTheWay, hPopped, List.append_assoc, List.singleton_append,
    List.map_cons] at hOrders
  have hAdm := PriorityBook.admissible_of_numbered h.ids hFresh (h.numbered_of_generated hOrders) now
  have hCarries : Carries p.bookOf { ptr := order, order := p.mem.heap order, now := now }
      (buf.pushAll p.written) [] p.mem (p.mem.addOrderNoalloc (some order) now) :=
    { correct := Interaction.wp_mono
        (fun log s hPost =>
          { represents := hPost.represents
            log_eq := hPost.log_eq
            trades_eq := hPost.trades_eq
            buf_eq := hPost.buf_eq.trans (by rw [hBuf]) })
        (addOrderNoalloc_wp hR hAdm.accepts fun _ => False)
      confined := addOrderNoalloc_confined hR hFresh now
      last := addOrderNoalloc_lastCall hR hFresh now }
  refine h.advance hCarries hR.wellFormed hFresh ?_ (Or.inl ?_) ?_ hAt
  · show ([] ++ p.consumerHand ++ p.mem.book.livePtrs).Perm (order :: p.bookOf.ptrs)
    rw [hHand, hR.livePtrs_eq]
    exact List.Perm.refl _
  · show order ∈ p.consumerHand
    rw [hHand]
    exact List.mem_singleton_self _
  · rw [List.map_append, List.append_assoc]
    exact hOrders

theorem resume (h : p.Inv config cap buf) {job : Job} {ret : OrderPtr} {rest : Suspended}
    (hPc : p.consumer = .resume job ret rest) : (p.resume job rest).Inv config cap buf := by
  have hAt := h.consumerAt
  have hBook := h.bookAt
  rw [hPc] at hAt hBook
  obtain ⟨log, hCall⟩ := hBook
  have hOrders := h.orders
  have hBegun : p.begun = [job.request] := by simp [begun, hPc]
  have hPopped : p.popped = [] := by simp [popped, hPc]
  rw [hBegun, onTheWay, hPopped, List.nil_append] at hOrders
  have hSlots := hCall.slots
  unfold inHand at hSlots
  refine h.advance (hCall.carries p.mem.heap fun _ _ => rfl) hCall.wellFormed hCall.fresh ?_ ?_
    hOrders hAt
  · by_cases hRet : ret = job.request.ptr
    · have hHand : p.consumerHand = [] := by simp [consumerHand, hPc, hRet]
      rw [if_pos hRet] at hSlots
      rw [hHand, List.append_nil]
      exact hSlots
    · have hHand : p.consumerHand = [job.request.ptr] := by simp [consumerHand, hPc, hRet]
      rw [if_neg hRet] at hSlots
      rw [hHand, List.append_assoc log]
      exact hSlots
  · by_cases hRet : ret = job.request.ptr
    · exact Or.inr (hCall.last hRet p.mem)
    · exact Or.inl (by simp [consumerHand, hPc, hRet])

/-! ## The queues and the flags -/

/-- The producer does not stand at a place it reaches only after the consumer is done. -/
theorem producerAt_congr (h : p.Inv config cap buf) {p' : Pipeline} (hConfig : p'.config = p.config)
    (hPushed : p'.pushed = p.pushed) (hProducer : p'.producerDone = p.producerDone)
    (hConsumer : p.consumerDone = true → p'.consumerDone = true)
    (hQueue : p.consumerDone = true → p'.returnQueue = p.returnQueue) :
    p'.ProducerAt p.producer := by
  have hAt := h.producerAt
  unfold ProducerAt at hAt ⊢
  rw [hConfig, hPushed, hProducer]
  split at hAt
  · exact hAt
  · exact hAt
  · exact hAt
  · exact hAt
  · exact ⟨hAt.1, hAt.2.1, hConsumer hAt.2.2⟩
  · exact ⟨hAt.1, hAt.2.1, hConsumer hAt.2.2⟩
  · exact ⟨hAt.1, hAt.2.1, hConsumer hAt.2.2.1, (hQueue hAt.2.2.1).trans hAt.2.2.2⟩
  · exact hAt

/-- Steps that only move the consumer on. -/
theorem of_consumer (h : p.Inv config cap buf) {pc : ConsumerLoopPc} (hAt : p.ConsumerAt pc)
    (hHand : ({ p with consumer := pc } : Pipeline).consumerHand = p.consumerHand)
    (hPopped : ({ p with consumer := pc } : Pipeline).popped = p.popped)
    (hBegun : ({ p with consumer := pc } : Pipeline).begun = p.begun) (hBook : p.BookAt buf pc) :
    ({ p with consumer := pc } : Pipeline).Inv config cap buf :=
  { h with
    consumerAt := by cases pc <;> exact hAt
    places := by
      have hPlaces := h.places
      unfold Pipeline.places at hPlaces ⊢
      rw [hHand]
      exact hPlaces
    orders := by
      have hOrders := h.orders
      unfold onTheWay at hOrders ⊢
      rw [hPopped, hBegun]
      exact hOrders
    bookAt := by cases pc <;> exact hBook }

/-- Popping an order; `empty` is where an empty queue leads. -/
theorem popOrder (h : p.Inv config cap buf) {empty : ConsumerLoopPc}
    (hPc : p.consumer = .pop ∧ empty = .loadDone ∨ p.consumer = .popAgain ∧ empty = .storeDone) :
    (p.popOrder empty).Inv config cap buf := by
  have hAt := h.consumerAt
  have hBook := h.bookAt
  have hHand : p.consumerHand = [] := by
    rcases hPc with ⟨hPc, -⟩ | ⟨hPc, -⟩ <;> simp [consumerHand, hPc]
  have hPopped : p.popped = [] := by
    rcases hPc with ⟨hPc, -⟩ | ⟨hPc, -⟩ <;> simp [popped, hPc]
  have hBegun : p.begun = [] := by
    rcases hPc with ⟨hPc, -⟩ | ⟨hPc, -⟩ <;> simp [begun, hPc]
  have hDone : p.consumerDone = false := by
    rcases hPc with ⟨hPc, -⟩ | ⟨hPc, -⟩
    · rw [hPc] at hAt
      exact hAt
    · rw [hPc] at hAt
      exact hAt.1
  have hQuiet : Represents p.mem.heap p.mem.book p.bookOf ∧ p.mem.buf = buf.pushAll p.written := by
    rcases hPc with ⟨hPc, -⟩ | ⟨hPc, -⟩ <;> rw [hPc] at hBook <;> exact hBook
  cases hQueue : p.orderQueue with
  | nil =>
      have hPop : p.popOrder empty = { p with consumer := empty } := by
        simp only [Pipeline.popOrder, hQueue, tryPop]
      rw [hPop]
      rcases hPc with ⟨hPc, rfl⟩ | ⟨hPc, rfl⟩
      · exact h.of_consumer hDone hHand.symm hPopped.symm hBegun.symm hQuiet
      · rw [hPc] at hAt
        exact h.of_consumer ⟨hDone, hAt.2, hQueue⟩ hHand.symm hPopped.symm hBegun.symm hQuiet
  | cons order queue =>
      have hPop : p.popOrder empty =
          { p with orderQueue := queue, consumer := .consume order } := by
        simp only [Pipeline.popOrder, hQueue, tryPop]
      rw [hPop]
      exact
        { h with
          consumerAt := hDone
          places := by
            have hPlaces := List.perm_iff_count.mp h.places
            refine List.perm_iff_count.mpr fun q => ?_
            have hCount := hPlaces q
            simp only [Pipeline.places, hHand, hQueue, List.count_append, List.count_cons,
              List.count_nil] at hCount
            simp only [Pipeline.places, List.count_append]
            show p.pool.freeSlots.count q + p.producerHand.count q + queue.count q +
              [order].count q + p.resting.count q + p.returnQueue.count q = _
            rw [List.count_singleton]
            omega
          orders := by
            have hOrders := h.orders
            rw [hBegun, onTheWay, hPopped, hQueue] at hOrders
            exact hOrders
          bookAt := hQuiet }

theorem loadProducerDone (h : p.Inv config cap buf) (hPc : p.consumer = .loadDone) :
    p.loadProducerDone.Inv config cap buf := by
  have hAt := h.consumerAt
  have hBook := h.bookAt
  rw [hPc] at hAt hBook
  have hHand : p.consumerHand = [] := by simp [consumerHand, hPc]
  have hPopped : p.popped = [] := by simp [popped, hPc]
  have hBegun : p.begun = [] := by simp [begun, hPc]
  unfold Pipeline.loadProducerDone
  by_cases hDone : p.producerDone = true
  · rw [if_pos hDone]
    exact h.of_consumer ⟨hAt, hDone⟩ hHand.symm hPopped.symm hBegun.symm hBook
  · rw [if_neg hDone]
    exact h.of_consumer hAt hHand.symm hPopped.symm hBegun.symm hBook

theorem storeConsumerDone (h : p.Inv config cap buf) (hPc : p.consumer = .storeDone) :
    p.storeConsumerDone.Inv config cap buf := by
  have hAt := h.consumerAt
  have hBook := h.bookAt
  rw [hPc] at hAt hBook
  have hHand : p.consumerHand = [] := by simp [consumerHand, hPc]
  have hPopped : p.popped = [] := by simp [popped, hPc]
  have hBegun : p.begun = [] := by simp [begun, hPc]
  exact
    { h with
      producerAt := h.producerAt_congr rfl rfl rfl (fun _ => rfl) fun _ => rfl
      consumerAt := ⟨rfl, hAt.2⟩
      places := by
        have hPlaces := h.places
        unfold Pipeline.places at hPlaces ⊢
        rw [hHand] at hPlaces
        exact hPlaces
      orders := by
        have hOrders := h.orders
        rw [hBegun, onTheWay, hPopped] at hOrders
        exact hOrders
      bookAt := hBook }

theorem consume (h : p.Inv config cap buf) {order : OrderPtr} (hPc : p.consumer = .consume order)
    (now : UInt64) : (p.consume order now).Inv config cap buf := by
  have hAt := h.consumerAt
  have hBook := h.bookAt
  rw [hPc] at hAt hBook
  have hHand : p.consumerHand = [order] := by simp [consumerHand, hPc]
  have hPopped : p.popped = [order] := by simp [popped, hPc]
  have hBegun : p.begun = [] := by simp [begun, hPc]
  unfold Pipeline.consume
  split
  · exact h.of_consumer hAt hHand.symm hPopped.symm hBegun.symm hBook
  · exact h.of_consumer hAt hHand.symm hPopped.symm hBegun.symm hBook

theorem pushBack (h : p.Inv config cap buf) {job : Job} {ret : OrderPtr} {rest : Suspended}
    (hPc : p.consumer = .pushBack job ret rest) : (p.pushBack job ret rest).Inv config cap buf := by
  have hAt := h.consumerAt
  have hBook := h.bookAt
  rw [hPc] at hAt hBook
  have hDone : p.consumerDone = false := hAt
  have hPopped : p.popped = [] := by simp [popped, hPc]
  have hBegun : p.begun = [job.request] := by simp [begun, hPc]
  unfold Pipeline.pushBack tryPush
  by_cases hFull : p.returnQueue.length < kReturnQueueCap - 1
  · rw [if_pos hFull]
    exact
      { h with
        producerAt := h.producerAt_congr rfl rfl rfl id fun hd => absurd hd (by simp [hDone])
        consumerAt := hAt
        places := by
          have hPlaces := List.perm_iff_count.mp h.places
          refine List.perm_iff_count.mpr fun q => ?_
          have hCount := hPlaces q
          by_cases hRet : ret = job.request.ptr
          · simp only [Pipeline.places, producerHand, consumerHand, resting, hPc, if_pos hRet,
              List.count_append, List.count_cons, List.count_nil] at hCount ⊢
            omega
          · simp only [Pipeline.places, producerHand, consumerHand, resting, hPc, if_neg hRet,
              List.count_append, List.count_cons, List.count_nil] at hCount ⊢
            omega
        orders := by
          have hOrders := h.orders
          rw [hBegun, onTheWay, hPopped] at hOrders
          exact hOrders
        bookAt := hBook }
  · rw [if_neg hFull]
    exact h

/-- One more order, one more sample. -/
theorem recordedFor_finish {samples : List UInt64} {sample : UInt64} {x : Submission}
    (h : p.RecordedFor p.processed.length samples) :
    p.RecordedFor (p.processed ++ [x]).length
      (if p.config.recordLatency then samples ++ [sample] else samples) := by
  unfold RecordedFor at h ⊢
  by_cases hRecord : p.config.recordLatency = true
  · rw [if_pos hRecord] at h
    rw [if_pos hRecord, if_pos hRecord, List.length_append, List.length_append, h]
    rfl
  · rw [if_neg hRecord] at h
    rw [if_neg hRecord, if_neg hRecord]
    exact h

theorem finish (h : p.Inv config cap buf) {job : Job} (hPc : p.consumer = .finish job) (now : UInt64) :
    (p.finish job now).Inv config cap buf := by
  have hAt := h.consumerAt
  have hBook := h.bookAt
  rw [hPc] at hAt hBook
  obtain ⟨log, hDone⟩ := hBook
  have hHand : p.consumerHand = [] := by simp [consumerHand, hPc]
  have hPopped : p.popped = [] := by simp [popped, hPc]
  have hBegun : p.begun = [job.request] := by simp [begun, hPc]
  have hOrders := h.orders
  rw [hBegun, onTheWay, hPopped, List.nil_append] at hOrders
  have hNumbered : Numbered p.processed.length job.request.order := by
    have hNext : p.generated = p.processed.map (fun x => x.order.untimed) ++
        job.request.order.untimed :: (p.orderQueue ++ p.ready).map fun q =>
          (p.mem.heap q).untimed := by
      rw [hOrders, List.map_append, List.append_assoc]
      rfl
    exact h.numbered_of_generated hNext
  have hBookOf : (p.finish job now).bookOf =
      (p.bookOf.submit job.request.ptr (job.request.order.stamp job.request.now)).book :=
    PriorityBook.submitAll_concat _ _ _
  have hLt : p.processed.length < p.config.orderCount := by
    have hLength := congrArg List.length hOrders
    have hGenerated := h.length_generated
    have hLe := h.length_draws_le
    simp only [List.length_append, List.length_map, List.length_singleton] at hLength
    omega
  exact
    { h with
      consumerAt := hAt
      places := by
        have hPlaces := h.places
        unfold Pipeline.places at hPlaces ⊢
        rw [hHand] at hPlaces
        exact hPlaces
      orders := by
        show p.generated = ((p.processed ++ [job.request]) ++ []).map _ ++ _
        rw [List.append_nil]
        exact hOrders
      consumed_eq := by
        have hCount : p.config.orderCount < 2 ^ 64 := p.config.orderCount_lt
        show wrap64 (p.consumedCount + 1) = (p.processed ++ [job.request]).length
        rw [h.consumed_eq, List.length_append]
        exact Nat.mod_eq_of_lt (by omega)
      written_eq := by
        show p.written ++ p.mem.trades = _
        rw [h.written_eq, hDone.trades_eq]
        exact (PriorityBook.tradesAll_concat _ _ _).symm
      wellFormed := by
        rw [hBookOf]
        exact hDone.represents.wellFormed
      ids := by
        rw [hBookOf]
        show PriorityBook.IdsUpTo _ (p.processed ++ [job.request]).length
        rw [List.length_append]
        exact PriorityBook.idsUpTo_submit h.wellFormed h.ids hNumbered _ _
      size_le := by
        have hPerm := PriorityBook.submit_ptrs_perm h.wellFormed job.request.ptr
          (job.request.order.stamp job.request.now)
        have hLength := hPerm.length_eq
        have hLe := h.size_le
        rw [List.length_append, List.length_cons] at hLength
        rw [hBookOf]
        show _ ≤ (p.processed ++ [job.request]).length
        rw [List.length_append, List.length_singleton]
        omega
      bookAt := by
        refine ⟨?_, ?_⟩
        · rw [hBookOf]
          exact hDone.represents
        · show p.mem.buf = buf.pushAll (p.written ++ p.mem.trades)
          rw [hDone.trades_eq, hDone.buf_eq]
          exact List.foldl_append.symm
      queueSamples := recordedFor_finish h.queueSamples
      serviceSamples := recordedFor_finish h.serviceSamples }

/-- Every step of the consumer keeps the invariant. -/
theorem consumerStep (h : p.Inv config cap buf) {now : UInt64} {p' : Pipeline}
    (hStep : p.consumerStep now = some p') : p'.Inv config cap buf := by
  unfold Pipeline.consumerStep at hStep
  cases hPc : p.consumer with
  | pop =>
      rw [hPc] at hStep
      exact Option.some.inj hStep ▸ h.popOrder (Or.inl ⟨hPc, rfl⟩)
  | loadDone =>
      rw [hPc] at hStep
      exact Option.some.inj hStep ▸ h.loadProducerDone hPc
  | popAgain =>
      rw [hPc] at hStep
      exact Option.some.inj hStep ▸ h.popOrder (Or.inr ⟨hPc, rfl⟩)
  | consume order =>
      rw [hPc] at hStep
      exact Option.some.inj hStep ▸ h.consume hPc now
  | addOrder order tPop tPush =>
      rw [hPc] at hStep
      exact Option.some.inj hStep ▸ h.addOrder hPc now
  | pushBack job ret rest =>
      rw [hPc] at hStep
      exact Option.some.inj hStep ▸ h.pushBack hPc
  | resume job ret rest =>
      rw [hPc] at hStep
      exact Option.some.inj hStep ▸ h.resume hPc
  | finish job =>
      rw [hPc] at hStep
      exact Option.some.inj hStep ▸ h.finish hPc now
  | storeDone =>
      rw [hPc] at hStep
      exact Option.some.inj hStep ▸ h.storeConsumerDone hPc
  | exited =>
      rw [hPc] at hStep
      exact nomatch hStep
  | stuck =>
      rw [hPc] at hStep
      exact nomatch hStep

end Inv

end Pipeline

end MatchingMachine
