import MatchingMachine.Pipeline.Invariant

/-!
# The producer keeps the invariant

One lemma for each step of `producer_loop`.  The producer writes to slots in its hand only, and
those are neither held by the book or the consumer nor queued, so the consumer's part of the
invariant does not notice (`BookAt.congr_heap`).
-/

namespace MatchingMachine

namespace Pipeline

variable {config : RunConfig} {cap : Nat} {buf : TradeRingBuffer kTradeBufBits} {p : Pipeline}

/-! ## A slot is in one place -/

namespace Inv

theorem count_le (h : p.Inv config cap buf) (q : OrderPtr) :
    p.pool.freeSlots.count q + p.producerHand.count q + p.orderQueue.count q +
      p.consumerHand.count q + p.resting.count q + p.returnQueue.count q ≤ 1 := by
  have hLe := List.nodup_iff_count_le_one.mp h.nodup q
  simpa only [Pipeline.places, List.count_append] using hLe

/-- A slot in the producer's hand is nowhere else. -/
theorem not_mem_of_producerHand (h : p.Inv config cap buf) {q : OrderPtr} (hq : q ∈ p.producerHand) :
    q ∉ p.pool.freeSlots ∧ q ∉ p.orderQueue ∧ q ∉ p.consumerHand ∧ q ∉ p.resting ∧
      q ∉ p.returnQueue := by
  have hLe := h.count_le q
  have hPos := List.count_pos_iff.mpr hq
  simp only [← List.count_eq_zero]
  omega

/-- A free slot is nowhere else. -/
theorem not_mem_of_free (h : p.Inv config cap buf) {q : OrderPtr} (hq : q ∈ p.pool.freeSlots) :
    q ∉ p.producerHand ∧ q ∉ p.orderQueue ∧ q ∉ p.consumerHand ∧ q ∉ p.resting ∧
      q ∉ p.returnQueue := by
  have hLe := h.count_le q
  have hPos := List.count_pos_iff.mpr hq
  simp only [← List.count_eq_zero]
  omega

theorem ready_subset (p : Pipeline) {q : OrderPtr} (hq : q ∈ p.ready) : q ∈ p.producerHand := by
  unfold ready at hq
  unfold producerHand
  split at hq
  · rename_i hPc
    rwa [hPc]
  · rename_i hPc
    rw [hPc]
    exact List.mem_cons.mpr (Or.inl (List.mem_singleton.mp hq))
  · rename_i hPc
    rwa [hPc]
  · rename_i hPc
    rwa [hPc]
  · exact absurd hq List.not_mem_nil

theorem popped_subset (p : Pipeline) {q : OrderPtr} (hq : q ∈ p.popped) : q ∈ p.consumerHand := by
  unfold popped at hq
  unfold consumerHand
  split at hq
  · rename_i hPc
    rwa [hPc]
  · rename_i hPc
    rwa [hPc]
  · exact absurd hq List.not_mem_nil

/-- The orders on their way are in the hands of a thread or in the queue. -/
theorem onTheWay_subset (p : Pipeline) :
    ∀ q ∈ p.onTheWay, q ∈ p.producerHand ++ p.orderQueue ++ p.consumerHand := by
  intro q hq
  unfold onTheWay at hq
  simp only [List.mem_append] at hq ⊢
  rcases hq with (hPopped | hQueue) | hReady
  · exact Or.inr (popped_subset p hPopped)
  · exact Or.inl (Or.inr hQueue)
  · exact Or.inl (Or.inl (ready_subset p hReady))

end Inv

/-- A slot the book holds during a call is in the book or in the consumer's hand. -/
theorem held_subset {x : Submission} {ret q : OrderPtr} (hand : List OrderPtr)
    (hHand : ret ≠ x.ptr → x.ptr ∈ hand) (hq : Held x.ptr ret p.mem q) :
    q ∈ p.resting ++ hand := by
  rcases hq with hLive | ⟨rfl, hNe⟩
  · exact List.mem_append_left _ hLive
  · exact List.mem_append_right _ (hHand hNe)

theorem mem_resting {F : PriorityBook} (hR : Represents p.mem.heap p.mem.book F) {q : OrderPtr}
    (hq : q ∈ F.ptrs) : q ∈ p.resting := by
  show q ∈ p.mem.book.livePtrs
  rw [hR.livePtrs_eq]
  exact hq

/-- The consumer's part of the invariant is about slots the consumer holds. -/
theorem BookAt.congr_heap (h : p.BookAt buf p.consumer) {heap : Heap}
    (hSame : ∀ q ∈ p.resting ++ p.consumerHand, heap q = p.mem.heap q) :
    (p.setHeap heap).BookAt buf p.consumer := by
  have hLive : Represents p.mem.heap p.mem.book p.bookOf →
      Represents heap p.mem.book p.bookOf := fun hR =>
    hR.congr_heap fun q hq => hSame q (List.mem_append_left _ (mem_resting hR hq))
  unfold consumerHand at hSame
  cases hPc : p.consumer with
  | pushBack job ret rest =>
      rw [hPc] at h hSame
      obtain ⟨log, hCall⟩ := h
      refine ⟨log, hCall.congr_heap fun q hq => hSame q (held_subset _ (fun hNe => ?_) hq)⟩
      dsimp only
      rw [if_neg hNe]
      simp
  | resume job ret rest =>
      rw [hPc] at h hSame
      obtain ⟨log, hCall⟩ := h
      refine ⟨log, hCall.congr_heap fun q hq => hSame q (held_subset _ (fun hNe => ?_) hq)⟩
      dsimp only
      rw [if_neg hNe]
      simp
  | finish job =>
      rw [hPc] at h
      obtain ⟨log, hDone⟩ := h
      refine ⟨log, { hDone with represents := ?_ }⟩
      exact hDone.represents.congr_heap fun q hq =>
        hSame q (List.mem_append_left _ (mem_resting hDone.represents hq))
  | pop => rw [hPc] at h; exact ⟨hLive h.1, h.2⟩
  | loadDone => rw [hPc] at h; exact ⟨hLive h.1, h.2⟩
  | popAgain => rw [hPc] at h; exact ⟨hLive h.1, h.2⟩
  | consume order => rw [hPc] at h; exact ⟨hLive h.1, h.2⟩
  | addOrder order tPop tPush => rw [hPc] at h; exact ⟨hLive h.1, h.2⟩
  | storeDone => rw [hPc] at h; exact ⟨hLive h.1, h.2⟩
  | exited => rw [hPc] at h; exact ⟨hLive h.1, h.2⟩
  | stuck => rw [hPc] at h; exact ⟨hLive h.1, h.2⟩

namespace Inv

/-! ## Steps that write to no slot -/

/-- Steps that move slots between `return_queue_`, the pool and the producer's hand. -/
theorem of_returns (h : p.Inv config cap buf) (pool : MemoryPool) (returns : List OrderPtr)
    {pc : ProducerLoopPc}
    (hAt : ({ p with pool := pool, returnQueue := returns, producer := pc } : Pipeline).ProducerAt pc)
    (hMax : pool.maxObjects = cap) (hFree : pool.FreeList pool.freeSlots)
    (hPlaces : ({ p with pool := pool, returnQueue := returns, producer := pc } :
      Pipeline).places.Perm (List.range cap))
    (hReady : ({ p with pool := pool, returnQueue := returns, producer := pc } :
      Pipeline).ready = p.ready) :
    ({ p with pool := pool, returnQueue := returns, producer := pc } : Pipeline).Inv config cap buf :=
  { h with
    producerAt := hAt
    maxObjects_eq := hMax
    freeList := hFree
    places := hPlaces
    orders := by
      unfold onTheWay
      rw [hReady]
      exact h.orders
    length_eq := by
      rw [hReady]
      exact h.length_eq }

/-- Steps that only move the producer on. -/
theorem of_producer (h : p.Inv config cap buf) {pc : ProducerLoopPc}
    (hAt : ({ p with producer := pc } : Pipeline).ProducerAt pc)
    (hHand : ({ p with producer := pc } : Pipeline).producerHand = p.producerHand)
    (hReady : ({ p with producer := pc } : Pipeline).ready = p.ready) :
    ({ p with producer := pc } : Pipeline).Inv config cap buf := by
  refine h.of_returns p.pool p.returnQueue hAt h.maxObjects_eq h.freeList
    ?_ hReady
  have hPlaces := h.places
  unfold Pipeline.places at hPlaces ⊢
  rw [hHand]
  exact hPlaces

theorem drain (h : p.Inv config cap buf) {phase : DrainPhase} (hPc : p.producer = .drain phase) :
    (p.drain phase).Inv config cap buf := by
  have hAt := h.producerAt
  rw [hPc] at hAt
  cases hReturns : p.returnQueue with
  | nil =>
      have hDrain : p.drain phase = { p with producer := afterDrain phase } := by
        simp only [Pipeline.drain, hReturns, tryPop]
      rw [hDrain]
      refine h.of_producer ?_ ?_ ?_
      · cases phase with
        | slotWait => exact hAt
        | pushWait slot => exact hAt
        | shutdown => exact hAt
        | last => exact ⟨hAt.1, hAt.2.1, hAt.2.2, hReturns⟩
      · cases phase <;> simp [producerHand, afterDrain, hPc]
      · cases phase <;> simp [ready, afterDrain, hPc]
  | cons ret rest =>
      have hDrain : p.drain phase =
          { p with returnQueue := rest, producer := .deallocate phase ret } := by
        simp only [Pipeline.drain, hReturns, tryPop]
      rw [hDrain]
      refine h.of_returns p.pool rest ?_ h.maxObjects_eq h.freeList ?_ ?_
      · cases phase <;> exact hAt
      · have hPlaces := List.perm_iff_count.mp h.places
        refine List.perm_iff_count.mpr fun q => ?_
        have hCount := hPlaces q
        cases phase <;>
          simp only [Pipeline.places, producerHand, consumerHand, resting, hPc, hReturns,
            List.count_append, List.count_cons, List.count_nil] at hCount ⊢ <;> omega
      · cases phase <;> simp [ready, hPc]

/-- A slot on its way from `return_queue_` to the pool is a slot of the pool, and not free. -/
theorem deallocate_ok (h : p.Inv config cap buf) {phase : DrainPhase} {ret : OrderPtr}
    (hPc : p.producer = .deallocate phase ret) :
    ret < p.pool.maxObjects ∧ ret ∉ p.pool.freeSlots := by
  have hHand : ret ∈ p.producerHand := by
    cases phase <;> simp [producerHand, hPc]
  refine ⟨h.lt_of_mem ?_, (h.not_mem_of_producerHand hHand).1⟩
  simp [Pipeline.places, hHand]

theorem deallocate (h : p.Inv config cap buf) {phase : DrainPhase} {ret : OrderPtr}
    (hPc : p.producer = .deallocate phase ret) : (p.deallocate phase ret).Inv config cap buf := by
  have hAt := h.producerAt
  rw [hPc] at hAt
  obtain ⟨hLt, hNew⟩ := h.deallocate_ok hPc
  have hFree := h.freeList.deallocate hLt hNew
  have hSlots := hFree.freeSlots_eq
  refine h.of_returns _ p.returnQueue ?_ ?_ ?_ ?_ ?_
  · cases phase <;> exact hAt
  · rw [MemoryPool.maxObjects_deallocate, h.maxObjects_eq]
  · rwa [hSlots]
  · have hPlaces := List.perm_iff_count.mp h.places
    refine List.perm_iff_count.mpr fun q => ?_
    have hCount := hPlaces q
    cases phase <;>
      simp only [Pipeline.places, producerHand, consumerHand, resting, hPc, hSlots,
        List.count_append, List.count_cons, List.count_nil] at hCount ⊢ <;> omega
  · cases phase <;> simp [ready, hPc]

/-! ## Steps that write to a slot -/

/-- The consumer does not see a write to a slot it does not hold. -/
theorem bookAt_modify (h : p.Inv config cap buf) {slot : OrderPtr} (hRest : slot ∉ p.resting)
    (hHand : slot ∉ p.consumerHand) {heap : Heap} (hHeap : ∀ q, q ≠ slot → heap q = p.mem.heap q) :
    (p.setHeap heap).BookAt buf p.consumer := by
  refine h.bookAt.congr_heap fun q hq => hHeap q ?_
  rintro rfl
  rcases List.mem_append.mp hq with hMem | hMem
  · exact hRest hMem
  · exact hHand hMem

theorem allocate (h : p.Inv config cap buf) (hPc : p.producer = .allocate) : p.allocate.Inv config cap buf := by
  have hAt := h.producerAt
  rw [hPc] at hAt
  cases hSlots : p.pool.freeSlots with
  | nil =>
      have hFree := h.freeList
      rw [hSlots] at hFree
      have hAllocate : p.allocate = { p with producer := .drain .slotWait } := by
        simp only [Pipeline.allocate, hFree.allocate_nil p.mem.heap]
      rw [hAllocate]
      refine h.of_producer hAt ?_ ?_
      · simp [producerHand, hPc]
      · simp [ready, hPc]
  | cons slot free =>
      have hFree := h.freeList
      rw [hSlots] at hFree
      obtain ⟨pool, hPool, hFree', hMax⟩ := hFree.allocate_cons p.mem.heap
      have hSlots' := hFree'.freeSlots_eq
      have hAllocate : p.allocate =
          { (p.setHeap (Function.update p.mem.heap slot default)) with
            pool := pool, producer := .generate slot } := by
        simp only [Pipeline.allocate, hPool]
      rw [hAllocate]
      have hMem : slot ∈ p.pool.freeSlots := by
        rw [hSlots]
        exact List.mem_cons_self ..
      obtain ⟨hProducer, hQueue, hConsumer, hRest, -⟩ := h.not_mem_of_free hMem
      have hHeap : ∀ q, q ≠ slot → Function.update p.mem.heap slot default q = p.mem.heap q :=
        fun q hq => Function.update_of_ne hq _ _
      -- the places hold every slot once, so a free one carries no order on its way
      have hWay : slot ∉ p.onTheWay := fun hSlot => by
        have hPlace := onTheWay_subset p slot hSlot
        simp only [List.mem_append] at hPlace
        rcases hPlace with (hPlace | hPlace) | hPlace
        · exact hProducer hPlace
        · exact hQueue hPlace
        · exact hConsumer hPlace
      have hReady : p.ready = [] := by simp [ready, hPc]
      have hWays : p.onTheWay = p.popped ++ p.orderQueue ++ [] := by rw [onTheWay, hReady]
      exact
        { h with
          producerAt := hAt
          maxObjects_eq := hMax.trans h.maxObjects_eq
          freeList := by
            show MemoryPool.FreeList pool pool.freeSlots
            rwa [hSlots']
          places := by
            have hPlaces := List.perm_iff_count.mp h.places
            refine List.perm_iff_count.mpr fun q => ?_
            have hCount := hPlaces q
            simp only [Pipeline.places, setHeap, producerHand, consumerHand, resting, hPc, hSlots,
              hSlots', List.count_append, List.count_cons, List.count_nil] at hCount ⊢
            omega
          orders := by
            have hOrders := h.orders
            rw [List.map_congr_left fun q hq =>
              congrArg Order.untimed (hHeap q (ne_of_mem_of_not_mem hq hWay)).symm, hWays] at hOrders
            exact hOrders
          length_eq := by
            have hLength := h.length_eq
            rw [hReady] at hLength
            exact hLength
          bookAt := h.bookAt_modify hRest hConsumer hHeap }

/-- The consumer has not seen a slot in the producer's hand. -/
theorem not_mem_consumer (h : p.Inv config cap buf) {q : OrderPtr} (hq : q ∈ p.producerHand) :
    q ∉ p.popped ++ p.orderQueue := by
  obtain ⟨-, hQueue, hConsumer, -, -⟩ := h.not_mem_of_producerHand hq
  rw [List.mem_append]
  rintro (hMem | hMem)
  · exact hConsumer (popped_subset p hMem)
  · exact hQueue hMem

theorem generate (h : p.Inv config cap buf) {slot : OrderPtr} (hPc : p.producer = .generate slot)
    (d : Draws) : (p.generate slot d).Inv config cap buf := by
  have hAt := h.producerAt
  rw [hPc] at hAt
  have hHand : slot ∈ p.producerHand := by simp [producerHand, hPc]
  obtain ⟨-, -, hConsumer, hRest, -⟩ := h.not_mem_of_producerHand hHand
  have hHeap : ∀ q, q ≠ slot →
      (p.mem.heap.modify slot fun _ => (p.sim.nextOrder d).1) q = p.mem.heap q :=
    fun q hq => Heap.modify_of_ne hq _ _
  have hReady : p.ready = [] := by simp [ready, hPc]
  have hWays : p.onTheWay = p.popped ++ p.orderQueue := by rw [onTheWay, hReady, List.append_nil]
  have hGenerated := FeedSimulator.generateRandom_concat p.config.simulator p.draws d
  rw [h.sim_eq] at hGenerated
  exact
    { h with
      producerAt := hAt
      places := by
        have hPlaces := List.perm_iff_count.mp h.places
        refine List.perm_iff_count.mpr fun q => ?_
        have hCount := hPlaces q
        simp only [Pipeline.places, Pipeline.generate, setHeap, producerHand, consumerHand,
          resting, hPc, List.count_append, List.count_cons, List.count_nil] at hCount ⊢
        omega
      sim_eq := congrArg Prod.snd hGenerated
      orders := by
        have hOrders := h.orders
        rw [hWays, List.map_congr_left fun q hq =>
          congrArg Order.untimed (hHeap q (ne_of_mem_of_not_mem hq (h.not_mem_consumer hHand))).symm]
          at hOrders
        show (p.config.simulator.generateRandom (p.draws ++ [d])).1 = _
        rw [hGenerated]
        show p.generated ++ [(p.sim.nextOrder d).1] =
          (p.processed ++ p.begun).map (fun x => x.order.untimed) ++
            (p.popped ++ p.orderQueue ++ [slot]).map fun q =>
              ((p.mem.heap.modify slot fun _ => (p.sim.nextOrder d).1) q).untimed
        have hLast : (p.popped ++ p.orderQueue ++ [slot]).map (fun q =>
            ((p.mem.heap.modify slot fun _ => (p.sim.nextOrder d).1) q).untimed) =
              (p.popped ++ p.orderQueue).map (fun q =>
                ((p.mem.heap.modify slot fun _ => (p.sim.nextOrder d).1) q).untimed) ++
                  [(p.sim.nextOrder d).1] := by
          rw [List.map_append, List.map_singleton, Heap.modify_same,
            FeedSimulator.untimed_nextOrder]
        rw [hLast, hOrders, List.append_assoc]
      length_eq := by
        have hLength := h.length_eq
        rw [hReady] at hLength
        show (p.draws ++ [d]).length = p.pushed + 1
        rw [List.length_append, hLength]
        rfl
      bookAt := h.bookAt_modify hRest hConsumer hHeap }

theorem stamp (h : p.Inv config cap buf) {slot : OrderPtr} (hPc : p.producer = .stamp slot)
    (now : UInt64) : (p.stamp slot now).Inv config cap buf := by
  have hAt := h.producerAt
  rw [hPc] at hAt
  have hHand : slot ∈ p.producerHand := by simp [producerHand, hPc]
  obtain ⟨-, -, hConsumer, hRest, -⟩ := h.not_mem_of_producerHand hHand
  have hReady : p.ready = [slot] := by simp [ready, hPc]
  -- the timestamp is all that changes, so for the stream nothing does
  have hUntimed : ∀ q, ((p.mem.heap.modify slot fun o => { o with timestampNs := now }) q).untimed =
      (p.mem.heap q).untimed := fun q => by
    by_cases hq : q = slot
    · subst hq
      rw [Heap.modify_same]
      rfl
    · rw [Heap.modify_of_ne hq]
  exact
    { h with
      producerAt := hAt
      places := by
        have hPlaces := List.perm_iff_count.mp h.places
        refine List.perm_iff_count.mpr fun q => ?_
        have hCount := hPlaces q
        simp only [Pipeline.places, Pipeline.stamp, setHeap, producerHand, consumerHand,
          resting, hPc, List.count_append, List.count_cons, List.count_nil] at hCount ⊢
        omega
      orders := by
        have hOrders := h.orders
        rw [onTheWay, hReady, List.map_congr_left fun q _ => (hUntimed q).symm] at hOrders
        exact hOrders
      length_eq := by
        have hLength := h.length_eq
        rw [hReady] at hLength
        exact hLength
      bookAt := h.bookAt_modify hRest hConsumer fun q hq => Heap.modify_of_ne hq _ _ }

/-! ## The queue and the flags -/

/-- The consumer does not stand at a place it reaches only after the producer is done. -/
theorem consumerAt_congr (h : p.Inv config cap buf) {p' : Pipeline} (hDone : p'.consumerDone = p.consumerDone)
    (hProducer : p.producerDone = true → p'.producerDone = true)
    (hQueue : p.producerDone = true → p'.orderQueue = p.orderQueue) :
    p'.ConsumerAt p.consumer := by
  have hAt := h.consumerAt
  cases hPc : p.consumer with
  | popAgain =>
      rw [hPc] at hAt
      exact ⟨hDone.trans hAt.1, hProducer hAt.2⟩
  | storeDone =>
      rw [hPc] at hAt
      exact ⟨hDone.trans hAt.1, hProducer hAt.2.1, (hQueue hAt.2.1).trans hAt.2.2⟩
  | exited =>
      rw [hPc] at hAt
      exact ⟨hDone.trans hAt.1, hProducer hAt.2.1, (hQueue hAt.2.1).trans hAt.2.2⟩
  | stuck =>
      rw [hPc] at hAt
      exact hAt
  | pop => rw [hPc] at hAt; exact hDone.trans hAt
  | loadDone => rw [hPc] at hAt; exact hDone.trans hAt
  | consume order => rw [hPc] at hAt; exact hDone.trans hAt
  | addOrder order tPop tPush => rw [hPc] at hAt; exact hDone.trans hAt
  | pushBack job ret rest => rw [hPc] at hAt; exact hDone.trans hAt
  | resume job ret rest => rw [hPc] at hAt; exact hDone.trans hAt
  | finish job => rw [hPc] at hAt; exact hDone.trans hAt

/-- Where `while (pushed < order_count)` goes on. -/
theorem producerAt_nextOrder {p : Pipeline} (hLe : p.pushed ≤ p.config.orderCount)
    (hDone : p.producerDone = false) : p.nextOrder.ProducerAt p.nextOrder.producer := by
  unfold Pipeline.nextOrder
  by_cases hLt : p.pushed < p.config.orderCount
  · rw [if_pos hLt]
    exact ⟨hLt, hDone⟩
  · rw [if_neg hLt]
    exact ⟨le_antisymm hLe (Nat.le_of_not_lt hLt), hDone⟩

theorem push (h : p.Inv config cap buf) {slot : OrderPtr} (hPc : p.producer = .push slot) :
    (p.push slot).Inv config cap buf := by
  have hAt := h.producerAt
  rw [hPc] at hAt
  obtain ⟨hLt, hDone⟩ := hAt
  have hReady : p.ready = [slot] := by simp [ready, hPc]
  by_cases hFull : p.orderQueue.length < kOrderQueueCap - 1
  · have hCount : p.config.orderCount < 2 ^ 64 := p.config.orderCount_lt
    -- pushed stays below order_count, so the 64-bit counter does not wrap
    have hWrap : wrap64 (p.pushed + 1) = p.pushed + 1 := Nat.mod_eq_of_lt (by omega)
    have hPush : p.push slot =
        nextOrder { p with orderQueue := p.orderQueue ++ [slot], pushed := p.pushed + 1 } := by
      rw [Pipeline.push, tryPush, if_pos hFull]
      dsimp only
      rw [hWrap]
    rw [hPush]
    have hHand : (nextOrder { p with
        orderQueue := p.orderQueue ++ [slot], pushed := p.pushed + 1 }).producerHand = [] := by
      unfold nextOrder producerHand
      by_cases hMore : p.pushed + 1 < p.config.orderCount
      · rw [if_pos hMore]
      · rw [if_neg hMore]
    have hReady' : (nextOrder { p with
        orderQueue := p.orderQueue ++ [slot], pushed := p.pushed + 1 }).ready = [] := by
      unfold nextOrder ready
      by_cases hMore : p.pushed + 1 < p.config.orderCount
      · rw [if_pos hMore]
      · rw [if_neg hMore]
    exact
      { h with
        producerAt := producerAt_nextOrder hLt hDone
        consumerAt := h.consumerAt_congr rfl id fun hd => absurd hd (by simp [hDone])
        pushed_le := hLt
        places := by
          have hPlaces := List.perm_iff_count.mp h.places
          refine List.perm_iff_count.mpr fun q => ?_
          have hCount := hPlaces q
          rw [Pipeline.places, hHand]
          simp only [Pipeline.places, nextOrder, producerHand, consumerHand, resting, hPc,
            List.count_append, List.count_cons, List.count_nil] at hCount ⊢
          omega
        orders := by
          have hOrders := h.orders
          rw [onTheWay, hReady] at hOrders
          rw [onTheWay, hReady', List.append_nil]
          show p.generated = _ ++ List.map _ (p.popped ++ (p.orderQueue ++ [slot]))
          rw [hOrders, List.append_assoc]
          rfl
        length_eq := by
          have hLength := h.length_eq
          rw [hReady] at hLength
          rw [hReady']
          exact hLength }
  · have hPush : p.push slot = { p with producer := .drain (.pushWait slot) } := by
      rw [Pipeline.push, tryPush, if_neg hFull]
    rw [hPush]
    refine h.of_producer ⟨hLt, hDone⟩ ?_ ?_
    · simp [producerHand, hPc]
    · simp [ready, hPc]

theorem storeProducerDone (h : p.Inv config cap buf) (hPc : p.producer = .storeDone) :
    p.storeProducerDone.Inv config cap buf := by
  have hAt := h.producerAt
  rw [hPc] at hAt
  have hReady : p.ready = [] := by simp [ready, hPc]
  exact
    { h with
      producerAt := ⟨hAt.1, rfl⟩
      consumerAt := h.consumerAt_congr rfl (fun _ => rfl) fun _ => rfl
      places := by
        have hPlaces := h.places
        unfold Pipeline.places producerHand at hPlaces ⊢
        rw [hPc] at hPlaces
        exact hPlaces
      orders := by
        have hOrders := h.orders
        rw [onTheWay, hReady] at hOrders
        exact hOrders
      length_eq := by
        have hLength := h.length_eq
        rw [hReady] at hLength
        exact hLength }

theorem loadConsumerDone (h : p.Inv config cap buf) (hPc : p.producer = .loadDone) :
    p.loadConsumerDone.Inv config cap buf := by
  have hAt := h.producerAt
  rw [hPc] at hAt
  unfold Pipeline.loadConsumerDone
  by_cases hDone : p.consumerDone = true
  · rw [if_pos hDone]
    refine h.of_producer ⟨hAt.1, hAt.2, hDone⟩ ?_ ?_
    · simp [producerHand, hPc]
    · simp [ready, hPc]
  · rw [if_neg hDone]
    refine h.of_producer hAt ?_ ?_
    · simp [producerHand, hPc]
    · simp [ready, hPc]

/-- Every step of the producer keeps the invariant. -/
theorem producerStep (h : p.Inv config cap buf) {d : Draws} {now : UInt64} {p' : Pipeline}
    (hStep : p.producerStep d now = some p') : p'.Inv config cap buf := by
  unfold Pipeline.producerStep at hStep
  cases hPc : p.producer with
  | drain phase =>
      rw [hPc] at hStep
      exact Option.some.inj hStep ▸ h.drain hPc
  | deallocate phase ret =>
      rw [hPc] at hStep
      exact Option.some.inj hStep ▸ h.deallocate hPc
  | allocate =>
      rw [hPc] at hStep
      exact Option.some.inj hStep ▸ h.allocate hPc
  | generate slot =>
      rw [hPc] at hStep
      exact Option.some.inj hStep ▸ h.generate hPc d
  | stamp slot =>
      rw [hPc] at hStep
      exact Option.some.inj hStep ▸ h.stamp hPc now
  | push slot =>
      rw [hPc] at hStep
      exact Option.some.inj hStep ▸ h.push hPc
  | storeDone =>
      rw [hPc] at hStep
      exact Option.some.inj hStep ▸ h.storeProducerDone hPc
  | loadDone =>
      rw [hPc] at hStep
      exact Option.some.inj hStep ▸ h.loadConsumerDone hPc
  | exited =>
      rw [hPc] at hStep
      exact nomatch hStep

end Inv

end Pipeline

end MatchingMachine
