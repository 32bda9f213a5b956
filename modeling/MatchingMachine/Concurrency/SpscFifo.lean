import MatchingMachine.Model.SpscRingBuffer

/-!
# The ring is a bounded FIFO under any interleaving

Ghost positions tie the masked indices to the history: value number `j` of `head_` is
`j % 2 ^ k`, stored by pop number `j`, and likewise for `tail_` and the pushes.  What a side has
loaded last bounds the other side from its own point of view, however stale it is: the producer
never gets further than `capacity` ahead of the head it has seen, and the consumer never past the
tail it has seen.  `Inv` says so for every program counter of both threads; `perform_inv` is the
step lemma, `performAll_inv` the run lemma.
-/

namespace MatchingMachine

/-! ## Histories of masked counters -/

theorem AtomicIndex.current_of_history {a : AtomicIndex} {n c : Nat}
    (h : a.history = (List.range (n + 1)).map (· % c)) : a.current = n % c := by
  rw [AtomicIndex.history, List.range_succ, List.map_append] at h
  simpa using (List.append_inj' h rfl).2

theorem AtomicIndex.load_of_history {a : AtomicIndex} {n c seen j value : Nat}
    (h : a.history = (List.range (n + 1)).map (· % c)) (hLoad : a.load seen j = some value) :
    seen ≤ j ∧ j ≤ n ∧ value = j % c := by
  unfold AtomicIndex.load at hLoad
  split at hLoad
  · rename_i hSeen
    rw [h, List.getElem?_map, Option.map_eq_some_iff] at hLoad
    obtain ⟨i, hi, rfl⟩ := hLoad
    obtain ⟨hLt, rfl⟩ := List.getElem?_eq_some_iff.mp hi
    rw [List.length_range] at hLt
    exact ⟨hSeen, by omega, by simp⟩
  · cases hLoad

theorem AtomicIndex.history_store_mod {a : AtomicIndex} {n c : Nat}
    (h : a.history = (List.range (n + 1)).map (· % c)) :
    (a.store ((n + 1) % c)).history = (List.range (n + 1 + 1)).map (· % c) := by
  rw [AtomicIndex.history_store, h, List.range_succ (n := n + 1), List.map_append]
  rfl

namespace SpscRingBuffer

variable {α : Type} {k : Nat} {r r' : SpscRingBuffer α k}

/-- The next index, computed on the masked one. -/
theorem masked_succ (hk : k < 64) (r : SpscRingBuffer α k) (n : Nat) :
    r.masked (wrap64 (n % 2 ^ k + 1)) = (n + 1) % 2 ^ k := by
  rw [masked, Nat.and_two_pow_sub_one_eq_mod, TradeRingBuffer.wrap64_mod hk, Nat.mod_add_mod]

/-! ## The steps -/

theorem tryPush_cases {item : α} (h : r.tryPush item = some r') :
    r.producer = .idle ∧
      r' = { r with
        producer := .loadHead item r.tail.current (r.masked (wrap64 (r.tail.current + 1))) } := by
  unfold tryPush at h
  split at h
  · rename_i hPc
    exact ⟨hPc, (Option.some.inj h).symm⟩
  · cases h

theorem loadHead_cases {j : Nat} (h : r.loadHead j = some r') :
    ∃ item tail nextTail head, r.producer = .loadHead item tail nextTail ∧
      r.head.load r.headSeen j = some head ∧
      (nextTail = head ∧ r' = { r with headSeen := j, producer := .idle } ∨
        nextTail ≠ head ∧
          r' = { r with headSeen := j, producer := .writeSlot item tail nextTail }) := by
  unfold loadHead at h
  split at h
  · rename_i item tail nextTail hPc
    obtain ⟨head, hLoad, hNext⟩ := Option.bind_eq_some_iff.mp h
    refine ⟨item, tail, nextTail, head, hPc, hLoad, ?_⟩
    by_cases hFull : nextTail = head
    · rw [if_pos hFull] at hNext
      exact Or.inl ⟨hFull, (Option.some.inj hNext).symm⟩
    · rw [if_neg hFull] at hNext
      exact Or.inr ⟨hFull, (Option.some.inj hNext).symm⟩
  · cases h

theorem writeSlot_cases (h : r.writeSlot = some r') :
    ∃ item tail nextTail, r.producer = .writeSlot item tail nextTail ∧
      r' = { r with
        buffer := Function.update r.buffer tail item
        producer := .storeTail item tail nextTail } := by
  unfold writeSlot at h
  split at h
  · rename_i item tail nextTail hPc
    exact ⟨item, tail, nextTail, hPc, (Option.some.inj h).symm⟩
  · cases h

theorem storeTail_cases (h : r.storeTail = some r') :
    ∃ item tail nextTail, r.producer = .storeTail item tail nextTail ∧
      r' = { r with
        tail := r.tail.store nextTail
        producer := .idle
        pushes := r.pushes ++ [(tail, item)] } := by
  unfold storeTail at h
  split at h
  · rename_i item tail nextTail hPc
    exact ⟨item, tail, nextTail, hPc, (Option.some.inj h).symm⟩
  · cases h

theorem tryPop_cases (h : r.tryPop = some r') :
    r.consumer = .idle ∧ r' = { r with consumer := .loadTail r.head.current } := by
  unfold tryPop at h
  split at h
  · rename_i hPc
    exact ⟨hPc, (Option.some.inj h).symm⟩
  · cases h

theorem loadTail_cases {j : Nat} (h : r.loadTail j = some r') :
    ∃ head tail, r.consumer = .loadTail head ∧ r.tail.load r.tailSeen j = some tail ∧
      (head = tail ∧ r' = { r with tailSeen := j, consumer := .idle } ∨
        head ≠ tail ∧ r' = { r with tailSeen := j, consumer := .readSlot head }) := by
  unfold loadTail at h
  split at h
  · rename_i head hPc
    obtain ⟨tail, hLoad, hNext⟩ := Option.bind_eq_some_iff.mp h
    refine ⟨head, tail, hPc, hLoad, ?_⟩
    by_cases hEmpty : head = tail
    · rw [if_pos hEmpty] at hNext
      exact Or.inl ⟨hEmpty, (Option.some.inj hNext).symm⟩
    · rw [if_neg hEmpty] at hNext
      exact Or.inr ⟨hEmpty, (Option.some.inj hNext).symm⟩
  · cases h

theorem readSlot_cases (h : r.readSlot = some r') :
    ∃ head, r.consumer = .readSlot head ∧
      r' = { r with
        consumer := .storeHead head (r.buffer head)
        reads := r.reads ++ [(head, r.buffer head)] } := by
  unfold readSlot at h
  split at h
  · rename_i head hPc
    exact ⟨head, hPc, (Option.some.inj h).symm⟩
  · cases h

theorem storeHead_cases (h : r.storeHead = some r') :
    ∃ head item, r.consumer = .storeHead head item ∧
      r' = { r with
        head := r.head.store (r.masked (wrap64 (head + 1)))
        consumer := .idle
        pops := r.pops ++ [item] } := by
  unfold storeHead at h
  split at h
  · rename_i head item hPc
    exact ⟨head, item, hPc, (Option.some.inj h).symm⟩
  · cases h

/-! ## The invariant -/

/-- What the producer's locals are: `n` values have been pushed. -/
def ProducerAt (r : SpscRingBuffer α k) : ProducerPc α → Prop
  | .idle => True
  | .loadHead _ tail nextTail =>
      tail = r.pushes.length % 2 ^ k ∧ nextTail = (r.pushes.length + 1) % 2 ^ k
  | .writeSlot _ tail nextTail =>
      tail = r.pushes.length % 2 ^ k ∧ nextTail = (r.pushes.length + 1) % 2 ^ k ∧
        r.pushes.length + 1 < r.headSeen + 2 ^ k
  | .storeTail item tail nextTail =>
      tail = r.pushes.length % 2 ^ k ∧ nextTail = (r.pushes.length + 1) % 2 ^ k ∧
        r.pushes.length + 1 < r.headSeen + 2 ^ k ∧ r.buffer tail = item

/-- What the consumer's locals are. -/
def ConsumerAt (r : SpscRingBuffer α k) : ConsumerPc α → Prop
  | .idle => r.reads.length = r.pops.length
  | .loadTail head => head = r.pops.length % 2 ^ k ∧ r.reads.length = r.pops.length
  | .readSlot head =>
      head = r.pops.length % 2 ^ k ∧ r.reads.length = r.pops.length ∧ r.pops.length < r.tailSeen
  | .storeHead head item =>
      head = r.pops.length % 2 ^ k ∧ r.reads.map Prod.snd = r.pops ++ [item] ∧
        r.pops.length < r.tailSeen

structure Inv (r : SpscRingBuffer α k) : Prop where
  head_history : r.head.history = (List.range (r.pops.length + 1)).map (· % 2 ^ k)
  tail_history : r.tail.history = (List.range (r.pushes.length + 1)).map (· % 2 ^ k)
  headSeen_le : r.headSeen ≤ r.pops.length
  tailSeen_le : r.tailSeen ≤ r.pushes.length
  pops_le : r.pops.length ≤ r.tailSeen
  pushes_lt : r.pushes.length < r.headSeen + 2 ^ k
  slots : ∀ i (h : i < r.pushes.length), r.pushes[i].1 = i % 2 ^ k
  unread_eq : ∀ i (h : i < r.pushes.length), r.reads.length ≤ i →
    r.buffer (i % 2 ^ k) = r.pushes[i].2
  reads_prefix : r.reads <+: r.pushes
  pops_prefix : r.pops <+: r.reads.map Prod.snd
  producer : r.ProducerAt r.producer
  consumer : r.ConsumerAt r.consumer

theorem inv_new (buffer : Nat → α) : Inv ({ buffer := buffer } : SpscRingBuffer α k) where
  head_history := by simp [AtomicIndex.history]
  tail_history := by simp [AtomicIndex.history]
  headSeen_le := le_rfl
  tailSeen_le := le_rfl
  pops_le := le_rfl
  pushes_lt := by simp
  slots i h := absurd h (Nat.not_lt_zero i)
  unread_eq i h := absurd h (Nat.not_lt_zero i)
  reads_prefix := List.prefix_rfl
  pops_prefix := List.prefix_rfl
  producer := trivial
  consumer := rfl

theorem Inv.pops_le_reads (h : r.Inv) : r.pops.length ≤ r.reads.length := by
  simpa using h.pops_prefix.length_le

theorem Inv.tryPush (hk : k < 64) (h : r.Inv) {item : α} (hStep : r.tryPush item = some r') :
    r'.Inv := by
  obtain ⟨-, rfl⟩ := tryPush_cases hStep
  have hTail := AtomicIndex.current_of_history h.tail_history
  refine { h with producer := ⟨hTail, ?_⟩ }
  rw [hTail]
  exact masked_succ hk r _

/-- The producer finds the ring full exactly if it is so by the head it has loaded. -/
theorem Inv.loadHead_spec (h : r.Inv) {j : Nat} {item : α} {tail nextTail head : Nat}
    (hPc : r.producer = .loadHead item tail nextTail)
    (hLoad : r.head.load r.headSeen j = some head) :
    r.headSeen ≤ j ∧ j ≤ r.pops.length ∧
      (nextTail = head ↔ r.pushes.length + 1 = j + 2 ^ k) := by
  obtain ⟨hSeen, hj, rfl⟩ := AtomicIndex.load_of_history h.head_history hLoad
  have hProducer := h.producer
  rw [hPc] at hProducer
  obtain ⟨-, rfl⟩ := hProducer
  have hLt := h.pushes_lt
  have hPops := h.pops_le
  have hTail := h.tailSeen_le
  refine ⟨hSeen, hj, fun hEq => ?_, fun hEq => ?_⟩
  · by_contra hNe
    exact TradeRingBuffer.mod_ne_of_lt (i := j) (n := r.pushes.length + 1) (by omega) (by omega)
      hEq.symm
  · rw [hEq, Nat.add_mod_right]

theorem Inv.loadHead (h : r.Inv) {j : Nat} (hStep : r.loadHead j = some r') : r'.Inv := by
  obtain ⟨item, tail, nextTail, head, hPc, hLoad, hNext⟩ := loadHead_cases hStep
  obtain ⟨hSeen, hj, hFull⟩ := h.loadHead_spec hPc hLoad
  have hLt := h.pushes_lt
  have hProducer := h.producer
  rw [hPc] at hProducer
  rcases hNext with ⟨-, rfl⟩ | ⟨hNe, rfl⟩
  · exact { h with
      headSeen_le := hj
      pushes_lt := show r.pushes.length < j + 2 ^ k by omega
      producer := trivial }
  · have hRoom : r.pushes.length + 1 ≠ j + 2 ^ k := fun hEq => hNe (hFull.mpr hEq)
    exact { h with
      headSeen_le := hj
      pushes_lt := show r.pushes.length < j + 2 ^ k by omega
      producer := ⟨hProducer.1, hProducer.2, show r.pushes.length + 1 < j + 2 ^ k by omega⟩ }

/-- The producer writes to no slot that holds an unread value. -/
theorem Inv.writeSlot_spec (h : r.Inv) {item : α} {tail nextTail : Nat}
    (hPc : r.producer = .writeSlot item tail nextTail) {i : Nat} (hi : i < r.pushes.length)
    (hUnread : r.reads.length ≤ i) : i % 2 ^ k ≠ tail := by
  have hProducer := h.producer
  rw [hPc] at hProducer
  obtain ⟨rfl, -, hRoom⟩ := hProducer
  have hSeen := h.headSeen_le
  have hReads := h.pops_le_reads
  exact TradeRingBuffer.mod_ne_of_lt hi (by omega)

theorem Inv.writeSlot (h : r.Inv) (hStep : r.writeSlot = some r') : r'.Inv := by
  obtain ⟨item, tail, nextTail, hPc, rfl⟩ := writeSlot_cases hStep
  have hProducer := h.producer
  rw [hPc] at hProducer
  obtain ⟨hTail, hNext, hRoom⟩ := hProducer
  refine { h with
    unread_eq := fun i hi hUnread => ?_
    producer := ⟨hTail, hNext, hRoom, Function.update_self ..⟩ }
  show Function.update r.buffer tail item (i % 2 ^ k) = _
  rw [Function.update_of_ne (h.writeSlot_spec hPc hi hUnread)]
  exact h.unread_eq i hi hUnread

theorem Inv.storeTail (h : r.Inv) (hStep : r.storeTail = some r') : r'.Inv := by
  obtain ⟨item, tail, nextTail, hPc, rfl⟩ := storeTail_cases hStep
  have hProducer := h.producer
  rw [hPc] at hProducer
  obtain ⟨hTail, rfl, hRoom, hBuffer⟩ := hProducer
  have hLength : (r.pushes ++ [(tail, item)]).length = r.pushes.length + 1 :=
    List.length_append
  have hReads := h.reads_prefix.length_le
  have hSeen := h.tailSeen_le
  refine { h with
    tail_history := ?_
    tailSeen_le := ?_
    pushes_lt := ?_
    slots := fun i hi => ?_
    unread_eq := fun i hi hUnread => ?_
    reads_prefix := h.reads_prefix.trans (List.prefix_append ..)
    producer := trivial }
  · show (r.tail.store _).history = _
    rw [AtomicIndex.history_store_mod h.tail_history]
    exact congrArg (fun n => (List.range (n + 1)).map (· % 2 ^ k)) hLength.symm
  · show r.tailSeen ≤ (r.pushes ++ [(tail, item)]).length
    omega
  · show (r.pushes ++ [(tail, item)]).length < r.headSeen + 2 ^ k
    omega
  · show (r.pushes ++ [(tail, item)])[i].1 = i % 2 ^ k
    rcases Nat.lt_succ_iff_lt_or_eq.mp (hLength ▸ hi) with hLt | rfl
    · rw [List.getElem_append_left hLt]
      exact h.slots i hLt
    · simp [hTail]
  · show r.buffer (i % 2 ^ k) = (r.pushes ++ [(tail, item)])[i].2
    rcases Nat.lt_succ_iff_lt_or_eq.mp (hLength ▸ hi) with hLt | rfl
    · rw [List.getElem_append_left hLt]
      exact h.unread_eq i hLt hUnread
    · rw [← hTail, hBuffer]
      simp

theorem Inv.tryPop (h : r.Inv) (hStep : r.tryPop = some r') : r'.Inv := by
  obtain ⟨hPc, rfl⟩ := tryPop_cases hStep
  have hConsumer := h.consumer
  rw [hPc] at hConsumer
  exact { h with consumer := ⟨AtomicIndex.current_of_history h.head_history, hConsumer⟩ }

/-- The consumer finds the ring empty exactly if it is so by the tail it has loaded. -/
theorem Inv.loadTail_spec (h : r.Inv) {j head tail : Nat} (hPc : r.consumer = .loadTail head)
    (hLoad : r.tail.load r.tailSeen j = some tail) :
    r.tailSeen ≤ j ∧ j ≤ r.pushes.length ∧ (head = tail ↔ j = r.pops.length) := by
  obtain ⟨hSeen, hj, rfl⟩ := AtomicIndex.load_of_history h.tail_history hLoad
  have hConsumer := h.consumer
  rw [hPc] at hConsumer
  obtain ⟨rfl, -⟩ := hConsumer
  have hLt := h.pushes_lt
  have hPops := h.pops_le
  have hHead := h.headSeen_le
  refine ⟨hSeen, hj, fun hEq => ?_, fun hEq => by rw [hEq]⟩
  by_contra hNe
  exact TradeRingBuffer.mod_ne_of_lt (i := r.pops.length) (n := j) (by omega) (by omega) hEq

theorem Inv.loadTail (h : r.Inv) {j : Nat} (hStep : r.loadTail j = some r') : r'.Inv := by
  obtain ⟨head, tail, hPc, hLoad, hNext⟩ := loadTail_cases hStep
  obtain ⟨hSeen, hj, hEmpty⟩ := h.loadTail_spec hPc hLoad
  have hPops := h.pops_le
  have hConsumer := h.consumer
  rw [hPc] at hConsumer
  rcases hNext with ⟨-, rfl⟩ | ⟨hNe, rfl⟩
  · exact { h with
      tailSeen_le := hj
      pops_le := hPops.trans hSeen
      consumer := hConsumer.2 }
  · have hMore : j ≠ r.pops.length := fun hEq => hNe (hEmpty.mpr hEq)
    exact { h with
      tailSeen_le := hj
      pops_le := hPops.trans hSeen
      consumer := ⟨hConsumer.1, hConsumer.2, show r.pops.length < j by omega⟩ }

theorem Inv.readSlot (h : r.Inv) (hStep : r.readSlot = some r') : r'.Inv := by
  obtain ⟨head, hPc, rfl⟩ := readSlot_cases hStep
  have hConsumer := h.consumer
  rw [hPc] at hConsumer
  obtain ⟨hHead, hReads, hMore⟩ := hConsumer
  have hSeen := h.tailSeen_le
  have hLt : r.reads.length < r.pushes.length := by omega
  -- the slot holds what the next unread push has published
  have hNext : r.pushes[r.reads.length] = (head, r.buffer head) := by
    have hSlot := h.slots _ hLt
    have hValue := h.unread_eq _ hLt le_rfl
    rw [← hReads] at hHead
    rw [← hHead] at hSlot hValue
    exact Prod.ext hSlot hValue.symm
  have hPrefix : r.reads ++ [(head, r.buffer head)] <+: r.pushes := by
    have hTake := List.take_append_getElem hLt
    rw [hNext, ← List.prefix_iff_eq_take.mp h.reads_prefix] at hTake
    rw [hTake]
    exact List.take_prefix ..
  have hPops : r.reads.map Prod.snd = r.pops :=
    (h.pops_prefix.eq_of_length (by rw [List.length_map, hReads])).symm
  refine { h with
    unread_eq := fun i hi hUnread => h.unread_eq i hi ?_
    reads_prefix := hPrefix
    pops_prefix := ?_
    consumer := ⟨hHead, ?_, hMore⟩ }
  · have hLength : (r.reads ++ [(head, r.buffer head)]).length ≤ i := hUnread
    rw [List.length_append] at hLength
    omega
  · show r.pops <+: (r.reads ++ _).map Prod.snd
    rw [List.map_append]
    exact h.pops_prefix.trans (List.prefix_append ..)
  · show (r.reads ++ _).map Prod.snd = _
    rw [List.map_append, hPops]
    rfl

theorem Inv.storeHead (hk : k < 64) (h : r.Inv) (hStep : r.storeHead = some r') : r'.Inv := by
  obtain ⟨head, item, hPc, rfl⟩ := storeHead_cases hStep
  have hConsumer := h.consumer
  rw [hPc] at hConsumer
  obtain ⟨rfl, hReads, hMore⟩ := hConsumer
  have hLength : (r.pops ++ [item]).length = r.pops.length + 1 := List.length_append
  have hSeen := h.headSeen_le
  refine { h with
    head_history := ?_
    headSeen_le := ?_
    pops_le := ?_
    pops_prefix := ?_
    consumer := ?_ }
  · show (r.head.store _).history = _
    rw [masked_succ hk, AtomicIndex.history_store_mod h.head_history]
    exact congrArg (fun n => (List.range (n + 1)).map (· % 2 ^ k)) hLength.symm
  · show r.headSeen ≤ (r.pops ++ [item]).length
    omega
  · show (r.pops ++ [item]).length ≤ r.tailSeen
    omega
  · show r.pops ++ [item] <+: r.reads.map Prod.snd
    rw [hReads]
  · show r.reads.length = (r.pops ++ [item]).length
    rw [← hReads, List.length_map]

/-- Every step of either thread keeps the invariant. -/
theorem perform_inv (hk : k < 64) (h : r.Inv) {a : SpscAction α} (hStep : r.perform a = some r') :
    r'.Inv := by
  cases a with
  | tryPush item => exact h.tryPush hk hStep
  | loadHead j => exact h.loadHead hStep
  | writeSlot => exact h.writeSlot hStep
  | storeTail => exact h.storeTail hStep
  | tryPop => exact h.tryPop hStep
  | loadTail j => exact h.loadTail hStep
  | readSlot => exact h.readSlot hStep
  | storeHead => exact h.storeHead hk hStep

theorem performAll_inv (hk : k < 64) (h : r.Inv) {actions : List (SpscAction α)}
    (hRun : r.performAll actions = some r') : r'.Inv := by
  induction actions generalizing r with
  | nil =>
      cases hRun
      exact h
  | cons a actions ih =>
      obtain ⟨next, hStep, hRest⟩ := Option.bind_eq_some_iff.mp hRun
      exact ih (perform_inv hk h hStep) hRest

/-! ## The queue it implements -/

/-- The values in the ring, oldest first. -/
def contents (r : SpscRingBuffer α k) : List α := (r.pushes.map Prod.snd).drop r.pops.length

theorem Inv.pops_prefix_pushes (h : r.Inv) : r.pops <+: r.pushes.map Prod.snd :=
  h.pops_prefix.trans (h.reads_prefix.map _)

theorem Inv.pushes_eq (h : r.Inv) : r.pushes.map Prod.snd = r.pops ++ r.contents :=
  (List.prefix_iff_eq_append.mp h.pops_prefix_pushes).symm

theorem Inv.length_contents (h : r.Inv) :
    r.contents.length + r.pops.length = r.pushes.length := by
  have hPops := h.pops_prefix_pushes.length_le
  rw [List.length_map] at hPops
  rw [contents, List.length_drop, List.length_map]
  omega

theorem Inv.storeTail_contents (h : r.Inv) {item : α} {tail nextTail : Nat}
    (hPc : r.producer = .storeTail item tail nextTail) (hStep : r.storeTail = some r') :
    r'.contents = r.contents ++ [item] ∧ r.contents.length < r.capacity := by
  obtain ⟨item', tail', nextTail', hPc', rfl⟩ := storeTail_cases hStep
  obtain ⟨rfl, rfl, rfl⟩ := ProducerPc.storeTail.inj (hPc.symm.trans hPc')
  have hProducer := h.producer
  rw [hPc] at hProducer
  have hRoom := hProducer.2.2.1
  have hSeen := h.headSeen_le
  have hLength := h.length_contents
  have hPops := h.pops_prefix_pushes.length_le
  constructor
  · show ((r.pushes ++ [(tail, item)]).map Prod.snd).drop r.pops.length = _
    rw [List.map_append, List.drop_append_of_le_length hPops]
    rfl
  · rw [capacity]
    omega

theorem Inv.storeHead_contents (hk : k < 64) (h : r.Inv) {head : Nat} {item : α}
    (hPc : r.consumer = .storeHead head item) (hStep : r.storeHead = some r') :
    r.contents = item :: r'.contents := by
  have hBefore := h.pushes_eq
  have hAfter := (h.storeHead hk hStep).pushes_eq
  obtain ⟨head', item', hPc', rfl⟩ := storeHead_cases hStep
  obtain ⟨-, rfl⟩ := ConsumerPc.storeHead.inj (hPc.symm.trans hPc')
  have hPushes : r.pushes.map Prod.snd = r.pops ++ [item] ++ _ := hAfter
  rw [hBefore, List.append_assoc] at hPushes
  exact List.append_cancel_left hPushes

/-- A bounded queue takes a step: none, a push with room left, or a pop. -/
inductive FifoStep (capacity : Nat) : List α → List α → Prop
  | stay (q : List α) : FifoStep capacity q q
  | push (q : List α) (item : α) (hRoom : q.length < capacity) : FifoStep capacity q (q ++ [item])
  | pop (item : α) (q : List α) : FifoStep capacity (item :: q) q

/-- A step of a thread is a step of a bounded queue: the store of `tail_` is the push and the
store of `head_` is the pop. -/
theorem perform_refines (hk : k < 64) (h : r.Inv) {a : SpscAction α}
    (hStep : r.perform a = some r') : FifoStep r.capacity r.contents r'.contents := by
  cases a with
  | tryPush item =>
      obtain ⟨-, rfl⟩ := tryPush_cases hStep
      exact .stay _
  | loadHead j =>
      obtain ⟨_, _, _, _, -, -, ⟨-, rfl⟩ | ⟨-, rfl⟩⟩ := loadHead_cases hStep
      · exact .stay _
      · exact .stay _
  | writeSlot =>
      obtain ⟨_, _, _, -, rfl⟩ := writeSlot_cases hStep
      exact .stay _
  | storeTail =>
      obtain ⟨item, tail, nextTail, hPc, -⟩ := storeTail_cases hStep
      obtain ⟨hContents, hRoom⟩ := h.storeTail_contents hPc hStep
      rw [hContents]
      exact .push _ item hRoom
  | tryPop =>
      obtain ⟨-, rfl⟩ := tryPop_cases hStep
      exact .stay _
  | loadTail j =>
      obtain ⟨_, _, -, -, ⟨-, rfl⟩ | ⟨-, rfl⟩⟩ := loadTail_cases hStep
      · exact .stay _
      · exact .stay _
  | readSlot =>
      obtain ⟨_, -, rfl⟩ := readSlot_cases hStep
      exact .stay _
  | storeHead =>
      obtain ⟨head, item, hPc, -⟩ := storeHead_cases hStep
      rw [h.storeHead_contents hk hPc hStep]
      exact .pop item _

/-- The ring is a bounded FIFO.  After every interleaving of the steps of one producer and one
consumer on a new ring, with loads of the other side's index as stale as they may be: the values
popped are a prefix of the values pushed; each read has taken from its slot what the push had
published there, and the slot the producer is about to write holds no unread value; at most
`capacity` values are in the ring; `try_push` and `try_pop` return false exactly if the ring
was full, or empty, by the value of the other side's index they have loaded; and any further step
does to the contents what a step of a bounded queue does. -/
theorem boundedFifo (hk : k < 64) (buffer : Nat → α) {actions : List (SpscAction α)}
    (hRun : ({ buffer := buffer } : SpscRingBuffer α k).performAll actions = some r) :
    r.pops <+: r.pushes.map Prod.snd ∧
      r.reads <+: r.pushes ∧
      (∀ e ∈ r.unread, r.buffer e.1 = e.2) ∧
      (∀ item tail nextTail, r.producer = .writeSlot item tail nextTail →
        ∀ e ∈ r.unread, e.1 ≠ tail) ∧
      r.size ≤ r.capacity ∧
      (∀ j r', r.loadHead j = some r' → j ≤ r.pops.length ∧
        (r'.producer = .idle ↔ r.pushes.length = j + r.capacity)) ∧
      (∀ j r', r.loadTail j = some r' → j ≤ r.pushes.length ∧
        (r'.consumer = .idle ↔ j = r.pops.length)) ∧
      ∀ a r', r.perform a = some r' → FifoStep r.capacity r.contents r'.contents := by
  have h : r.Inv := performAll_inv hk (inv_new buffer) hRun
  have hPow : 0 < 2 ^ k := Nat.two_pow_pos k
  -- an unread value is a pushed one, at the slot of its position
  have hUnread : ∀ e ∈ r.unread, ∃ (i : Nat) (hi : i < r.pushes.length),
      r.reads.length ≤ i ∧ e = r.pushes[i] := by
    intro e he
    obtain ⟨i, hi, rfl⟩ := List.mem_iff_getElem.mp he
    rw [unread, List.length_drop] at hi
    refine ⟨r.reads.length + i, by omega, Nat.le_add_right .., ?_⟩
    exact List.getElem_drop ..
  refine ⟨h.pops_prefix_pushes, h.reads_prefix, ?_, ?_, ?_, ?_, ?_,
    fun a r' hStep => perform_refines hk h hStep⟩
  · intro e he
    obtain ⟨i, hi, hLe, rfl⟩ := hUnread e he
    rw [h.slots i hi]
    exact h.unread_eq i hi hLe
  · intro item tail nextTail hPc e he
    obtain ⟨i, hi, hLe, rfl⟩ := hUnread e he
    rw [h.slots i hi]
    exact h.writeSlot_spec hPc hi hLe
  · have hLt := h.pushes_lt
    have hSeen := h.headSeen_le
    unfold size capacity
    omega
  · intro j r' hStep
    obtain ⟨item, tail, nextTail, head, hPc, hLoad, hNext⟩ := loadHead_cases hStep
    obtain ⟨-, hj, hFull⟩ := h.loadHead_spec hPc hLoad
    have hCount : r.pushes.length = j + r.capacity ↔ nextTail = head := by
      rw [hFull, capacity]
      omega
    refine ⟨hj, ?_⟩
    rw [hCount]
    rcases hNext with ⟨hEq, rfl⟩ | ⟨hNe, rfl⟩
    · exact iff_of_true rfl hEq
    · exact iff_of_false (by simp) hNe
  · intro j r' hStep
    obtain ⟨head, tail, hPc, hLoad, hNext⟩ := loadTail_cases hStep
    obtain ⟨-, hj, hEmpty⟩ := h.loadTail_spec hPc hLoad
    refine ⟨hj, ?_⟩
    rw [← hEmpty]
    rcases hNext with ⟨hEq, rfl⟩ | ⟨hNe, rfl⟩
    · exact iff_of_true rfl hEq
    · exact iff_of_false (by simp) hNe

/-- A ring of two slots: one push and its pop, interleaved with a push that finds the ring full by
an old head, and one that does not. -/
theorem boundedFifo_short_run :
    ∃ r : SpscRingBuffer Nat 1, r.pushes = [(0, 7), (1, 8)] ∧ r.pops = [7] ∧
      r.size ≤ r.capacity := by
  let actions : List (SpscAction Nat) :=
    [.tryPush 7, .loadHead 0, .writeSlot, .storeTail, .tryPush 8, .tryPop, .loadTail 1, .readSlot,
      .loadHead 0, .storeHead, .tryPush 8, .loadHead 1, .writeSlot, .storeTail]
  have hSeen : (({ buffer := fun _ => 0 } : SpscRingBuffer Nat 1).performAll actions).map
      (fun r => (r.pushes, r.pops)) = some ([(0, 7), (1, 8)], [7]) := by decide +kernel
  obtain ⟨r, hRun, hEq⟩ := Option.map_eq_some_iff.mp hSeen
  obtain ⟨hPushes, hPops⟩ := Prod.mk.inj hEq
  exact ⟨r, hPushes, hPops, (boundedFifo (by decide) (fun _ => 0) hRun).2.2.2.2.1⟩

end SpscRingBuffer

end MatchingMachine
