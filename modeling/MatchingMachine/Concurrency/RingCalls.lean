import MatchingMachine.Concurrency.SpscFifo
import MatchingMachine.Model.RingPipeline

/-!
# What a step of a call does to the ring

A call of `try_push` or `try_pop` changes the contents with its last step only, and only where it
succeeds.  A failed call says no more than that the ring was full, or empty, by an index that may
be old.  A consumer that has seen all pushes gets the truth: `popStep_accurate`.
-/

namespace MatchingMachine

namespace SpscRingBuffer

variable {α : Type} {k : Nat} {r r' : SpscRingBuffer α k}

/-- The item of the call of `try_push` in progress. -/
def pushing (r : SpscRingBuffer α k) : Option α :=
  match r.producer with
  | .idle => none
  | .loadHead item _ _ => some item
  | .writeSlot item _ _ => some item
  | .storeTail item _ _ => some item

/-- A call of `try_pop` is in progress. -/
def popping (r : SpscRingBuffer α k) : Bool :=
  match r.consumer with
  | .idle => false
  | _ => true

/-- Nobody is in a call, and the ring is empty. -/
structure Rested (r : SpscRingBuffer α k) : Prop where
  inv : r.Inv
  pushing_eq : r.pushing = none
  popping_eq : r.popping = false
  contents_eq : r.contents = []

theorem rested_new (buffer : Nat → α) : Rested ({ buffer := buffer } : SpscRingBuffer α k) where
  inv := inv_new buffer
  pushing_eq := rfl
  popping_eq := rfl
  contents_eq := rfl

/-! ## The consumer learns of pushes -/

theorem Inv.acquire (h : r.Inv) {n : Nat} (hLe : n ≤ r.pushes.length) : (r.acquire n).Inv := by
  have hTail := h.tailSeen_le
  have hPops := h.pops_le
  have hConsumer := h.consumer
  refine { h with
    tailSeen_le := Nat.max_le.mpr ⟨hTail, hLe⟩
    pops_le := hPops.trans (Nat.le_max_left ..)
    consumer := ?_ }
  show ConsumerAt _ r.consumer
  cases hPc : r.consumer with
  | idle =>
      rw [hPc] at hConsumer
      exact hConsumer
  | loadTail head =>
      rw [hPc] at hConsumer
      exact hConsumer
  | readSlot head =>
      rw [hPc] at hConsumer
      exact ⟨hConsumer.1, hConsumer.2.1, hConsumer.2.2.trans_le (Nat.le_max_left ..)⟩
  | storeHead head item =>
      rw [hPc] at hConsumer
      exact ⟨hConsumer.1, hConsumer.2.1, hConsumer.2.2.trans_le (Nat.le_max_left ..)⟩

theorem Inv.acquire_all (h : r.Inv) : (r.acquire r.pushes.length).tailSeen = r.pushes.length :=
  Nat.max_eq_right h.tailSeen_le

/-! ## Steps of calls -/

/-- What a step of a call of `try_push(item)` does. -/
structure Pushed (r : SpscRingBuffer α k) (item : α) (r' : SpscRingBuffer α k)
    (result : Option Bool) : Prop where
  inv : r'.Inv
  popping_eq : r'.popping = r.popping
  tailSeen_eq : r'.tailSeen = r.tailSeen
  pushing_eq : r'.pushing = if result = none then some item else none
  contents_eq : r'.contents = if result = some true then r.contents ++ [item] else r.contents
  pushes_eq : result ≠ some true → r'.pushes = r.pushes
  room : result = some true → r.contents.length < r.capacity

theorem Inv.pushStep (hk : k < 64) (h : r.Inv) {item : α} {j : Nat} {result : Option Bool}
    (hCall : r.pushing = none ∨ r.pushing = some item)
    (hStep : r.pushStep item j = some (r', result)) : Pushed r item r' result := by
  unfold SpscRingBuffer.pushStep at hStep
  cases hPc : r.producer with
  | idle =>
      rw [hPc] at hStep
      obtain ⟨next, hNext, hEq⟩ := Option.map_eq_some_iff.mp hStep
      obtain ⟨rfl, rfl⟩ := Prod.mk.inj hEq
      have hInv := h.tryPush hk hNext
      obtain ⟨-, rfl⟩ := tryPush_cases hNext
      exact ⟨hInv, rfl, rfl, rfl, rfl, fun _ => rfl, nofun⟩
  | loadHead item' tail nextTail =>
      rw [hPc] at hStep
      obtain rfl : item' = item := by simpa [pushing, hPc] using hCall
      obtain ⟨next, hNext, hEq⟩ := Option.map_eq_some_iff.mp hStep
      have hInv := h.loadHead hNext
      obtain ⟨item₁, tail₁, nextTail₁, head, hPc₁, -, hCase⟩ := loadHead_cases hNext
      obtain ⟨rfl, rfl, rfl⟩ := ProducerPc.loadHead.inj (hPc.symm.trans hPc₁)
      -- the head that was read may be old: the call fails or goes on, and the ring stays as it is
      rcases hCase with ⟨-, rfl⟩ | ⟨-, rfl⟩
      · obtain ⟨rfl, rfl⟩ := Prod.mk.inj hEq
        exact ⟨hInv, rfl, rfl, rfl, rfl, fun _ => rfl, nofun⟩
      · obtain ⟨rfl, rfl⟩ := Prod.mk.inj hEq
        exact ⟨hInv, rfl, rfl, rfl, rfl, fun _ => rfl, nofun⟩
  | writeSlot item' tail nextTail =>
      rw [hPc] at hStep
      obtain rfl : item' = item := by simpa [pushing, hPc] using hCall
      obtain ⟨next, hNext, hEq⟩ := Option.map_eq_some_iff.mp hStep
      obtain ⟨rfl, rfl⟩ := Prod.mk.inj hEq
      have hInv := h.writeSlot hNext
      obtain ⟨item₁, tail₁, nextTail₁, hPc₁, rfl⟩ := writeSlot_cases hNext
      obtain ⟨rfl, rfl, rfl⟩ := ProducerPc.writeSlot.inj (hPc.symm.trans hPc₁)
      exact ⟨hInv, rfl, rfl, rfl, rfl, fun _ => rfl, nofun⟩
  -- the store of the tail is the step that pushes
  | storeTail item' tail nextTail =>
      rw [hPc] at hStep
      obtain rfl : item' = item := by simpa [pushing, hPc] using hCall
      obtain ⟨next, hNext, hEq⟩ := Option.map_eq_some_iff.mp hStep
      obtain ⟨rfl, rfl⟩ := Prod.mk.inj hEq
      have hInv := h.storeTail hNext
      obtain ⟨hContents, hRoom⟩ := h.storeTail_contents hPc hNext
      obtain ⟨_, _, _, _, rfl⟩ := storeTail_cases hNext
      exact ⟨hInv, rfl, rfl, rfl, hContents, fun hNe => absurd rfl hNe, fun _ => hRoom⟩

/-- What a step of a call of `try_pop` does. -/
structure Popped (r r' : SpscRingBuffer α k) (result : Option (Option α)) : Prop where
  inv : r'.Inv
  pushing_eq : r'.pushing = r.pushing
  pushes_eq : r'.pushes = r.pushes
  tailSeen_le : r.tailSeen ≤ r'.tailSeen
  popping_eq : r'.popping = result.isNone
  contents_eq : r.contents = result.join.toList ++ r'.contents
  empty : result = some none → r'.tailSeen = r'.pops.length

theorem Inv.popStep (hk : k < 64) (h : r.Inv) {j : Nat} {result : Option (Option α)}
    (hStep : r.popStep j = some (r', result)) : Popped r r' result := by
  unfold SpscRingBuffer.popStep at hStep
  cases hPc : r.consumer with
  | idle =>
      rw [hPc] at hStep
      obtain ⟨next, hNext, hEq⟩ := Option.map_eq_some_iff.mp hStep
      obtain ⟨rfl, rfl⟩ := Prod.mk.inj hEq
      have hInv := h.tryPop hNext
      obtain ⟨-, rfl⟩ := tryPop_cases hNext
      exact ⟨hInv, rfl, rfl, le_rfl, rfl, rfl, nofun⟩
  | loadTail head =>
      rw [hPc] at hStep
      obtain ⟨next, hNext, hEq⟩ := Option.map_eq_some_iff.mp hStep
      have hInv := h.loadTail hNext
      obtain ⟨head₁, tail, hPc₁, hLoad, hCase⟩ := loadTail_cases hNext
      obtain ⟨hSeen, -, hEmpty⟩ := h.loadTail_spec hPc₁ hLoad
      rcases hCase with ⟨hEqTail, rfl⟩ | ⟨-, rfl⟩
      · obtain ⟨rfl, rfl⟩ := Prod.mk.inj hEq
        exact ⟨hInv, rfl, rfl, hSeen, rfl, rfl, fun _ => hEmpty.mp hEqTail⟩
      · obtain ⟨rfl, rfl⟩ := Prod.mk.inj hEq
        exact ⟨hInv, rfl, rfl, hSeen, rfl, rfl, nofun⟩
  | readSlot head =>
      rw [hPc] at hStep
      obtain ⟨next, hNext, hEq⟩ := Option.map_eq_some_iff.mp hStep
      obtain ⟨rfl, rfl⟩ := Prod.mk.inj hEq
      have hInv := h.readSlot hNext
      obtain ⟨_, -, rfl⟩ := readSlot_cases hNext
      exact ⟨hInv, rfl, rfl, le_rfl, rfl, rfl, nofun⟩
  | storeHead head item =>
      rw [hPc] at hStep
      obtain ⟨next, hNext, hEq⟩ := Option.map_eq_some_iff.mp hStep
      obtain ⟨rfl, rfl⟩ := Prod.mk.inj hEq
      have hInv := h.storeHead hk hNext
      have hContents := h.storeHead_contents hk hPc hNext
      obtain ⟨_, _, -, rfl⟩ := storeHead_cases hNext
      exact ⟨hInv, rfl, rfl, le_rfl, rfl, hContents, nofun⟩

/-- A consumer that has seen all pushes finds the ring empty only if it is. -/
theorem Popped.accurate {result : Option (Option α)} (h : Popped r r' result)
    (hSeen : r.tailSeen = r.pushes.length) (hFailed : result = some none) : r'.contents = [] := by
  have hLength := h.inv.length_contents
  have hTail := h.empty hFailed
  have hLe := h.tailSeen_le
  rw [h.pushes_eq] at hLength
  exact List.eq_nil_of_length_eq_zero (by omega)

end SpscRingBuffer

end MatchingMachine
