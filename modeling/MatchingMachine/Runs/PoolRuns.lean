import MatchingMachine.Model.MemoryPool

/-!
# Runs of the object pool

A user of the pool allocates, gives slots back in any order, resets, and writes to memory.
`PoolUse` keeps the slots the user holds next to the pool.  Free list and held slots always make
up the slots of the pool (`PoolUse.Inv`), and what each operation does to the free list is a
lemma about `MemoryPool.FreeList`.
-/

namespace MatchingMachine

/-- A pool of objects of type `T`, its memory and the slots its user holds. -/
structure PoolUse (T : Type) where
  pool : MemoryPool
  storage : Nat → T
  held : List Nat := []

inductive PoolOp (T : Type)
  | allocate
  | deallocate (ptr : Option Nat)
  | reset
  /-- Anything is written to a slot, free or not. -/
  | store (slot : Nat) (value : T)

namespace PoolUse

variable {T : Type}

/-- A new pool, in any memory. -/
def new (cap : Nat) (storage : Nat → T) : PoolUse T where
  pool := .new cap
  storage := storage

/-- Free and held slots are the slots of the pool. -/
structure Inv (cap : Nat) (u : PoolUse T) : Prop where
  maxObjects_eq : u.pool.maxObjects = cap
  freeList : u.pool.FreeList u.pool.freeSlots
  slots : (u.pool.freeSlots ++ u.held).Perm (List.range cap)

variable {cap : Nat} {u u' : PoolUse T}

/-- `init_free_list` frees all slots, whatever the links were. -/
theorem inv_initFreeList (hPos : 0 < cap) (hLt : cap < 2 ^ 64) {pool : MemoryPool}
    (hMax : pool.maxObjects = cap) (storage : Nat → T) :
    Inv cap { pool := pool.initFreeList, storage := storage } := by
  subst hMax
  have hFree := MemoryPool.freeList_initFreeList hPos hLt
  have hSlots := hFree.freeSlots_eq
  refine ⟨rfl, ?_, ?_⟩
  · show MemoryPool.FreeList pool.initFreeList pool.initFreeList.freeSlots
    rwa [hSlots]
  · show (pool.initFreeList.freeSlots ++ []).Perm _
    rw [hSlots, List.append_nil]

namespace Inv

theorem cap_lt (h : u.Inv cap) : cap < 2 ^ 64 := h.maxObjects_eq ▸ h.freeList.maxObjects_lt

theorem nodup (h : u.Inv cap) : (u.pool.freeSlots ++ u.held).Nodup :=
  h.slots.nodup_iff.mpr List.nodup_range

/-- A slot the user holds is a slot of the pool, and not free. -/
theorem of_held (h : u.Inv cap) {slot : Nat} (hSlot : slot ∈ u.held) :
    slot < u.pool.maxObjects ∧ slot ∉ u.pool.freeSlots := by
  constructor
  · rw [h.maxObjects_eq]
    exact List.mem_range.mp (h.slots.mem_iff.mp (List.mem_append_right _ hSlot))
  · intro hFree
    exact (List.nodup_append.mp h.nodup).2.2 slot hFree slot hSlot rfl

/-- Giving back a slot makes it free. -/
theorem deallocate_spec (h : u.Inv cap) {slot : Nat} (hSlot : slot ∈ u.held) :
    (u.pool.deallocate (some slot)).freeSlots = slot :: u.pool.freeSlots ∧
      Inv cap { u with pool := u.pool.deallocate (some slot), held := u.held.erase slot } := by
  obtain ⟨hLt, hNew⟩ := h.of_held hSlot
  have hFree := h.freeList.deallocate hLt hNew
  have hEq := hFree.freeSlots_eq
  refine ⟨hEq, ?_, ?_, ?_⟩
  · show (u.pool.deallocate (some slot)).maxObjects = cap
    rw [MemoryPool.maxObjects_deallocate, h.maxObjects_eq]
  · show MemoryPool.FreeList (u.pool.deallocate (some slot)) _
    rwa [hEq]
  · show ((u.pool.deallocate (some slot)).freeSlots ++ u.held.erase slot).Perm _
    rw [hEq]
    have hBack : (slot :: u.held.erase slot).Perm u.held := (List.perm_cons_erase hSlot).symm
    exact (List.perm_middle.symm.trans (hBack.append_left _)).trans h.slots

end Inv

/-! ## Operations -/

variable [Inhabited T]

/-- An operation; `none` where the user gives back a slot that is not allocated. -/
def perform (u : PoolUse T) : PoolOp T → Option (PoolUse T)
  | .allocate =>
      match u.pool.allocate u.storage with
      | none => some u
      | some (slot, pool, storage) =>
          some { pool := pool, storage := storage, held := slot :: u.held }
  | .deallocate none => some { u with pool := u.pool.deallocate none }
  | .deallocate (some slot) =>
      if slot ∈ u.held then
        some { u with pool := u.pool.deallocate (some slot), held := u.held.erase slot }
      else none
  | .reset => some { u with pool := u.pool.reset, held := [] }
  | .store slot value => some { u with storage := Function.update u.storage slot value }

def performAll (u : PoolUse T) : List (PoolOp T) → Option (PoolUse T)
  | [] => some u
  | op :: ops => do
      let u ← u.perform op
      u.performAll ops

namespace Inv

/-- What `allocate` does where there is a free slot. -/
theorem allocate_spec (h : u.Inv cap) {slot : Nat} {free : List Nat}
    (hSlots : u.pool.freeSlots = slot :: free) :
    ∃ pool, u.pool.allocate u.storage =
        some (slot, pool, Function.update u.storage slot default) ∧
      pool.freeSlots = free ∧
      Inv cap { pool := pool, storage := Function.update u.storage slot default,
                held := slot :: u.held } := by
  have hFree := h.freeList
  have hPlaces := h.slots
  rw [hSlots] at hFree hPlaces
  obtain ⟨pool, hAllocate, hRest, hMax⟩ := hFree.allocate_cons u.storage
  have hEq := hRest.freeSlots_eq
  refine ⟨pool, hAllocate, hEq, hMax.trans h.maxObjects_eq, ?_, ?_⟩
  · show MemoryPool.FreeList pool pool.freeSlots
    rwa [hEq]
  · show (pool.freeSlots ++ slot :: u.held).Perm _
    rw [hEq]
    exact List.perm_middle.trans hPlaces

/-- Every operation keeps the invariant. -/
theorem perform (h : u.Inv cap) (hPos : 0 < cap) {op : PoolOp T}
    (hStep : u.perform op = some u') : u'.Inv cap := by
  cases op with
  | allocate =>
      cases hSlots : u.pool.freeSlots with
      | nil =>
          have hFree := h.freeList
          rw [hSlots] at hFree
          rw [PoolUse.perform, hFree.allocate_nil u.storage] at hStep
          exact Option.some.inj hStep ▸ h
      | cons slot free =>
          obtain ⟨pool, hAllocate, -, hInv⟩ := h.allocate_spec hSlots
          rw [PoolUse.perform, hAllocate] at hStep
          exact Option.some.inj hStep ▸ hInv
  | deallocate ptr =>
      cases ptr with
      | none => exact Option.some.inj hStep ▸ h
      | some slot =>
          by_cases hSlot : slot ∈ u.held
          · rw [PoolUse.perform, if_pos hSlot] at hStep
            exact Option.some.inj hStep ▸ (h.deallocate_spec hSlot).2
          · rw [PoolUse.perform, if_neg hSlot] at hStep
            cases hStep
  | reset =>
      obtain rfl := Option.some.inj hStep
      exact inv_initFreeList hPos h.cap_lt h.maxObjects_eq u.storage
  | store slot value => exact Option.some.inj hStep ▸ { h with }

theorem performAll (h : u.Inv cap) (hPos : 0 < cap) {ops : List (PoolOp T)}
    (hRun : u.performAll ops = some u') : u'.Inv cap := by
  induction ops generalizing u with
  | nil => exact Option.some.inj hRun ▸ h
  | cons op ops ih =>
      rw [PoolUse.performAll] at hRun
      obtain ⟨u₁, hStep, hRest⟩ := Option.bind_eq_some_iff.mp hRun
      exact ih (h.perform hPos hStep) hRest

end Inv

/-! ## Nothing is handed out twice, nothing is lost -/

/-- After any operations on a new pool: the links lead through the slots that are not allocated,
each once, and end after `available_` steps; `allocate` fails exactly if all slots are allocated
and otherwise hands out one that is not, with a value-initialised object in it; `deallocate`
makes the slot free, and nothing else; `reset` frees all. -/
theorem poolExact (hPos : 0 < cap) (hLt : cap < 2 ^ 64) (storage : Nat → T)
    {ops : List (PoolOp T)} (hRun : (new cap storage).performAll ops = some u) :
    (∃ free, MemoryPool.Linked u.pool.freeList u.pool.freeHead free ∧
      free.length = u.pool.available ∧ (free ++ u.held).Perm (List.range cap)) ∧
    (u.pool.allocate u.storage = none ↔ ∀ slot < cap, slot ∈ u.held) ∧
    (∀ slot pool storage', u.pool.allocate u.storage = some (slot, pool, storage') →
      slot < cap ∧ slot ∉ u.held ∧ storage' slot = default ∧
        (∀ q, q ≠ slot → storage' q = u.storage q) ∧
        u.pool.freeSlots = slot :: pool.freeSlots) ∧
    (∀ slot ∈ u.held, (u.pool.deallocate (some slot)).freeSlots = slot :: u.pool.freeSlots) ∧
    u.pool.deallocate none = u.pool ∧
    u.pool.reset.freeSlots.Perm (List.range cap) ∧ u.pool.reset.available = cap := by
  have h : u.Inv cap := (inv_initFreeList hPos hLt rfl storage).performAll hPos hRun
  refine ⟨⟨_, h.freeList.linked, h.freeList.available_eq.symm, h.slots⟩, ?_, ?_,
    fun slot hSlot => (h.deallocate_spec hSlot).1, rfl, ?_, ?_⟩
  -- the free list is empty exactly when every slot is held
  · cases hSlots : u.pool.freeSlots with
    | nil =>
        have hFree := h.freeList
        have hPlaces := h.slots
        rw [hSlots] at hFree hPlaces
        refine iff_of_true (hFree.allocate_nil u.storage) fun slot hSlot => ?_
        exact hPlaces.mem_iff.mpr (List.mem_range.mpr hSlot)
    | cons slot free =>
        obtain ⟨pool, hAllocate, -⟩ := h.allocate_spec hSlots
        have hMem : slot ∈ u.pool.freeSlots := by
          rw [hSlots]
          exact List.mem_cons_self ..
        refine iff_of_false (by rw [hAllocate]; exact Option.some_ne_none _) fun hAll => ?_
        have hSlot : slot < cap := by
          have hBound := h.freeList.lt slot hMem
          rwa [h.maxObjects_eq] at hBound
        exact (h.of_held (hAll slot hSlot)).2 hMem
  · intro slot pool storage' hAllocate
    cases hSlots : u.pool.freeSlots with
    | nil =>
        have hFree := h.freeList
        rw [hSlots] at hFree
        rw [hFree.allocate_nil u.storage] at hAllocate
        cases hAllocate
    | cons first free =>
        obtain ⟨pool', hAllocate', hRest, -⟩ := h.allocate_spec hSlots
        rw [hAllocate'] at hAllocate
        obtain ⟨rfl, rfl, rfl⟩ : first = slot ∧ pool' = pool ∧ _ = storage' := by
          simpa only [Option.some.injEq, Prod.mk.injEq] using hAllocate
        have hMem : first ∈ u.pool.freeSlots := by
          rw [hSlots]
          exact List.mem_cons_self ..
        have hBound := h.freeList.lt first hMem
        rw [h.maxObjects_eq] at hBound
        refine ⟨hBound, fun hHeld => (h.of_held hHeld).2 hMem, Function.update_self .., ?_, ?_⟩
        · exact fun q hq => Function.update_of_ne hq _ _
        · rw [hRest]
  -- the reset builds the list anew, whatever was held
  · have hReset := inv_initFreeList hPos hLt h.maxObjects_eq u.storage
    have hSlots := hReset.slots
    rwa [List.append_nil] at hSlots
  · exact h.maxObjects_eq

/-- Two of three slots are taken, the first comes back and one is taken again. -/
theorem poolExact_three :
    ∃ u : PoolUse Nat, (new 3 fun _ => 7).performAll
        [.allocate, .allocate, .deallocate (some 0), .store 0 9, .allocate] = some u ∧
      u.held = [0, 1] ∧
      u.pool.allocate u.storage ≠ none ∧
      ((u.pool.allocate u.storage = none ↔ ∀ slot < 3, slot ∈ u.held)) := by
  have hEnd : ((new 3 fun _ => 7 : PoolUse Nat).performAll
      [.allocate, .allocate, .deallocate (some 0), .store 0 9, .allocate]).map
        (fun u => (u.held, (u.pool.allocate u.storage).isSome)) = some ([0, 1], true) := by
    decide +kernel
  obtain ⟨u, hRun, hEq⟩ := Option.map_eq_some_iff.mp hEnd
  obtain ⟨hHeld, hSome⟩ := Prod.mk.inj hEq
  exact ⟨u, hRun, hHeld, Option.isSome_iff_ne_none.mp hSome,
    (poolExact (by decide) (by decide) _ hRun).2.1⟩

end PoolUse

end MatchingMachine
