import MatchingMachine.Model.Order

/-!
# The object pool

`MemoryPool<T>` of `include/memory_pool.h`: slots `0 .. maxObjects - 1` and a free list of
indices threaded through `free_list_` from `free_head_`.  What the slots contain is memory that
others also use, so the operations take it and give it back.  A slot's address is its index.

`FreeList p free` says that following the links of `p` visits exactly the slots `free`; each
operation is one lemma about it, and `FreeList.freeSlots_eq` reads the list off the pool.
-/

namespace MatchingMachine

structure MemoryPool where
  maxObjects : Nat
  freeList : Nat → Nat := fun _ => 0
  freeHead : Nat := 0
  available : Nat := 0

namespace MemoryPool

/-! ## Operations -/

/-- `SIZE_MAX`, the end of the free list. -/
def kNull : Nat := 2 ^ 64 - 1

def initFreeList (p : MemoryPool) : MemoryPool :=
  let links := (List.range (p.maxObjects - 1)).foldl
    (fun links i => Function.update links i (i + 1)) p.freeList
  { p with
    freeList := Function.update links (p.maxObjects - 1) kNull
    freeHead := 0
    available := p.maxObjects }

/-- The constructor. -/
def new (maxObjects : Nat) : MemoryPool := initFreeList { maxObjects := maxObjects }

def reset (p : MemoryPool) : MemoryPool := p.initFreeList

/-- The slot, or `none` for `nullptr`; the slot is value-initialised. -/
def allocate {T : Type} [Inhabited T] (p : MemoryPool) (storage : Nat → T) :
    Option (Nat × MemoryPool × (Nat → T)) :=
  if p.freeHead = kNull then none
  else
    let idx := p.freeHead
    let p := { p with
      freeHead := p.freeList idx
      available := wrap64 (p.available + (2 ^ 64 - 1)) }
    some (idx, p, Function.update storage idx default)

def deallocate (p : MemoryPool) : Option Nat → MemoryPool
  | none => p
  | some idx =>
      { p with
        freeList := Function.update p.freeList idx p.freeHead
        freeHead := idx
        available := wrap64 (p.available + 1) }

/-- Follow the links for at most `n` slots. -/
def walk (links : Nat → Nat) : Nat → Nat → List Nat
  | 0, _ => []
  | n + 1, i => if i = kNull then [] else i :: walk links n (links i)

/-- The slots on the free list.  A list that does not end after `maxObjects` slots shows. -/
def freeSlots (p : MemoryPool) : List Nat := walk p.freeList (p.maxObjects + 1) p.freeHead

/-! ## The free list -/

/-- The links lead from `i` through `slots` to the end. -/
def Linked (links : Nat → Nat) : Nat → List Nat → Prop
  | i, [] => i = kNull
  | i, slot :: slots => i = slot ∧ Linked links (links i) slots

structure FreeList (p : MemoryPool) (free : List Nat) : Prop where
  linked : Linked p.freeList p.freeHead free
  available_eq : p.available = free.length
  nodup : free.Nodup
  lt : ∀ i ∈ free, i < p.maxObjects
  maxObjects_lt : p.maxObjects < 2 ^ 64

variable {p : MemoryPool} {free : List Nat}

theorem ne_kNull_of_lt {i n : Nat} (hi : i < n) (hn : n < 2 ^ 64) : i ≠ kNull := by
  unfold kNull
  omega

/-- Links of slots that are not visited do not matter. -/
theorem Linked.congr {links links' : Nat → Nat} {i : Nat} {slots : List Nat}
    (h : Linked links i slots) (hSame : ∀ j ∈ slots, links' j = links j) :
    Linked links' i slots := by
  induction slots generalizing i with
  | nil => exact h
  | cons slot slots ih =>
      obtain ⟨rfl, hTail⟩ := h
      refine ⟨rfl, ?_⟩
      rw [hSame i (List.mem_cons_self ..)]
      exact ih hTail fun j hj => hSame j (List.mem_cons_of_mem _ hj)

theorem Linked.walk_eq {links : Nat → Nat} {i n : Nat} {slots : List Nat}
    (h : Linked links i slots) (hSlots : ∀ j ∈ slots, j ≠ kNull) (hn : slots.length < n) :
    walk links n i = slots := by
  induction slots generalizing i n with
  | nil =>
      obtain ⟨n, rfl⟩ := Nat.exists_eq_succ_of_ne_zero (Nat.ne_zero_of_lt hn)
      exact if_pos h
  | cons slot slots ih =>
      obtain ⟨n, rfl⟩ := Nat.exists_eq_succ_of_ne_zero (Nat.ne_zero_of_lt hn)
      obtain ⟨rfl, hTail⟩ := h
      rw [walk, if_neg (hSlots i (List.mem_cons_self ..)),
        ih hTail (fun j hj => hSlots j (List.mem_cons_of_mem _ hj)) (Nat.lt_of_succ_lt_succ hn)]

namespace FreeList

theorem length_le (h : FreeList p free) : free.length ≤ p.maxObjects := by
  have hSub : free ⊆ List.range p.maxObjects := fun i hi => List.mem_range.mpr (h.lt i hi)
  simpa using (h.nodup.subperm hSub).length_le

theorem freeSlots_eq (h : FreeList p free) : p.freeSlots = free :=
  h.linked.walk_eq (fun i hi => ne_kNull_of_lt (h.lt i hi) h.maxObjects_lt)
    (Nat.lt_succ_of_le h.length_le)

/-- A pool without free slots hands out nothing. -/
theorem allocate_nil {T : Type} [Inhabited T] (h : FreeList p []) (storage : Nat → T) :
    p.allocate storage = none := if_pos h.linked

/-- Otherwise it hands out the first free slot, with a value-initialised object in it. -/
theorem allocate_cons {T : Type} [Inhabited T] {slot : Nat} (h : FreeList p (slot :: free))
    (storage : Nat → T) :
    ∃ p', p.allocate storage = some (slot, p', Function.update storage slot default) ∧
      FreeList p' free ∧ p'.maxObjects = p.maxObjects := by
  obtain ⟨hHead, hTail⟩ := h.linked
  have hSlot : slot ≠ kNull := ne_kNull_of_lt (h.lt slot (List.mem_cons_self ..)) h.maxObjects_lt
  have hAvailable := h.available_eq
  have hLength := h.length_le
  have hMax := h.maxObjects_lt
  rw [List.length_cons] at hAvailable hLength
  rw [hHead] at hTail
  refine ⟨{ p with
    freeHead := p.freeList slot
    available := wrap64 (p.available + (2 ^ 64 - 1)) }, ?_, ?_, rfl⟩
  · rw [allocate, hHead, if_neg hSlot]
  · exact
      { linked := hTail
        available_eq := by
          show (p.available + (2 ^ 64 - 1)) % 2 ^ 64 = free.length
          omega
        nodup := (List.nodup_cons.mp h.nodup).2
        lt := fun i hi => h.lt i (List.mem_cons_of_mem _ hi)
        maxObjects_lt := hMax }

/-- A slot that is handed out was free. -/
theorem mem_of_allocate {T : Type} [Inhabited T] (h : FreeList p free) {storage : Nat → T}
    {slot : Nat} {p' : MemoryPool} {storage' : Nat → T}
    (hAllocate : p.allocate storage = some (slot, p', storage')) : slot ∈ free := by
  cases free with
  | nil =>
      rw [h.allocate_nil] at hAllocate
      exact nomatch hAllocate
  | cons first free =>
      obtain ⟨p₁, hFirst, -⟩ := h.allocate_cons storage
      rw [hFirst] at hAllocate
      obtain rfl : first = slot := congrArg Prod.fst (Option.some.inj hAllocate)
      exact List.mem_cons_self ..

/-- Giving a slot back makes exactly it free. -/
theorem deallocate {slot : Nat} (h : FreeList p free) (hSlot : slot < p.maxObjects)
    (hNew : slot ∉ free) : FreeList (p.deallocate (some slot)) (slot :: free) := by
  have hNodup : (slot :: free).Nodup := List.nodup_cons.mpr ⟨hNew, h.nodup⟩
  have hLt : ∀ i ∈ slot :: free, i < p.maxObjects := List.forall_mem_cons.mpr ⟨hSlot, h.lt⟩
  have hLength : (slot :: free).length ≤ p.maxObjects := by
    have hSub : slot :: free ⊆ List.range p.maxObjects := fun i hi =>
      List.mem_range.mpr (hLt i hi)
    simpa using (hNodup.subperm hSub).length_le
  have hMax := h.maxObjects_lt
  have hAvailable := h.available_eq
  refine { linked := ⟨rfl, ?_⟩, available_eq := ?_, nodup := hNodup, lt := hLt
           maxObjects_lt := hMax }
  · show Linked (Function.update p.freeList slot p.freeHead)
      (Function.update p.freeList slot p.freeHead slot) free
    rw [Function.update_self]
    refine h.linked.congr fun j hj => Function.update_of_ne ?_ _ _
    exact ne_of_mem_of_not_mem hj hNew
  · show wrap64 (p.available + 1) = (slot :: free).length
    unfold wrap64
    rw [List.length_cons] at hLength ⊢
    omega

end FreeList

/-- The loop of `init_free_list` links every slot to the one behind it. -/
theorem foldl_links (links : Nat → Nat) (n i : Nat) :
    (List.range n).foldl (fun links i => Function.update links i (i + 1)) links i =
      if i < n then i + 1 else links i := by
  induction n with
  | zero => simp
  | succ n ih =>
      rw [List.range_succ, List.foldl_append]
      show Function.update (_ : Nat → Nat) n (n + 1) i = _
      by_cases hi : i = n
      · subst hi
        simp
      · rw [Function.update_of_ne hi, ih]
        have hIff : i < n + 1 ↔ i < n := by omega
        simp only [hIff]

/-- Links to the slot behind visit the slots in order. -/
theorem linked_range' {links : Nat → Nat} {start n : Nat}
    (hNext : ∀ i, start ≤ i → i + 1 < start + n → links i = i + 1)
    (hLast : 0 < n → links (start + n - 1) = kNull) (hEmpty : n = 0 → start = kNull) :
    Linked links start (List.range' start n) := by
  induction n generalizing start with
  | zero => exact hEmpty rfl
  | succ n ih =>
      refine ⟨rfl, ?_⟩
      rcases Nat.eq_zero_or_pos n with rfl | hn
      · show links start = kNull
        exact hLast (Nat.succ_pos _)
      · rw [hNext start le_rfl (by omega)]
        refine ih (fun i hi hLt => hNext i (by omega) (by omega)) (fun _ => ?_) (by omega)
        have hLast' := hLast (Nat.succ_pos _)
        rwa [show start + (n + 1) - 1 = start + 1 + n - 1 by omega] at hLast'

/-- After `init_free_list` every slot is free. -/
theorem freeList_initFreeList (hPos : 0 < p.maxObjects) (hLt : p.maxObjects < 2 ^ 64) :
    FreeList p.initFreeList (List.range p.maxObjects) where
  linked := by
    rw [List.range_eq_range']
    show Linked _ 0 _
    refine linked_range' (fun i _ hi => ?_) (fun _ => ?_) (fun h => by omega)
    · show Function.update (_ : Nat → Nat) (p.maxObjects - 1) kNull i = i + 1
      have hNe : i ≠ p.maxObjects - 1 := by omega
      have hi' : i < p.maxObjects - 1 := by omega
      rw [Function.update_of_ne hNe, foldl_links, if_pos hi']
    · show Function.update (_ : Nat → Nat) (p.maxObjects - 1) kNull (0 + p.maxObjects - 1) = kNull
      rw [Nat.zero_add, Function.update_self]
  available_eq := by simp [initFreeList]
  nodup := List.nodup_range
  lt i hi := List.mem_range.mp hi
  maxObjects_lt := hLt

@[simp] theorem maxObjects_deallocate (p : MemoryPool) (ptr : Option Nat) :
    (p.deallocate ptr).maxObjects = p.maxObjects := by
  cases ptr <;> rfl

end MemoryPool

end MatchingMachine
