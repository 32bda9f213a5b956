import Mathlib.Data.List.Induction
import Mathlib.Data.List.Nodup
import Mathlib.Data.Prod.Basic

/-!
# Dictionaries in insertion order

A dictionary that lists its keys in the order in which they were first set, and the table that a
loop gathers by updating one entry for each element of a list.
-/

/-- Keys with their values, in the order of insertion. -/
structure Dict (κ ν : Type) where
  entries : List (κ × ν)
  nodup : (entries.map Prod.fst).Nodup

namespace Dict

variable {κ ν α : Type}

def empty : Dict κ ν := ⟨[], by simp⟩

def keys (d : Dict κ ν) : List κ := d.entries.map Prod.fst

def values (d : Dict κ ν) : List ν := d.entries.map Prod.snd

@[simp] theorem keys_empty : (empty : Dict κ ν).keys = [] := rfl

theorem mem_keys_iff (d : Dict κ ν) (k : κ) : k ∈ d.keys ↔ ∃ v, (k, v) ∈ d.entries := by
  simp [keys]

variable [DecidableEq κ]

def get? (d : Dict κ ν) (k : κ) : Option ν := (d.entries.find? fun e => e.1 = k).map Prod.snd

/-- The entries after setting a key: in its place when it is there, at the end otherwise. -/
def setEntries (entries : List (κ × ν)) (k : κ) (v : ν) : List (κ × ν) :=
  if k ∈ entries.map Prod.fst then entries.map fun e => if e.1 = k then (k, v) else e
  else entries ++ [(k, v)]

theorem map_fst_setEntries (entries : List (κ × ν)) (k : κ) (v : ν) :
    (setEntries entries k v).map Prod.fst =
      if k ∈ entries.map Prod.fst then entries.map Prod.fst else entries.map Prod.fst ++ [k] := by
  unfold setEntries
  split
  · rw [List.map_map]
    apply List.map_congr_left
    intro e he
    by_cases hKey : e.1 = k <;> simp [hKey]
  · simp

def set (d : Dict κ ν) (k : κ) (v : ν) : Dict κ ν where
  entries := setEntries d.entries k v
  nodup := by
    rw [map_fst_setEntries]
    split
    case isTrue => exact d.nodup
    case isFalse hNew =>
      rw [List.nodup_append]
      refine ⟨d.nodup, by simp, ?_⟩
      intro a ha b hb hab
      simp only [List.mem_singleton] at hb
      exact hNew (by rwa [← hb, ← hab])

/-- `d[k] = f(d[k])` for a dictionary whose missing entries are `init`. -/
def modify (d : Dict κ ν) (k : κ) (init : ν) (f : ν → ν) : Dict κ ν :=
  d.set k (f ((d.get? k).getD init))

/-- The table of a loop that updates the entry of `key x` for each `x`. -/
def gather (init : ν) (key : α → κ) (f : ν → α → ν) (xs : List α) : Dict κ ν :=
  xs.foldl (fun d x => d.modify (key x) init fun v => f v x) empty

@[simp] theorem get?_empty (k : κ) : (empty : Dict κ ν).get? k = none := rfl

theorem mem_keys_set (d : Dict κ ν) (k k' : κ) (v : ν) :
    k' ∈ (d.set k v).keys ↔ k' = k ∨ k' ∈ d.keys := by
  have hKeys : (d.set k v).keys = if k ∈ d.keys then d.keys else d.keys ++ [k] :=
    map_fst_setEntries d.entries k v
  rw [hKeys]
  split
  case isTrue hMem =>
    constructor
    · exact .inr
    · rintro (rfl | h)
      · exact hMem
      · exact h
  case isFalse => simp [or_comm]

/-- The entries are what `get?` finds. -/
theorem get?_eq_some_iff (d : Dict κ ν) (k : κ) (v : ν) :
    d.get? k = some v ↔ (k, v) ∈ d.entries := by
  obtain ⟨entries, hNodup⟩ := d
  simp only [get?]
  induction entries with
  | nil => simp
  | cons e entries ih =>
      simp only [List.map_cons, List.nodup_cons] at hNodup
      by_cases hKey : e.1 = k
      · have hNot : (k, v) ∉ entries := fun hMem => hNodup.1 (List.mem_map.mpr ⟨_, hMem, hKey.symm⟩)
        obtain ⟨k', v'⟩ := e
        obtain rfl : k' = k := hKey
        simp [hNot, eq_comm]
      · have hNe : (k, v) ≠ e := fun h => hKey (by rw [← h])
        simpa [List.find?_cons, hKey, hNe] using ih hNodup.2

theorem get?_isSome_iff (d : Dict κ ν) (k : κ) : (d.get? k).isSome ↔ k ∈ d.keys := by
  rw [Option.isSome_iff_exists, mem_keys_iff]
  simp only [get?_eq_some_iff]

theorem get?_set (d : Dict κ ν) (k k' : κ) (v : ν) :
    (d.set k v).get? k' = if k' = k then some v else d.get? k' := by
  split
  case isTrue hEq =>
    subst hEq
    rw [get?_eq_some_iff]
    simp only [set, setEntries]
    split
    case isTrue hMem =>
      obtain ⟨e, he, rfl⟩ := List.mem_map.mp hMem
      exact List.mem_map.mpr ⟨e, he, by simp⟩
    case isFalse => simp
  case isFalse hNe =>
    ext v'
    simp only [get?_eq_some_iff, set, setEntries]
    split
    case isTrue =>
      constructor
      · intro h
        obtain ⟨e, he, hEq⟩ := List.mem_map.mp h
        by_cases hKey : e.1 = k
        · simp only [hKey, if_true, Prod.mk.injEq] at hEq
          exact absurd hEq.1.symm hNe
        · simp only [hKey, if_false] at hEq
          rwa [← hEq]
      · intro h
        exact List.mem_map.mpr ⟨_, h, by simp [hNe]⟩
    case isFalse => simp [hNe]

theorem get?_modify (d : Dict κ ν) (k k' : κ) (init : ν) (f : ν → ν) :
    (d.modify k init f).get? k' = if k' = k then some (f ((d.get? k).getD init)) else d.get? k' :=
  get?_set d k k' _

theorem mem_keys_modify (d : Dict κ ν) (k k' : κ) (init : ν) (f : ν → ν) :
    k' ∈ (d.modify k init f).keys ↔ k' = k ∨ k' ∈ d.keys :=
  mem_keys_set d k k' _

/-! ## Gathered tables -/

variable (init : ν) (key : α → κ) (f : ν → α → ν) (xs : List α)

@[simp] theorem gather_nil : gather init key f [] = empty := rfl

theorem gather_append_singleton (x : α) :
    gather init key f (xs ++ [x]) =
      (gather init key f xs).modify (key x) init fun v => f v x := by
  simp [gather]

theorem mem_keys_gather (k : κ) : k ∈ (gather init key f xs).keys ↔ ∃ x ∈ xs, key x = k := by
  induction xs using List.reverseRecOn with
  | nil => simp
  | append_singleton xs x ih =>
      rw [gather_append_singleton, mem_keys_modify, ih]
      constructor
      · rintro (rfl | ⟨y, hy, rfl⟩)
        · exact ⟨x, by simp, rfl⟩
        · exact ⟨y, by simp [hy], rfl⟩
      · rintro ⟨y, hy, rfl⟩
        rcases List.mem_append.mp hy with hy | hy
        · exact .inr ⟨y, hy, rfl⟩
        · exact .inl (by simp_all)

/-- The entry of a key is the loop over the elements of that key. -/
theorem getD_gather (k : κ) :
    ((gather init key f xs).get? k).getD init =
      (xs.filter fun x => key x = k).foldl f init := by
  induction xs using List.reverseRecOn with
  | nil => simp
  | append_singleton xs x ih =>
      rw [gather_append_singleton, get?_modify, List.filter_append, List.foldl_append, ← ih]
      by_cases hKey : key x = k
      · simp [hKey]
      · simp [hKey, Ne.symm hKey]

theorem mem_gather {k : κ} {v : ν} :
    (k, v) ∈ (gather init key f xs).entries ↔
      (∃ x ∈ xs, key x = k) ∧ v = (xs.filter fun x => key x = k).foldl f init := by
  rw [← mem_keys_gather init key f, ← getD_gather init key f, ← get?_eq_some_iff,
    ← get?_isSome_iff]
  cases (gather init key f xs).get? k <;> simp [eq_comm]

end Dict
