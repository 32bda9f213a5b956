import Mathlib

/-!
# Ordered finite maps

A finite map over a strictly ordered key type, stored as the list of its entries in
increasing key order.  The order is a parameter, so the same structure serves for an
ascending and for a descending map.  Sortedness is a field: a list with a repeated or a
misplaced key is not a map.

Two kinds of lemma are provided:

* `exists_split` cuts the entry list at a key and describes lookup, update and removal of
  that key on the two halves; it is what a proof about the order of the entries uses;
* `entries_upsert_perm` and `entries_perm_erase` forget the order, for a proof that treats
  the map as a finite set of entries.
-/

/-- A finite map kept as its entries in strictly increasing key order. -/
@[ext] structure OrderedMap (K : Type*) (V : Type*) (lt : K → K → Prop) where
  entries : List (K × V)
  sorted : entries.Pairwise fun a b => lt a.1 b.1

namespace OrderedMap

variable {K V : Type*} {lt : K → K → Prop}

/-! ## Operations -/

/-- The map without entries. -/
def empty : OrderedMap K V lt := ⟨[], List.Pairwise.nil⟩

/-- The number of entries. -/
def size (m : OrderedMap K V lt) : Nat := m.entries.length

/-- The entry with the least key. -/
def begin? (m : OrderedMap K V lt) : Option (K × V) := m.entries.head?

/-- Remove the entry with the least key. -/
def eraseBegin (m : OrderedMap K V lt) : OrderedMap K V lt :=
  ⟨m.entries.tail, m.sorted.tail⟩

/-- Apply a function to the value of the first entry of a list. -/
def modifyHead (f : V → V) : List (K × V) → List (K × V)
  | [] => []
  | e :: es => (e.1, f e.2) :: es

theorem modifyHead_pairwise (f : V → V) {es : List (K × V)}
    (h : es.Pairwise fun a b => lt a.1 b.1) :
    (modifyHead f es).Pairwise fun a b => lt a.1 b.1 := by
  cases es with
  | nil => exact h
  | cons e es => simpa [modifyHead] using h

/-- Replace the value stored under the least key. -/
def modifyBegin (f : V → V) (m : OrderedMap K V lt) : OrderedMap K V lt :=
  ⟨modifyHead f m.entries, modifyHead_pairwise f m.sorted⟩

theorem begin?_eq_some {m : OrderedMap K V lt} {e : K × V} (h : m.begin? = some e) :
    ∃ es, m.entries = e :: es := List.head?_eq_some_iff.mp h

theorem begin?_eq_none {m : OrderedMap K V lt} : m.begin? = none ↔ m.entries = [] :=
  List.head?_eq_none_iff

theorem entries_modifyBegin {m : OrderedMap K V lt} {k : K} {v : V} {es : List (K × V)}
    (h : m.entries = (k, v) :: es) (f : V → V) :
    (m.modifyBegin f).entries = (k, f v) :: es := by
  simp [modifyBegin, modifyHead, h]

theorem mem_modifyBegin {m : OrderedMap K V lt} {f : V → V} {e : K × V}
    (h : e ∈ (m.modifyBegin f).entries) :
    e ∈ m.entries ∨ ∃ e' ∈ m.entries, e.2 = f e'.2 := by
  cases hEntries : m.entries with
  | nil => simp [modifyBegin, hEntries, modifyHead] at h
  | cons a es =>
      rw [entries_modifyBegin hEntries f] at h
      rcases List.mem_cons.mp h with rfl | h
      · exact Or.inr ⟨a, List.mem_cons_self .., rfl⟩
      · exact Or.inl (List.mem_cons_of_mem _ h)

theorem begin?_modifyBegin (m : OrderedMap K V lt) (f : V → V) :
    (m.modifyBegin f).begin? = m.begin?.map fun e => (e.1, f e.2) := by
  show (modifyHead f m.entries).head? = m.entries.head?.map _
  cases m.entries <;> rfl

theorem eraseBegin_modifyBegin (m : OrderedMap K V lt) (f : V → V) :
    (m.modifyBegin f).eraseBegin = m.eraseBegin := by
  ext1
  show (modifyHead f m.entries).tail = m.entries.tail
  cases m.entries <;> rfl

theorem size_modifyBegin (m : OrderedMap K V lt) (f : V → V) :
    (m.modifyBegin f).size = m.size := by
  show (modifyHead f m.entries).length = m.entries.length
  cases m.entries <;> rfl

theorem size_eraseBegin (m : OrderedMap K V lt) : m.eraseBegin.size = m.size - 1 :=
  List.length_tail

theorem entries_eraseBegin {m : OrderedMap K V lt} {e : K × V} {es : List (K × V)}
    (h : m.entries = e :: es) : m.eraseBegin.entries = es := by
  simp [eraseBegin, h]

/-- The value stored under a key. -/
def find? [DecidableEq K] (m : OrderedMap K V lt) (k : K) : Option V :=
  (m.entries.find? fun e => e.1 = k).map Prod.snd

/-- Remove a key. -/
def erase [DecidableEq K] (m : OrderedMap K V lt) (k : K) : OrderedMap K V lt :=
  ⟨m.entries.filter fun e => e.1 ≠ k, m.sorted.filter _⟩

/-- Write `f none` under a new key, at its place in the order, or `f (some v)` over the
value `v` of a key that is present. -/
def upsertEntries (lt : K → K → Prop) [DecidableRel lt] (k : K) (f : Option V → V) :
    List (K × V) → List (K × V)
  | [] => [(k, f none)]
  | e :: es =>
      if lt k e.1 then (k, f none) :: e :: es
      else if lt e.1 k then e :: upsertEntries lt k f es
      else (e.1, f (some e.2)) :: es

section Update

variable [DecidableRel lt]

theorem mem_upsertEntries_key {k : K} {f : Option V → V} {es : List (K × V)} {e : K × V}
    (h : e ∈ upsertEntries lt k f es) : e.1 = k ∨ ∃ e' ∈ es, e'.1 = e.1 := by
  induction es with
  | nil => simp_all [upsertEntries]
  | cons a es ih =>
      simp only [upsertEntries] at h
      split at h
      · rcases List.mem_cons.mp h with rfl | h
        · exact Or.inl rfl
        · exact Or.inr ⟨e, h, rfl⟩
      · split at h
        · rcases List.mem_cons.mp h with rfl | h
          · exact Or.inr ⟨e, List.mem_cons_self .., rfl⟩
          · rcases ih h with hk | ⟨e', he', hk⟩
            · exact Or.inl hk
            · exact Or.inr ⟨e', List.mem_cons_of_mem _ he', hk⟩
        · rcases List.mem_cons.mp h with rfl | h
          · exact Or.inr ⟨a, List.mem_cons_self .., rfl⟩
          · exact Or.inr ⟨e, List.mem_cons_of_mem _ h, rfl⟩

/-- An updated map has the values it had, or what `f` makes of one. -/
theorem mem_upsertEntries {k : K} {f : Option V → V} {es : List (K × V)} {e : K × V}
    (h : e ∈ upsertEntries lt k f es) :
    e ∈ es ∨ e.2 = f none ∨ ∃ e' ∈ es, e.2 = f (some e'.2) := by
  induction es with
  | nil =>
      obtain rfl : e = (k, f none) := by simpa [upsertEntries] using h
      exact Or.inr (Or.inl rfl)
  | cons a es ih =>
      simp only [upsertEntries] at h
      split at h
      · rcases List.mem_cons.mp h with rfl | h
        · exact Or.inr (Or.inl rfl)
        · exact Or.inl h
      · split at h
        · rcases List.mem_cons.mp h with rfl | h
          · exact Or.inl (List.mem_cons_self ..)
          · rcases ih h with hOld | hNew | ⟨e', he', hNew⟩
            · exact Or.inl (List.mem_cons_of_mem _ hOld)
            · exact Or.inr (Or.inl hNew)
            · exact Or.inr (Or.inr ⟨e', List.mem_cons_of_mem _ he', hNew⟩)
        · rcases List.mem_cons.mp h with rfl | h
          · exact Or.inr (Or.inr ⟨a, List.mem_cons_self .., rfl⟩)
          · exact Or.inl (List.mem_cons_of_mem _ h)

theorem upsertEntries_pairwise [IsStrictTotalOrder K lt] (k : K) (f : Option V → V)
    {es : List (K × V)} (h : es.Pairwise fun a b => lt a.1 b.1) :
    (upsertEntries lt k f es).Pairwise fun a b => lt a.1 b.1 := by
  induction es with
  | nil => simp [upsertEntries]
  | cons a es ih =>
      obtain ⟨ha, hes⟩ := List.pairwise_cons.mp h
      simp only [upsertEntries]
      split
      · rename_i hka
        refine List.pairwise_cons.mpr ⟨fun b hb => ?_, h⟩
        rcases List.mem_cons.mp hb with rfl | hb
        · exact hka
        · exact IsTrans.trans _ _ _ hka (ha b hb)
      · split
        · rename_i hak
          refine List.pairwise_cons.mpr ⟨fun b hb => ?_, ih hes⟩
          rcases mem_upsertEntries_key hb with hk | ⟨e', he', hk⟩
          · exact hk ▸ hak
          · exact hk ▸ ha e' he'
        · exact List.pairwise_cons.mpr ⟨ha, hes⟩

/-- Insert a key or update the value it has. -/
def upsert [IsStrictTotalOrder K lt] (m : OrderedMap K V lt) (k : K) (f : Option V → V) :
    OrderedMap K V lt :=
  ⟨upsertEntries lt k f m.entries, upsertEntries_pairwise k f m.sorted⟩

end Update

/-! ## The view of an update on the two sides of its key -/

section Split

variable [DecidableEq K] [IsStrictTotalOrder K lt]

theorem find?_eq_none_of_lt {k : K} {es : List (K × V)}
    (h : ∀ e ∈ es, lt e.1 k ∨ lt k e.1) : (es.find? fun e => e.1 = k) = none := by
  rw [List.find?_eq_none]
  intro e he hk
  have hk : e.1 = k := by simpa using hk
  rcases h e he with hLt | hLt <;> exact irrefl_of lt _ (hk ▸ hLt)

theorem filter_ne_eq_self_of_lt {k : K} {es : List (K × V)}
    (h : ∀ e ∈ es, lt e.1 k ∨ lt k e.1) : (es.filter fun e => e.1 ≠ k) = es := by
  rw [List.filter_eq_self]
  intro e he
  have hNe : e.1 ≠ k := by
    intro hk
    rcases h e he with hLt | hLt <;> exact irrefl_of lt _ (hk ▸ hLt)
  simpa using hNe

variable [DecidableRel lt]

/-- A key cuts the entries into those before it, possibly its own, and those after it;
`find?`, `upsert` and `erase` at that key touch only the middle. -/
theorem exists_split (m : OrderedMap K V lt) (k : K) :
    ∃ before after, (∀ e ∈ before, lt e.1 k) ∧ (∀ e ∈ after, lt k e.1) ∧
      ((m.find? k = none ∧ m.entries = before ++ after ∧
          (m.erase k).entries = before ++ after ∧
          ∀ f, (m.upsert k f).entries = before ++ (k, f none) :: after) ∨
        ∃ v, m.find? k = some v ∧ m.entries = before ++ (k, v) :: after ∧
          (m.erase k).entries = before ++ after ∧
          ∀ f, (m.upsert k f).entries = before ++ (k, f (some v)) :: after) := by
  obtain ⟨entries, sorted⟩ := m
  simp only [find?, erase, upsert]
  induction entries with
  | nil => exact ⟨[], [], by simp, by simp, Or.inl (by simp [upsertEntries])⟩
  | cons e es ih =>
      obtain ⟨he, hes⟩ := List.pairwise_cons.mp sorted
      -- the key lies behind the first entry, at it or before it
      rcases trichotomous_of lt e.1 k with hLt | hEq | hGt
      · have hNe : e.1 ≠ k := fun hk => irrefl_of lt _ (hk ▸ hLt)
        have hNot : ¬ lt k e.1 := fun h => asymm_of lt hLt h
        obtain ⟨before, after, hBefore, hAfter, hCases⟩ := ih hes
        refine ⟨e :: before, after, ?_, hAfter, ?_⟩
        · intro b hb
          rcases List.mem_cons.mp hb with rfl | hb
          · exact hLt
          · exact hBefore b hb
        · simpa [upsertEntries, hNe, hNot, hLt] using hCases
      · obtain ⟨k', v⟩ := e
        obtain rfl : k' = k := hEq
        have hes' : ∀ e ∈ es, lt e.1 k' ∨ lt k' e.1 := fun e h => Or.inr (he e h)
        have hIrr : ¬ lt k' k' := irrefl_of lt k'
        refine ⟨[], es, by simp, he, Or.inr ⟨v, by simp, rfl, ?_, ?_⟩⟩
        · simpa using filter_ne_eq_self_of_lt hes'
        · simp [upsertEntries, hIrr]
      · have hAfter : ∀ b ∈ e :: es, lt k b.1 := by
          intro b hb
          rcases List.mem_cons.mp hb with rfl | hb
          · exact hGt
          · exact IsTrans.trans _ _ _ hGt (he b hb)
        have hSide : ∀ b ∈ e :: es, lt b.1 k ∨ lt k b.1 := fun b hb => Or.inr (hAfter b hb)
        refine ⟨[], e :: es, by simp, hAfter, Or.inl ⟨?_, rfl, ?_, ?_⟩⟩
        · simpa using find?_eq_none_of_lt hSide
        · simpa using filter_ne_eq_self_of_lt hSide
        · simp [upsertEntries, hGt]

/-! ## The map as a finite set of entries -/

theorem mem_entries_iff (m : OrderedMap K V lt) (k : K) (v : V) :
    (k, v) ∈ m.entries ↔ m.find? k = some v := by
  obtain ⟨before, after, hBefore, hAfter, h⟩ := m.exists_split k
  have hb : ∀ w, (k, w) ∉ before := fun w hw => irrefl_of lt k (hBefore _ hw)
  have ha : ∀ w, (k, w) ∉ after := fun w hw => irrefl_of lt k (hAfter _ hw)
  rcases h with ⟨hFind, hEntries, -⟩ | ⟨w, hFind, hEntries, -⟩
  · simp [hFind, hEntries, hb, ha]
  · simp [hFind, hEntries, hb, ha, eq_comm]

/-- What `upsert` writes is found. -/
theorem find?_upsert_self (m : OrderedMap K V lt) (k : K) (f : Option V → V) :
    (m.upsert k f).find? k = some (f (m.find? k)) := by
  rw [← mem_entries_iff]
  obtain ⟨before, after, -, -, hCases⟩ := m.exists_split k
  rcases hCases with ⟨hFind, -, -, hUpsert⟩ | ⟨v, hFind, -, -, hUpsert⟩
  · rw [hUpsert f, hFind]
    exact List.mem_append_right _ (List.mem_cons_self ..)
  · rw [hUpsert f, hFind]
    exact List.mem_append_right _ (List.mem_cons_self ..)

theorem entries_upsert_perm (m : OrderedMap K V lt) {k : K} (f : Option V → V)
    (h : m.find? k = none) : (m.upsert k f).entries.Perm ((k, f none) :: m.entries) := by
  obtain ⟨before, after, -, -, hCases⟩ := m.exists_split k
  rcases hCases with ⟨-, hEntries, -, hUpsert⟩ | ⟨v, hFind, -⟩
  · rw [hUpsert f, hEntries]
    exact List.perm_middle
  · exact absurd (hFind.symm.trans h) (by simp)

theorem entries_upsert_perm_of_some (m : OrderedMap K V lt) {k : K} {v : V} (f : Option V → V)
    (h : m.find? k = some v) :
    (m.upsert k f).entries.Perm ((k, f (some v)) :: (m.erase k).entries) := by
  obtain ⟨before, after, -, -, hCases⟩ := m.exists_split k
  rcases hCases with ⟨hFind, -⟩ | ⟨w, hFind, hEntries, hErase, hUpsert⟩
  · exact absurd (hFind.symm.trans h) (by simp)
  · obtain rfl : w = v := Option.some.inj (hFind.symm.trans h)
    rw [hUpsert f, hErase]
    exact List.perm_middle

/-- An update leaves the other keys alone. -/
theorem mem_entries_upsert_of_ne (m : OrderedMap K V lt) {k : K} (f : Option V → V) {e : K × V}
    (hNe : e.1 ≠ k) (he : e ∈ (m.upsert k f).entries) : e ∈ m.entries := by
  cases hFind : m.find? k with
  | none =>
      rcases List.mem_cons.mp ((m.entries_upsert_perm f hFind).mem_iff.mp he) with rfl | hOld
      · exact absurd rfl hNe
      · exact hOld
  | some v =>
      rcases List.mem_cons.mp ((m.entries_upsert_perm_of_some f hFind).mem_iff.mp he) with
        rfl | hOld
      · exact absurd rfl hNe
      · exact List.mem_of_mem_filter hOld

theorem entries_perm_erase (m : OrderedMap K V lt) {k : K} {v : V}
    (h : m.find? k = some v) : m.entries.Perm ((k, v) :: (m.erase k).entries) := by
  obtain ⟨before, after, -, -, hCases⟩ := m.exists_split k
  rcases hCases with ⟨hFind, -⟩ | ⟨w, hFind, hEntries, hErase, -⟩
  · exact absurd (hFind.symm.trans h) (by simp)
  · obtain rfl : w = v := Option.some.inj (hFind.symm.trans h)
    rw [hErase, hEntries]
    exact List.perm_middle

/-- Removing the key of one of a permuted list of entries leaves the others. -/
theorem erase_perm_of_cons (m : OrderedMap K V lt) {k : K} {v : V} {es : List (K × V)}
    (h : m.entries.Perm ((k, v) :: es)) : (m.erase k).entries.Perm es := by
  have hFind : m.find? k = some v :=
    (m.mem_entries_iff k v).mp (h.mem_iff.mpr (List.mem_cons_self ..))
  exact (List.Perm.trans (m.entries_perm_erase hFind).symm h).cons_inv

end Split

/-! ## Mapping the values -/

section Map

variable {W : Type*} (g : V → W)

/-- The map with a function applied to every value. -/
def map (m : OrderedMap K V lt) : OrderedMap K W lt :=
  ⟨m.entries.map fun e => (e.1, g e.2), List.pairwise_map.mpr m.sorted⟩

@[simp] theorem entries_map (m : OrderedMap K V lt) :
    (m.map g).entries = m.entries.map fun e => (e.1, g e.2) := rfl

@[simp] theorem size_map (m : OrderedMap K V lt) : (m.map g).size = m.size := List.length_map _

theorem begin?_map (m : OrderedMap K V lt) :
    (m.map g).begin? = m.begin?.map fun e => (e.1, g e.2) := List.head?_map

theorem eraseBegin_map (m : OrderedMap K V lt) : (m.map g).eraseBegin = m.eraseBegin.map g := by
  ext1
  exact List.map_tail.symm

theorem modifyBegin_map {f : V → V} {f' : W → W} {m : OrderedMap K V lt}
    (hf : ∀ e ∈ m.begin?, f' (g e.2) = g (f e.2)) :
    (m.map g).modifyBegin f' = (m.modifyBegin f).map g := by
  ext1
  show modifyHead f' (m.entries.map _) = (modifyHead f m.entries).map _
  cases hEntries : m.entries with
  | nil => rfl
  | cons e es =>
      have he := hf e (by rw [begin?, hEntries]; rfl)
      simp [modifyHead, he]

section

variable [DecidableEq K]

theorem find?_map (m : OrderedMap K V lt) (k : K) : (m.map g).find? k = (m.find? k).map g := by
  unfold find?
  rw [entries_map, List.find?_map, Option.map_map, Option.map_map]
  rfl

theorem erase_map (m : OrderedMap K V lt) (k : K) : (m.map g).erase k = (m.erase k).map g := by
  ext1
  exact List.filter_map ..

end

section

variable [DecidableRel lt] {f : Option V → V} {f' : Option W → W}

theorem upsertEntries_map {k : K} {es : List (K × V)} (hNone : f' none = g (f none))
    (hSome : ∀ e ∈ es, f' (some (g e.2)) = g (f (some e.2))) :
    upsertEntries lt k f' (es.map fun e => (e.1, g e.2)) =
      (upsertEntries lt k f es).map fun e => (e.1, g e.2) := by
  induction es with
  | nil => simp [upsertEntries, hNone]
  | cons e es ih =>
      have hTail := ih fun x hx => hSome x (List.mem_cons_of_mem _ hx)
      have hHead := hSome e (List.mem_cons_self ..)
      rw [List.map_cons, upsertEntries, upsertEntries]
      by_cases hLt : lt k e.1
      · simp [hLt, hNone]
      · by_cases hGt : lt e.1 k
        · simp [hLt, hGt, hTail]
        · simp [hLt, hGt, hHead]

theorem upsert_map [IsStrictTotalOrder K lt] {m : OrderedMap K V lt} {k : K}
    (hNone : f' none = g (f none))
    (hSome : ∀ e ∈ m.entries, f' (some (g e.2)) = g (f (some e.2))) :
    (m.map g).upsert k f' = (m.upsert k f).map g := by
  ext1
  exact upsertEntries_map g hNone hSome

end

end Map

end OrderedMap
