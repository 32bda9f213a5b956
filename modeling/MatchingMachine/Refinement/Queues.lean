import MatchingMachine.Refinement.Represents

/-!
# Queueing and unqueueing at a level

The two changes of a level map outside matching, each as a change of the queue the map
stands for: an order joins the level of its price (`SideRep.enqueue`), and a cancelled order
leaves it, with the level when it was the last (`SideRep.remove`).  Both go through
`OrderedMap.exists_split`: the levels in front of a price, the level at it and the levels
behind it.
-/

namespace MatchingMachine

/-- The entries of levels before or after a price have prices before or after it. -/
theorem fst_of_mem_flatMap {es : List (Int × PriceLevel)} {x : Int × OrderPtr}
    (hx : x ∈ es.flatMap fun e => e.2.live.map fun p => (e.1, p)) : ∃ e ∈ es, e.1 = x.1 := by
  obtain ⟨e, he, hMem⟩ := List.mem_flatMap.mp hx
  obtain ⟨p, -, rfl⟩ := List.mem_map.mp hMem
  exact ⟨e, he, rfl⟩

namespace SideRep

variable {h : Heap} {s : Side} {ls : Levels s} {rs : List Resting}

/-- What is left of an order joins the level of its price. -/
theorem enqueue (hRep : SideRep h ls rs) {r : Resting} (hr : h r.ptr = r.order) :
    SideRep h (ls.upsert r.order.price fun level => (level.getD {}).push r.ptr)
      (enqueue s r rs) := by
  obtain ⟨before, after, hBefore, hAfter, hCases⟩ := ls.exists_split r.order.price
  have hQueue := hRep.queue_eq
  -- the queue of the levels in front of the price, and of the levels behind it
  have hFrontPrice : ∀ A : List Resting, A.map Resting.key =
      (before.flatMap fun e => e.2.live.map fun p => (e.1, p)) →
      ∀ x ∈ A, s.before x.order.price r.order.price := by
    intro A hA x hx
    obtain ⟨e, he, hEq⟩ := fst_of_mem_flatMap (hA ▸ List.mem_map_of_mem hx)
    have hEq : e.1 = x.order.price := hEq
    exact hEq ▸ hBefore e he
  have hBackPrice : ∀ B : List Resting, B.map Resting.key =
      (after.flatMap fun e => e.2.live.map fun p => (e.1, p)) →
      ∀ x ∈ B, s.before r.order.price x.order.price := by
    intro B hB x hx
    obtain ⟨e, he, hEq⟩ := fst_of_mem_flatMap (hB ▸ List.mem_map_of_mem hx)
    have hEq : e.1 = x.order.price := hEq
    exact hEq ▸ hAfter e he
  have hContents : ∀ x ∈ MatchingMachine.enqueue s r rs, h x.ptr = x.order := by
    intro x hx
    rcases List.mem_cons.mp ((enqueue_perm s r rs).mem_iff.mp hx) with rfl | hx
    · exact hr
    · exact hRep.contents x hx
  rcases hCases with ⟨-, hEntries, -, hUpsert⟩ | ⟨level, -, hEntries, -, hUpsert⟩
  · rw [queueOf, hEntries, List.flatMap_append] at hQueue
    obtain ⟨A, B, rfl, hA, hB⟩ := List.map_eq_append_iff.mp hQueue.symm
    have hFront : ∀ x ∈ A, ¬ s.before r.order.price x.order.price := fun x hx hLt =>
      Side.before_irrefl s _ (Side.before_trans hLt (hFrontPrice A hA x hx))
    have hBack : ∀ x ∈ B.head?, s.before r.order.price x.order.price := fun x hx =>
      hBackPrice B hB x (List.mem_of_mem_head? hx)
    refine { queue_eq := ?_, live := ?_, contents := hContents }
    · rw [queueOf, hUpsert, enqueue_append hFront hBack, List.flatMap_append,
        List.flatMap_cons, List.map_append, hA, List.map_cons, hB]
      rfl
    · rw [hUpsert]
      intro e he
      rcases List.mem_append.mp he with he | he
      · exact hRep.live e (hEntries ▸ List.mem_append_left _ he)
      · rcases List.mem_cons.mp he with rfl | he
        · exact PriceLevel.liveLevel_push_empty _
        · exact hRep.live e (hEntries ▸ List.mem_append_right _ he)
  · have hLevel : level.Live := hRep.live (r.order.price, level) (by simp [hEntries])
    rw [queueOf, hEntries, List.flatMap_append, List.flatMap_cons, ← List.append_assoc] at hQueue
    obtain ⟨A, B, rfl, hA, hB⟩ := List.map_eq_append_iff.mp hQueue.symm
    obtain ⟨A₁, A₂, rfl, hA₁, hA₂⟩ := List.map_eq_append_iff.mp hA
    have hFront : ∀ x ∈ A₁ ++ A₂, ¬ s.before r.order.price x.order.price := by
      intro x hx
      rcases List.mem_append.mp hx with hx | hx
      · exact fun hLt => Side.before_irrefl s _ (Side.before_trans hLt (hFrontPrice A₁ hA₁ x hx))
      · obtain ⟨p, -, hEq⟩ := List.mem_map.mp (hA₂ ▸ List.mem_map_of_mem hx)
        have hPrice : r.order.price = x.order.price := congrArg Prod.fst hEq
        rw [← hPrice]
        exact Side.before_irrefl s _
    have hBack : ∀ x ∈ B.head?, s.before r.order.price x.order.price := fun x hx =>
      hBackPrice B hB x (List.mem_of_mem_head? hx)
    refine { queue_eq := ?_, live := ?_, contents := hContents }
    · rw [queueOf, hUpsert, enqueue_append hFront hBack, List.flatMap_append,
        List.flatMap_cons, Option.getD_some, PriceLevel.live_push hLevel.head_le]
      simp only [List.map_append, List.map_cons, List.map_nil, hA₁, hA₂, hB, List.append_assoc,
        List.cons_append, List.nil_append]
      rfl
    · rw [hUpsert]
      intro e he
      rcases List.mem_append.mp he with he | he
      · exact hRep.live e (hEntries ▸ List.mem_append_left _ he)
      · rcases List.mem_cons.mp he with rfl | he
        · exact hLevel.push _
        · exact hRep.live e (hEntries ▸ List.mem_append_right _ (List.mem_cons_of_mem _ he))

/-- The first order with an ID is the only one. -/
theorem eraseP_map_ptr {L : List Resting} (hIds : (L.map fun x => x.order.orderId).Nodup)
    (hRead : ∀ x ∈ L, (h x.ptr).orderId = x.order.orderId) (id : UInt64) :
    ((L.map Resting.ptr).eraseP fun p => (h p).orderId = id) =
      (L.filter fun x => x.order.orderId ≠ id).map Resting.ptr := by
  induction L with
  | nil => rfl
  | cons x xs ih =>
      rw [List.map_cons, List.nodup_cons] at hIds
      have hx := hRead x (List.mem_cons_self ..)
      have hxs := ih hIds.2 fun y hy => hRead y (List.mem_cons_of_mem _ hy)
      by_cases hId : x.order.orderId = id
      -- the first match is the last: no later order has its ID
      · have hRest : xs.filter (fun y => y.order.orderId ≠ id) = xs := by
          rw [List.filter_eq_self]
          intro y hy
          have hNe : y.order.orderId ≠ id := fun hEq =>
            hIds.1 (hId.trans hEq.symm ▸ List.mem_map_of_mem hy)
          simpa using hNe
        rw [List.map_cons, List.eraseP_cons_of_pos (by simp [hx, hId]),
          List.filter_cons_of_neg (by simp [hId]), hRest]
      · rw [List.map_cons, List.eraseP_cons_of_neg (by simp [hx, hId]), hxs,
          List.filter_cons_of_pos (by simp [hId]), List.map_cons]

/-- A cancelled order leaves the level of its price, and the level goes with its last order. -/
theorem remove (hRep : SideRep h ls rs) (hIds : (rs.map fun x => x.order.orderId).Nodup)
    {r : Resting} (hr : r ∈ rs) (h' : Heap) (hrId : (h' r.ptr).orderId = r.order.orderId)
    (hAgree : ∀ x ∈ rs, x.order.orderId ≠ r.order.orderId → h' x.ptr = x.order) :
    ∃ level, ls.find? r.order.price = some level ∧
      SideRep h'
        (if (level.removeId h' r.order.orderId).empty then ls.erase r.order.price
          else ls.upsert r.order.price fun _ => level.removeId h' r.order.orderId)
        (rs.filter fun x => x.order.orderId ≠ r.order.orderId) := by
  obtain ⟨before, after, hBefore, hAfter, hCases⟩ := ls.exists_split r.order.price
  have hQueue := hRep.queue_eq
  have hRead : ∀ x ∈ rs, (h' x.ptr).orderId = x.order.orderId := by
    intro x hx
    by_cases hId : x.order.orderId = r.order.orderId
    · rw [List.inj_on_of_nodup_map hIds hx hr hId, hrId]
    · rw [hAgree x hx hId]
  have hKeep : ∀ A : List Resting, (∀ x ∈ A, x ∈ rs ∧ x.order.price ≠ r.order.price) →
      A.filter (fun x => x.order.orderId ≠ r.order.orderId) = A := by
    intro A hA
    rw [List.filter_eq_self]
    intro x hx
    have hNe : x.order.orderId ≠ r.order.orderId := fun hEq =>
      (hA x hx).2 (by rw [List.inj_on_of_nodup_map hIds (hA x hx).1 hr hEq])
    simpa using hNe
  have hContents : ∀ x ∈ rs.filter fun x => x.order.orderId ≠ r.order.orderId,
      h' x.ptr = x.order := by
    intro x hx
    obtain ⟨hx, hNe⟩ := List.mem_filter.mp hx
    exact hAgree x hx (by simpa using hNe)
  have hKey : r.key ∈ rs.map Resting.key := List.mem_map_of_mem hr
  rcases hCases with ⟨-, hEntries, -⟩ | ⟨level, hFind, hEntries, hErase, hUpsert⟩
  · -- the price of a resting order has a level
    rw [← hQueue, queueOf, hEntries] at hKey
    obtain ⟨e, he, hEq⟩ := fst_of_mem_flatMap hKey
    rcases List.mem_append.mp he with he | he
    · exact absurd (hEq ▸ hBefore e he) (Side.before_irrefl s _)
    · exact absurd (hEq ▸ hAfter e he) (Side.before_irrefl s _)
  · have hLevel : level.Live := hRep.live (r.order.price, level) (by simp [hEntries])
    rw [queueOf, hEntries, List.flatMap_append, List.flatMap_cons] at hQueue
    -- the resting orders split as the levels do: those before the price, its own, those after
    obtain ⟨A, L', rfl, hA, hL'⟩ := List.map_eq_append_iff.mp hQueue.symm
    obtain ⟨L, B, rfl, hL, hB⟩ := List.map_eq_append_iff.mp hL'
    have hAkeep := hKeep A fun x hx => by
      obtain ⟨e, he, hEq⟩ := fst_of_mem_flatMap (hA ▸ List.mem_map_of_mem hx)
      refine ⟨List.mem_append_left _ hx, fun hPrice => Side.before_irrefl s r.order.price ?_⟩
      have hEq' : e.1 = r.order.price := hEq.trans hPrice
      exact hEq' ▸ hBefore e he
    have hBkeep := hKeep B fun x hx => by
      obtain ⟨e, he, hEq⟩ := fst_of_mem_flatMap (hB ▸ List.mem_map_of_mem hx)
      refine ⟨List.mem_append_right _ (List.mem_append_right _ hx),
        fun hPrice => Side.before_irrefl s r.order.price ?_⟩
      have hEq' : e.1 = r.order.price := hEq.trans hPrice
      exact hEq' ▸ hAfter e he
    have hLrs : ∀ x ∈ L, x ∈ A ++ (L ++ B) := fun x hx =>
      List.mem_append_right _ (List.mem_append_left _ hx)
    have hLprice : ∀ x ∈ L, x.order.price = r.order.price := by
      intro x hx
      obtain ⟨p, -, hEq⟩ := List.mem_map.mp (hL ▸ List.mem_map_of_mem hx)
      exact (congrArg Prod.fst hEq).symm
    have hLptr : level.live = L.map Resting.ptr := by
      have hSnd := congrArg (List.map Prod.snd) hL
      rw [map_snd_key, List.map_map] at hSnd
      simpa [Function.comp_def] using hSnd.symm
    have hLids : (L.map fun x => x.order.orderId).Nodup := by
      refine hIds.sublist (List.Sublist.map _ ?_)
      exact (List.sublist_append_left L B).trans (List.sublist_append_right A _)
    -- within the level the first order with the ID is the only one
    have hLive := PriceLevel.live_removeId hLevel.head_le h' r.order.orderId
    rw [hLptr, eraseP_map_ptr hLids (fun x hx => hRead x (hLrs x hx))] at hLive
    have hClean := PriceLevel.clean_removeId hLevel.head_le h' r.order.orderId
    have hLkey : (L.filter fun x => x.order.orderId ≠ r.order.orderId).map Resting.key =
        (level.removeId h' r.order.orderId).live.map fun p => (r.order.price, p) := by
      rw [hLive, List.map_map]
      refine List.map_congr_left fun x hx => ?_
      rw [Resting.key, hLprice x (List.mem_filter.mp hx).1]
      rfl
    refine ⟨level, hFind, ?_⟩
    rw [List.filter_append, List.filter_append, hAkeep, hBkeep] at hContents ⊢
    split
    · rename_i hEmpty
      rw [hClean.empty_iff.mp hEmpty, List.map_nil, List.map_eq_nil_iff] at hLkey
      refine { queue_eq := ?_, live := ?_, contents := hContents }
      · rw [queueOf, hErase, List.flatMap_append, hLkey, List.nil_append, List.map_append, hA, hB]
      · rw [hErase]
        intro e he
        refine hRep.live e ?_
        rw [hEntries]
        exact (List.mem_append.mp he).elim (List.mem_append_left _)
          fun he => List.mem_append_right _ (List.mem_cons_of_mem _ he)
    · rename_i hNonempty
      have hLive' : (level.removeId h' r.order.orderId).Live :=
        hClean.live_of_ne fun hNil => hNonempty (hClean.empty_iff.mpr hNil)
      refine { queue_eq := ?_, live := ?_, contents := hContents }
      · rw [queueOf, hUpsert, List.flatMap_append, List.flatMap_cons, List.map_append,
          List.map_append, hA, hB, hLkey]
      · rw [hUpsert]
        intro e he
        rcases List.mem_append.mp he with he | he
        · exact hRep.live e (hEntries ▸ List.mem_append_left _ he)
        · rcases List.mem_cons.mp he with rfl | he
          · exact hLive'
          · exact hRep.live e (hEntries ▸ List.mem_append_right _ (List.mem_cons_of_mem _ he))

end SideRep

end MatchingMachine
