import MatchingMachine.Priority.Requests

/-!
# Books and the priority books they represent

`Represents h b F` connects the faithful book with the abstract one: each level map, read
level by level without its holes, is the queue of that side; the heap holds the contents the
queue entries say; the index lists exactly the open orders; every level has a live order at
its cursor.

`Matching` is the same relation in the middle of a match.  The incoming order is indexed but
not queued, and the level being matched may be exhausted.  Each statement of the loops is
one lemma from `Matching` to `Matching`.
-/

namespace MatchingMachine

/-- The orders of a level map with their prices, level by level. -/
def queueOf {s : Side} (ls : Levels s) : List (Int × OrderPtr) :=
  ls.entries.flatMap fun e => e.2.live.map fun p => (e.1, p)

/-- What a queue entry shows in a level map. -/
def Resting.key (r : Resting) : Int × OrderPtr := (r.order.price, r.ptr)

/-- What a queue entry shows in the index. -/
def Resting.indexEntry (r : Resting) : UInt64 × OrderPtr := (r.order.orderId, r.ptr)

theorem indexEntry_of_sameOrder (r' r : Resting) (h : SameOrder r' r) :
    r'.indexEntry = r.indexEntry := by
  rw [Resting.indexEntry, Resting.indexEntry, h.orderId_eq, h.ptr_eq]

/-- The addresses of all orders at live positions of the levels. -/
def OrderBook.livePtrs (b : OrderBook) : List OrderPtr :=
  (queueOf b.bidLevels ++ queueOf b.askLevels).map Prod.snd

theorem OrderBook.livePtrs_perm (b : OrderBook) (s : Side) :
    b.livePtrs.Perm ((queueOf (b.levels s) ++ queueOf (b.levels s.opposite)).map Prod.snd) := by
  cases s with
  | BUY => exact List.Perm.refl _
  | SELL => exact List.perm_append_comm.map _

structure SideRep (h : Heap) {s : Side} (ls : Levels s) (rs : List Resting) : Prop where
  queue_eq : queueOf ls = rs.map Resting.key
  live : ∀ e ∈ ls.entries, e.2.Live
  contents : ∀ r ∈ rs, h r.ptr = r.order

structure Represents (h : Heap) (b : OrderBook) (F : PriorityBook) : Prop where
  sideRep : ∀ s, SideRep h (b.levels s) (F.side s)
  index : b.orderIndex.entries.Perm (F.all.map Resting.indexEntry)
  counter : b.tradeIdCounter = F.lastTradeId
  wellFormed : F.WellFormed

/-- A new book is the empty priority book, whatever is in memory. -/
theorem represents_empty (h : Heap) : Represents h {} {} where
  sideRep s := by
    cases s <;> exact ⟨rfl, by simp [OrderBook.levels, OrderedMap.empty], by simp [PriorityBook.side]⟩
  index := List.Perm.refl _
  counter := rfl
  wellFormed := PriorityBook.wellFormed_empty

theorem map_snd_key (rs : List Resting) : (rs.map Resting.key).map Prod.snd = rs.map Resting.ptr := by
  simp [Resting.key, Function.comp_def]

namespace Represents

variable {h : Heap} {b : OrderBook} {F : PriorityBook}

theorem livePtrs_eq (hR : Represents h b F) : b.livePtrs = F.ptrs := by
  have hBid := (hR.sideRep .BUY).queue_eq
  have hAsk := (hR.sideRep .SELL).queue_eq
  simp only [OrderBook.levels, PriorityBook.side] at hBid hAsk
  rw [OrderBook.livePtrs, hBid, hAsk, ← List.map_append, map_snd_key]
  rfl

theorem contents (hR : Represents h b F) {r : Resting} (hr : r ∈ F.all) : h r.ptr = r.order := by
  obtain ⟨s, hs⟩ := PriorityBook.mem_all_iff.mp hr
  exact (hR.sideRep s).contents r hs

/-- The relation depends on the contents of resting orders only. -/
theorem congr_heap (hR : Represents h b F) {h' : Heap}
    (hAgree : ∀ q ∈ F.ptrs, h' q = h q) : Represents h' b F where
  sideRep s :=
    { queue_eq := (hR.sideRep s).queue_eq
      live := (hR.sideRep s).live
      contents := fun r hr => by
        have hMem : r ∈ F.all := PriorityBook.mem_all_iff.mpr ⟨s, hr⟩
        rw [hAgree r.ptr (List.mem_map_of_mem hMem), hR.contents hMem] }
  index := hR.index
  counter := hR.counter
  wellFormed := hR.wellFormed

/-- The index finds exactly the open orders. -/
theorem find?_eq_some_iff (hR : Represents h b F) {id : UInt64} {p : OrderPtr} :
    b.orderIndex.find? id = some p ↔ ∃ r ∈ F.all, r.order.orderId = id ∧ r.ptr = p := by
  rw [← OrderedMap.mem_entries_iff, hR.index.mem_iff, List.mem_map]
  simp [Resting.indexEntry]

theorem find?_eq_lookup (hR : Represents h b F) (id : UInt64) :
    b.orderIndex.find? id = (F.lookup id).map Resting.ptr := by
  cases hLook : F.lookup id with
  | some r =>
      obtain ⟨hr, hId⟩ := PriorityBook.lookup_eq_some hLook
      exact hR.find?_eq_some_iff.mpr ⟨r, hr, hId, rfl⟩
  | none =>
      cases hFind : b.orderIndex.find? id with
      | none => rfl
      | some p =>
          obtain ⟨r, hr, hId, -⟩ := hR.find?_eq_some_iff.mp hFind
          exact absurd (List.mem_map.mpr ⟨r, hr, hId⟩) (PriorityBook.lookup_eq_none_iff.mp hLook)

theorem orderCount_eq (hR : Represents h b F) : b.orderCount = F.all.length := by
  have hLen := hR.index.length_eq
  rwa [List.length_map] at hLen

/-- The first price of a level map is the first price of its queue. -/
theorem begin?_map_fst {s : Side} {ls : Levels s} {rs : List Resting} (hRep : SideRep h ls rs) :
    ls.begin?.map Prod.fst = rs.head?.map fun r => r.order.price := by
  have hQueue := hRep.queue_eq
  unfold queueOf at hQueue
  cases hEntries : ls.entries with
  | nil =>
      rw [hEntries] at hQueue
      have hNil : rs = [] := by simpa using hQueue.symm
      simp [OrderedMap.begin?, hEntries, hNil]
  | cons e es =>
      have hLive := hRep.live e (by rw [hEntries]; exact List.mem_cons_self ..)
      obtain ⟨p, ps, hps⟩ := List.exists_cons_of_ne_nil hLive.live_ne_nil
      rw [hEntries, List.flatMap_cons, hps, List.map_cons, List.cons_append] at hQueue
      obtain ⟨r, rs', rfl, hKey, -⟩ := List.map_eq_cons_iff.mp hQueue.symm
      simp only [OrderedMap.begin?, hEntries, List.head?_cons, Option.map_some]
      exact congrArg some (congrArg Prod.fst hKey).symm

theorem bestBid_eq (hR : Represents h b F) :
    b.bestBid = (F.bids.head?.map fun r => r.order.price).getD 0 := by
  have hFirst := begin?_map_fst (hR.sideRep .BUY)
  simp only [OrderBook.levels, PriorityBook.side] at hFirst
  rw [← hFirst, OrderBook.bestBid]
  cases b.bidLevels.begin? <;> rfl

theorem bestAsk_eq (hR : Represents h b F) :
    b.bestAsk = (F.asks.head?.map fun r => r.order.price).getD 0 := by
  have hFirst := begin?_map_fst (hR.sideRep .SELL)
  simp only [OrderBook.levels, PriorityBook.side] at hFirst
  rw [← hFirst, OrderBook.bestAsk]
  cases b.askLevels.begin? <;> rfl

end Represents

end MatchingMachine
