import MatchingMachine.Model.Serving
import MatchingMachine.Refinement.Lockstep

/-!
# Serving refines the priority book

`serve_spec` is what one call does on either path: the abstract request, with the contents of
the orders in memory where the deallocator leaves them alone.  `ServePost` is the form the
runs of whole streams use.
-/

namespace MatchingMachine

open Interaction

variable {k : Nat}

/-- A deallocator that writes to the order it is handed only, and not if it is `stable`. -/
def Deallocator.WritesOnly (stable : OrderPtr → Prop) (D : Deallocator k) : Prop :=
  ∀ log p s, ∃ h, D log p s = { s with heap := h } ∧ ∀ q, q ≠ p ∨ stable q → h q = s.heap q

theorem Deallocator.inert_writesOnly (stable : OrderPtr → Prop) :
    (Deallocator.inert k).WritesOnly stable := fun _ _ s => ⟨s.heap, rfl, fun _ _ => rfl⟩

theorem Deallocator.overwriting_writesOnly (junk : List OrderPtr → OrderPtr → Order) :
    (Deallocator.overwriting junk : Deallocator k).WritesOnly fun _ => False := by
  intro log p s
  refine ⟨_, rfl, fun q hq => ?_⟩
  exact BookState.place_heap_of_ne (hq.resolve_right not_false) s _

/-- The entry path's deallocator, if it has one, writes to returned orders only. -/
def Entry.WritesOnly (stable : OrderPtr → Prop) : Entry k → Prop
  | .vector => True
  | .noalloc D => D.WritesOnly stable

/-- A deallocator that writes to returned orders only keeps the protocol of a call: what is
returned is neither in the book nor in hand. -/
theorem Deallocator.WritesOnly.rely {stable : OrderPtr → Prop} {D : Deallocator k}
    (hD : D.WritesOnly stable) {inc : OrderPtr} {ptrs : List OrderPtr}
    (hNodup : (inc :: ptrs).Nodup) (log : List OrderPtr) (p : OrderPtr) (s : BookState k)
    (hGuar : (ownership inc ptrs stable).guar log p s) :
    (ownership inc ptrs stable).rely log p s (D log p s) := by
  obtain ⟨h, hEq, hKeep⟩ := hD log p s
  refine ⟨h, hEq, fun q hq => hKeep q ?_⟩
  rcases hq with (hLive | ⟨rfl, hNe⟩) | hStable
  · left
    rintro rfl
    have hAll := (List.Perm.nodup_iff hGuar).mpr hNodup
    have hHand : q ∈ inHand inc q := by
      unfold inHand
      split <;> simp
    exact List.disjoint_of_nodup_append hAll (List.mem_append_right _ hHand) hLive
  · exact Or.inl fun h => hNe h.symm
  · exact Or.inr hStable

/-- What serving `x` owes. -/
structure ServePost (stable : OrderPtr → Prop) (F : PriorityBook) (entry : Entry k)
    (x : Submission) (s : BookState k) (reply : Reply k) : Prop where
  represents : Represents reply.state.heap reply.state.book
    (F.submit x.ptr (x.order.stamp x.now)).book
  trades_eq : reply.state.trades = (F.submit x.ptr (x.order.stamp x.now)).trades
  overflow_eq : reply.state.overflow =
    (s.overflow || (F.submit x.ptr (x.order.stamp x.now)).overflow)
  found_eq : reply.found =
    (decide (x.order.type = .CANCEL) && (F.lookup x.order.orderId).isSome)
  returned_eq : reply.returned =
    if entry.isNoalloc then (F.submit x.ptr (x.order.stamp x.now)).returned.map Resting.ptr
    else []
  buf_eq : entry.isNoalloc = true →
    reply.state.buf = s.buf.pushAll (F.submit x.ptr (x.order.stamp x.now)).trades
  contents : ∀ r ∈ (F.submit x.ptr (x.order.stamp x.now)).returned,
    r.order.type = .LIMIT → stable r.ptr → reply.state.heap r.ptr = r.order
  frame : ∀ q, stable q → q ≠ x.ptr → q ∉ F.ptrs → reply.state.heap q = s.heap q

/-- A submission the abstract book admits. -/
def PriorityBook.Admits (F : PriorityBook) (x : Submission) : Prop :=
  F.Admissible x.ptr (x.order.stamp x.now)

theorem serve_spec {stable : OrderPtr → Prop} {s : BookState k} {F : PriorityBook}
    (hR : Represents s.heap s.book F) {entry : Entry k} (hEntry : entry.WritesOnly stable)
    {x : Submission} (hAdm : F.Admits x) :
    ∃ reply, s.serve entry x = some reply ∧ ServePost stable F entry x s reply := by
  have hp : x.ptr ∉ F.ptrs := hAdm.ptr_fresh
  have hPlace := hR.place hp x.order
  have hSelf : (s.place x.ptr x.order).heap x.ptr = x.order := s.place_heap_self x.ptr x.order
  have hOther : ∀ q, q ≠ x.ptr → (s.place x.ptr x.order).heap q = s.heap q := fun q hq =>
    BookState.place_heap_of_ne hq s x.order
  have hAdm' : F.Admissible x.ptr (((s.place x.ptr x.order).heap x.ptr).stamp x.now) := by
    rw [hSelf]
    exact hAdm
  obtain ⟨t, ht⟩ := x.order.stamp_eq x.now
  have hId : (x.order.stamp x.now).orderId = x.order.orderId := by rw [ht]
  have hType : (x.order.stamp x.now).type = x.order.type := by rw [ht]
  cases entry with
  | noalloc D =>
      have hD : D.WritesOnly stable := hEntry
      have hNodup : (x.ptr :: F.ptrs).Nodup :=
        List.nodup_cons.mpr ⟨hp, hR.wellFormed.ptrs_nodup⟩
      obtain ⟨log, s', hRun, hPost⟩ := run_of_wp (hD.rely hNodup)
        (addOrderNoalloc_wp hPlace hAdm'.accepts stable)
      rw [hSelf] at hPost
      refine ⟨_, by simp only [BookState.serve, hRun]; rfl,
        { represents := hPost.represents
          trades_eq := hPost.trades_eq
          overflow_eq := hPost.overflow_eq
          found_eq := ?_
          returned_eq := hPost.log_eq
          buf_eq := fun _ => hPost.buf_eq
          contents := fun r hr _ hst => hPost.returned_stable r hr hst
          frame := fun q hst hq hMem => (hPost.frame q hst hq hMem).trans (hOther q hq) }⟩
      -- a cancel that finds an order hands back two
      rw [hPost.log_eq, PriorityBook.submit, hType]
      cases hCancel : x.order.type with
      | LIMIT => rfl
      | CANCEL =>
          simp only [PriorityBook.cancelRequest, hId]
          cases F.lookup x.order.orderId <;> rfl
  | vector =>
      cases hLimit : x.order.type with
      | LIMIT =>
          obtain ⟨s', hAdd, hPost⟩ := addOrder_post hPlace (by rw [hSelf, hLimit]) hAdm'.accepts
          rw [hSelf] at hPost
          refine ⟨{ state := s' }, ?_,
            { represents := hPost.represents
              trades_eq := hPost.trades_eq
              overflow_eq := hPost.overflow_eq
              found_eq := by rw [hLimit]; rfl
              returned_eq := rfl
              buf_eq := fun h => nomatch h
              contents := fun r hr _ _ => hPost.returned r hr
              frame := fun q _ hq hMem => (hPost.frame q hq hMem).trans (hOther q hq) }⟩
          simp only [BookState.serve, hLimit, hAdd]
          rfl
      | CANCEL =>
          obtain ⟨hFound, hRep, hOverflow, hMark, hFrame⟩ :=
            cancelOrder_post hPlace x.order.orderId
          have hSubmit : F.submit x.ptr (x.order.stamp x.now) =
              F.cancelRequest x.ptr (x.order.stamp x.now) := by
            rw [PriorityBook.submit, hType, hLimit]
          refine ⟨_, by simp only [BookState.serve, hLimit]; rfl, ?_⟩
          refine
            { represents := ?_
              trades_eq := ?_
              overflow_eq := ?_
              found_eq := by rw [hLimit]; exact hFound
              returned_eq := rfl
              buf_eq := fun h => nomatch h
              contents := ?_
              frame := fun q _ hq hMem => (hFrame q hMem).trans (hOther q hq) }
          · rw [hSubmit, PriorityBook.cancelRequest, hId]
            exact hRep
          · rw [hSubmit]
            rfl
          · rw [hSubmit]
            exact hOverflow.trans (Bool.or_false _).symm
          · rw [hSubmit, PriorityBook.cancelRequest, hId]
            intro r hr hType' _
            rcases List.mem_append.mp hr with hr | hr
            · obtain ⟨x', hx', rfl⟩ := Option.map_eq_some_iff.mp (Option.mem_toList.mp hr)
              exact hMark x' hx'
            · obtain rfl : r = ⟨x.ptr, x.order.stamp x.now⟩ := by simpa using hr
              rw [hType, hLimit] at hType'
              exact nomatch hType'

end MatchingMachine
