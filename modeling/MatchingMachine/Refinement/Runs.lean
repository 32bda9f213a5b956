import MatchingMachine.Refinement.Serve

/-!
# Runs of whole streams

`Served` is a run of the book next to the run of the priority book it refines, call by call.
`serveAll_served` builds it for every stream the abstract book admits, and
`Represents.admitsAll` says that these are the streams whose limit orders may be entered when
their turn comes.  What holds of whole runs is then proved by induction on `Served`.
-/

namespace MatchingMachine

variable {k : Nat}

/-- Every limit order of a stream is new, not filled, and its ID is not live when it enters. -/
def BookState.AdmitsAll (s : BookState k) (entries : Nat → Entry k) : List Submission → Prop
  | [] => True
  | x :: xs =>
      (x.order.type = .LIMIT →
        FreshLimit x.order ∧ s.book.orderIndex.find? x.order.orderId = none) ∧
      match s.serve (entries 0) x with
      | none => True
      | some reply => reply.state.AdmitsAll (fun n => entries (n + 1)) xs

instance (o : Order) : Decidable (FreshLimit o) :=
  decidable_of_iff (o.type = .LIMIT ∧ o.status = .NEW ∧ o.filledQty = 0)
    ⟨fun ⟨h₁, h₂, h₃⟩ => ⟨h₁, h₂, h₃⟩, fun ⟨h₁, h₂, h₃⟩ => ⟨h₁, h₂, h₃⟩⟩

instance decidableAdmitsAll (entries : Nat → Entry k) (s : BookState k) :
    ∀ xs, Decidable (s.AdmitsAll entries xs)
  | [] => inferInstanceAs (Decidable True)
  | x :: xs =>
      match h : s.serve (entries 0) x with
      | none => decidable_of_iff (x.order.type = .LIMIT →
          FreshLimit x.order ∧ s.book.orderIndex.find? x.order.orderId = none) (by
            simp [BookState.AdmitsAll, h])
      | some reply =>
          let _ := decidableAdmitsAll (fun n => entries (n + 1)) reply.state xs
          decidable_of_iff ((x.order.type = .LIMIT →
            FreshLimit x.order ∧ s.book.orderIndex.find? x.order.orderId = none) ∧
              reply.state.AdmitsAll (fun n => entries (n + 1)) xs) (by simp [BookState.AdmitsAll, h])

/-- The abstract book admits a stream. -/
def PriorityBook.AdmitsAll (F : PriorityBook) : List Submission → Prop
  | [] => True
  | x :: xs => F.Admits x ∧ (F.submit x.ptr (x.order.stamp x.now)).book.AdmitsAll xs

/-- A run of the book that refines a run of the priority book. -/
inductive Served (stable : OrderPtr → Prop) :
    PriorityBook → (Nat → Entry k) → BookState k → List Submission → List (Call k) →
      BookState k → Prop
  | nil {F : PriorityBook} {entries : Nat → Entry k} {s : BookState k}
      (hR : Represents s.heap s.book F) : Served stable F entries s [] [] s
  | cons {F : PriorityBook} {entries : Nat → Entry k} {s final : BookState k}
      {x : Submission} {xs : List Submission} {reply : Reply k} {calls : List (Call k)}
      (hR : Represents s.heap s.book F) (hAdm : F.Admits x)
      (hPost : ServePost stable F (entries 0) x s reply)
      (hRest : Served stable (F.submit x.ptr (x.order.stamp x.now)).book
        (fun n => entries (n + 1)) reply.state xs calls final) :
      Served stable F entries s (x :: xs) (s.callOf x reply :: calls) final

/-- The book admits what the priority book it represents admits. -/
theorem Represents.admits {s : BookState k} {F : PriorityBook} (hR : Represents s.heap s.book F)
    {x : Submission} (hp : x.ptr ∉ F.ptrs)
    (hLimit : x.order.type = .LIMIT →
      FreshLimit x.order ∧ s.book.orderIndex.find? x.order.orderId = none) : F.Admits x := by
  obtain ⟨t, ht⟩ := x.order.stamp_eq x.now
  unfold PriorityBook.Admits
  rw [ht]
  refine { ptr_fresh := hp, limit := fun hType => ?_ }
  obtain ⟨hFresh, hFind⟩ := hLimit hType
  rw [hR.find?_eq_lookup, Option.map_eq_none_iff] at hFind
  exact ⟨⟨hFresh.type_eq, hFresh.status_eq, hFresh.filled_eq⟩,
    PriorityBook.lookup_eq_none_iff.mp hFind⟩

/-- A stream of distinct objects that may be entered is one the abstract book admits. -/
theorem Represents.admitsAll {stable : OrderPtr → Prop} {s : BookState k} {F : PriorityBook}
    (hR : Represents s.heap s.book F) {entries : Nat → Entry k}
    (hEntries : ∀ n, (entries n).WritesOnly stable) {xs : List Submission}
    (hObjects : (xs.map Submission.ptr).Nodup) (hFresh : ∀ x ∈ xs, x.ptr ∉ F.ptrs)
    (hAdmits : s.AdmitsAll entries xs) : F.AdmitsAll xs := by
  induction xs generalizing s F entries with
  | nil => trivial
  | cons x xs ih =>
      rw [List.map_cons, List.nodup_cons] at hObjects
      have hAdm : F.Admits x := hR.admits (hFresh x (List.mem_cons_self ..)) hAdmits.1
      obtain ⟨reply, hServe, hPost⟩ := serve_spec hR (hEntries 0) hAdm
      have hNext := hAdmits.2
      rw [hServe] at hNext
      refine ⟨hAdm, ih hPost.represents (fun n => hEntries (n + 1)) hObjects.2 ?_ hNext⟩
      intro y hy hMem
      rcases PriorityBook.mem_ptrs_submit hR.wellFormed hMem with hEq | hOld
      · exact hObjects.1 (hEq ▸ List.mem_map_of_mem hy)
      · exact hFresh y (List.mem_cons_of_mem _ hy) hOld

/-- Every stream the abstract book admits is served, in a run that refines its run. -/
theorem serveAll_served {stable : OrderPtr → Prop} {s : BookState k} {F : PriorityBook}
    (hR : Represents s.heap s.book F) {entries : Nat → Entry k}
    (hEntries : ∀ n, (entries n).WritesOnly stable) {xs : List Submission}
    (hAdmits : F.AdmitsAll xs) :
    ∃ calls final, s.serveAll entries xs = some (calls, final) ∧
      Served stable F entries s xs calls final := by
  induction xs generalizing s F entries with
  | nil => exact ⟨[], s, rfl, .nil hR⟩
  | cons x xs ih =>
      obtain ⟨reply, hServe, hPost⟩ := serve_spec hR (hEntries 0) hAdmits.1
      obtain ⟨calls, final, hRun, hServed⟩ := ih hPost.represents
        (fun n => hEntries (n + 1)) hAdmits.2
      refine ⟨_, final, ?_, .cons hR hAdmits.1 hPost hServed⟩
      rw [BookState.serveAll, hServe]
      simp only [Option.bind_eq_bind, Option.bind_some, hRun]
      rfl

end MatchingMachine
