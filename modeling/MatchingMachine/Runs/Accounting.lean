import MatchingMachine.Priority.Ledger
import MatchingMachine.Runs.Paths

/-!
# Quantity accounting over whole runs

A run of the book keeps a ledger: `Ledger.submitAll` is what it should say, and `Booked` that
the orders in memory are the ledger's.  `Served.ledger` carries both through a run, so what the
ledger says (`Ledger.Balanced`) holds of the orders in memory and of the trades returned, at the
end of the run and, since a run can be cut anywhere (`Served.split`), at every point of it.
-/

namespace MatchingMachine

variable {k : Nat}

/-- The limit orders of a stream, as they enter. -/
def enteredBy (xs : List Submission) : List Resting :=
  xs.flatMap fun x => newAccounts x.ptr (x.order.stamp x.now)

/-- The ledger after a stream. -/
def Ledger.submitAll (L : Ledger) : List Submission → Ledger
  | [] => L
  | x :: xs => (L.submit x.ptr (x.order.stamp x.now)).submitAll xs

/-- The call is a cancel that has found an order. -/
def Call.cancelled (c : Call k) : Bool := decide (c.request.order.type = .CANCEL) && c.found

/-- The IDs whose cancel found an order. -/
def Call.cancelledIds (calls : List (Call k)) : List UInt64 :=
  (calls.filter Call.cancelled).map fun c => c.request.order.orderId

/-- A stream of distinct objects that may enter after the orders `entered`: its limit orders are
new, for positive 64-bit quantities and under IDs of their own. -/
structure Enterable (entered : List Resting) (xs : List Submission) : Prop where
  limit : ∀ x ∈ xs, x.order.type = .LIMIT → FreshLimit x.order ∧ 0 < x.order.quantity
  fits : ∀ r ∈ entered ++ enteredBy xs, r.order.quantity < 2 ^ 63
  ids_nodup : ((entered ++ enteredBy xs).map fun r => r.order.orderId).Nodup
  objects_nodup : (entered.map Resting.ptr ++ xs.map Submission.ptr).Nodup

/-- The orders in memory are those of the ledger. -/
structure Ledger.Booked (L : Ledger) (s : BookState k) : Prop where
  represents : Represents s.heap s.book L.book
  closed : ∀ r ∈ L.closed, s.heap r.ptr = r.order

theorem Ledger.Booked.contents {L : Ledger} {s : BookState k} (h : L.Booked s) {r : Resting}
    (hr : r ∈ L.accounts) : s.heap r.ptr = r.order := by
  rcases List.mem_append.mp hr with hr | hr
  · exact h.closed r hr
  · exact h.represents.contents hr

/-! ## One request -/

theorem FreshLimit.stamp {o : Order} (h : FreshLimit o) (now : UInt64) :
    FreshLimit (o.stamp now) := by
  obtain ⟨t, ht⟩ := o.stamp_eq now
  rw [ht]
  exact ⟨h.type_eq, h.status_eq, h.filled_eq⟩

section Step

variable {L : Ledger} {entered : List Resting} {x : Submission} {xs : List Submission}

theorem ptrs_perm_of_balanced (hBal : L.Balanced entered) :
    (L.accounts.map Resting.ptr).Perm (entered.map Resting.ptr) := by
  have hMap := hBal.entered_perm.map Resting.ptr
  rwa [List.map_map] at hMap

theorem enteredBy_cons : enteredBy (x :: xs) =
    newAccounts x.ptr (x.order.stamp x.now) ++ enteredBy xs := rfl

/-- The request in front of an enterable stream is one the ledger admits. -/
theorem Enterable.admits (h : Enterable entered (x :: xs)) (hBal : L.Balanced entered) :
    L.book.Admits x ∧
      Ledger.Balanced.Admits L entered x.ptr (x.order.stamp x.now) := by
  obtain ⟨t, ht⟩ := x.order.stamp_eq x.now
  have hType : (x.order.stamp x.now).type = x.order.type := by rw [ht]
  have hQuantity : (x.order.stamp x.now).quantity = x.order.quantity := by rw [ht]
  have hPtr : x.ptr ∉ L.book.ptrs := by
    intro hMem
    obtain ⟨r, hr, hEq⟩ := List.mem_map.mp hMem
    have hEntered := (ptrs_perm_of_balanced hBal).mem_iff.mp
      (List.mem_map_of_mem (Ledger.Balanced.mem_accounts_of_mem_all hr))
    rw [hEq] at hEntered
    exact List.disjoint_of_nodup_append h.objects_nodup hEntered (List.mem_cons_self ..)
  have hId : (x.order.stamp x.now).type = .LIMIT →
      (x.order.stamp x.now).orderId ∉ entered.map fun r => r.order.orderId := by
    intro hLimit hMem
    have hNodup := h.ids_nodup
    rw [List.map_append, enteredBy_cons, newAccounts, if_pos hLimit] at hNodup
    exact List.disjoint_of_nodup_append hNodup hMem (List.mem_cons_self ..)
  have hLimit := h.limit x (List.mem_cons_self ..)
  rw [← hType, ← hQuantity] at hLimit
  have hAdm : L.book.Admissible x.ptr (x.order.stamp x.now) :=
    { ptr_fresh := hPtr
      limit := fun hl => ⟨(hLimit hl).1.stamp x.now, fun hMem => by
        obtain ⟨r, hr, hEq⟩ := List.mem_map.mp hMem
        refine hId hl ?_
        rw [← hEq]
        exact hBal.id_mem_entered (Ledger.Balanced.mem_accounts_of_mem_all hr)⟩ }
  exact ⟨hAdm, hAdm, fun hl => (hLimit hl).2, hId⟩

/-- The rest of an enterable stream may enter after its first request. -/
theorem Enterable.tail (h : Enterable entered (x :: xs)) :
    Enterable (entered ++ newAccounts x.ptr (x.order.stamp x.now)) xs where
  limit y hy := h.limit y (List.mem_cons_of_mem _ hy)
  fits := by
    rw [List.append_assoc]
    exact h.fits
  ids_nodup := by
    rw [List.append_assoc]
    exact h.ids_nodup
  objects_nodup := by
    refine h.objects_nodup.sublist ?_
    rw [List.map_append, List.append_assoc]
    apply List.Sublist.append_left
    unfold newAccounts
    split
    · exact List.Sublist.refl _
    · exact List.sublist_cons_self _ _

/-- Serving a request keeps the ledger's orders in memory. -/
theorem Ledger.Booked.serve {entry : Entry k} {s : BookState k} {reply : Reply k}
    (hBooked : L.Booked s) (hBal : L.Balanced entered) (h : Enterable entered (x :: xs))
    (hPost : ServePost (fun _ => True) L.book entry x s reply) :
    (L.submit x.ptr (x.order.stamp x.now)).Booked reply.state where
  represents := hPost.represents
  closed := by
    intro r hr
    rcases List.mem_append.mp hr with hr | hr
    · have hNodup := (ptrs_perm_of_balanced hBal).nodup_iff.mpr
        h.objects_nodup.of_append_left
      rw [Ledger.accounts, List.map_append] at hNodup
      have hMem : r.ptr ∈ entered.map Resting.ptr :=
        (ptrs_perm_of_balanced hBal).mem_iff.mp
          (List.mem_map_of_mem (List.mem_append_left _ hr))
      have hNe : r.ptr ≠ x.ptr := by
        intro hEq
        rw [hEq] at hMem
        exact List.disjoint_of_nodup_append h.objects_nodup hMem (List.mem_cons_self ..)
      rw [hPost.frame r.ptr trivial hNe
        (List.disjoint_of_nodup_append hNodup (List.mem_map_of_mem hr))]
      exact hBooked.closed r hr
    · obtain ⟨hReturned, hType⟩ := List.mem_filter.mp hr
      exact hPost.contents r hReturned (by simpa using hType) trivial

end Step

/-! ## Runs -/

/-- A ledger records a run: it is in balance, the orders in memory are its orders, and its trades
and cancels are those of the calls. -/
structure Recorded (L : Ledger) (entered : List Resting) (s : BookState k)
    (calls : List (Call k)) : Prop where
  balanced : L.Balanced entered
  booked : L.Booked s
  trades_eq : L.trades = Call.allTrades calls
  cancelled_eq : L.cancelled = Call.cancelledIds calls

/-- One more call. -/
theorem Recorded.serve {L : Ledger} {entered : List Resting} {s : BookState k}
    {past : List (Call k)} (h : Recorded L entered s past) {entry : Entry k} {x : Submission}
    {xs : List Submission} (hEnter : Enterable entered (x :: xs)) {reply : Reply k}
    (hPost : ServePost (fun _ => True) L.book entry x s reply) :
    Recorded (L.submit x.ptr (x.order.stamp x.now))
      (entered ++ newAccounts x.ptr (x.order.stamp x.now)) reply.state
      (past ++ [s.callOf x reply]) where
  balanced := h.balanced.submit_balanced (hEnter.admits h.balanced).2
  booked := h.booked.serve h.balanced hEnter hPost
  trades_eq := by
    show L.trades ++ (L.book.submit _ _).trades = _
    rw [h.trades_eq, ← hPost.trades_eq]
    simp [Call.allTrades, BookState.callOf]
  cancelled_eq := by
    obtain ⟨t, ht⟩ := x.order.stamp_eq x.now
    have hType : (x.order.stamp x.now).type = x.order.type := by rw [ht]
    have hId : (x.order.stamp x.now).orderId = x.order.orderId := by rw [ht]
    show L.cancelled ++ _ = _
    rw [h.cancelled_eq, hType, hId]
    unfold Call.cancelledIds
    rw [List.filter_append, List.map_append]
    refine congrArg _ ?_
    have hFound : (s.callOf x reply).cancelled = true ↔
        x.order.type = .CANCEL ∧ (L.book.lookup x.order.orderId).isSome = true := by
      show (decide (x.order.type = .CANCEL) && reply.found) = true ↔ _
      rw [hPost.found_eq, ← Bool.and_assoc, Bool.and_self, Bool.and_eq_true, decide_eq_true_iff]
    by_cases hCancel : x.order.type = .CANCEL ∧ (L.book.lookup x.order.orderId).isSome = true
    · rw [if_pos hCancel, List.filter_cons_of_pos (hFound.mpr hCancel)]
      rfl
    · rw [if_neg hCancel, List.filter_cons_of_neg fun h => hCancel (hFound.mp h)]
      rfl

/-- The ledger of a run is kept to its end, and no operation leaves its range. -/
theorem Served.recorded {F : PriorityBook} {entries : Nat → Entry k} {s final : BookState k}
    {xs : List Submission} {calls : List (Call k)}
    (h : Served (fun _ => True) F entries s xs calls final) {L : Ledger}
    {entered : List Resting} {past : List (Call k)} (hF : F = L.book)
    (hRec : Recorded L entered s past) (hEnter : Enterable entered xs) :
    Recorded (L.submitAll xs) (entered ++ enteredBy xs) final (past ++ calls) ∧
      final.overflow = s.overflow := by
  induction h generalizing L entered past with
  | nil hR =>
      rw [enteredBy, List.flatMap_nil, List.append_nil, List.append_nil]
      exact ⟨hRec, rfl⟩
  | @cons F entries s final x xs reply calls hR hAdm hPost hRest ih =>
      subst hF
      obtain ⟨hEnd, hOverflow⟩ := ih rfl (hRec.serve hEnter hPost) hEnter.tail
      rw [List.append_assoc, List.append_assoc] at hEnd
      refine ⟨hEnd, ?_⟩
      rw [hOverflow, hPost.overflow_eq]
      obtain ⟨t, ht⟩ := x.order.stamp_eq x.now
      have hNone : (L.book.submit x.ptr (x.order.stamp x.now)).overflow = false := by
        refine PriorityBook.submit_overflow hR.wellFormed hAdm (fun hType => ?_) fun r hr => ?_
        · have hMem : (⟨x.ptr, x.order.stamp x.now⟩ : Resting) ∈
              entered ++ enteredBy (x :: xs) := by
            rw [enteredBy_cons]
            exact List.mem_append_right _
              (List.mem_append_left _ (Ledger.Balanced.mem_newAccounts.mpr ⟨hType, rfl⟩))
          exact ⟨(hEnter.admits hRec.balanced).2.quantity_pos hType, hEnter.fits _ hMem⟩
        · have hMem := hRec.balanced.mem_entered (Ledger.Balanced.mem_accounts_of_mem_all hr)
          exact hEnter.fits r.asEntered (List.mem_append_left _ hMem)
      rw [hNone, Bool.or_false]

/-- An enterable stream is one the book of the ledger admits. -/
theorem Enterable.admitsAll {L : Ledger} {entered : List Resting} {xs : List Submission}
    (h : Enterable entered xs) (hBal : L.Balanced entered) : L.book.AdmitsAll xs := by
  induction xs generalizing L entered with
  | nil => trivial
  | cons x xs ih =>
      obtain ⟨hAdm, hLedger⟩ := h.admits hBal
      exact ⟨hAdm, ih h.tail (hBal.submit_balanced hLedger)⟩

/-- A run can be cut at any call. -/
theorem Served.split {stable : OrderPtr → Prop} {F : PriorityBook} {entries : Nat → Entry k}
    {s final : BookState k} {xs : List Submission} {front back : List (Call k)}
    (h : Served stable F entries s xs (front ++ back) final) :
    ∃ ys zs mid entries', xs = ys ++ zs ∧ Served stable F entries s ys front mid ∧
      Served stable (F.submitAll ys) entries' mid zs back final := by
  induction front generalizing F entries s xs with
  | nil =>
      refine ⟨[], xs, s, entries, rfl, ?_, h⟩
      cases h with
      | nil hR => exact .nil hR
      | cons hR hAdm hPost hRest => exact .nil hR
  | cons c front ih =>
      cases h with
      | @cons _ _ _ _ x xs reply calls hR hAdm hPost hRest =>
          obtain ⟨ys, zs, mid, entries', rfl, hFront, hBack⟩ := ih hRest
          exact ⟨x :: ys, zs, mid, entries', rfl, .cons hR hAdm hPost hFront, hBack⟩

theorem Served.requests_eq {stable : OrderPtr → Prop} {F : PriorityBook} {entries : Nat → Entry k}
    {s final : BookState k} {xs : List Submission} {calls : List (Call k)}
    (h : Served stable F entries s xs calls final) : calls.map Call.request = xs := by
  induction h with
  | nil hR => rfl
  | cons hR hAdm hPost hRest ih => exact congrArg _ ih

/-- A run ends in the state its last call left. -/
theorem Served.final_eq {stable : OrderPtr → Prop} {F : PriorityBook} {entries : Nat → Entry k}
    {s final : BookState k} {xs : List Submission} {front : List (Call k)} {c : Call k}
    (h : Served stable F entries s xs (front ++ [c]) final) : final = c.after := by
  obtain ⟨ys, zs, mid, entries', -, -, hLast⟩ := h.split
  cases hLast with
  | cons hR hAdm hPost hRest =>
      cases hRest
      rfl

/-! ## What the ledger says -/

theorem mem_enteredBy {xs : List Submission} {r : Resting} :
    r ∈ enteredBy xs ↔
      ∃ x ∈ xs, x.order.type = .LIMIT ∧ r = ⟨x.ptr, x.order.stamp x.now⟩ := by
  have hType : ∀ x : Submission, (x.order.stamp x.now).type = x.order.type := fun x => by
    obtain ⟨t, ht⟩ := x.order.stamp_eq x.now
    rw [ht]
  simp only [enteredBy, List.mem_flatMap, Ledger.Balanced.mem_newAccounts, hType]

/-- The account of an order: filled by its trades, up to its quantity at most, and with the
status that says so. -/
structure AccountOf (calls : List (Call k)) (x : Submission) (o : Order) : Prop where
  filled_eq : o.filledQty = traded x.order.orderId (Call.allTrades calls)
  filled_le : o.filledQty ≤ x.order.quantity
  filled_iff : o.status = .FILLED ↔ o.filledQty = x.order.quantity
  cancelled_iff : o.status = .CANCELLED ↔ ∃ c ∈ calls, c.request.order.type = .CANCEL ∧
    c.request.order.orderId = x.order.orderId ∧ c.found = true
  open_status : o.status ≠ .FILLED → o.status ≠ .CANCELLED →
    o.status = if ∃ t ∈ Call.allTrades calls, t.Names x.order.orderId then .PARTIAL else .NEW

/-- What a trade of a call says: it is between the order that entered and one of an earlier call
that was resting, at that order's limit and within the limit of the other. -/
structure TradeOf (earlier : List (Call k)) (c : Call k) (t : Trade) : Prop where
  incoming_limit : c.request.order.type = .LIMIT
  quantity_pos : 1 ≤ t.quantity
  incoming : t.idOn c.request.order.side = c.request.order.orderId
  resting : ∃ d ∈ earlier, d.request.order.type = .LIMIT ∧
    d.request.order.side = c.request.order.side.opposite ∧
    t.idOn c.request.order.side.opposite = d.request.order.orderId ∧
    t.price = d.request.order.price ∧
    c.before.book.orderIndex.find? d.request.order.orderId = some d.request.ptr
  within : match c.request.order.side with
    | .BUY => t.price ≤ c.request.order.price
    | .SELL => c.request.order.price ≤ t.price

namespace Recorded

variable {L : Ledger} {xs : List Submission} {s : BookState k} {calls : List (Call k)}

/-- Every order of the stream has its account in the ledger. -/
theorem account (h : Recorded L (enteredBy xs) s calls) {x : Submission} (hx : x ∈ xs)
    (hLimit : x.order.type = .LIMIT) :
    ∃ r ∈ L.accounts, r.ptr = x.ptr ∧ r.order.orderId = x.order.orderId ∧
      r.order.quantity = x.order.quantity := by
  obtain ⟨t, ht⟩ := x.order.stamp_eq x.now
  have hMem : (⟨x.ptr, x.order.stamp x.now⟩ : Resting) ∈ enteredBy xs :=
    mem_enteredBy.mpr ⟨x, hx, hLimit, rfl⟩
  rw [← h.balanced.entered_perm.mem_iff] at hMem
  obtain ⟨r, hr, hEq⟩ := List.mem_map.mp hMem
  rw [ht] at hEq
  exact ⟨r, hr, congrArg Resting.ptr hEq, congrArg (fun r => r.order.orderId) hEq,
    congrArg (fun r => r.order.quantity) hEq⟩

theorem accountOf (h : Recorded L (enteredBy xs) s calls) {x : Submission} (hx : x ∈ xs)
    (hLimit : x.order.type = .LIMIT) : AccountOf calls x (s.heap x.ptr) := by
  obtain ⟨r, hr, hPtr, hId, hQuantity⟩ := h.account hx hLimit
  have hCancelled := h.balanced.cancelled_iff r hr
  have hFilled := h.balanced.filled_eq r hr
  have hPos := h.balanced.quantity_pos
  obtain ⟨hLe, hFull, hOpen⟩ := h.balanced.status_eq hr
  rw [hId, h.cancelled_eq] at hCancelled
  rw [hId, h.trades_eq] at hFilled
  rw [h.trades_eq] at hPos
  rw [← hPtr, h.booked.contents hr]
  rw [hQuantity] at hLe hFull
  refine ⟨hFilled, hLe, hFull, hCancelled.trans ?_, fun hNe hNe' => ?_⟩
  · unfold Call.cancelledIds Call.cancelled
    simp only [List.mem_map, List.mem_filter, Bool.and_eq_true, decide_eq_true_iff]
    constructor
    · rintro ⟨c, ⟨hc, hType, hFound⟩, hEq⟩
      exact ⟨c, hc, hType, hEq, hFound⟩
    · rintro ⟨c, hc, hType, hEq, hFound⟩
      exact ⟨c, ⟨hc, hType, hFound⟩, hEq⟩
  · rw [hOpen hNe hNe', hFilled]
    exact if_congr (traded_pos_iff _ hPos).2 rfl rfl

/-- Trade IDs are the numbers from one on. -/
theorem tradeIds (h : Recorded L (enteredBy xs) s calls) :
    (Call.allTrades calls).map (fun t => t.tradeId.toNat) =
      List.range' 1 (Call.allTrades calls).length := by
  have hIds := h.balanced.tradeIds
  have hLt := h.balanced.length_lt
  rw [h.trades_eq] at hIds hLt
  -- there are no more orders than IDs
  have hCard : (enteredBy xs).length ≤ 2 ^ 64 := by
    have hLe := h.balanced.ids_nodup.length_le_card
    have hFin : Fintype.card UInt64 ≤ Fintype.card (Fin (2 ^ 64)) :=
      Fintype.card_le_of_injective UInt64.toFin fun _ _ => UInt64.toFin_inj.mp
    rw [Fintype.card_fin] at hFin
    rw [List.length_map] at hLe
    exact hLe.trans hFin
  have hMap := congrArg (List.map UInt64.toNat) hIds
  rw [List.map_map, List.map_map] at hMap
  refine hMap.trans ?_
  rw [List.range'_eq_map_range]
  apply List.map_congr_left
  intro i hi
  have hi := List.mem_range.mp hi
  have hNe : Call.allTrades calls ≠ [] := List.ne_nil_of_length_pos (by omega)
  have hLt := hLt hNe
  show (UInt64.ofNat (i + 1)).toNat = 1 + i
  rw [UInt64.toNat_ofNat', Nat.mod_eq_of_lt (by omega)]
  omega

/-- What the trades of the next call say. -/
theorem tradeOf (h : Recorded L (enteredBy xs) s calls) (hRequests : calls.map Call.request = xs)
    {entry : Entry k} {x : Submission} {reply : Reply k} (hAdm : L.book.Admits x)
    (hPost : ServePost (fun _ => True) L.book entry x s reply) :
    ∀ t ∈ (s.callOf x reply).trades, TradeOf calls (s.callOf x reply) t := by
  obtain ⟨now, hNow⟩ := x.order.stamp_eq x.now
  intro t ht
  have ht' : t ∈ reply.state.trades := ht
  rw [hPost.trades_eq] at ht'
  obtain ⟨hLimit, hSwept⟩ := PriorityBook.submit_trades h.balanced.wellFormed _ _ t ht'
  obtain ⟨hIncoming, ⟨r, hr, hId, hPrice⟩, hCrosses, hQty⟩ := hSwept
  rw [hNow] at hLimit hIncoming hr hId hCrosses
  rw [Side.opposite_opposite] at hIncoming
  have hOpen := h.balanced.wellFormed.openOrder _ r hr
  have hMem : r ∈ L.book.all := PriorityBook.mem_all_iff.mpr ⟨_, hr⟩
  -- the resting order came with an earlier call
  obtain ⟨y, hy, hyLimit, hEntered⟩ := mem_enteredBy.mp
    (h.balanced.mem_entered (Ledger.Balanced.mem_accounts_of_mem_all hMem))
  obtain ⟨now', hNow'⟩ := y.order.stamp_eq y.now
  rw [hNow'] at hEntered
  rw [← hRequests] at hy
  obtain ⟨d, hd, rfl⟩ := List.mem_map.mp hy
  have hPtr : r.ptr = d.request.ptr := congrArg Resting.ptr hEntered
  have hSide : r.order.side = d.request.order.side :=
    congrArg (fun r => r.order.side) hEntered
  have hId' : r.order.orderId = d.request.order.orderId :=
    congrArg (fun r => r.order.orderId) hEntered
  have hPrice' : r.order.price = d.request.order.price :=
    congrArg (fun r => r.order.price) hEntered
  have hPlace := h.booked.represents.place hAdm.ptr_fresh x.order
  have hFind : (s.place x.ptr x.order).book.orderIndex.find? d.request.order.orderId =
      some d.request.ptr := hPlace.find?_eq_some_iff.mpr ⟨r, hMem, hId', hPtr⟩
  refine ⟨hLimit, hQty, hIncoming, ⟨d, hd, hyLimit, ?_, ?_, ?_, hFind⟩, ?_⟩
  · exact hSide.symm.trans hOpen.side_eq
  · exact hId.trans hId'
  · exact hPrice.trans hPrice'
  · show match x.order.side with
      | .BUY => t.price ≤ x.order.price
      | .SELL => x.order.price ≤ t.price
    cases hs : x.order.side with
    | BUY =>
        rw [hs] at hCrosses
        exact not_lt.mp hCrosses
    | SELL =>
        rw [hs] at hCrosses
        exact not_lt.mp hCrosses

end Recorded

/-! ## The run as a whole -/

theorem enteredBy_append (ys zs : List Submission) :
    enteredBy (ys ++ zs) = enteredBy ys ++ enteredBy zs := List.flatMap_append

/-- A stream that is enterable is so in two parts. -/
theorem Enterable.of_append {entered : List Resting} {ys zs : List Submission}
    (h : Enterable entered (ys ++ zs)) :
    Enterable entered ys ∧ Enterable (entered ++ enteredBy ys) zs := by
  constructor
  · have hSub : (entered ++ enteredBy ys).Sublist (entered ++ enteredBy (ys ++ zs)) := by
      rw [enteredBy_append]
      exact (List.sublist_append_left ..).append_left _
    exact
      { limit := fun x hx => h.limit x (List.mem_append_left _ hx)
        fits := fun r hr => h.fits r (hSub.subset hr)
        ids_nodup := h.ids_nodup.sublist (hSub.map _)
        objects_nodup := h.objects_nodup.sublist
          (((List.sublist_append_left ..).map _).append_left _) }
  · induction ys generalizing entered with
    | nil =>
        rw [enteredBy, List.flatMap_nil, List.append_nil]
        exact h
    | cons y ys ih =>
        rw [enteredBy_cons, ← List.append_assoc]
        exact ih h.tail

theorem enterable_of_new {xs : List Submission} (hObjects : (xs.map Submission.ptr).Nodup)
    (hLimits : ∀ x ∈ xs, x.order.type = .LIMIT →
      FreshLimit x.order ∧ 0 < x.order.quantity ∧ x.order.quantity < 2 ^ 63)
    (hIds : ((xs.filter fun x => x.order.type = .LIMIT).map fun x => x.order.orderId).Nodup) :
    Enterable [] xs where
  limit x hx hLimit := ⟨(hLimits x hx hLimit).1, (hLimits x hx hLimit).2.1⟩
  fits := by
    intro r hr
    obtain ⟨x, hx, hLimit, rfl⟩ := mem_enteredBy.mp hr
    obtain ⟨t, ht⟩ := x.order.stamp_eq x.now
    rw [ht]
    exact (hLimits x hx hLimit).2.2
  ids_nodup := by
    have hMap : ∀ xs : List Submission, ((enteredBy xs).map fun r => r.order.orderId) =
        (xs.filter fun x => x.order.type = .LIMIT).map fun x => x.order.orderId := by
      intro xs
      induction xs with
      | nil => rfl
      | cons x xs ih =>
          obtain ⟨t, ht⟩ := x.order.stamp_eq x.now
          rw [enteredBy_cons, List.map_append, ih, newAccounts, ht]
          by_cases hLimit : x.order.type = .LIMIT <;> simp [hLimit]
    rw [List.nil_append, hMap]
    exact hIds
  objects_nodup := hObjects

theorem book_submitAll (L : Ledger) (xs : List Submission) :
    (L.submitAll xs).book = L.book.submitAll xs := by
  induction xs generalizing L with
  | nil => rfl
  | cons x xs ih => exact ih _

theorem closed_submitAll {L : Ledger} {xs : List Submission} {r : Resting} (hr : r ∈ L.closed) :
    r ∈ (L.submitAll xs).closed := by
  induction xs generalizing L with
  | nil => exact hr
  | cons x xs ih => exact ih (List.mem_append_left _ hr)

theorem allTrades_append (calls calls' : List (Call k)) :
    Call.allTrades (calls ++ calls') = Call.allTrades calls ++ Call.allTrades calls' :=
  List.flatMap_append

/-- The accounting law of a run from `s` to `final`. -/
structure Accounted (s : BookState k) (calls : List (Call k)) (final : BookState k) : Prop where
  trades : ∀ front c back, calls = front ++ c :: back → ∀ t ∈ c.trades, TradeOf front c t
  tradeIds : (Call.allTrades calls).map (fun t => t.tradeId.toNat) =
    List.range' 1 (Call.allTrades calls).length
  orders : ∀ c ∈ calls, c.request.order.type = .LIMIT →
    AccountOf calls c.request (final.heap c.request.ptr)
  /-- No trade names an order that earlier trades have filled. -/
  filled_last : ∀ c ∈ calls, c.request.order.type = .LIMIT → ∀ before t after,
    Call.allTrades calls = before ++ t :: after → t.Names c.request.order.orderId →
      traded c.request.order.orderId before < c.request.order.quantity
  /-- No later trade names an order that a call has left filled or cancelled. -/
  closed_last : ∀ front c back, calls = front ++ c :: back → ∀ d ∈ front ++ [c],
    d.request.order.type = .LIMIT →
      (c.after.heap d.request.ptr).status = .FILLED ∨
        (c.after.heap d.request.ptr).status = .CANCELLED →
      ∀ e ∈ back, ∀ t ∈ e.trades, ¬ t.Names d.request.order.orderId
  overflow_eq : final.overflow = s.overflow

section Run

variable {s final : BookState k} {entries : Nat → Entry k} {xs : List Submission}
  {calls : List (Call k)}

theorem recorded_clear (s : BookState k) : Recorded {} [] s.clear [] where
  balanced := Ledger.balanced_empty
  booked := { represents := represents_empty s.heap, closed := by simp }
  trades_eq := rfl
  cancelled_eq := rfl

/-- Both parts of a run that is cut, with their ledgers. -/
theorem Served.recorded_split (hEnter : Enterable [] xs) {front back : List (Call k)}
    (h : Served (fun _ => True) {} entries s.clear xs (front ++ back) final) :
    ∃ ys zs mid entries', xs = ys ++ zs ∧ front.map Call.request = ys ∧
      (∀ init c, front = init ++ [c] → mid = c.after) ∧
      Recorded (({} : Ledger).submitAll ys) (enteredBy ys) mid front ∧
      Enterable (enteredBy ys) zs ∧
      Served (fun _ => True) (({} : Ledger).submitAll ys).book entries' mid zs back final := by
  obtain ⟨ys, zs, mid, entries', rfl, hFront, hBack⟩ := h.split
  obtain ⟨hys, hzs⟩ := hEnter.of_append
  have hRec := (hFront.recorded rfl (recorded_clear s) hys).1
  refine ⟨ys, zs, mid, entries', rfl, hFront.requests_eq, ?_, hRec, hzs, ?_⟩
  · rintro init c rfl
    exact hFront.final_eq
  · rw [book_submitAll]
    exact hBack

theorem Served.closed_last (hEnter : Enterable [] xs) {front back : List (Call k)} {c : Call k}
    (h : Served (fun _ => True) {} entries s.clear xs (front ++ c :: back) final) {d : Call k}
    (hd : d ∈ front ++ [c]) (hLimit : d.request.order.type = .LIMIT)
    (hClosed : (c.after.heap d.request.ptr).status = .FILLED ∨
      (c.after.heap d.request.ptr).status = .CANCELLED) :
    ∀ e ∈ back, ∀ t ∈ e.trades, ¬ t.Names d.request.order.orderId := by
  rw [List.append_cons] at h
  obtain ⟨ys, zs, mid, entries', rfl, hRequests, hMid, hRec, hzs, hBack⟩ := h.recorded_split hEnter
  obtain ⟨hEnd, -⟩ := hBack.recorded rfl hRec hzs
  obtain rfl := hMid front c rfl
  obtain ⟨r, hr, hPtr, hId, -⟩ := hRec.account (hRequests ▸ List.mem_map_of_mem hd) hLimit
  rw [← hPtr, hRec.booked.contents hr] at hClosed
  -- the order has left the book, so its account no longer changes
  have hGone : r ∈ (({} : Ledger).submitAll ys).closed := by
    rcases List.mem_append.mp hr with hr | hr
    · exact hr
    · obtain ⟨side, hSide⟩ := PriorityBook.mem_all_iff.mp hr
      rw [(hRec.balanced.wellFormed.openOrder side r hSide).status_eq] at hClosed
      split at hClosed <;> simp at hClosed
  have hBefore := hRec.balanced.filled_eq r hr
  have hAfter := hEnd.balanced.filled_eq r (List.mem_append_left _ (closed_submitAll hGone))
  have hPos := hEnd.balanced.quantity_pos
  rw [hEnd.trades_eq, allTrades_append] at hAfter hPos
  rw [hRec.trades_eq] at hBefore
  rw [traded_append] at hAfter
  have hNone := (traded_pos_iff r.order.orderId
    fun t ht => hPos t (List.mem_append_right _ ht)).2
  intro e he t ht hNames
  rw [← hId] at hNames
  have hLate := hNone.mpr ⟨t, List.mem_flatMap.mpr ⟨e, he, ht⟩, hNames⟩
  omega

theorem Served.accounted (hEnter : Enterable [] xs)
    (h : Served (fun _ => True) {} entries s.clear xs calls final) :
    Accounted s calls final := by
  obtain ⟨hEnd, hOverflow⟩ := h.recorded rfl (recorded_clear s) hEnter
  simp only [List.nil_append] at hEnd
  have hOrders : ∀ c ∈ calls, c.request.order.type = .LIMIT →
      AccountOf calls c.request (final.heap c.request.ptr) := fun c hc hLimit =>
    hEnd.accountOf (h.requests_eq ▸ List.mem_map_of_mem hc) hLimit
  refine
    { trades := ?_
      tradeIds := hEnd.tradeIds
      orders := hOrders
      filled_last := ?_
      closed_last := ?_
      overflow_eq := hOverflow }
  · rintro front c back rfl
    obtain ⟨ys, zs, mid, entries', rfl, hRequests, -, hRec, -, hBack⟩ := h.recorded_split hEnter
    cases hBack with
    | cons hR hAdm hPost hRest => exact hRec.tradeOf hRequests hAdm hPost
  · intro c hc hLimit before t after hSplit hNames
    have hAccount := hOrders c hc hLimit
    have hLe := hAccount.filled_le
    have hPos := hEnd.balanced.quantity_pos
    rw [hEnd.trades_eq, hSplit] at hPos
    rw [hAccount.filled_eq, hSplit, traded_append, traded_cons, if_pos hNames] at hLe
    have ht := hPos t (List.mem_append_right _ (List.mem_cons_self ..))
    have hAfter := (traded_pos_iff c.request.order.orderId fun x hx =>
      hPos x (List.mem_append_right _ (List.mem_cons_of_mem t hx))).1
    omega
  · rintro front c back rfl d hd hLimit hClosed
    exact h.closed_last hEnter hd hLimit hClosed

end Run

/-- Quantity accounting.  For every stream of distinct objects served on a book that has just
been made or cleared, through either entry path at each call, whose limit orders are new, for
positive 64-bit quantities and under IDs that are not used again: the run obeys the accounting
law. -/
theorem quantityAccounting (s : BookState k) {entries : Nat → Entry k}
    (hEntries : ∀ n, (entries n).WritesOnly fun _ => True) {xs : List Submission}
    (hObjects : (xs.map Submission.ptr).Nodup)
    (hLimits : ∀ x ∈ xs, x.order.type = .LIMIT →
      FreshLimit x.order ∧ 0 < x.order.quantity ∧ x.order.quantity < 2 ^ 63)
    (hIds : ((xs.filter fun x => x.order.type = .LIMIT).map fun x => x.order.orderId).Nodup) :
    ∃ calls final, s.clear.serveAll entries xs = some (calls, final) ∧
      Accounted s calls final := by
  have hEnter := enterable_of_new hObjects hLimits hIds
  obtain ⟨calls, final, hRun, hServed⟩ :=
    serveAll_served (recorded_clear s).booked.represents hEntries
      (hEnter.admitsAll Ledger.balanced_empty)
  exact ⟨calls, final, hRun, hServed.accounted hEnter⟩

/-- A sell order, a buy order that takes part of it, and a cancel of what is left, through
alternating entry paths. -/
theorem quantityAccounting_short_stream :
    ∃ (calls : List (Call 4)) (final : BookState 4),
      (Call.allTrades calls).map Trade.quantity = [3] ∧
        Accounted { heap := fun _ => {}, book := {}, buf := {} } calls final := by
  let start : BookState 4 := { heap := fun _ => {}, book := {}, buf := {} }
  let entries : Nat → Entry 4 := fun n => if n % 2 = 0 then .vector else .noalloc (.inert 4)
  let xs : List Submission :=
    [⟨0, { orderId := 1, timestampNs := 1, price := 100, quantity := 5, side := .SELL }, 7⟩,
      ⟨1, { orderId := 2, timestampNs := 2, price := 101, quantity := 3 }, 7⟩,
      ⟨2, { orderId := 1, type := .CANCEL }, 7⟩]
  have hWrites : ∀ n, (entries n).WritesOnly fun _ => True := by
    intro n
    by_cases hn : n % 2 = 0
    · simp only [entries, hn, if_true]
      trivial
    · simp only [entries, hn, if_false]
      exact Deallocator.inert_writesOnly _
  have hSeen : (start.clear.serveAll entries xs).map
      (fun r => (Call.allTrades r.1).map Trade.quantity) = some [3] := by decide +kernel
  obtain ⟨calls, final, hRun, hAccounted⟩ :=
    quantityAccounting start hWrites (show (xs.map Submission.ptr).Nodup by decide) (by decide)
      (by decide)
  rw [hRun] at hSeen
  exact ⟨calls, final, Option.some.inj hSeen, hAccounted⟩

end MatchingMachine
