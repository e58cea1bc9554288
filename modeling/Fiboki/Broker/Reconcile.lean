import Fiboki.Broker.ExecutionService

/-!
Reconciliation: our record of every unsettled instruction against the orders the
venue lists, by the broker reference first and by the client reference else.
-/

namespace Fiboki

open Text

/-- The last element that satisfies `p`: a dictionary built from a list keeps the last entry. -/
def lastWith {α : Type} (p : α → Bool) (xs : List α) : Option α := xs.reverse.find? p

variable {α : Type}

theorem lastWith_some {p : α → Bool} {xs : List α} {a : α}
    (h : lastWith p xs = some a) : a ∈ xs ∧ p a = true :=
  ⟨by simpa using List.mem_of_find?_eq_some h, by simpa using List.find?_some h⟩

theorem lastWith_eq_none {p : α → Bool} {xs : List α} :
    lastWith p xs = none ↔ ∀ a ∈ xs, p a = false := by
  simp [lastWith]

theorem lastWith_iff {α κ : Type} [LinearOrder κ] {p : α → Bool} {key : α → κ} {xs : List α}
    (hsorted : xs.Pairwise fun a b => key a ≤ key b) (hnodup : (xs.map key).Nodup) {a : α} :
    lastWith p xs = some a ↔ a ∈ xs ∧ p a = true ∧ ∀ b ∈ xs, p b = true → key b ≤ key a := by
  induction xs using List.reverseRecOn with
  | nil => simp [lastWith]
  | append_singleton xs x ih =>
    obtain ⟨hxs, -, hlast⟩ := List.pairwise_append.1 hsorted
    have hbefore : ∀ b ∈ xs, key b ≤ key x := fun b hb => hlast b hb x List.mem_cons_self
    rw [List.map_append, List.nodup_append] at hnodup
    have hstep : lastWith p (xs ++ [x]) = if p x = true then some x else lastWith p xs := by
      unfold lastWith
      rw [List.reverse_append, List.reverse_singleton, List.singleton_append, List.find?_cons]
      cases p x <;> rfl
    rw [hstep]
    by_cases hx : p x = true
    · rw [if_pos hx, Option.some.injEq]
      constructor
      · rintro rfl
        refine ⟨List.mem_append_right _ List.mem_cons_self, hx, fun b hb _ => ?_⟩
        rcases List.mem_append.1 hb with hb | hb
        · exact hbefore b hb
        · exact le_of_eq (congrArg key (List.mem_singleton.1 hb))
      · rintro ⟨ha, -, hmax⟩
        rcases List.mem_append.1 ha with ha | ha
        · have hle := hmax x (List.mem_append_right _ List.mem_cons_self) hx
          have heq : key a = key x := le_antisymm (hbefore a ha) hle
          exact absurd heq (hnodup.2.2 _ (List.mem_map_of_mem ha) _ (by simp))
        · exact (List.mem_singleton.1 ha).symm
    · rw [if_neg hx, ih hxs hnodup.1]
      constructor
      · rintro ⟨ha, hp, hmax⟩
        refine ⟨List.mem_append_left _ ha, hp, fun b hb hpb => ?_⟩
        rcases List.mem_append.1 hb with hb | hb
        · exact hmax b hb hpb
        · rw [List.mem_singleton.1 hb] at hpb
          exact absurd hpb hx
      · rintro ⟨ha, hp, hmax⟩
        rcases List.mem_append.1 ha with ha | ha
        · exact ⟨ha, hp, fun b hb hpb => hmax b (List.mem_append_left _ hb) hpb⟩
        · rw [List.mem_singleton.1 ha] at hp
          exact absurd hp hx

/-- `by_broker_ref.get(ref)`. -/
def byBrokerRef (orders : List OrderAck) (ref : String) : Option OrderAck :=
  lastWith (fun a => truthy a.brokerRef && a.brokerRef == some ref) orders

/-- `by_client_ref.get(ref)`. -/
def byClientRef (orders : List OrderAck) (ref : String) : Option OrderAck :=
  lastWith (fun a => a.clientRef != "" && a.clientRef == ref) orders

/-- The venue record `reconcile` takes an intent's state from. -/
def matchedRecord (orders : List OrderAck) (intent : OrderIntent) : Option OrderAck :=
  let byBroker := if truthy intent.brokerRef then byBrokerRef orders (intent.brokerRef.getD "")
    else none
  byBroker.or (byClientRef orders intent.clientRef)

structure SizeMismatch where
  clientRef : String
  localSize : ℚ
  venueSize : ℚ

structure Resolution where
  write : Option OrderIntent
  resolved : Bool
  stillUnknown : Bool
  mismatch : Option SizeMismatch

def venueHasNoRecord : String := "reconciled:venue_has_no_record_of_pending_order"

/-- The body of `reconcile`'s loop. -/
def resolve (now : Timestamp) (orders : List OrderAck) (intent : OrderIntent) : Resolution :=
  match matchedRecord orders intent with
  | none =>
    if intent.state = .pending then
      -- written before dispatch, and not in the list: taken as dead
      ⟨some { intent with state := .cancelled, updatedAt := now, lastError := venueHasNoRecord },
        true, false, none⟩
    else ⟨none, false, true, none⟩
  | some ack =>
    let updated := applyAck intent ack now
    let venueSize := ratOr (ack.rawFilledSize.getD updated.filledSize) 0
    ⟨some updated,
      (truthy updated.brokerRef && !truthy intent.brokerRef) || updated.state != intent.state,
      updated.state.needsReconciliation,
      if (ack.status = .filled ∨ ack.status = .partiallyFilled) ∧ 0 < venueSize ∧
          1 / 10 ^ 9 < |venueSize - updated.filledSize| then
        some ⟨intent.clientRef, updated.filledSize, venueSize⟩
      else none⟩

structure ReconciliationReport where
  at_ : Timestamp
  checked : ℕ
  resolved : List String
  stillUnknown : List String
  orphanBrokerRefs : List String
  sizeMismatches : List SizeMismatch
  errors : List String

def sortedStrings (xs : List String) : List String := xs.insertionSort (fun a b => a ≤ b)

def IntentStore.outstanding (store : IntentStore) : List OrderIntent :=
  store.all.filter (·.state.needsReconciliation)

/-- The store after a pass over `orders`. -/
def IntentStore.reconciled (store : IntentStore) (now : Timestamp) (orders : List OrderAck) :
    IntentStore :=
  ⟨Journal.rewrite (fun i => (resolve now orders i).write) store.lines store.outstanding⟩

namespace ExecutionService

variable {σ : Type} (svc : ExecutionService σ)

def reconcile (now : Timestamp) (w : World σ) : ReconciliationReport × World σ :=
  match svc.adapter.orders w.venue with
  | (.error exc, venue) => (unreachable exc, { w with venue := venue })
  | (.ok orders, venue) =>
    match svc.adapter.positions venue with
    | (.error exc, venue) => (unreachable exc, { w with venue := venue })
    | (.ok positions, venue) =>
      let outstanding := w.store.outstanding
      let store := w.store.reconciled now orders
      let resolutions := outstanding.map (fun i => (i.clientRef, resolve now orders i))
      let named := fun (p : Resolution → Bool) =>
        sortedStrings ((resolutions.filter (fun r => p r.2)).map (·.1)).dedup
      let knownRefs :=
        store.all.filterMap (fun i => if truthy i.brokerRef then i.brokerRef else none)
      let held := positions.filterMap (fun p => if truthy p.venueRef then p.venueRef else none)
      ({ at_ := now
         checked := outstanding.length
         resolved := named Resolution.resolved
         stillUnknown := named Resolution.stillUnknown
         orphanBrokerRefs := sortedStrings (held.filter (· ∉ knownRefs))
         sizeMismatches := resolutions.filterMap (·.2.mismatch)
         errors := [] },
        { store := store, venue := venue })
where
  unreachable (exc : Raised) : ReconciliationReport :=
    { at_ := now, checked := 0, resolved := [], stillUnknown := [], orphanBrokerRefs := []
      sizeMismatches := [], errors := ["venue_unreachable:" ++ exc.described] }

end ExecutionService

theorem resolve_write_clientRef {now : Timestamp} {orders : List OrderAck} {i j : OrderIntent}
    (h : (resolve now orders i).write = some j) : j.clientRef = i.clientRef := by
  unfold resolve at h
  cases hm : matchedRecord orders i with
  | none =>
    simp only [hm] at h
    split at h
    · cases h; rfl
    · cases h
  | some a =>
    simp only [hm, Option.some.injEq] at h
    rw [← h]
    rfl

theorem resolve_write (now : Timestamp) (orders : List OrderAck) (i : OrderIntent) :
    (resolve now orders i).write =
      match matchedRecord orders i with
      | some ack => some (applyAck i ack now)
      | none =>
        if i.state = .pending then
          some { i with state := .cancelled, updatedAt := now, lastError := venueHasNoRecord }
        else none := by
  unfold resolve
  cases hm : matchedRecord orders i with
  | none => by_cases hp : i.state = .pending <;> simp [hp]
  | some a => rfl

namespace IntentStore

variable {store : IntentStore} {now : Timestamp} {orders : List OrderAck} {k : String}

variable {i : OrderIntent}

theorem get_reconciled_of_outstanding (h : store.get k = some i)
    (hi : i.state.needsReconciliation = true) :
    (store.reconciled now orders).get k = ((resolve now orders i).write).or (some i) := by
  have hk := clientRef_of_get h
  subst hk
  have hmem : i ∈ store.outstanding := List.mem_filter.2 ⟨mem_all.2 h, hi⟩
  have hnd : (store.outstanding.map OrderIntent.clientRef).Nodup :=
    (Journal.nodup_snapshot _ _).sublist ((List.filter_sublist).map _)
  rw [← h]
  exact Journal.current_rewrite_of_mem (fun _ _ => resolve_write_clientRef) hnd hmem _

theorem resolve_write_same {i j : OrderIntent} (h : (resolve now orders i).write = some j) :
    j.SameInstruction i := by
  rw [resolve_write] at h
  cases hm : matchedRecord orders i with
  | none =>
    rw [hm] at h
    dsimp only at h
    split_ifs at h
    obtain rfl := Option.some.inj h
    exact ⟨rfl, rfl, rfl, rfl, rfl, rfl, rfl, rfl, rfl⟩
  | some a =>
    rw [hm] at h
    obtain rfl := Option.some.inj h
    exact ⟨rfl, rfl, rfl, rfl, rfl, rfl, rfl, rfl, rfl⟩

theorem mem_lines_reconciled {j : OrderIntent} (h : j ∈ (store.reconciled now orders).lines) :
    ∃ i ∈ store.lines, j.SameInstruction i := by
  have hfold : ∀ (vs lines : List OrderIntent), (∀ v ∈ vs, v ∈ store.lines) →
      (∀ j ∈ lines, ∃ i ∈ store.lines, j.SameInstruction i) →
      ∀ j ∈ Journal.rewrite (fun i => (resolve now orders i).write) lines vs,
        ∃ i ∈ store.lines, j.SameInstruction i := by
    intro vs
    induction vs with
    | nil => exact fun lines _ hlines => hlines
    | cons v vs ih =>
      intro lines hvs hlines
      rw [Journal.rewrite_cons]
      apply ih _ fun x hx => hvs x (List.mem_cons_of_mem _ hx)
      cases hw : (resolve now orders v).write with
      | none => exact hlines
      | some w =>
        intro j hj
        rcases List.mem_append.1 hj with hj | hj
        · exact hlines j hj
        · rw [List.mem_singleton.1 hj]
          exact ⟨v, hvs v List.mem_cons_self, resolve_write_same hw⟩
  refine hfold _ _ ?_ (fun i hi => ⟨i, hi, .refl i⟩) j h
  intro v hv
  exact Journal.mem_of_current (mem_all.1 (List.mem_filter.1 hv).1)

theorem get_reconciled_of_settled (h : store.get k = some i)
    (hi : i.state.needsReconciliation = false) : (store.reconciled now orders).get k = some i := by
  rw [← h]
  refine Journal.current_rewrite_of_notMem (fun _ _ => resolve_write_clientRef) ?_ _
  intro hk
  obtain ⟨j, hj, rfl⟩ := List.mem_map.1 hk
  obtain ⟨hall, hneeds⟩ := List.mem_filter.1 hj
  rw [mem_all.1 hall, Option.some.injEq] at h
  rw [h, hi] at hneeds
  cases hneeds

end IntentStore

end Fiboki
