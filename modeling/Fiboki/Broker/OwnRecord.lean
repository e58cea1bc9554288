import Fiboki.Broker.LiveEntries

/-!
Reconciliation and the record of the same instruction.

Every instruction on a position shares one broker reference, and the pass looks
a record up under that reference first.  An instruction is told from another by
its client reference, which the venue echoes on its record.
-/

namespace Fiboki.OwnRecord

open Text IntentStore

/-- A store that calls of the service have produced, whatever the outside answered. -/
inductive Produced : IntentStore → Prop where
  | empty : Produced IntentStore.empty
  | submit {σ : Type} (svc : ExecutionService σ) (plan : TradePlan) (orderId : String)
      (context : RiskContext) (w : World σ) :
      Produced w.store → Produced (svc.submit plan orderId context w).2.store
  | close {σ : Type} (svc : ExecutionService σ) (position : Position) (context : ExitContext)
      (w : World σ) : Produced w.store → Produced (svc.close position context w).2.store
  | closePartial {σ : Type} (svc : ExecutionService σ) (position : Position) (size : ℚ)
      (context : ExitContext) (reason : String) (w : World σ) :
      Produced w.store → Produced (svc.closePartial position size context reason w).2.store
  | amend {σ : Type} (svc : ExecutionService σ) (position : Position)
      (stopLoss takeProfit : Option ℚ) (context : ExitContext) (retryAttempts : ℕ)
      (reason : String) (w : World σ) :
      Produced w.store →
        Produced (svc.amend position stopLoss takeProfit context retryAttempts reason w).2.store

theorem prefixed_ne_empty {a b : String} (h : a.toList ≠ []) : a ++ b ≠ "" := by
  intro he
  have := congrArg String.toList he
  simp only [String.toList_append, String.toList_empty, List.append_eq_nil_iff] at this
  exact h this.1

theorem Produced.clientRef_ne_empty {store : IntentStore} (h : Produced store) :
    ∀ i ∈ store.lines, i.clientRef ≠ "" := by
  have hwrites : ∀ {k : String} {s s' : IntentStore}, k ≠ "" → (∀ i ∈ s.lines, i.clientRef ≠ "") →
      WritesOnly k s s' → ∀ i ∈ s'.lines, i.clientRef ≠ "" := by
    intro k s s' hk hs hw i hi
    rcases hw.mem_lines hi with hi | hi
    · exact hs i hi
    · rwa [hi]
  induction h with
  | empty => intro i hi; cases hi
  | submit svc plan orderId context w _ ih =>
    exact hwrites (clientRefFor_ne_empty plan) ih (svc.submit_writes plan orderId context w)
  | close svc position context w _ ih =>
    exact hwrites (prefixed_ne_empty (by decide)) ih (svc.close_writes position context w)
  | closePartial svc position size context reason w _ ih =>
    refine hwrites ?_ ih (svc.closePartial_writes position size context reason w)
    simp only [partialClientRef, String.append_assoc]
    exact prefixed_ne_empty (by decide)
  | amend svc position stopLoss takeProfit context retryAttempts reason w _ ih =>
    refine hwrites ?_ ih
      (svc.amend_writes position stopLoss takeProfit context retryAttempts reason w)
    simp only [amendClientRef, String.append_assoc]
    exact prefixed_ne_empty (by decide)

/-- A position at the venue, with the client reference of the order that opened it. -/
structure Held where
  position : Position
  openedBy : String

def IsEntry (i : OrderIntent) : Prop :=
  match i.extra with
  | .entry .. => True
  | _ => False

def TruthfulListing (orders : List OrderAck) (held : List Held) : Prop :=
  ∀ a ∈ orders, a.status = .cancelled → ∀ h ∈ held, h.openedBy ≠ a.clientRef

def Unlisted (orders : List OrderAck) (i : OrderIntent) : Prop :=
  ∀ a ∈ orders, a.clientRef ≠ i.clientRef ∧
    ¬ (truthy a.brokerRef = true ∧ a.brokerRef = i.brokerRef)

/-- The pass took `i` to `j` on the venue's record of that same instruction: the
state is unchanged, or it is what a record of the instruction stands for, or
nothing is listed and a pending intent is called dead; and no entry is called
dead while its position is held. -/
structure FromOwnRecord (orders : List OrderAck) (held : List Held) (i j : OrderIntent) : Prop where
  state : j.state = i.state ∨
    (∃ a ∈ orders, a.clientRef = i.clientRef ∧ j.state = stateOfStatus a.status) ∨
    (Unlisted orders i ∧ i.state = .pending ∧ j.state = .cancelled)
  entry : IsEntry i → j.state = .cancelled → j.state ≠ i.state → ∀ h ∈ held,
    h.openedBy ≠ i.clientRef

def NoMistake (store store' : IntentStore) (orders : List OrderAck) (held : List Held) : Prop :=
  ∀ i, store.get i.clientRef = some i →
    ∃ j, store'.get i.clientRef = some j ∧ FromOwnRecord orders held i j

/-- What the code needs of one unsettled intent: the record listed under its
references stands for the state it already has or for that of a record of the
same instruction, and if it is a pending entry without a record the venue holds
nothing that it opened. -/
def Agrees (orders : List OrderAck) (held : List Held) (i : OrderIntent) : Prop :=
  match matchedRecord orders i with
  | some a => stateOfStatus a.status = i.state ∨
      ∃ a' ∈ orders, a'.clientRef = i.clientRef ∧ stateOfStatus a'.status = stateOfStatus a.status
  | none => i.state = .pending → IsEntry i → ∀ h ∈ held, h.openedBy ≠ i.clientRef

def Meets (store : IntentStore) (orders : List OrderAck) (held : List Held) : Prop :=
  ∀ i, store.get i.clientRef = some i → i.state.needsReconciliation = true → Agrees orders held i

variable {orders : List OrderAck}

variable {i : OrderIntent}

theorem unlisted_iff (hne : i.clientRef ≠ "") :
    matchedRecord orders i = none ↔ Unlisted orders i := by
  have hclient : byClientRef orders i.clientRef = none ↔ ∀ a ∈ orders, a.clientRef ≠
    i.clientRef := by
    simp only [byClientRef, lastWith_eq_none]
    refine forall₂_congr fun a _ => ?_
    by_cases h : a.clientRef = i.clientRef <;> simp [h, hne]
  have hbroker : (if truthy i.brokerRef then byBrokerRef orders (i.brokerRef.getD "") else none) =
      none ↔ ∀ a ∈ orders, ¬ (truthy a.brokerRef = true ∧ a.brokerRef = i.brokerRef) := by
    cases htr : truthy i.brokerRef with
    | false =>
      simp only [Bool.false_eq_true, if_false, true_iff]
      rintro a _ ⟨h, heq⟩
      rw [heq, htr] at h
      cases h
    | true =>
      obtain ⟨b, hb, -⟩ := exists_of_truthy htr
      simp only [if_true, hb, Option.getD_some, byBrokerRef, lastWith_eq_none]
      refine forall₂_congr fun a _ => ?_
      by_cases h : a.brokerRef = some b <;> simp [h]
  rw [matchedRecord, Option.or_eq_none_iff, hclient, hbroker, Unlisted]
  exact ⟨fun h a ha => ⟨h.2 a ha, h.1 a ha⟩, fun h =>
    ⟨fun a ha => (h a ha).2, fun a ha => (h a ha).1⟩⟩

theorem status_of_cancelled {s : OrderStatus} (h : stateOfStatus s = .cancelled) : s =
    .cancelled := by
  cases s <;> simp_all [stateOfStatus]

theorem fromOwnRecord_iff_agrees {held : List Held} (now : Timestamp)
    (hne : i.clientRef ≠ "") (ht : TruthfulListing orders held) :
    FromOwnRecord orders held i (((resolve now orders i).write).getD i) ↔ Agrees orders held i := by
  unfold Agrees
  cases hm : matchedRecord orders i with
  | some a =>
    simp only [resolve_write, hm, Option.getD_some]
    constructor
    · rintro ⟨hs | ⟨a', ha', hk, hs⟩ | ⟨hno, -⟩, -⟩
      · exact .inl hs
      · exact .inr ⟨a', ha', hk, hs.symm⟩
      · rw [(unlisted_iff hne).2 hno] at hm
        cases hm
    · rintro (hs | ⟨a', ha', hk, hs⟩)
      · exact ⟨.inl hs, fun _ _ hne' => absurd hs hne'⟩
      · refine ⟨.inr (.inl ⟨a', ha', hk, hs.symm⟩), fun _ hc _ h hh => ?_⟩
        rw [applyAck_state, ← hs] at hc
        rw [← hk]
        exact ht a' ha' (status_of_cancelled hc) h hh
  | none =>
    have hno := (unlisted_iff hne).1 hm
    simp only [resolve_write, hm]
    by_cases hp : i.state = .pending
    · simp only [hp, if_true, Option.getD_some, forall_const]
      refine ⟨fun h he => h.entry he rfl (by rw [hp]; exact fun h' => by cases h'), fun h => ?_⟩
      exact ⟨.inr (.inr ⟨hno, hp, rfl⟩), fun he _ _ => h he⟩
    · simp only [hp, if_false, Option.getD_none, false_implies, iff_true]
      exact ⟨.inl rfl, fun _ _ hne' => absurd rfl hne'⟩

/-- On every store that calls of the service produce and every truthful listing,
reconciliation mistakes no order for another exactly when the record it finds for
each unsettled intent agrees with that intent's own. -/
theorem reconcile_no_mistake_iff {σ : Type} (svc : ExecutionService σ) (now : Timestamp)
    (w : World σ) (hw : Produced w.store) {orders : List OrderAck} {held : List Held} {v v' : σ}
    (horders : svc.adapter.orders w.venue = (.ok orders, v))
    (hheld : svc.adapter.positions v = (.ok (held.map Held.position), v'))
    (ht : TruthfulListing orders held) :
    NoMistake w.store (svc.reconcile now w).2.store orders held ↔ Meets w.store orders held := by
  have hstore : (svc.reconcile now w).2.store = w.store.reconciled now orders := by
    simp only [ExecutionService.reconcile, horders, hheld]
  have hgetD : ∀ o : Option OrderIntent, ∀ i, o.or (some i) = some (o.getD i) := by
    intro o i
    cases o <;> rfl
  rw [hstore]
  refine forall₂_congr fun i hget => ?_
  have hne := hw.clientRef_ne_empty i (Journal.mem_of_current hget)
  cases hn : i.state.needsReconciliation with
  | true =>
    rw [IntentStore.get_reconciled_of_outstanding hget hn, hgetD,
      ← fromOwnRecord_iff_agrees now hne ht]
    simp
  | false =>
    rw [IntentStore.get_reconciled_of_settled hget hn]
    simp only [Bool.false_eq_true, false_implies, iff_true]
    exact ⟨i, rfl, .inl rfl, fun _ _ hne' => absurd rfl hne'⟩

open LiveEntries (sampleCall sampleConfig filledAck fills)

def samplePosition : Position where
  instrument := "EURUSD"
  direction := .long
  size := 1
  entryPrice := 2
  entryTime := 0
  stopLoss := 1
  takeProfitTargets := []
  strategyId := "s"
  barsHeld := 0
  maxFavourableExcursion := 0
  maxAdverseExcursion := 0
  financingAccrued := 0
  venueRef := some "T1"
  positionId := "pos"

def sampleExit : ExitContext := ⟨"EURUSD", "s", 1, 1, .paper, "pos", "close"⟩

theorem truthy_dealt : truthy (some "T1") = true := by decide

/-- A venue that fills the entry, loses the connection on a close, and lists `orders`. -/
def losesClose (orders : List OrderAck) : ExecutionService Unit where
  adapter :=
    { venueName := "venue"
      orders := fun v => (.ok orders, v)
      positions := fun v => (.ok [samplePosition], v)
      placeOrder := fun _ v => (.ok (filledAck "T1" truthy_dealt), v)
      closePosition := fun _ _ _ v => (.error ⟨.brokerUnavailable, "timeout"⟩, v)
      amendPosition := fun _ _ _ _ _ v => (.error ⟨.brokerUnavailable, "timeout"⟩, v)
      closePartial := fun _ _ _ _ v => (.error ⟨.brokerUnavailable, "timeout"⟩, v) }
  gateway := { evaluate := fun _ _ _ => ⟨true, []⟩, evaluateExit := fun _ _ => ⟨true, []⟩ }
  modeGuard := { check := fun _ _ _ _ _ => ⟨true, []⟩ }
  venueUrl := ""
  mode := .paper

def entryRecord : OrderAck := filledAck "T1" truthy_dealt

def stillHeld : List Held := [⟨samplePosition, "FBK-p"⟩]

def unknownClose : World Unit :=
  ((losesClose []).close samplePosition sampleExit
    ((losesClose []).submit sampleCall.plan "o" sampleCall.context ⟨IntentStore.empty, ()⟩).2).2

theorem produced_unknownClose : Produced unknownClose.store :=
  .close _ _ _ _ (.submit _ _ _ _ _ .empty)

/-- The unconfirmed close is marked filled on its entry's record, with the
position still at the venue. -/
theorem close_marked_filled_by_entry :
    Produced unknownClose.store ∧ TruthfulListing [entryRecord] stillHeld ∧
      (unknownClose.store.get "FBK-CLOSE-pos").map OrderIntent.state = some .unknown ∧
      (((losesClose [entryRecord]).reconcile 2 unknownClose).2.store.get "FBK-CLOSE-pos").map
        OrderIntent.state = some .filled ∧
      ¬ NoMistake unknownClose.store ((losesClose [entryRecord]).reconcile 2 unknownClose).2.store
        [entryRecord] stillHeld := by
  have hbefore : (unknownClose.store.get "FBK-CLOSE-pos").map OrderIntent.state =
    some .unknown := by
    decide
  have hafter : (((losesClose [entryRecord]).reconcile 2 unknownClose).2.store.get
      "FBK-CLOSE-pos").map OrderIntent.state = some .filled := by decide
  refine ⟨produced_unknownClose, ?_, hbefore, hafter, fun h => ?_⟩
  · intro a ha hc
    obtain rfl := List.mem_singleton.1 ha
    cases hc
  · obtain ⟨i, hi, his⟩ := Option.map_eq_some_iff.1 hbefore
    have hik := clientRef_of_get hi
    obtain ⟨j, hj, hfrom, -⟩ := h i (by rw [hik, hi])
    rw [hik] at hj
    rw [hj] at hafter
    have hjs : j.state = .filled := by simpa using hafter
    rcases hfrom with hs | ⟨a, ha, hak, -⟩ | ⟨-, hp, -⟩
    · rw [hjs, his] at hs
      cases hs
    · obtain rfl := List.mem_singleton.1 ha
      rw [hik] at hak
      exact absurd hak (by decide)
    · rw [his] at hp
      cases hp

/-- A venue that lists working orders only leaves the unconfirmed close alone. -/
theorem no_mistake_on_working_orders :
    NoMistake unknownClose.store ((losesClose []).reconcile 2 unknownClose).2.store []
      stillHeld := by
  refine (reconcile_no_mistake_iff (losesClose []) 2 unknownClose produced_unknownClose rfl rfl
    (fun a ha => by cases ha)).2 fun i hget _ => ?_
  have hkeys : ∀ i ∈ unknownClose.store.lines,
      i.clientRef = "FBK-p" ∨ i.clientRef = "FBK-CLOSE-pos" := by decide
  have hentry : (unknownClose.store.get "FBK-p").map OrderIntent.state = some .filled := by
    decide
  have hclose : (unknownClose.store.get "FBK-CLOSE-pos").map OrderIntent.state = some .unknown := by
    decide
  have hnone : matchedRecord [] i = none := by
    unfold matchedRecord
    split <;> rfl
  simp only [Agrees, hnone]
  intro hp
  rcases hkeys i (Journal.mem_of_current hget) with hk | hk
  · rw [hk] at hget
    simp [hget, hp] at hentry
  · rw [hk] at hget
    simp [hget, hp] at hclose

end Fiboki.OwnRecord
