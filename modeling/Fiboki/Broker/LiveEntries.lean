import Fiboki.Broker.Reconcile
import Fiboki.Lib.Run

/-!
At most one live entry for a plan.

The environment of the service is a venue that remembers what it was sent and
what became of it.  An event is one call of the service with everything the
outside world contributes to it, a crash inside such a call, or a change at the
venue.  The record of what became of an order is never read by the service.
-/

namespace Fiboki.LiveEntries

open Text Runs

/-- What became of an order that was sent.  `refused` says that the venue holds
nothing of it: it was refused, or taken off with nothing filled. -/
inductive Fate where
  | refused
  | neverReached
  | live
  deriving DecidableEq

/-- One `place_order`: the client reference it carried and the venue's own keys for it. -/
structure Dispatch where
  clientRef : String
  keys : List String
  fate : Fate
  deriving DecidableEq

structure Venue where
  dispatches : List Dispatch

namespace Venue

def send (v : Venue) (d : Dispatch) : Venue := ⟨v.dispatches ++ [d]⟩

def drop (v : Venue) (clientRef : String) : Venue :=
  ⟨v.dispatches.map fun d => if d.clientRef = clientRef then { d with fate := .refused } else d⟩

/-- An order sent under `clientRef` is at the venue, resting or filled. -/
def LiveFor (v : Venue) (clientRef : String) : Prop :=
  ∃ d ∈ v.dispatches, d.clientRef = clientRef ∧ d.fate = .live

variable {d : Dispatch} {v : Venue}

theorem liveFor_send {k : String} :
    (v.send d).LiveFor k ↔ v.LiveFor k ∨ d.clientRef = k ∧ d.fate = .live := by
  simp [LiveFor, send, or_and_right, exists_or]

theorem mem_drop_live {k : String} (h : d ∈ (v.drop k).dispatches)
    (hl : d.fate = .live) : d ∈ v.dispatches := by
  obtain ⟨d', hd', rfl⟩ := List.mem_map.1 h
  split at hl
  · cases hl
  · split
    · contradiction
    · exact hd'

end Venue

/-- What a call of `submit` meets outside the store. -/
structure Outside where
  guard : ModeGuardDecision
  decision : RiskDecision
  reply : Except Raised OrderAck
  keys : List String
  fate : Fate

/-- One call of `submit`, with its arguments. -/
structure Call where
  plan : TradePlan
  orderId : String
  context : RiskContext

inductive Event where
  | submit (call : Call) (outside : Outside)
  /-- The process dies between the write of the intent and the dispatch. -/
  | crashBeforeDispatch (call : Call) (outside : Outside)
  /-- The process dies after the order has left and before its outcome is written. -/
  | crashAfterDispatch (call : Call) (outside : Outside)
  | reconcile (now : Timestamp) (orders : Except Raised (List OrderAck))
      (positions : Except Raised (List Position))
  | venueDrops (clientRef : String)

structure Config where
  venueName : String
  venueUrl : String
  mode : ExecutionMode

def notUsed {α : Type} : Except Raised α := .error ⟨.brokerError, "not used"⟩

def service (cfg : Config) (o : Outside) (orders : Except Raised (List OrderAck))
    (positions : Except Raised (List Position)) : ExecutionService Venue where
  adapter :=
    { venueName := cfg.venueName
      orders := fun v => (orders, v)
      positions := fun v => (positions, v)
      placeOrder := fun order v => (o.reply, v.send ⟨order.clientRef, o.keys, o.fate⟩)
      closePosition := fun _ _ _ v => (notUsed, v)
      amendPosition := fun _ _ _ _ _ v => (notUsed, v)
      closePartial := fun _ _ _ _ v => (notUsed, v) }
  gateway := { evaluate := fun _ _ _ => o.decision, evaluateExit := fun _ _ => o.decision }
  modeGuard := { check := fun _ _ _ _ _ => o.guard }
  venueUrl := cfg.venueUrl
  mode := cfg.mode

def idle : Outside := ⟨⟨true, []⟩, ⟨true, []⟩, notUsed, [], .neverReached⟩

variable (cfg : Config)

def step (w : World Venue) : Event → World Venue
  | .submit c o => ((service cfg o notUsed notUsed).submit c.plan c.orderId c.context w).2
  | .crashBeforeDispatch c o =>
    ((service cfg o notUsed notUsed).prepare c.plan c.orderId c.context w).2
  | .crashAfterDispatch c o =>
    match (service cfg o notUsed notUsed).prepare c.plan c.orderId c.context w with
    | (.dispatch _ order _, w) =>
      { w with venue := w.venue.send ⟨order.clientRef, o.keys, o.fate⟩ }
    | (.done _, w) => w
  | .reconcile now orders positions => ((service cfg idle orders positions).reconcile now w).2
  | .venueDrops k => { w with venue := w.venue.drop k }

def initial : World Venue := ⟨IntentStore.empty, ⟨[]⟩⟩

def Dead (s : OrderStatus) : Prop := s = .rejected ∨ s = .cancelled

def TruthfulReply (o : Outside) : Prop :=
  match o.reply with
  | .error exc => exc.kind.isRejected = true → o.fate ≠ .live
  | .ok ack => (Dead ack.status → o.fate ≠ .live) ∧
      ∀ b, ack.brokerRef = some b → truthy (some b) = true → b ∈ o.keys

/-- What a venue can truthfully list: the latest record under a reference says
dead only if nothing under it is live, and a record under a client reference
carries the venue's own key. -/
structure TruthfulList (v : Venue) (orders : List OrderAck) : Prop where
  client : ∀ k a, byClientRef orders k = some a → Dead a.status → ¬ v.LiveFor k
  broker : ∀ b a, byBrokerRef orders b = some a → Dead a.status →
    ∀ d ∈ v.dispatches, b ∈ d.keys → d.fate ≠ .live
  key : ∀ k a b, byClientRef orders k = some a → a.brokerRef = some b → truthy (some b) = true →
    ∀ d ∈ v.dispatches, d.clientRef = k → d.fate = .live → b ∈ d.keys

def Truthful (w : World Venue) : Event → Prop
  | .submit _ o => TruthfulReply o
  | .reconcile _ (.ok orders) (.ok _) => TruthfulList w.venue orders
  | _ => True

/-- The venue's word about the order of an intent: a record that says it is dead,
or a list without a record while the venue holds nothing of it. -/
def VenueEvidence (w : World Venue) (i : OrderIntent) : Event → Prop
  | .reconcile _ (.ok orders) (.ok _) =>
    (∃ a, matchedRecord orders i = some a ∧ Dead a.status) ∨
      (matchedRecord orders i = none ∧ ¬ w.venue.LiveFor i.clientRef)
  | _ => False

/-- The step keeps at most one live entry for a plan: it sends an order only if
nothing sent before under the same reference is live, and it turns an intent that
refuses a second submission into one that permits it only on the venue's word. -/
structure Safe (w : World Venue) (e : Event) : Prop where
  single : ∀ d, (step cfg w e).venue.dispatches = w.venue.dispatches ++ [d] →
    ∀ d' ∈ w.venue.dispatches, d'.clientRef = d.clientRef → d'.fate ≠ .live
  evidence : ∀ i, w.store.get i.clientRef = some i → i.state.blocksResubmission = true →
    (step cfg w e).store.blocks i.clientRef = false → VenueEvidence w i e

def GuardHolds (w : World Venue) (c : Call) (o : Outside) : Prop :=
  o.guard.allowed = true ∨ w.store.blocks (clientRefFor c.plan) = false

def Meets (w : World Venue) : Event → Prop
  | .submit c o => GuardHolds w c o
  | .crashBeforeDispatch c o => GuardHolds w c o
  | .crashAfterDispatch c o => GuardHolds w c o
  | .reconcile _ (.ok orders) (.ok _) =>
    ∀ i, w.store.get i.clientRef = some i → i.state = .pending → w.venue.LiveFor i.clientRef →
      matchedRecord orders i ≠ none
  | _ => True

/-- Every live order is recorded by an intent that refuses a second submission,
under the venue's own key where one is stored. -/
def Recorded (w : World Venue) : Prop :=
  ∀ k, w.venue.LiveFor k → ∃ i, w.store.get k = some i ∧ i.state.blocksResubmission = true ∧
    ∀ b, i.brokerRef = some b → truthy (some b) = true →
      ∀ d ∈ w.venue.dispatches, d.clientRef = k → d.fate = .live → b ∈ d.keys

/-- The call an event makes, if it is a call of `submit`, finished or not. -/
def Event.call : Event → Option (Call × Outside)
  | .submit c o => some (c, o)
  | .crashBeforeDispatch c o => some (c, o)
  | .crashAfterDispatch c o => some (c, o)
  | _ => none

/-- An order was written, and sent unless the process died first. -/
structure Sent (w w' : World Venue) (k : String) (o : Outside) : Prop where
  others : ∀ k', k' ≠ k → w'.store.get k' = w.store.get k'
  final : ∃ f, w'.store.get k = some f ∧ (o.fate = .live → f.state.blocksResubmission = true) ∧
    ∀ b, f.brokerRef = some b → truthy (some b) = true → b ∈ o.keys
  venue : w'.venue = w.venue ∨ w'.venue = w.venue.send ⟨k, o.keys, o.fate⟩

variable {s : OrderStatus}

theorem blocks_of_not_dead (h : ¬ Dead s) : (stateOfStatus s).blocksResubmission = true := by
  cases s <;> simp_all [Dead, stateOfStatus, IntentState.blocksResubmission]

theorem not_blocks_of_dead (h : (stateOfStatus s).blocksResubmission = false) : Dead s := by
  cases s <;> simp_all [Dead, stateOfStatus, IntentState.blocksResubmission]

variable {b : String}

theorem brokerRef_of_pyOr_none {r : Option String} (h : pyOr r none = some b) :
    r = some b ∧ truthy r = true := by
  unfold pyOr at h
  split at h
  · exact ⟨h, by assumption⟩
  · cases h

variable {w : World Venue} {o : Outside} {i : OrderIntent} {k : String} {now : Timestamp}

theorem sent_of_written (hi : i.clientRef = k) (hs : i.state = .pending) (hr : i.brokerRef = none)
    {v : Venue} (hv : v = w.venue ∨ v = w.venue.send ⟨k, o.keys, o.fate⟩) :
    Sent w { w.write i with venue := v } k o := by
  subst hi
  refine ⟨fun k' hne => ?_, ⟨i, by simp, fun _ => by rw [hs]; rfl, ?_⟩, hv⟩
  · exact IntentStore.get_write_of_ne _ (Ne.symm hne)
  · intro b hb
    rw [hr] at hb
    cases hb

theorem sent_of_settle {d : RiskDecision} (hk : i.clientRef = k) (hs : i.state = .pending)
    (hr : i.brokerRef = none) (ht : TruthfulReply o) :
    Sent w (ExecutionService.settle d i now o.reply
      { w.write i with venue := w.venue.send ⟨k, o.keys, o.fate⟩ }).2 k o := by
  subst hk
  rcases ExecutionService.settle_cases d i now o.reply
      { w.write i with venue := w.venue.send ⟨i.clientRef, o.keys, o.fate⟩ } with
    ⟨exc, he, hb, h⟩ | ⟨exc, j, he, hjk, hjr, hjs, h⟩ | ⟨ack, j, he, hjk, hjr, hjs, h⟩
  · rw [h]
    exact sent_of_written rfl hs hr (.inr rfl)
  · rw [h]
    simp only [TruthfulReply, he] at ht
    refine ⟨fun k' hne => ?_, ⟨j, by simp [← hjk], fun hl => ?_, ?_⟩, .inr rfl⟩
    · simp [IntentStore.get_write, hjk, Ne.symm hne]
    · rw [hjs]
      exact ExecutionService.raisedEntry_blocks (by simpa using fun hrej => ht hrej hl)
    · intro b hb'
      rw [hjr, hr] at hb'
      cases hb'
  · rw [h]
    simp only [TruthfulReply, he] at ht
    refine ⟨fun k' hne => ?_, ⟨j, by simp [← hjk], fun hl => ?_, ?_⟩, .inr rfl⟩
    · simp [IntentStore.get_write, hjk, Ne.symm hne]
    · rw [hjs]
      exact blocks_of_not_dead fun hd => ht.1 hd hl
    · intro b hb' htr
      rw [hjr, hr] at hb'
      exact ht.2 b (brokerRef_of_pyOr_none hb').1 htr

variable {e : Event} {c : Call}

theorem step_of_done {r : Except ServiceError SubmitOutcome} {w' : World Venue}
    (he : e.call = some (c, o))
    (h : (service cfg o notUsed notUsed).prepare c.plan c.orderId c.context w = (.done r, w')) :
    step cfg w e = w' := by
  cases e <;> cases he <;> simp only [step, ExecutionService.submit, h]

theorem call_cases (he : e.call = some (c, o)) (ht : Truthful w e) :
    (o.guard.allowed = false ∧ ∃ i, i.clientRef = clientRefFor c.plan ∧ i.state = .blocked ∧
        step cfg w e = w.write i) ∨
    (o.guard.allowed = true ∧ w.store.blocks (clientRefFor c.plan) = true ∧ step cfg w e = w) ∨
    (w.store.blocks (clientRefFor c.plan) = false ∧ ∃ i, i.clientRef = clientRefFor c.plan ∧
        i.state = .blocked ∧ step cfg w e = w.write i) ∨
    (w.store.blocks (clientRefFor c.plan) = false ∧
        Sent w (step cfg w e) (clientRefFor c.plan) o) := by
  rcases (service cfg o notUsed notUsed).prepare_cases c.plan c.orderId c.context w with
    ⟨r, i, hg, hi, hs, h⟩ | ⟨r, hg, hb, h⟩ | ⟨r, i, hb, hi, hs, h⟩ | ⟨d, ord, i, hb, ho,
      hi, hs, hr, h⟩
  · exact .inl ⟨hg, i, hi, hs, step_of_done cfg he h⟩
  · exact .inr (.inl ⟨hg, hb, step_of_done cfg he h⟩)
  · exact .inr (.inr (.inl ⟨hb, i, hi, hs, step_of_done cfg he h⟩))
  · refine .inr (.inr (.inr ⟨hb, ?_⟩))
    cases e <;> cases he
    · simp only [step, ExecutionService.submit, h]
      simp only [service, ho]
      exact sent_of_settle hi hs hr ht
    · simp only [step, h]
      exact sent_of_written hi hs hr (.inl rfl)
    · simp only [step, h, ho]
      exact sent_of_written hi hs hr (.inr rfl)

theorem meets_call (he : e.call = some (c, o)) : Meets w e ↔ GuardHolds w c o := by
  cases e <;> cases he <;> exact Iff.rfl

theorem no_evidence_call (he : e.call = some (c, o)) : ¬ VenueEvidence w i e := by
  cases e <;> cases he <;> exact id

theorem not_live_of_not_blocks (h : Recorded w)
    (hb : w.store.blocks k = false) : ¬ w.venue.LiveFor k := by
  intro hl
  obtain ⟨i, hget, hi, -⟩ := h k hl
  rw [IntentStore.blocks_eq_true.2 ⟨i, hget, hi⟩] at hb
  cases hb

theorem recorded_write (h : Recorded w)
    (hl : ¬ w.venue.LiveFor i.clientRef) : Recorded (w.write i) := by
  intro k hk
  have hne : i.clientRef ≠ k := fun heq => hl (heq ▸ hk)
  obtain ⟨j, hget, hj⟩ := h k hk
  exact ⟨j, by simpa [IntentStore.get_write_of_ne _ hne] using hget, hj⟩

theorem recorded_sent {w w' : World Venue} (h : Recorded w) (hb : w.store.blocks k = false)
    (hs : Sent w w' k o) : Recorded w' := by
  have hnot := not_live_of_not_blocks h hb
  obtain ⟨f, hget, hf, hkeys⟩ := hs.final
  intro k' hk'
  by_cases hkk : k' = k
  · subst hkk
    rcases hs.venue with hv | hv
    · rw [hv] at hk'
      exact absurd hk' hnot
    · rw [hv, Venue.liveFor_send] at hk'
      have hlive : o.fate = .live := (hk'.resolve_left hnot).2
      refine ⟨f, hget, hf hlive, fun b hb' htr d hd hdk hdl => ?_⟩
      rw [hv] at hd
      rcases List.mem_append.1 hd with hd | hd
      · exact absurd ⟨d, hd, hdk, hdl⟩ hnot
      · rw [List.mem_singleton.1 hd]
        exact hkeys b hb' htr
  · have hk : w.venue.LiveFor k' := by
      rcases hs.venue with hv | hv
      · rwa [hv] at hk'
      · rw [hv, Venue.liveFor_send] at hk'
        exact hk'.resolve_right fun h => hkk h.1.symm
    obtain ⟨i, hi, hblock, hkeys'⟩ := h k' hk
    refine ⟨i, by rw [hs.others k' hkk, hi], hblock, fun b hb' htr d hd hdk hdl => ?_⟩
    refine hkeys' b hb' htr d ?_ hdk hdl
    rcases hs.venue with hv | hv
    · rwa [hv] at hd
    · rw [hv] at hd
      rcases List.mem_append.1 hd with hd | hd
      · exact hd
      · rw [List.mem_singleton.1 hd] at hdk
        exact absurd hdk.symm hkk

theorem recorded_call (h : Recorded w) (he : e.call = some (c, o)) (ht : Truthful w e)
    (hm : Meets w e) : Recorded (step cfg w e) := by
  have hm := (meets_call he).1 hm
  rcases call_cases cfg he ht with ⟨hg, i, hi, -, hw⟩ | ⟨-, -, hw⟩ | ⟨hb, i, hi, -, hw⟩ | ⟨hb, hs⟩
  · rw [hw]
    have hb := hm.resolve_left (by simp [hg])
    exact recorded_write h (by rw [hi]; exact not_live_of_not_blocks h hb)
  · rwa [hw]
  · rw [hw]
    exact recorded_write h (by rw [hi]; exact not_live_of_not_blocks h hb)
  · exact recorded_sent h hb hs

theorem step_reconcile (w : World Venue) (now : Timestamp) (orders : List OrderAck)
    (positions : List Position) :
    step cfg w (.reconcile now (.ok orders) (.ok positions)) =
      ⟨w.store.reconciled now orders, w.venue⟩ := rfl

theorem step_reconcile_unreachable (w : World Venue) (now : Timestamp)
    {orders : Except Raised (List OrderAck)} {positions : Except Raised (List Position)}
    (h : ∀ os ps, ¬ (orders = .ok os ∧ positions = .ok ps)) :
    step cfg w (.reconcile now orders positions) = w := by
  cases orders with
  | error exc => rfl
  | ok os =>
    cases positions with
    | error exc => rfl
    | ok ps => exact absurd ⟨rfl, rfl⟩ (h os ps)

variable {orders : List OrderAck}

variable {a : OrderAck}

theorem not_dead_of_live (h : Recorded w) (ht : TruthfulList w.venue orders)
    (hget : w.store.get i.clientRef = some i)
    (hl : w.venue.LiveFor i.clientRef) (ha : matchedRecord orders i = some a) :
      ¬ Dead a.status := by
  intro hd
  obtain ⟨j, hj, -, hkeys⟩ := h _ hl
  obtain rfl : i = j := by simpa [hget] using hj
  obtain ⟨d, hdm, hdk, hdl⟩ := hl
  rcases Option.or_eq_some_iff.1 ha with ha | ⟨-, ha⟩
  · split at ha
    · rename_i htr
      obtain ⟨b, hb, hne⟩ := exists_of_truthy htr
      rw [hb] at ha
      exact ht.broker b a ha hd d hdm (hkeys b hb (truthy_some.2 hne) d hdm hdk hdl) hdl
    · cases ha
  · exact ht.client _ a ha hd ⟨d, hdm, hdk, hdl⟩

theorem key_of_matched (ht : TruthfulList w.venue orders)
    (hkeys : ∀ b, i.brokerRef = some b → truthy (some b) = true →
      ∀ d ∈ w.venue.dispatches, d.clientRef = i.clientRef → d.fate = .live → b ∈ d.keys)
    (ha : matchedRecord orders i = some a)
    (hb : pyOr a.brokerRef i.brokerRef = some b) (htr : truthy (some b) = true) :
    ∀ d ∈ w.venue.dispatches, d.clientRef = i.clientRef → d.fate = .live → b ∈ d.keys := by
  unfold pyOr at hb
  split at hb
  · rcases Option.or_eq_some_iff.1 ha with ha | ⟨-, ha⟩
    · split at ha
      · rename_i htri
        obtain ⟨b', hb', -⟩ := exists_of_truthy htri
        have hp := (lastWith_some ha).2
        simp only [hb', Option.getD_some, Bool.and_eq_true, beq_iff_eq] at hp
        have heq : b' = b := by simpa [hb] using hp.2.symm
        exact hkeys b (heq ▸ hb') htr
      · cases ha
    · exact ht.key _ a b ha hb htr
  · exact hkeys b hb htr

variable {positions : List Position}

theorem recorded_reconcile (h : Recorded w) (ht : TruthfulList w.venue orders)
    (hm : Meets w (.reconcile now (.ok orders) (.ok positions))) :
    Recorded (step cfg w (.reconcile now (.ok orders) (.ok positions))) := by
  rw [step_reconcile]
  intro k hk
  obtain ⟨i, hget, hi, hkeys⟩ := h k hk
  obtain rfl := IntentStore.clientRef_of_get hget
  by_cases hn : i.state.needsReconciliation = true
  · simp only [IntentStore.get_reconciled_of_outstanding hget hn, resolve_write]
    cases ha : matchedRecord orders i with
    | some a =>
      refine ⟨applyAck i a now, rfl, ?_, fun b hb htr => key_of_matched ht hkeys ha hb htr⟩
      exact blocks_of_not_dead (not_dead_of_live h ht hget hk ha)
    | none =>
      have hp : i.state ≠ .pending := fun hp => hm i hget hp hk ha
      exact ⟨i, by simp [hp], hi, hkeys⟩
  · exact ⟨i, IntentStore.get_reconciled_of_settled hget (by simpa using hn), hi, hkeys⟩

theorem recorded_drop (h : Recorded w) : Recorded (step cfg w (.venueDrops k)) := by
  intro k' hk'
  obtain ⟨d, hd, hdk, hdl⟩ := hk'
  obtain ⟨i, hget, hi, hkeys⟩ := h k' ⟨d, Venue.mem_drop_live hd hdl, hdk, hdl⟩
  exact ⟨i, hget, hi, fun b hb htr d' hd' hk hl =>
    hkeys b hb htr d' (Venue.mem_drop_live hd' hl) hk hl⟩

theorem recorded_step (w : World Venue) (e : Event) (h : Recorded w)
    (hm : Truthful w e ∧ Meets w e) : Recorded (step cfg w e) := by
  obtain ⟨ht, hm⟩ := hm
  cases e with
  | submit c o | crashBeforeDispatch c o | crashAfterDispatch c o =>
    exact recorded_call cfg h rfl ht hm
  | venueDrops k => exact recorded_drop cfg h
  | reconcile now orders positions =>
    by_cases hok : ∃ os ps, orders = .ok os ∧ positions = .ok ps
    · obtain ⟨os, ps, rfl, rfl⟩ := hok
      exact recorded_reconcile cfg h ht hm
    · rw [step_reconcile_unreachable cfg w now (fun os ps h => hok ⟨os, ps, h⟩)]
      exact h

theorem safe_call_of_meets (h : Recorded w) (he : e.call = some (c, o)) (ht : Truthful w e)
    (hm : GuardHolds w c o) : Safe cfg w e := by
  have hwrite : ∀ i : OrderIntent, w.store.blocks i.clientRef = false →
      step cfg w e = w.write i → Safe cfg w e := by
    intro i hb hw
    refine ⟨fun d hd => ?_, fun j hget hj hnew => ?_⟩
    · simp [hw] at hd
    · rw [hw, World.write_store, IntentStore.blocks_write] at hnew
      have hjb := IntentStore.blocks_eq_true.2 ⟨j, hget, hj⟩
      split at hnew
      · rename_i hk
        rw [hk, hjb] at hb
        cases hb
      · rw [hjb] at hnew
        cases hnew
  rcases call_cases cfg he ht with ⟨hg, i, hi, -, hw⟩ | ⟨-, -, hw⟩ | ⟨hb, i, hi, -, hw⟩ | ⟨hb, hs⟩
  · exact hwrite i (by rw [hi]; exact hm.resolve_left (by simp [hg])) hw
  · refine ⟨fun d hd => ?_, fun j hget hj hnew => ?_⟩
    · simp [hw] at hd
    · rw [hw, IntentStore.blocks_eq_true.2 ⟨j, hget, hj⟩] at hnew
      cases hnew
  · exact hwrite i (by rw [hi]; exact hb) hw
  · refine ⟨fun d hd d' hd' hk hl => ?_, fun j hget hj hnew => ?_⟩
    · have hdk : d.clientRef = clientRefFor c.plan := by
        rcases hs.venue with hv | hv
        · simp [hv] at hd
        · rw [hv] at hd
          have := List.append_cancel_left hd
          simp only [List.cons.injEq, and_true] at this
          rw [← this]
      exact not_live_of_not_blocks h hb ⟨d', hd', hk.trans hdk, hl⟩
    · have hjb := IntentStore.blocks_eq_true.2 ⟨j, hget, hj⟩
      have hne : j.clientRef ≠ clientRefFor c.plan := by
        intro heq
        rw [heq, hb] at hjb
        cases hjb
      rw [IntentStore.blocks, hs.others _ hne] at hnew
      rw [IntentStore.blocks, hnew] at hjb
      cases hjb

theorem meets_call_of_safe (he : e.call = some (c, o)) (ht : Truthful w e)
    (hs : Safe cfg w e) : GuardHolds w c o := by
  rcases call_cases cfg he ht with ⟨hg, i, hi, hst, hw⟩ | ⟨hg, -, -⟩ | ⟨hb, -⟩ | ⟨hb, -⟩
  · right
    by_contra hb
    obtain ⟨j, hget, hj⟩ := IntentStore.blocks_eq_true.1 (by simpa using hb)
    have hjk := IntentStore.clientRef_of_get hget
    refine no_evidence_call he (hs.evidence j (by rw [hjk]; exact hget) hj ?_)
    rw [hw, World.write_store, IntentStore.blocks_write, if_pos (by rw [hi, hjk]), hst]
    rfl
  · exact .inl hg
  · exact .inr hb
  · exact .inr hb

theorem safe_reconcile_iff :
    Safe cfg w (.reconcile now (.ok orders) (.ok positions)) ↔
      Meets w (.reconcile now (.ok orders) (.ok positions)) := by
  have hstay : ∀ d, (step cfg w (.reconcile now (.ok orders) (.ok positions))).venue.dispatches ≠
      w.venue.dispatches ++ [d] := by
    intro d hd
    simp [step_reconcile] at hd
  constructor
  · intro hs i hget hp hl ha
    have hn : i.state.needsReconciliation = true := by rw [hp]; rfl
    have hev := hs.evidence i hget (IntentState.blocks_of_needsReconciliation hn) (by
      simp [step_reconcile, IntentStore.blocks, IntentStore.get_reconciled_of_outstanding hget hn,
        resolve_write, ha, hp, IntentState.blocksResubmission])
    rcases hev with ⟨a, ha', -⟩ | ⟨-, hnl⟩
    · rw [ha] at ha'
      cases ha'
    · exact hnl hl
  · intro hm
    refine ⟨fun d hd => absurd hd (hstay d), fun i hget hi hnew => ?_⟩
    by_cases hn : i.state.needsReconciliation = true
    · simp only [step_reconcile, IntentStore.blocks,
        IntentStore.get_reconciled_of_outstanding hget hn, resolve_write] at hnew
      cases ha : matchedRecord orders i with
      | some a =>
        rw [ha] at hnew
        exact .inl ⟨a, ha, not_blocks_of_dead hnew⟩
      | none =>
        rw [ha] at hnew
        by_cases hp : i.state = .pending
        · exact .inr ⟨ha, fun hl => hm i hget hp hl ha⟩
        · simp [hp, hi] at hnew
    · have hset : (w.store.reconciled now orders).get i.clientRef = some i :=
        IntentStore.get_reconciled_of_settled hget (by simpa using hn)
      simp [step_reconcile, IntentStore.blocks, hset, hi] at hnew

theorem safe_iff_meets (h : Recorded w) (ht : Truthful w e) : Safe cfg w e ↔ Meets w e := by
  have hcall : ∀ c o, e.call = some (c, o) → (Safe cfg w e ↔ Meets w e) := fun c o he =>
    ⟨fun hs => (meets_call he).2 (meets_call_of_safe cfg he ht hs),
      fun hm => safe_call_of_meets cfg h he ht ((meets_call he).1 hm)⟩
  have hidle : (∀ d, (step cfg w e).venue.dispatches ≠ w.venue.dispatches ++ [d]) →
      (step cfg w e).store = w.store → Safe cfg w e := by
    intro hv hst
    refine ⟨fun d hd => absurd hd (hv d), fun i hget hi hnew => ?_⟩
    rw [hst, IntentStore.blocks_eq_true.2 ⟨i, hget, hi⟩] at hnew
    cases hnew
  cases e with
  | submit c o | crashBeforeDispatch c o | crashAfterDispatch c o => exact hcall c o rfl
  | venueDrops k =>
    refine iff_of_true (hidle (fun d hd => ?_) rfl) trivial
    have := congrArg List.length hd
    simp [step, Venue.drop] at this
  | reconcile now orders positions =>
    by_cases hok : ∃ os ps, orders = .ok os ∧ positions = .ok ps
    · obtain ⟨os, ps, rfl, rfl⟩ := hok
      exact safe_reconcile_iff cfg
    · have hun := step_reconcile_unreachable cfg w now (fun os ps h => hok ⟨os, ps, h⟩)
      have hm : Meets w (.reconcile now orders positions) := by
        cases orders with
        | error exc => trivial
        | ok os =>
          cases positions with
          | error exc => trivial
          | ok ps => exact absurd ⟨os, ps, rfl, rfl⟩ hok
      exact iff_of_true (hidle (fun d hd => by simp [hun] at hd) (by rw [hun])) hm

theorem recorded_initial : Recorded initial := by
  rintro k ⟨d, hd, -⟩
  cases hd

/-- A truthful run keeps at most one live entry for every plan exactly when the
mode guard never refuses a call whose reference is already taken and no
reconciliation misses the live order of an intent still pending. -/
theorem one_live_entry_iff (es : List Event) (ht : Along Truthful (step cfg) initial es) :
    Along (Safe cfg) (step cfg) initial es ↔ Along Meets (step cfg) initial es := by
  suffices h : ∀ w, Recorded w → Along Truthful (step cfg) w es →
      (Along (Safe cfg) (step cfg) w es ↔ Along Meets (step cfg) w es) from
    h initial recorded_initial ht
  clear ht
  induction es with
  | nil => simp
  | cons e es ih =>
    intro w hw ht
    simp only [along_cons, safe_iff_meets cfg hw ht.1]
    refine and_congr_right fun hm => ?_
    exact ih _ (recorded_step cfg w e hw ⟨ht.1, hm⟩) ht.2

def sampleSignal : Signal where
  strategyId := "s"
  instrument := "EURUSD"
  direction := .long
  barTime := 0
  referencePrice := 2
  stopPrice := 1
  takeProfitPrices := []
  takeProfitAllocations := []
  signalId := "sig"
  stop_pos := by decide
  reference_pos := by decide
  stop_side := by decide
  target_side := by simp
  allocations_ok := by simp

def sampleCall : Call where
  plan :=
    { signal := sampleSignal, size := 1, riskAmount := 1, sizingBasis := "", planId := "p"
      size_pos := by decide }
  orderId := "o"
  context := ⟨0, none⟩

def sampleConfig : Config := ⟨"venue", "", .paper⟩

def filledAck (ref : String) (h : truthy (some ref) = true) : OrderAck where
  status := .filled
  brokerRef := some ref
  clientRef := "FBK-p"
  orderId := "o"
  fill := none
  message := ""
  rawFilledSize := none
  rawPrice := none
  ref_of_filled := fun _ => h

def fills (ref : String) (h : truthy (some ref) = true) : Outside :=
  ⟨⟨true, []⟩, ⟨true, []⟩, .ok (filledAck ref h), [ref], .live⟩

def guardRefuses : Outside := { idle with guard := ⟨false, ["known_venue_host"]⟩ }

def refusedBetween : List Event :=
  [.submit sampleCall (fills "T1" (by decide)), .submit sampleCall guardRefuses,
    .submit sampleCall (fills "T2" (by decide))]

theorem truthful_fills (ref : String) (h : truthy (some ref) = true) :
    TruthfulReply (fills ref h) := by
  refine ⟨fun hd => ?_, fun b hb _ => ?_⟩
  · rcases hd with hd | hd <;> cases hd
  · obtain rfl : ref = b := by simpa [filledAck] using hb
    simp [fills]

theorem truthful_guardRefuses : TruthfulReply guardRefuses := by
  intro _
  decide

/-- A refusal by the mode guard overwrites the record of a filled order, and the
plan is dealt twice. -/
theorem dealt_twice_after_guard_refusal :
    Along Truthful (step sampleConfig) initial refusedBetween ∧
      (exec (step sampleConfig) initial refusedBetween).venue.dispatches =
        [⟨"FBK-p", ["T1"], .live⟩, ⟨"FBK-p", ["T2"], .live⟩] ∧
      ¬ Along (Safe sampleConfig) (step sampleConfig) initial refusedBetween := by
  refine ⟨⟨truthful_fills _ _, truthful_guardRefuses, truthful_fills _ _, trivial⟩,
    by decide, fun hs => ?_⟩
  exact hs.2.2.1.single ⟨"FBK-p", ["T2"], .live⟩ (by decide) ⟨"FBK-p", ["T1"], .live⟩
    (by decide) rfl rfl

def recoveredRun : List Event :=
  [.crashAfterDispatch sampleCall (fills "T1" (by decide)),
    .reconcile 1 (.ok [filledAck "T1" (by decide)]) (.ok []),
    .submit sampleCall (fills "T2" (by decide))]

theorem one_live_entry_recovered :
    Along (Safe sampleConfig) (step sampleConfig) initial recoveredRun := by
  have hlist : byClientRef [filledAck "T1" (by decide)] "FBK-p" =
      some (filledAck "T1" (by decide)) := by decide
  refine (one_live_entry_iff sampleConfig recoveredRun ⟨trivial, ⟨?_, ?_, ?_⟩,
    truthful_fills _ _, trivial⟩).2 ⟨.inl rfl, ?_, .inl rfl, trivial⟩
  · rintro k a ha (hd | hd)
    · obtain rfl := List.mem_singleton.1 (lastWith_some ha).1
      cases hd
    · obtain rfl := List.mem_singleton.1 (lastWith_some ha).1
      cases hd
  · rintro b a ha (hd | hd)
    · obtain rfl := List.mem_singleton.1 (lastWith_some ha).1
      cases hd
    · obtain rfl := List.mem_singleton.1 (lastWith_some ha).1
      cases hd
  · intro k a b ha hb _ d hd _ _
    obtain rfl := List.mem_singleton.1 (lastWith_some ha).1
    obtain rfl : "T1" = b := by simpa [filledAck] using hb
    have hv : (step sampleConfig initial (.crashAfterDispatch sampleCall
        (fills "T1" (by decide)))).venue.dispatches = [⟨"FBK-p", ["T1"], .live⟩] := by decide
    rw [hv] at hd
    obtain rfl := List.mem_singleton.1 hd
    simp
  · intro i hget _ hl hnone
    obtain ⟨d, hd, hdk, -⟩ := hl
    have hv : (step sampleConfig initial (.crashAfterDispatch sampleCall
        (fills "T1" (by decide)))).venue.dispatches = [⟨"FBK-p", ["T1"], .live⟩] := by decide
    rw [hv] at hd
    obtain rfl := List.mem_singleton.1 hd
    have := (Option.or_eq_none_iff.1 hnone).2
    rw [← hdk, hlist] at this
    cases this

end Fiboki.LiveEntries
