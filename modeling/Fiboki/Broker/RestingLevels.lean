import Fiboki.Broker.VenueCalls
import Fiboki.Lib.Run

/-!
What an accepted amendment says of the levels resting at the venue, over every
history of amendments, repairs and changes made by someone else.
-/

namespace Fiboki.RestingLevels

open Text ManagerSetup ExecutionService Runs

variable {σ : Type}

/-- The levels that are not asked for do not rest at the venue either. -/
def Unasked (levels held : VenueIntent) : Prop :=
  (levels.stopLoss = none → held.stopLoss = none) ∧
    (levels.takeProfit = none → held.takeProfit = none)

/-- An acknowledged amendment has set the levels it was given.  `None` means "leave this
level as it is", whatever the venue answers. -/
structure SetsLevels (adapter : BrokerAdapter σ) (resting : σ → String → VenueIntent) : Prop where
  stop_set : ∀ p x takeProfit clientRef reason v ack,
    (adapter.amendPosition p (some x) takeProfit clientRef reason v).1 = .ok ack →
      (resting (adapter.amendPosition p (some x) takeProfit clientRef reason v).2
        (p.venueRef.getD "")).stopLoss = some x
  target_set : ∀ p stopLoss x clientRef reason v ack,
    (adapter.amendPosition p stopLoss (some x) clientRef reason v).1 = .ok ack →
      (resting (adapter.amendPosition p stopLoss (some x) clientRef reason v).2
        (p.venueRef.getD "")).takeProfit = some x
  stop_left : ∀ p takeProfit clientRef reason v,
    (resting (adapter.amendPosition p none takeProfit clientRef reason v).2
      (p.venueRef.getD "")).stopLoss = (resting v (p.venueRef.getD "")).stopLoss
  target_left : ∀ p stopLoss clientRef reason v,
    (resting (adapter.amendPosition p stopLoss none clientRef reason v).2
      (p.venueRef.getD "")).takeProfit = (resting v (p.venueRef.getD "")).takeProfit

section Adapter

variable {adapter : BrokerAdapter σ} {resting : σ → String → VenueIntent}

theorem SetsLevels.unasked_iff (h : SetsLevels adapter resting) (p : Position)
    (levels : VenueIntent) (clientRef reason : String) (v : σ) :
    Unasked levels (resting (adapter.amendPosition p levels.stopLoss levels.takeProfit clientRef
        reason v).2 (p.venueRef.getD "")) ↔
      Unasked levels (resting v (p.venueRef.getD "")) := by
  obtain ⟨stopLoss, takeProfit⟩ := levels
  unfold Unasked
  cases stopLoss <;> cases takeProfit <;> simp [h.stop_left, h.target_left]

theorem SetsLevels.inForce_iff (h : SetsLevels adapter resting) (p : Position)
    (levels : VenueIntent) (clientRef reason : String) (v : σ) {ack : OrderAck}
    (hack : (adapter.amendPosition p levels.stopLoss levels.takeProfit clientRef reason v).1 =
      .ok ack) :
    resting (adapter.amendPosition p levels.stopLoss levels.takeProfit clientRef reason v).2
        (p.venueRef.getD "") = levels ↔
      Unasked levels (resting v (p.venueRef.getD "")) := by
  rw [← h.unasked_iff p levels clientRef reason v]
  obtain ⟨stopLoss, takeProfit⟩ := levels
  rw [VenueIntent.ext_iff]
  unfold Unasked
  refine and_congr ?_ ?_
  · cases stopLoss with
    | none => exact ⟨fun heq _ => heq, fun hnone => hnone rfl⟩
    | some x => exact ⟨fun _ hnone => absurd hnone (Option.some_ne_none x), fun _ =>
        h.stop_set _ _ _ _ _ _ _ hack⟩
  · cases takeProfit with
    | none => exact ⟨fun heq _ => heq, fun hnone => hnone rfl⟩
    | some x => exact ⟨fun _ hnone => absurd hnone (Option.some_ne_none x), fun _ =>
        h.target_set _ _ _ _ _ _ _ hack⟩

end Adapter

section Service

variable (svc : ExecutionService σ) (resting : σ → String → VenueIntent)

/-- The arguments of one call of `amend`. -/
structure AmendArgs where
  position : Position
  levels : VenueIntent
  context : ExitContext
  retryAttempts : ℕ
  reason : String

def AmendArgs.run (args : AmendArgs) (w : World σ) : Except ServiceError AmendOutcome × World σ :=
  svc.amend args.position args.levels.stopLoss args.levels.takeProfit args.context
    args.retryAttempts args.reason w

def InForce (args : AmendArgs) (w : World σ) : Prop :=
  ∀ outcome, (args.run svc w).1 = .ok outcome → outcome.accepted = true →
    resting (args.run svc w).2.venue (args.position.venueRef.getD "") = args.levels

def AmendArgs.clientRef (args : AmendArgs) : String :=
  amendClientRef args.position.positionId args.levels.stopLoss args.levels.takeProfit

/-- The adapter acknowledges one of the next attempts, and answers nothing final before it. -/
def acknowledges (adapter : BrokerAdapter σ) (args : AmendArgs) : ℕ → σ → Bool
  | 0, _ => false
  | left + 1, v =>
    match adapter.amendPosition args.position args.levels.stopLoss args.levels.takeProfit
      args.clientRef args.reason v with
    | (.ok _, _) => true
    | (.error exc, v') =>
      exc.kind ≠ .positionNotFound && exc.kind ≠ .amendNotSupported && exc.kind.isBrokerError &&
        acknowledges adapter args left v'

def AppliedOnce (args : AmendArgs) (w : World σ) : Prop :=
  ∃ i, w.store.get args.clientRef = some i ∧ i.state = .filled

/-- Levels that were applied before still rest where they are asked for again, and where
they are sent a level given as `none` does not rest. -/
structure StillRests (args : AmendArgs) (w : World σ) : Prop where
  applied : (svc.gateway.evaluateExit args.context w.venue).allowed = true → AppliedOnce args w →
    resting w.venue (args.position.venueRef.getD "") = args.levels
  sent : (svc.gateway.evaluateExit args.context w.venue).allowed = true → ¬ AppliedOnce args w →
    acknowledges svc.adapter args (max args.retryAttempts 1) w.venue = true →
      Unasked args.levels (resting w.venue (args.position.venueRef.getD ""))

variable {svc resting}

theorem attempt_inForce (hsets : SetsLevels svc.adapter resting) (args : AmendArgs)
    (decision : RiskDecision) (attempts left : ℕ) (intent : OrderIntent) (lastError : String)
    (w : World σ) :
    (∀ outcome, (amend.attempt svc args.position args.levels.stopLoss args.levels.takeProfit
        args.context args.reason args.clientRef decision attempts left intent lastError w).1 =
        .ok outcome → outcome.accepted = true →
      resting (amend.attempt svc args.position args.levels.stopLoss args.levels.takeProfit
        args.context args.reason args.clientRef decision attempts left intent lastError w).2.venue
        (args.position.venueRef.getD "") = args.levels) ↔
      (acknowledges svc.adapter args left w.venue = true →
        Unasked args.levels (resting w.venue (args.position.venueRef.getD ""))) := by
  induction left generalizing intent lastError w with
  | zero =>
    refine iff_of_true (fun outcome h haccepted => ?_) fun h => ?_
    · unfold amend.attempt at h
      obtain rfl := Except.ok.inj h
      cases haccepted
    · cases h
  | succ left ih =>
    have hack : ∀ ack, _ = Except.ok ack → _ := fun ack hok =>
      hsets.inForce_iff args.position args.levels args.clientRef args.reason w.venue hok
    have hleft := hsets.unasked_iff args.position args.levels args.clientRef args.reason w.venue
    unfold amend.attempt acknowledges
    generalize svc.adapter.amendPosition args.position args.levels.stopLoss args.levels.takeProfit
      args.clientRef args.reason w.venue = reply at hack hleft ⊢
    obtain ⟨exc | ack, venue⟩ := reply
    · by_cases hn : exc.kind = .positionNotFound
      · simp [hn]
      · by_cases hs : exc.kind = .amendNotSupported
        · simp [hs]
        · by_cases hb : exc.kind.isBrokerError = true
          · simp only [hn, hs, hb, if_false, if_true, ne_eq, not_false_eq_true, decide_true,
              Bool.true_and]
            rw [ih, ← hleft]
            rfl
          · simp [hn, hs, hb]
    · simpa using hack ack rfl

theorem appliedBefore_eq_none {store : IntentStore} {k : String}
    (h : ¬ ∃ i, store.get k = some i ∧ i.state = .filled) : appliedBefore store k = none := by
  cases hget : store.get k with
  | none => simp [appliedBefore, hget]
  | some i =>
    have hi : ¬ i.state = .filled := fun hi => h ⟨i, hget, hi⟩
    simp [appliedBefore, hget, hi]

theorem inForce_iff (hsets : SetsLevels svc.adapter resting) (args : AmendArgs) (w : World σ) :
    InForce svc resting args w ↔ StillRests svc resting args w := by
  cases hallow : (svc.gateway.evaluateExit args.context w.venue).allowed with
  | false =>
    refine iff_of_true (fun outcome h haccepted => ?_) ⟨fun h => ?_, fun h => ?_⟩
    · rw [AmendArgs.run, amend_refused hallow] at h
      obtain rfl := Except.ok.inj h
      cases haccepted
    · exact absurd (hallow.symm.trans h) Bool.false_ne_true
    · exact absurd (hallow.symm.trans h) Bool.false_ne_true
  | true =>
    by_cases hbefore : AppliedOnce args w
    · obtain ⟨i, hget, hi⟩ := id hbefore
      have hfilled : appliedBefore w.store (amendClientRef args.position.positionId
          args.levels.stopLoss args.levels.takeProfit) = some i := by
        rw [appliedBefore, ← AmendArgs.clientRef, hget]
        simp [hi]
      have hskip : args.run svc w = _ := amend_skips hallow hfilled
      constructor
      · intro h
        have hheld := h _ (congrArg Prod.fst hskip) rfl
        rw [hskip] at hheld
        exact ⟨fun _ _ => hheld, fun _ hnew => absurd hbefore hnew⟩
      · intro h outcome _ _
        rw [hskip]
        exact h.applied hallow hbefore
    · have hsend : args.run svc w = _ := amend_sends hallow (appliedBefore_eq_none hbefore)
      rw [InForce, hsend]
      refine (attempt_inForce hsets args _ _ _ _ _ _).trans ⟨fun h => ?_, fun h => ?_⟩
      · exact ⟨fun _ hold => absurd hold hbefore, fun _ _ => h⟩
      · exact h.sent hallow hbefore

end Service

section Repair

variable (setup : ManagerSetup σ) (resting : σ → String → VenueIntent)

abbrev Item := String × ManagedPosition

def recordedAs (op : ManagedPosition) (venue : Position) : Position :=
  { venue with strategyId := strOr venue.strategyId op.position.strategyId }

def repairArgs (op : ManagedPosition) (venue : Position) (w : World σ) : AmendArgs where
  position := recordedAs op venue
  levels := intendedLevels op
  context := setup.contextFactory (recordedAs op venue) "amend" w
  retryAttempts := setup.retryAttempts
  reason := AmendKind.correction.value

/-- The repair of one reference: when it reports applied, the levels that the
manager then records are the ones resting at the venue. -/
def RepairInForce (listed : Dict String Position) (t : ManagerTurn σ) (item : Item) : Prop :=
  ∀ record, (setup.reconcileOne listed true t item).telemetry = t.telemetry ++ [record] →
    record.applied = true →
    (setup.reconcileOne listed true t item).manager.venueState.get item.1 =
        some (intendedLevels item.2) ∧
      resting (setup.reconcileOne listed true t item).world.venue item.1 = intendedLevels item.2

def RepairRests (listed : Dict String Position) (t : ManagerTurn σ) (item : Item) : Prop :=
  ∀ venue, listed.get item.1 = some venue →
    (intendedLevels item.2).agrees setup.priceTolerance (some (heldLevels venue)) = false →
    StillRests setup.execution resting (repairArgs setup item.2 venue t.world) t.world

variable {ref : String}

theorem ref_of_keyed {α : Type} {f : α → Option String} {xs : List α} {a : α}
    (h : (ref, a) ∈ xs.filterMap fun a =>
      if truthy (f a) then some ((f a).getD "", a) else none) : f a = some ref := by
  obtain ⟨b, -, hb⟩ := List.mem_filterMap.1 h
  by_cases ht : truthy (f b) = true
  · rw [if_pos ht] at hb
    simp only [Option.some.injEq, Prod.mk.injEq] at hb
    obtain ⟨href, rfl⟩ := hb
    obtain ⟨r, hr, -⟩ := exists_of_truthy ht
    rw [hr] at href ⊢
    exact congrArg some href
  · rw [if_neg ht] at hb
    cases hb

theorem venueRef_of_byRef {positions : List Position} {venue : Position}
    (h : (byRef positions).get ref = some venue) : venue.venueRef = some ref :=
  ref_of_keyed (Dict.mem_of_get_ofList h)

theorem venueRef_of_managedByRef {m : VenuePositionManager} {item : Item}
    (h : item ∈ m.managedByRef.entries) : item.2.position.venueRef = some item.1 :=
  ref_of_keyed (f := fun op : ManagedPosition => op.position.venueRef)
    (Dict.mem_of_get_ofList (Dict.mem_entries.1 h))

section One

variable {setup resting} {listed : Dict String Position} {t : ManagerTurn σ} {item : Item}
  {venue : Position}

theorem repairInForce_of_quiet (h : listed.get item.1 = none ∨ ∃ venue,
    listed.get item.1 = some venue ∧
      (intendedLevels item.2).agrees setup.priceTolerance (some (heldLevels venue)) = true) :
    RepairInForce setup resting listed t item := by
  intro record htelemetry
  have hsame : (setup.reconcileOne listed true t item).telemetry = t.telemetry := by
    unfold reconcileOne
    rcases h with h | ⟨venue, h, hagrees⟩
    · simp only [h]
      rfl
    · simp only [h, hagrees, if_true]
      rfl
  rw [hsame] at htelemetry
  simp at htelemetry

theorem reconcileOne_repairs (hlisted : listed.get item.1 = some venue)
    (hmismatch : (intendedLevels item.2).agrees setup.priceTolerance
      (some (heldLevels venue)) = false)
    (hkey : item.2.position.venueRef = some item.1) :
    let answer := (repairArgs setup item.2 venue t.world).run setup.execution t.world
    let t' := setup.reconcileOne listed true t item
    t'.world = answer.2 ∧ (∃ record, t'.telemetry = t.telemetry ++ [record] ∧
        record.applied = (Delivered.ofAmend answer.1).accepted) ∧
      ((Delivered.ofAmend answer.1).accepted = true →
        t'.manager.venueState.get item.1 = some (intendedLevels item.2)) := by
  intro answer t'
  let start := (t.onManager (recordHeld · item.1 item.2 venue)).diverge
    (stopMismatch item.1 item.2 (intendedLevels item.2) (heldLevels venue))
  have hone : t' = { (setup.instructAmend start item.2 (intendedLevels item.2) .correction).2 with
      divergences := start.divergences } := by
    simp only [t', reconcileOne, hlisted, hmismatch, Bool.false_eq_true, if_false, if_true]
    rfl
  have htarget : amendTarget start.manager (item.2.position.venueRef.getD "") item.2 =
      recordedAs item.2 venue := by
    rw [hkey]
    simp [start, amendTarget, recordHeld, recordedAs]
  have hanswer : setup.amendAnswer start item.2 (intendedLevels item.2) .correction =
      (.ofAmend answer.1, answer.2) := by
    unfold amendAnswer
    rw [htarget]
    rfl
  refine ⟨?_, ⟨(setup.instructAmend start item.2 (intendedLevels item.2) .correction).1, ?_, ?_⟩,
    fun haccepted => ?_⟩
  · rw [hone]
    dsimp only
    rw [instructAmend_world, hanswer]
  · rw [hone]
    exact instructAmend_telemetry setup start item.2 (intendedLevels item.2) .correction
  · rw [instructAmend_applied, hanswer]
  · rw [hone]
    dsimp only
    rw [instructAmend_manager, hanswer]
    dsimp only
    rw [if_pos haccepted, hkey]
    unfold recordLevels
    dsimp only
    split <;> simp

theorem repairInForce_iff (hsets : SetsLevels setup.execution.adapter resting)
    (hlisted : ∀ venue, listed.get item.1 = some venue → venue.venueRef = some item.1)
    (hkey : item.2.position.venueRef = some item.1) :
    RepairInForce setup resting listed t item ↔ RepairRests setup resting listed t item := by
  cases hget : listed.get item.1 with
  | none =>
    constructor
    · intro _ venue hvenue
      rw [hget] at hvenue
      cases hvenue
    · intro _
      exact repairInForce_of_quiet (.inl hget)
  | some venue =>
    cases hagrees : (intendedLevels item.2).agrees setup.priceTolerance
      (some (heldLevels venue)) with
    | true =>
      constructor
      · intro _ other hother hmismatch
        obtain rfl := Option.some.inj (hget.symm.trans hother)
        exact absurd (hagrees.symm.trans hmismatch) Bool.true_eq_false_eq_False.elim
      · intro _
        exact repairInForce_of_quiet (.inr ⟨venue, hget, hagrees⟩)
    | false =>
      obtain ⟨hworld, ⟨record, htelemetry, hrecord⟩, hstate⟩ :=
        reconcileOne_repairs (t := t) hget hagrees hkey
      have hinforce := inForce_iff hsets (repairArgs setup item.2 venue t.world) t.world
      have href : (repairArgs setup item.2 venue t.world).position.venueRef.getD "" = item.1 := by
        change venue.venueRef.getD "" = item.1
        rw [hlisted venue hget]
        rfl
      constructor
      · intro h other hother _
        obtain rfl := Option.some.inj (hget.symm.trans hother)
        refine hinforce.1 fun outcome hok haccepted => ?_
        have := (h record htelemetry (by rw [hrecord, hok]; exact haccepted)).2
        rwa [hworld, ← href] at this
      · intro h record' htelemetry' happlied
        obtain rfl : record = record' := by simpa using htelemetry.symm.trans htelemetry'
        rw [hrecord] at happlied
        refine ⟨hstate happlied, ?_⟩
        rw [hworld, ← href]
        cases hanswer : ((repairArgs setup item.2 venue t.world).run setup.execution t.world).1 with
        | error exc =>
          rw [hanswer] at happlied
          cases happlied
        | ok outcome =>
          rw [hanswer] at happlied
          exact hinforce.2 (h venue hget hagrees) outcome hanswer happlied

end One

end Repair

structure Desk (σ : Type) where
  manager : VenuePositionManager
  world : World σ

/-- An amendment, a reconciliation that repairs, or anything else that happens to
the manager or to the venue: a bar, an operator, a rounding. -/
inductive Event (σ : Type) where
  | amend (args : AmendArgs)
  | reconcile (positions : List Position)
  | outside (change : Desk σ → Desk σ)

section History

variable (setup : ManagerSetup σ) (resting : σ → String → VenueIntent)

def step (s : Desk σ) : Event σ → Desk σ
  | .amend args => ⟨s.manager, (args.run setup.execution s.world).2⟩
  | .reconcile positions =>
    let t := setup.reconcile s.manager positions true s.world
    ⟨t.manager, t.world⟩
  | .outside change => change s

def Truthful (s : Desk σ) : Event σ → Prop
  | .amend args => InForce setup.execution resting args s.world
  | .reconcile positions =>
    Along (RepairInForce setup resting (byRef positions))
      (setup.reconcileOne (byRef positions) true)
      (.start s.manager s.world) s.manager.managedByRef.entries
  | .outside _ => True

def Meets (s : Desk σ) : Event σ → Prop
  | .amend args => StillRests setup.execution resting args s.world
  | .reconcile positions =>
    Along (RepairRests setup resting (byRef positions)) (setup.reconcileOne (byRef positions) true)
      (.start s.manager s.world) s.manager.managedByRef.entries
  | .outside _ => True

variable {setup resting}

theorem along_repairs_iff (hsets : SetsLevels setup.execution.adapter resting)
    {listed : Dict String Position} (hlisted : ∀ ref venue, listed.get ref = some venue →
      venue.venueRef = some ref) (items : List Item)
    (hkeys : ∀ item ∈ items, item.2.position.venueRef = some item.1) (t : ManagerTurn σ) :
    Along (RepairInForce setup resting listed) (setup.reconcileOne listed true) t items ↔
      Along (RepairRests setup resting listed) (setup.reconcileOne listed true) t items := by
  induction items generalizing t with
  | nil => simp
  | cons item items ih =>
    simp only [along_cons, repairInForce_iff hsets (hlisted item.1) (hkeys item (by simp))]
    refine and_congr_right fun _ => ih ?_ _
    intro other hother
    exact hkeys other (List.mem_cons_of_mem _ hother)

theorem truthful_iff_meets (hsets : SetsLevels setup.execution.adapter resting) (s : Desk σ)
    (e : Event σ) : Truthful setup resting s e ↔ Meets setup resting s e := by
  cases e with
  | amend args => exact inForce_iff hsets args s.world
  | reconcile positions =>
    exact along_repairs_iff hsets (fun _ _ h => venueRef_of_byRef h) _
      (fun _ h => venueRef_of_managedByRef h) _
  | outside change => exact Iff.rfl

/-- Over every history: each accepted amendment, and each repair reported applied,
leaves the venue with the levels asked for if and only if levels that were applied
before and are asked for again still rest at the venue, and no level that is asked to
be absent rests there when the others are sent. -/
theorem accepted_in_force_iff (setup : ManagerSetup σ) (resting : σ → String → VenueIntent)
    (hsets : SetsLevels setup.execution.adapter resting) (s : Desk σ) (es : List (Event σ)) :
    Along (Truthful setup resting) (step setup) s es ↔
      Along (Meets setup resting) (step setup) s es :=
  along_iff_of_invariant (I := fun _ => True) (fun _ _ _ _ => trivial)
    (fun s e _ => truthful_iff_meets hsets s e) trivial es

end History

section Sample

open Frictionless

def levelsOf (v : Dict String VenueIntent) (ref : String) : VenueIntent :=
  (v.get ref).getD ⟨none, none⟩

def keepsLevels : BrokerAdapter (Dict String VenueIntent) where
  venueName := "venue"
  orders v := (.ok [], v)
  positions v := (.ok [], v)
  placeOrder _ v := (.error ⟨.brokerError, "not used"⟩, v)
  closePosition _ _ _ v := (.error ⟨.brokerError, "not used"⟩, v)
  amendPosition p stopLoss takeProfit clientRef _ v :=
    let ref := p.venueRef.getD ""
    (.ok
      { status := .accepted, brokerRef := p.venueRef, clientRef := clientRef, orderId := ""
        fill := none, message := "", rawFilledSize := none, rawPrice := none
        ref_of_filled := by simp },
      v.set ref ⟨stopLoss.or (levelsOf v ref).stopLoss, takeProfit.or (levelsOf v ref).takeProfit⟩)
  closePartial _ _ _ _ v := (.error ⟨.brokerError, "not used"⟩, v)

def levelsManager : ManagerSetup (Dict String VenueIntent) := demoManager keepsLevels

theorem keepsLevels_sets : SetsLevels keepsLevels levelsOf where
  stop_set p x takeProfit clientRef reason v ack _ := by simp [keepsLevels, levelsOf]
  target_set p stopLoss x clientRef reason v ack _ := by simp [keepsLevels, levelsOf]
  stop_left p takeProfit clientRef reason v := by simp [keepsLevels, levelsOf]
  target_left p stopLoss clientRef reason v := by simp [keepsLevels, levelsOf]

def heldPosition : Position where
  instrument := "EURUSD"
  direction := .long
  size := 10
  entryPrice := 2
  entryTime := 0
  stopLoss := 1
  takeProfitTargets := []
  strategyId := "s"
  barsHeld := 0
  maxFavourableExcursion := 0
  maxAdverseExcursion := 0
  financingAccrued := 0
  venueRef := some "T1"
  positionId := "pos_1"

def amendTo (levels : VenueIntent) : Event (Dict String VenueIntent) :=
  .amend ⟨heldPosition, levels, ⟨"EURUSD", "s", 10, 0, .demo, "pos_1", "amend"⟩, 3, "trail"⟩

def stopAt (level : ℚ) : Event (Dict String VenueIntent) := amendTo ⟨some level, none⟩

def emptyDesk : Desk (Dict String VenueIntent) := ⟨.fresh 100, IntentStore.empty, .empty⟩

/-- A stop that only moves on to new levels is always in force. -/
theorem in_force_while_trailing :
    Along (Truthful levelsManager levelsOf) (step levelsManager) emptyDesk
      [stopAt 1, stopAt 2] := by
  refine (accepted_in_force_iff levelsManager levelsOf keepsLevels_sets emptyDesk _).2
    ⟨⟨fun _ hbefore => ?_, fun _ _ _ => ?_⟩, ⟨fun _ hbefore => ?_, fun _ _ _ => ?_⟩, trivial⟩
  · obtain ⟨i, hget, -⟩ := hbefore
    cases hget
  · exact ⟨fun _ => rfl, fun _ => rfl⟩
  · obtain ⟨i, hget, -⟩ := hbefore
    have hnone : (step levelsManager emptyDesk (stopAt 1)).world.store.get
        (amendClientRef "pos_1" (some 2) none) = none := by decide +kernel
    exact absurd (hnone.symm.trans hget) (by simp)
  · have hheld : levelsOf (step levelsManager emptyDesk (stopAt 1)).world.venue "T1" =
        ⟨some 1, none⟩ := by decide +kernel
    refine ⟨fun hnone => absurd hnone (Option.some_ne_none 2), fun _ => ?_⟩
    exact congrArg VenueIntent.takeProfit hheld

/-- The stop goes to 1, to 2 and back to 1: the third amendment is accepted as
already applied, and the venue still holds 2.  A target that is no longer asked for
stays at the venue, and the amendment without it is accepted. -/
theorem accepted_and_not_in_force :
    let s := exec (step levelsManager) emptyDesk [stopAt 1, stopAt 2]
    let s' := step levelsManager s (stopAt 1)
    levelsOf s.world.venue "T1" = ⟨some 2, none⟩ ∧ levelsOf s'.world.venue "T1" = ⟨some 2, none⟩ ∧
      ¬ Along (Truthful levelsManager levelsOf) (step levelsManager) emptyDesk
        [stopAt 1, stopAt 2, stopAt 1] ∧
      ¬ Along (Truthful levelsManager levelsOf) (step levelsManager) emptyDesk
        [amendTo ⟨some 1, some 3⟩, stopAt 2] := by
  have hbefore : levelsOf (exec (step levelsManager) emptyDesk [stopAt 1, stopAt 2]).world.venue
      "T1" = ⟨some 2, none⟩ := by decide +kernel
  refine ⟨hbefore, by decide +kernel, fun h => ?_, fun h => ?_⟩
  · have hstored : ((exec (step levelsManager) emptyDesk [stopAt 1, stopAt 2]).world.store.get
        (amendClientRef "pos_1" (some 1) none)).map OrderIntent.state = some .filled := by
      decide +kernel
    obtain ⟨i, hget, hi⟩ := Option.map_eq_some_iff.1 hstored
    have hrests := (truthful_iff_meets keepsLevels_sets _ _).1 h.2.2.1
    have hlevels : levelsOf (exec (step levelsManager) emptyDesk [stopAt 1, stopAt 2]).world.venue
        "T1" = ⟨some 1, none⟩ := hrests.applied rfl ⟨i, hget, hi⟩
    rw [hbefore] at hlevels
    exact absurd hlevels (by decide)
  · have hfirst : levelsOf (step levelsManager emptyDesk (amendTo ⟨some 1, some 3⟩)).world.venue
        "T1" = ⟨some 1, some 3⟩ := by decide +kernel
    have hnew : (step levelsManager emptyDesk (amendTo ⟨some 1, some 3⟩)).world.store.get
        (amendClientRef "pos_1" (some 2) none) = none := by decide +kernel
    have hrests := (truthful_iff_meets keepsLevels_sets _ _).1 h.2.1
    have hunasked := hrests.sent rfl
      (fun ⟨i, hget, _⟩ => absurd (hnew.symm.trans hget) (by simp)) rfl
    have htarget : (levelsOf (step levelsManager emptyDesk
        (amendTo ⟨some 1, some 3⟩)).world.venue "T1").takeProfit = none := hunasked.2 rfl
    rw [hfirst] at htarget
    cases htarget

end Sample

end Fiboki.RestingLevels
