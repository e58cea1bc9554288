import Fiboki.Broker.Driver
import Fiboki.Broker.ExecutionService

/-!
Venue-backed position management: the book decides a bar, and then the venue is
told.

Two pictures of every position are kept.  The modelled one is in the book; the
one the venue holds, with its one stop and one limit, is beside it and is what
every instruction addresses.
-/

namespace Fiboki

open Text

/-- The one stop and the one limit wanted at the venue for a position. -/
@[ext]
structure VenueIntent where
  stopLoss : Option ℚ
  takeProfit : Option ℚ
  deriving DecidableEq

def closeTo (tolerance : ℚ) : Option ℚ → Option ℚ → Bool
  | some a, some b => |a - b| ≤ tolerance
  | none, none => true
  | _, _ => false

def VenueIntent.agrees (tolerance : ℚ) (a : VenueIntent) (b : Option VenueIntent) : Bool :=
  match b with
  | none => false
  | some b => closeTo tolerance a.stopLoss b.stopLoss && closeTo tolerance a.takeProfit b.takeProfit

inductive AmendKind where
  | attach
  | trail
  | breakeven
  | nextLeg
  | scaleOut
  | close
  | reattach
  | correction

def AmendKind.value : AmendKind → String
  | attach => "attach"
  | trail => "trail"
  | breakeven => "breakeven"
  | nextLeg => "next_leg"
  | scaleOut => "scale_out"
  | close => "close"
  | reattach => "reattach"
  | correction => "correction"

/-- One venue instruction, from what was wanted to what the venue did. -/
structure AmendTelemetry where
  at_ : Timestamp
  positionId : String
  brokerRef : Option String
  instrument : String
  strategyId : String
  kind : AmendKind
  applied : Bool
  skipped : Bool
  attempts : ℕ
  intendedStop : Option ℚ
  intendedTakeProfit : Option ℚ
  venueStopBefore : Option ℚ
  venueStopAfter : Option ℚ
  venueTakeProfitBefore : Option ℚ
  venueTakeProfitAfter : Option ℚ
  modelledEntry : ℚ
  venueEntry : Option ℚ
  size : ℚ
  clientRef : String
  error : String

structure IntentDivergence where
  kind : String
  positionId : String
  brokerRef : Option String
  instrument : String
  intendedStop : Option ℚ
  venueStop : Option ℚ
  intendedTakeProfit : Option ℚ
  venueTakeProfit : Option ℚ
  detail : String

/-- What is read of an outcome, or of an exception in its place. -/
structure Delivered where
  accepted : Bool
  reason : String
  attempts : ℕ
  skipped : Bool
  clientRef : String

namespace Delivered

/-- `_FailedInstruction`. -/
def failed (exc : ServiceError) : Delivered := ⟨false, exc.described, 1, false, ""⟩

def refOf (intent : Option OrderIntent) : String := (intent.map OrderIntent.clientRef).getD ""

def ofSubmit : Except ServiceError SubmitOutcome → Delivered
  | .error exc => failed exc
  | .ok outcome => ⟨outcome.accepted, outcome.reason, 1, false, refOf outcome.intent⟩

def ofAmend : Except ServiceError AmendOutcome → Delivered
  | .error exc => failed exc
  | .ok outcome =>
    ⟨outcome.accepted, outcome.reason, outcome.attempts, outcome.skipped, refOf outcome.intent⟩

/-- `"already_flat" in outcome.reason`. -/
def alreadyFlat (d : Delivered) : Bool := contains "already_flat" d.reason

def applied (d : Delivered) : Bool := d.accepted || d.alreadyFlat

end Delivered

structure ManagerSetup (σ : Type) where
  execution : ExecutionService σ
  book : BookSetup
  instruments : Registry
  contextFactory : Position → String → World σ → ExitContext
  retryAttempts : ℕ
  latencyBars : ℕ
  priceTolerance : ℚ
  accountCcy : String
  clock : σ → Timestamp

structure VenuePositionManager where
  book : PositionBook
  driver : BookDriver
  venueState : Dict String VenueIntent
  venuePositions : Dict String Position
  venueEntry : Dict String ℚ
  pendingOrders : Dict ℕ (String × String)
  refBySeq : Dict ℕ String
  pendingCloses : Dict String (Position × String)
  peakEquity : Option ℚ

/-- A manager in the middle of a call, the world, and the cycle the call fills in. -/
structure ManagerTurn (σ : Type) where
  manager : VenuePositionManager
  world : World σ
  telemetry : List AmendTelemetry
  divergences : List IntentDivergence

structure ManagerCycle where
  at_ : Timestamp
  advance : AdvanceResult
  telemetry : List AmendTelemetry
  divergences : List IntentDivergence

namespace VenuePositionManager

def fresh (initialBalance : ℚ) : VenuePositionManager where
  book := .fresh initialBalance
  driver := .fresh
  venueState := .empty
  venuePositions := .empty
  venueEntry := .empty
  pendingOrders := .empty
  refBySeq := .empty
  pendingCloses := .empty
  peakEquity := none

def setBarInterval (m : VenuePositionManager) (symbol : String) (interval : Timedelta) :
    VenuePositionManager :=
  { m with driver := m.driver.setBarInterval symbol interval }

def dropVenue (m : VenuePositionManager) (ref : String) : VenuePositionManager :=
  { m with
    venueState := m.venueState.erase ref
    venuePositions := m.venuePositions.erase ref }

def keepClose (m : VenuePositionManager) (ref : String) (position : Position) (reason : String) :
    VenuePositionManager :=
  { m with pendingCloses := m.pendingCloses.set ref (position, reason) }

def dropClose (m : VenuePositionManager) (ref : String) : VenuePositionManager :=
  { m with pendingCloses := m.pendingCloses.erase ref }

def dropOrder (m : VenuePositionManager) (seq : ℕ) : VenuePositionManager :=
  { m with pendingOrders := m.pendingOrders.erase seq }

def dropSeq (m : VenuePositionManager) (seq : ℕ) : VenuePositionManager :=
  { m with refBySeq := m.refBySeq.erase seq }

/-- What the venue is taken to hold after `size` of it was closed. -/
def shrink (m : VenuePositionManager) (ref : String) (position : Position) (size : ℚ) :
    VenuePositionManager :=
  let position := { position with size := max 0 (position.size - size) }
  { m with venuePositions := m.venuePositions.set ref position }

def linkEntry (m : VenuePositionManager) (seq : ℕ) (ref : String) : VenuePositionManager :=
  { m with
    book := { m.book with
      open_ := m.book.open_.map fun op =>
        if op.seq = seq then { op with position := { op.position with venueRef := some ref } }
        else op }
    refBySeq := m.refBySeq.set seq ref }

def managedByRef (m : VenuePositionManager) : Dict String ManagedPosition :=
  .ofList (m.book.open_.filterMap fun op =>
    if truthy op.position.venueRef then some (op.position.venueRef.getD "", op) else none)

/-- `_adopt`: queue the whole ladder, and record what the venue holds now. -/
def adoptTerms (instruments : Registry) (latencyBars : ℕ) (m : VenuePositionManager)
    (terms : EntryTerms) (fill : Option Fill) (strategyId brokerRef positionId : String)
    (clock : Timestamp) : PendingEntry × VenuePositionManager :=
  let (entry, book) := queuePendingEntry instruments m.book terms m.driver.barIndex latencyBars
    strategyId (some brokerRef) none
  let attached := entry.takeProfitPrices.head?
  let position : Position :=
    { instrument := terms.instrument
      direction := terms.direction
      size := (fill.map Fill.filledSize).getD terms.size
      entryPrice := (fill.map Fill.filledPrice).getD 0
      entryTime := (fill.map Fill.filledAt).getD (m.driver.now.getD clock)
      stopLoss := terms.stopLoss.getD 0
      takeProfitTargets := attached.toList
      strategyId := strategyId
      barsHeld := 0
      maxFavourableExcursion := 0
      maxAdverseExcursion := 0
      financingAccrued := 0
      venueRef := some brokerRef
      positionId := positionId }
  (entry, { m with
    book := book
    pendingOrders := m.pendingOrders.set entry.seq (brokerRef, terms.instrument)
    venueState := m.venueState.set brokerRef ⟨terms.stopLoss, attached⟩
    venueEntry := match fill with
      | some fill => m.venueEntry.set brokerRef fill.filledPrice
      | none => m.venueEntry
    venuePositions := m.venuePositions.set brokerRef position })

def noReference (clientRef : String) : String :=
  "cannot manage " ++ pyRepr clientRef ++
    ": the ack carries no broker reference, so nothing can " ++
    "be amended or closed against it. Reconcile it instead."

def beforeFirstBar : String :=
  "adopt before the first bar: the manager has no timeline to make the order actionable on"

/-- `adopt`: take responsibility for an order the venue has taken.  `positionId`
is the identifier drawn for the venue's position. -/
def adopt (instruments : Registry) (latencyBars : ℕ) (m : VenuePositionManager) (order : Order)
    (ack : OrderAck) (strategyId positionId : String) (clock : Timestamp) :
    Except String PendingEntry × VenuePositionManager :=
  if truthy ack.brokerRef = false then (.error (noReference ack.clientRef), m)
  else if m.driver.barIndex < 0 then (.error beforeFirstBar, m)
  else
    let (entry, m') := m.adoptTerms instruments latencyBars order.terms ack.fill
      (strOr strategyId order.planId) (ack.brokerRef.getD "") positionId clock
    (.ok entry, m')

/-- `precheck_entry`: would the book refuse an entry queued now?  A refusal that
is counted takes the sequence number the queue would have taken. -/
def precheckEntry (env : BookSetup) (latencyBars : ℕ) (m : VenuePositionManager)
    (instrument : String) (bump : Bool) : Option String × VenuePositionManager :=
  let actionable := m.driver.barIndex + 1 + latencyBars
  let closing := (m.book.pendingCloses.filter fun c => c.actionableIndex ≤ actionable).map
    PendingClose.positionSeq
  let surviving := m.book.open_.filter fun op => op.seq ∉ closing
  let reason :=
    if actionable ≤ (m.book.cooldownUntil.get instrument).getD (-1) then some "cooldown"
    else if env.config.maxConcurrent ≤ surviving.length then some "max_concurrent"
    else if env.config.maxPerInstrument ≤
        surviving.countP (fun op => op.position.instrument = instrument) then
      some "max_per_instrument"
    else none
  match reason with
  | none => (none, m)
  | some reason =>
    (some reason, if bump then { m with book := (m.book.bump reason).nextSeq } else m)

/-- `mark_to_market`: before the first bar there is nothing to mark. -/
def markToMarket (env : BookSetup) (m : VenuePositionManager) : Option (ℚ × ℚ) :=
  match m.driver.sliceNow .empty with
  | .error _ => some (0, 0)
  | .ok view => env.markToMarket view m.book.open_

/-- `account`: the modelled account, whose peak is remembered. -/
def account (env : BookSetup) (accountCcy : String) (m : VenuePositionManager) :
    Option AccountState × VenuePositionManager :=
  match m.markToMarket env with
  | none => (none, m)
  | some (unrealised, _) =>
    let equity := m.book.balance + unrealised
    let peak := max (m.peakEquity.getD equity) equity
    (some
      { balance := m.book.balance
        equity := equity
        currency := accountCcy
        marginUsed := 0
        openPositions := m.book.open_.length
        realisedPnl := m.book.realised
        unrealisedPnl := unrealised
        peakEquity := peak }, { m with peakEquity := some peak })

end VenuePositionManager

namespace ManagerTurn

variable {σ : Type}

def start (m : VenuePositionManager) (w : World σ) : ManagerTurn σ := ⟨m, w, [], []⟩

def emit (t : ManagerTurn σ) (record : AmendTelemetry) : ManagerTurn σ :=
  { t with telemetry := t.telemetry ++ [record] }

def diverge (t : ManagerTurn σ) (divergence : IntentDivergence) : ManagerTurn σ :=
  { t with divergences := t.divergences ++ [divergence] }

/-- `_emit`, and `_raise_unrealised` when the instruction was not applied. -/
def report (t : ManagerTurn σ) (record : AmendTelemetry)
    (unrealised : AmendTelemetry → IntentDivergence) : ManagerTurn σ :=
  if record.applied then t.emit record else (t.emit record).diverge (unrealised record)

def onManager (t : ManagerTurn σ) (f : VenuePositionManager → VenuePositionManager) :
    ManagerTurn σ :=
  { t with manager := f t.manager }

def cycle (t : ManagerTurn σ) (at_ : Timestamp) (result : AdvanceResult) : ManagerCycle :=
  ⟨at_, result, t.telemetry, t.divergences⟩

end ManagerTurn

namespace ManagerSetup

variable {σ : Type} (setup : ManagerSetup σ)

def nowOf (t : ManagerTurn σ) : Timestamp := t.manager.driver.now.getD (setup.clock t.world.venue)

def sendClose (position : Position) (size : ℚ) (final : Bool) (reason : String) (w : World σ) :
    Delivered × World σ :=
  if final then
    let context := setup.contextFactory position "close" w
    let (outcome, w') := setup.execution.close position context w
    (.ofSubmit outcome, w')
  else
    let context := setup.contextFactory position "reduce" w
    let (outcome, w') := setup.execution.closePartial position size context reason w
    (.ofAmend outcome, w')

def closeRecord (t : ManagerTurn σ) (position : Position) (size : ℚ) (kind : AmendKind)
    (outcome : Delivered) : AmendTelemetry where
  at_ := setup.nowOf t
  positionId := position.positionId
  brokerRef := position.venueRef
  instrument := position.instrument
  strategyId := position.strategyId
  kind := kind
  applied := outcome.applied
  skipped := outcome.alreadyFlat
  attempts := outcome.attempts
  intendedStop := none
  intendedTakeProfit := none
  venueStopBefore := none
  venueStopAfter := none
  venueTakeProfitBefore := none
  venueTakeProfitAfter := none
  modelledEntry := position.entryPrice
  venueEntry := t.manager.venueEntry.get (reprRef position.venueRef)
  size := size
  clientRef := outcome.clientRef
  error := if outcome.applied then "" else outcome.reason
where
  /-- `str(position.venue_ref)`. -/
  reprRef (ref : Option String) : String := ref.getD "None"

def closeNotRealised (record : AmendTelemetry) : IntentDivergence where
  kind := "close_not_realised"
  positionId := record.positionId
  brokerRef := record.brokerRef
  instrument := record.instrument
  intendedStop := none
  venueStop := none
  intendedTakeProfit := none
  venueTakeProfit := none
  detail := record.error

/-- `_instruct_close`: send one closing instruction. -/
def instructClose (t : ManagerTurn σ) (position : Position) (size : ℚ) (final : Bool)
    (kind : AmendKind) (reason : String) : Bool × ManagerTurn σ :=
  let (outcome, w) := setup.sendClose position size final reason t.world
  let t := { t with world := w }
  let record := setup.closeRecord t position size kind outcome
  (record.applied, t.report record closeNotRealised)

def amendTarget (m : VenuePositionManager) (ref : String) (managed : ManagedPosition) : Position :=
  (m.venuePositions.get ref).getD managed.position

def levelled (position : Position) (desired : VenueIntent) : Position :=
  { position with
    stopLoss := desired.stopLoss.getD position.stopLoss
    takeProfitTargets := desired.takeProfit.toList }

def recordLevels (m : VenuePositionManager) (ref : String) (managed : ManagedPosition)
    (desired : VenueIntent) : VenuePositionManager :=
  let m := { m with venueState := m.venueState.set ref desired }
  match m.venuePositions.get ref with
  | some position =>
    { m with venuePositions := m.venuePositions.set ref (levelled position desired) }
  | none =>
    { m with book := { m.book with
        open_ := m.book.open_.map fun op =>
          if op.seq = managed.seq then { op with position := levelled op.position desired }
          else op } }

def amendRecord (t : ManagerTurn σ) (position : Position) (before : Option VenueIntent)
    (ref : String) (managed : ManagedPosition) (desired : VenueIntent) (kind : AmendKind)
    (outcome : Delivered) : AmendTelemetry where
  at_ := setup.nowOf t
  positionId := position.positionId
  brokerRef := position.venueRef
  instrument := position.instrument
  strategyId := position.strategyId
  kind := kind
  applied := outcome.accepted
  skipped := outcome.skipped
  attempts := outcome.attempts
  intendedStop := desired.stopLoss
  intendedTakeProfit := desired.takeProfit
  venueStopBefore := before.bind VenueIntent.stopLoss
  venueStopAfter := if outcome.accepted then desired.stopLoss else before.bind VenueIntent.stopLoss
  venueTakeProfitBefore := before.bind VenueIntent.takeProfit
  venueTakeProfitAfter :=
    if outcome.accepted then desired.takeProfit else before.bind VenueIntent.takeProfit
  modelledEntry := managed.entryMid
  venueEntry := t.manager.venueEntry.get ref
  size := position.size
  clientRef := outcome.clientRef
  error := if outcome.accepted then "" else outcome.reason

def amendNotRealised (record : AmendTelemetry) : IntentDivergence where
  kind := "amend_not_realised"
  positionId := record.positionId
  brokerRef := record.brokerRef
  instrument := record.instrument
  intendedStop := record.intendedStop
  venueStop := record.venueStopBefore
  intendedTakeProfit := record.intendedTakeProfit
  venueTakeProfit := record.venueTakeProfitBefore
  detail := record.error

def sendAmend (position : Position) (desired : VenueIntent) (kind : AmendKind) (w : World σ) :
    Delivered × World σ :=
  let context := setup.contextFactory position "amend" w
  let (outcome, w') := setup.execution.amend position desired.stopLoss desired.takeProfit context
    setup.retryAttempts kind.value w
  (.ofAmend outcome, w')

def instructAmend (t : ManagerTurn σ) (managed : ManagedPosition) (desired : VenueIntent)
    (kind : AmendKind) : AmendTelemetry × ManagerTurn σ :=
  let ref := managed.position.venueRef.getD ""
  let position := amendTarget t.manager ref managed
  let before := t.manager.venueState.get ref
  let (outcome, w) := setup.sendAmend position desired kind t.world
  let t := { t with
    world := w
    manager := if outcome.accepted then recordLevels t.manager ref managed desired else t.manager }
  let record := setup.amendRecord t position before ref managed desired kind outcome
  (record, t.report record amendNotRealised)

def entryNotModelled (event : EntryEvent) (ref : String) (stray : Option Position) :
    IntentDivergence where
  kind := "entry_not_modelled"
  positionId := (stray.map Position.positionId).getD ""
  brokerRef := some ref
  instrument := event.pending.instrument.symbol
  intendedStop := none
  venueStop := none
  intendedTakeProfit := none
  venueTakeProfit := none
  detail := "book refused the entry: " ++ event.reason

def closeStray (t : ManagerTurn σ) (event : EntryEvent) (ref : String) : ManagerTurn σ :=
  match t.manager.venuePositions.get ref with
  | none => (t.onManager (·.dropVenue ref)).diverge (entryNotModelled event ref none)
  | some position =>
    let reason := "entry_not_modelled:" ++ event.reason
    let (applied, t) := setup.instructClose (t.onManager (·.dropVenue ref)) position position.size
      true .correction reason
    let t := if applied then t else t.onManager (·.keepClose ref position reason)
    t.diverge (entryNotModelled event ref (some position))

def takeEntry (t : ManagerTurn σ) (event : EntryEvent) : ManagerTurn σ :=
  match t.manager.pendingOrders.get event.pending.seq with
  | none => t
  | some (ref, _) =>
    let t := t.onManager (·.dropOrder event.pending.seq)
    match event.filled, event.managed with
    | true, some seq => t.onManager (·.linkEntry seq ref)
    | _, _ => setup.closeStray t event ref

def retryClose (t : ManagerTurn σ) (item : String × Position × String) : ManagerTurn σ :=
  let (ref, position, reason) := item
  let (applied, t) := setup.instructClose t position position.size true .close ("retry:" ++ reason)
  if applied then t.onManager (·.dropClose ref) else t

/-- `retry_pending_closes`, in the order of the references. -/
def retryPendingCloses (t : ManagerTurn σ) : ManagerTurn σ :=
  t.manager.pendingCloses.entries.foldl setup.retryClose t

def pushFinal (t : ManagerTurn σ) (leg : ExitLeg) (ref : String) (position : Position) :
    ManagerTurn σ :=
  let (applied, t) := setup.instructClose t position position.size true .close leg.exitReason
  let t := t.onManager fun m => (m.dropVenue ref).dropSeq leg.positionSeq
  if applied then t else t.onManager (·.keepClose ref position leg.exitReason)

def pushPartial (t : ManagerTurn σ) (leg : ExitLeg) (ref : String) (position : Position) :
    ManagerTurn σ :=
  let (_, t) := setup.instructClose t position (min leg.size position.size) false .scaleOut
    leg.exitReason
  let t := t.onManager (·.shrink ref position leg.size)
  match t.manager.book.open_.find? (fun op => op.seq = leg.positionSeq) with
  | none => t
  | some managed =>
    (setup.instructAmend t managed ⟨some managed.position.stopLoss, managed.activeTarget⟩
      .nextLeg).2

def pushLeg (stillOpen : List ℕ) (t : ManagerTurn σ) (leg : ExitLeg) : ManagerTurn σ :=
  match t.manager.refBySeq.get leg.positionSeq with
  | none => t
  | some ref =>
    if ref = "" then t
    else
      match t.manager.venuePositions.get ref with
      | none => t
      | some position =>
        if leg.final ∨ leg.positionSeq ∉ stillOpen then setup.pushFinal t leg ref position
        else setup.pushPartial t leg ref position

def pushCloses (t : ManagerTurn σ) (result : AdvanceResult) : ManagerTurn σ :=
  result.legs.foldl (setup.pushLeg (t.manager.book.open_.map ManagedPosition.seq)) t

def levelsKind (managed : ManagedPosition) : AmendKind :=
  if managed.stopTrailed then .trail else if managed.breakevenDone then .breakeven else .attach

def pushLevel (t : ManagerTurn σ) (managed : ManagedPosition) : ManagerTurn σ :=
  let ref := managed.position.venueRef.getD ""
  if ref = "" ∨ t.manager.venuePositions.get ref = none then t
  else
    let desired : VenueIntent := ⟨some managed.position.stopLoss, managed.activeTarget⟩
    if desired.agrees setup.priceTolerance (t.manager.venueState.get ref) then t
    else (setup.instructAmend t managed desired (levelsKind managed)).2

def pushLevels (t : ManagerTurn σ) : ManagerTurn σ := t.manager.book.open_.foldl setup.pushLevel t

def advanceBook (m : VenuePositionManager) (bars : BarMap) (barIndex : ℤ)
    (timestamp : Option Timestamp) (series : Series) :
    Except String (AdvanceResult × BarSlice) × VenuePositionManager :=
  let (outcome, driver, book) := m.driver.advance setup.book m.book bars barIndex timestamp series
  (outcome, { m with driver := driver, book := book })

def takeEntries (m : VenuePositionManager) (result : AdvanceResult) (w : World σ) : ManagerTurn σ :=
  result.entries.foldl setup.takeEntry (.start m w)

/-- `on_bar`: the book decides first, and only then is the venue told. -/
def onBar (m : VenuePositionManager) (bars : BarMap) (barIndex : ℤ) (timestamp : Option Timestamp)
    (series : Series) (w : World σ) : Except String ManagerCycle × VenuePositionManager × World σ :=
  match setup.advanceBook m bars barIndex timestamp series with
  | (.error e, m) => (.error e, m, w)
  | (.ok (result, view), m) =>
    let t := setup.retryPendingCloses (setup.takeEntries m result w)
    let t := setup.pushLevels (setup.pushCloses t result)
    (.ok (t.cycle view.timestamp result), t.manager, t.world)

/-- The book's part of `flatten`. -/
def flattenBook (m : VenuePositionManager) (bars : BarMap) (reason : ExitReason)
    (which : ManagedPosition → Bool) :
    Except String (AdvanceResult × BarSlice) × VenuePositionManager :=
  match m.driver.sliceNow bars with
  | .error e => (.error e, m)
  | .ok view =>
    let (result, book) := setup.book.flatten view reason which m.book
    (.ok (result, view), { m with book := book })

/-- `flatten`: close the open positions that `which` picks, now. -/
def flatten (m : VenuePositionManager) (bars : BarMap) (reason : ExitReason)
    (which : ManagedPosition → Bool) (w : World σ) :
    Except String ManagerCycle × VenuePositionManager × World σ :=
  match setup.flattenBook m bars reason which with
  | (.error e, m) => (.error e, m, w)
  | (.ok (result, view), m) =>
    let t := setup.pushCloses (setup.retryPendingCloses (.start m w)) result
    (.ok (t.cycle view.timestamp result), t.manager, t.world)

def byRef (positions : List Position) : Dict String Position :=
  .ofList (positions.filterMap fun p =>
    if truthy p.venueRef then some (p.venueRef.getD "", p) else none)

def heldLevels (position : Position) : VenueIntent where
  stopLoss := if position.stopLoss = 0 then none else some position.stopLoss
  takeProfit := position.takeProfitTargets.head?

def missingAtVenue (ref : String) (op : ManagedPosition) : IntentDivergence where
  kind := "missing_at_venue"
  positionId := op.position.positionId
  brokerRef := some ref
  instrument := op.position.instrument
  intendedStop := some op.position.stopLoss
  venueStop := none
  intendedTakeProfit := none
  venueTakeProfit := none
  detail := "we are managing a position the venue does not have. Either it closed on its own " ++
    "stop and we have not seen the fill, or it never existed."

def stopMismatch (ref : String) (op : ManagedPosition) (intended held : VenueIntent) :
    IntentDivergence where
  kind := "stop_mismatch"
  positionId := op.position.positionId
  brokerRef := some ref
  instrument := op.position.instrument
  intendedStop := intended.stopLoss
  venueStop := held.stopLoss
  intendedTakeProfit := intended.takeProfit
  venueTakeProfit := held.takeProfit
  detail := "the venue's resting levels are not the ones we intend"

def intendedLevels (op : ManagedPosition) : VenueIntent :=
  ⟨some op.position.stopLoss, op.activeTarget⟩

/-- What the venue holds now, by value: where an adapter hands out its own object, what either
side later writes to it is not seen here. -/
def recordHeld (m : VenuePositionManager) (ref : String) (op : ManagedPosition)
    (venue : Position) : VenuePositionManager :=
  let held := { venue with strategyId := strOr venue.strategyId op.position.strategyId }
  { m with
    venueState := m.venueState.set ref (heldLevels venue)
    venuePositions := m.venuePositions.set ref held }

def dropPosition (m : VenuePositionManager) (ref : String) : VenuePositionManager :=
  { m with venuePositions := m.venuePositions.erase ref }

def reconcileOne (listed : Dict String Position) (repair : Bool) (t : ManagerTurn σ)
    (item : String × ManagedPosition) : ManagerTurn σ :=
  let (ref, op) := item
  match listed.get ref with
  | none => (t.onManager (dropPosition · ref)).diverge (missingAtVenue ref op)
  | some venue =>
    let intended := intendedLevels op
    let t := t.onManager (recordHeld · ref op venue)
    if intended.agrees setup.priceTolerance (some (heldLevels venue)) then t
    else
      let t := t.diverge (stopMismatch ref op intended (heldLevels venue))
      if repair then
        let (_, t') := setup.instructAmend t op intended .correction
        { t' with divergences := t.divergences }
      else t

def closePending (ref : String) (venue : Position) (reason : String) : IntentDivergence where
  kind := "close_pending"
  positionId := venue.positionId
  brokerRef := some ref
  instrument := venue.instrument
  intendedStop := none
  venueStop := (heldLevels venue).stopLoss
  intendedTakeProfit := none
  venueTakeProfit := none
  detail := "the book closed this position and the venue has not confirmed (" ++ reason ++
    "); the close is re-sent every bar until it is"

def unmanagedAtVenue (ref : String) (venue : Position) : IntentDivergence where
  kind := "unmanaged_at_venue"
  positionId := venue.positionId
  brokerRef := some ref
  instrument := venue.instrument
  intendedStop := none
  venueStop := (heldLevels venue).stopLoss
  intendedTakeProfit := none
  venueTakeProfit := none
  detail := "a REAL position at the venue that this manager is not managing. Its stop is " ++
    "whatever is attached; nothing trails it and no leg will be placed."

def listedDivergence (m : VenuePositionManager) (managed : Dict String ManagedPosition)
    (item : String × Position) : Option IntentDivergence :=
  match managed.get item.1, m.pendingCloses.get item.1 with
  | some _, _ => none
  | none, some (_, reason) => some (closePending item.1 item.2 reason)
  | none, none => some (unmanagedAtVenue item.1 item.2)

def dropUnlisted (m : VenuePositionManager) (listed : Dict String Position) :
    VenuePositionManager :=
  let drop := fun (d : Dict String (Position × String)) (ref : String) =>
    if (listed.get ref).isSome then d else d.erase ref
  { m with pendingCloses := m.pendingCloses.keys.foldl drop m.pendingCloses }

/-- `reconcile` against a listing. -/
def reconcile (m : VenuePositionManager) (positions : List Position) (repair : Bool)
    (w : World σ) : ManagerTurn σ :=
  let listed := byRef positions
  let managed := m.managedByRef
  let t := managed.entries.foldl (setup.reconcileOne listed repair) (.start m w)
  { t with
    manager := dropUnlisted t.manager listed
    divergences := t.divergences ++
      listed.entries.filterMap (listedDivergence (dropUnlisted t.manager listed) managed) }

end ManagerSetup

inductive ManagerCall where
  | onBar (bars : BarMap) (barIndex : ℤ) (timestamp : Option Timestamp) (series : Series)
  | flatten (bars : BarMap) (reason : ExitReason) (which : ManagedPosition → Bool)
  | adopt (order : Order) (ack : OrderAck) (strategyId positionId : String)
  | precheckEntry (instrument : String) (bump : Bool)
  | account
  | reconcile (positions : List Position) (repair : Bool)
  | setBarInterval (symbol : String) (interval : Timedelta)

inductive ManagerAnswer where
  | cycle (outcome : Except String ManagerCycle)
  | queued (outcome : Except String PendingEntry)
  | refusal (reason : Option String)
  | account (state : Option AccountState)
  | reconciled (divergences : List IntentDivergence) (telemetry : List AmendTelemetry)
  | done

def ManagerSetup.call {σ : Type} (setup : ManagerSetup σ) (m : VenuePositionManager) (w : World σ) :
    ManagerCall → ManagerAnswer × VenuePositionManager × World σ
  | .onBar bars barIndex timestamp series =>
    let (outcome, m', w') := setup.onBar m bars barIndex timestamp series w
    (.cycle outcome, m', w')
  | .flatten bars reason which =>
    let (outcome, m', w') := setup.flatten m bars reason which w
    (.cycle outcome, m', w')
  | .adopt order ack strategyId positionId =>
    let (outcome, m') := m.adopt setup.instruments setup.latencyBars order ack strategyId positionId
      (setup.clock w.venue)
    (.queued outcome, m', w)
  | .precheckEntry instrument bump =>
    let (reason, m') := m.precheckEntry setup.book setup.latencyBars instrument bump
    (.refusal reason, m', w)
  | .account =>
    let (state, m') := m.account setup.book setup.accountCcy
    (.account state, m', w)
  | .reconcile positions repair =>
    let t := setup.reconcile m positions repair w
    (.reconciled t.divergences t.telemetry, t.manager, t.world)
  | .setBarInterval symbol interval => (.done, m.setBarInterval symbol interval, w)

end Fiboki
