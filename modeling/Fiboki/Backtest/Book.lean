import Fiboki.Backtest.Position

/-!
The steps of the book: reversals, entries, exits and the flatten, in the order
of the per-bar loop.
-/

namespace Fiboki

namespace BookSetup

variable (env : BookSetup)

/-- Two lists of positions: every one the step began with, as it stands now, and
those still open. -/
structure Reversing where
  turn : Turn
  bySeq : List ManagedPosition
  open_ : List ManagedPosition

def runClose (v : BarSlice) (r : Reversing) (c : PendingClose) : Reversing × Bool :=
  if v.index < c.actionableIndex then (r, true)
  else
    match r.bySeq.find? (fun op => op.seq = c.positionSeq) with
    | none => (r, false)
    | some op =>
      match v.bars c.instrument with
      | none => (r, true)
      | some bar =>
        let fill := env.sim.marketExit op.instrument op.position.direction op.position.size bar
          v.index .oppositeSignal bar.open_ op.seq (v.spacing c.instrument)
        let (turn, op') := env.closeAtMarket r.turn op fill v.timestamp
        ({ turn := env.settle turn op' v.timestamp .oppositeSignal
           bySeq := r.bySeq.map fun p => if p.seq = op.seq then op' else p
           open_ := r.open_.filter fun p => p.seq ≠ op.seq }, false)

/-- The loop of `_run_pending_closes`, and the closes still pending. -/
def runCloses (v : BarSlice) : Reversing → List PendingClose → Reversing × List PendingClose
  | r, [] => (r, [])
  | r, c :: rest =>
    let (r', kept) := env.runClose v r c
    let (r'', still) := runCloses v r' rest
    (r'', if kept then c :: still else still)

def runPendingCloses (v : BarSlice) (t : Turn) : Turn :=
  let (r, still) := env.runCloses v ⟨t, t.book.open_, t.book.open_⟩ t.book.pendingCloses
  { r.turn with book := { r.turn.book with open_ := r.open_, pendingCloses := still } }

def allocationsFor (order : PendingEntry) : List ℚ :=
  if order.takeProfitAllocations ≠ [] then order.takeProfitAllocations
  else if env.policy.allocations ≠ [] ∧
      order.takeProfitPrices.length ≤ env.policy.allocations.length then
    env.policy.allocations.take order.takeProfitPrices.length
  else []

def eventBlock (instrument : String) (ts : Timestamp) : Option String :=
  match env.policy.events with
  | none => none
  | some events =>
    events.blocks instrument ts env.config.financingRolloverHourUtc env.blackout

def entryRefusal (b : PositionBook) (v : BarSlice) (symbol : String) : Option String :=
  if v.index ≤ (b.cooldownUntil.get symbol).getD (-1) then some "cooldown"
  else
    match env.eventBlock symbol v.timestamp with
    | some blocked => some blocked
    | none =>
      if env.config.maxConcurrent ≤ b.open_.length then some "max_concurrent"
      else if env.config.maxPerInstrument ≤
          b.open_.countP (fun op => op.position.instrument = symbol) then
        some "max_per_instrument"
      else none

def refuseEntry (t : Turn) (order : PendingEntry) (reason : String) : Turn :=
  { book := t.book.bump reason
    result :=
    { t.result with entries := t.result.entries ++ [⟨order, false, reason, none, none⟩] } }

/-- The position a filled order opens, under sequence number `seq`. -/
def openPosition (v : BarSlice) (order : PendingEntry) (fill : EntryFill) (seq : ℕ) :
    ManagedPosition :=
  let legs := planLegs order.instrument fill.filledSize order.takeProfitPrices
    (env.allocationsFor order)
  { seq := seq
    position :=
      { instrument := order.instrument.symbol
        direction := order.direction
        size := fill.filledSize
        entryPrice := fill.midPrice
        entryTime := v.timestamp
        stopLoss := fill.effectiveStop
        takeProfitTargets := legs.map TakeProfitLeg.price
        strategyId := if order.strategyId = "" then env.config.strategyId else order.strategyId
        barsHeld := 0
        maxFavourableExcursion := 0
        maxAdverseExcursion := 0
        financingAccrued := 0
        venueRef := order.ref
        positionId := env.positionId seq }
    instrument := order.instrument
    entryMid := fill.midPrice
    entryBarIndex := v.index
    takeProfit := legs.head?.map TakeProfitLeg.price
    entryCostsAccount := env.costsToAccount order.instrument fill.costs v.timestamp
    financingAccount := 0
    lastFinancingTime := some v.timestamp
    entryFx := env.rate order.instrument.quote v.timestamp
    entrySize := fill.filledSize
    legs := legs
    nextLeg := 0
    riskPerUnit := |fill.midPrice - fill.effectiveStop|
    initialStop := fill.effectiveStop
    extreme := none
    breakevenDone := false
    stopTrailed := false
    stopMovedBy := ""
    reversalPending := false
    realisedGross := 0
    realisedSpread := 0
    realisedCommission := 0
    realisedSlippage := 0
    realisedFinancing := 0
    realisedNet := 0
    exitValue := 0
    nLegsClosed := 0
    singleLegExitMid := 0
    ref := order.ref }

def acceptEntry (v : BarSlice) (t : Turn) (order : PendingEntry) (fill : EntryFill) : Turn :=
  let b := t.book.nextSeq
  let op := env.openPosition v order fill b.seq
  let costs := op.entryCostsAccount
  { book := { b with
      costs := { b.costs with
        spread := b.costs.spread + costs.spread
        entryLegSpread := b.costs.entryLegSpread + costs.spread
        commission := b.costs.commission + costs.commission
        slippage := b.costs.slippage + costs.slippage
        guaranteedStopPremium := b.costs.guaranteedStopPremium + costs.premium }
      open_ := b.open_ ++ [op] }
    result := { t.result with
      entries := t.result.entries ++ [⟨order, true, "", some fill, some op.seq⟩] } }

def fillEntry (v : BarSlice) (t : Turn) (order : PendingEntry) : Turn × Bool :=
  if v.index < order.actionableIndex then (t, true)
  else
    let symbol := order.instrument.symbol
    match v.bars symbol with
    | none => (t, true)
    | some bar =>
      match env.entryRefusal t.book v symbol with
      | some reason => (refuseEntry t order reason, false)
      | none =>
        match env.sim.simulateEntry order.instrument order.direction order.size bar v.index
          order.stopPrice order.seq (v.spacing symbol) with
        | .error reason => (refuseEntry t order reason.value, false)
        | .ok fill => (env.acceptEntry v t order fill, false)

/-- The loop of `_fill_entries`, and the orders still waiting. -/
def fillEach (v : BarSlice) : Turn → List PendingEntry → Turn × List PendingEntry
  | t, [] => (t, [])
  | t, order :: rest =>
    let (t', kept) := env.fillEntry v t order
    let (t'', still) := fillEach v t' rest
    (t'', if kept then order :: still else still)

def fillEntries (v : BarSlice) (t : Turn) : Turn :=
  let (t', still) := env.fillEach v t t.book.pending
  { t' with book := { t'.book with pending := still } }

def timeStopHit (op : ManagedPosition) : Bool :=
  match env.policy.maxBarsInTrade with
  | none => false
  | some limit => limit ≤ op.position.barsHeld

def breakevenStop (op : ManagedPosition) : ℚ × String × Bool :=
  let current := op.position.stopLoss
  match env.policy.breakevenAtR with
  | none => (current, "", op.breakevenDone)
  | some r =>
    if op.breakevenDone = false ∧ r ≤ op.rMultiple then
      if 0 < (op.entryMid - current) * op.position.direction.sign then
        (op.entryMid, "breakeven", true)
      else (current, "", true)
    else (current, "", op.breakevenDone)

def trailStop (v : BarSlice) (op : ManagedPosition) (proposed : ℚ) (movedBy : String) :
    ℚ × String :=
  let trail := env.policy.trailing
  let symbol := op.position.instrument
  if trail.active ∧ trail.activateAfterR ≤ op.rMultiple then
    match trail.candidate op.position.direction.sign op.extreme (v.value symbol trail.atrColumn)
        (v.value symbol trail.levelColumn) with
    | none => (proposed, movedBy)
    | some level =>
      if 0 < (level - proposed) * op.position.direction.sign then (level, "trailing")
      else (proposed, movedBy)
  else (proposed, movedBy)

def updateProtectiveStop (v : BarSlice) (op : ManagedPosition) : ManagedPosition :=
  if op.riskPerUnit ≤ 0 then op
  else
    let current := op.position.stopLoss
    let (proposed, movedBy, done) := env.breakevenStop op
    let (proposed, movedBy) := env.trailStop v op proposed movedBy
    let op := { op with breakevenDone := done }
    if 0 < (proposed - current) * op.position.direction.sign then
      { op with
        position := { op.position with stopLoss := proposed }
        stopTrailed := true
        stopMovedBy :=
          if movedBy ≠ "" ∧ op.stopMovedBy ≠ "trailing" then movedBy else op.stopMovedBy }
    else op

/-- `resolve_exit` asked for one position and one size. -/
def resolveFor (v : BarSlice) (bar : Bar) (op : ManagedPosition) (size : ℚ) : Option ExitFill :=
  env.sim.resolveExit op.instrument op.position.direction size bar v.index op.position.stopLoss
    op.activeTarget op.seq (v.spacing op.position.instrument)

/-- The take-profit loop of one bar: the closing fills, and the reason of the one
that empties the position.  A leg is priced again for the size that leaves. -/
def exitLoop (v : BarSlice) (bar : Bar) :
    ℕ → Turn → ManagedPosition → Turn × ManagedPosition × Option ExitReason
  | 0, t, op => (t, op, none)
  | n + 1, t, op =>
    match env.resolveFor v bar op op.position.size with
    | none => (t, op, none)
    | some decision =>
      let (size, final) := op.sizeForExit decision
      let fill := if final then decision
        else (env.resolveFor v bar op size).getD decision
      let reason := op.exitReason fill
      let (t', op') := env.realise t op fill v.timestamp size final
      let op' := if fill.reason = .takeProfit then { op' with nextLeg := op'.nextLeg + 1 }
        else op'
      if final then (t', op', some reason) else exitLoop v bar n t' op'

def seeBar (v : BarSlice) (bar : Bar) (op : ManagedPosition) : ManagedPosition :=
  let op := { op with position := op.position.updateExcursion bar.high bar.low }.updateExtreme bar
  if op.entryBarIndex < v.index then
    { op with position := { op.position with barsHeld := op.position.barsHeld + 1 } }
  else op

def exitBar (v : BarSlice) (bar : Bar) (t : Turn) (op : ManagedPosition) :
    Turn × ManagedPosition × Option ExitReason :=
  let (t, op, closed) := env.exitLoop v bar (op.legs.length + 1) t (seeBar v bar op)
  if closed = none ∧ env.timeStopHit op then
    let fill := env.sim.marketExit op.instrument op.position.direction op.position.size bar
      v.index .timeStop bar.close op.seq (v.spacing op.position.instrument)
    let (t, op) := env.closeAtMarket t op fill v.timestamp
    (t, op, some .timeStop)
  else (t, op, closed)

def armCooldown (v : BarSlice) (symbol : String) (b : PositionBook) : PositionBook :=
  if env.policy.cooldownBarsAfterExit = 0 then b
  else { b with
    cooldownUntil := b.cooldownUntil.set symbol (v.index + env.policy.cooldownBarsAfterExit) }

def resolvePosition (v : BarSlice) (t : Turn) (op : ManagedPosition) :
    Turn × Option ManagedPosition :=
  match v.bars op.position.instrument with
  | none => (t, some op)
  | some bar =>
    match env.exitBar v bar t op with
    | (t', op', some reason) =>
      let t'' := env.settle t' op' v.timestamp reason
      ({ t'' with book := env.armCooldown v op.position.instrument t''.book }, none)
    | (t', op', none) => (t', some (env.updateProtectiveStop v op'))

/-- The loop of `_resolve_exits`, and the survivors. -/
def resolveEach (v : BarSlice) : Turn → List ManagedPosition → Turn × List ManagedPosition
  | t, [] => (t, [])
  | t, op :: rest =>
    let (t', survivor) := env.resolvePosition v t op
    let (t'', survivors) := resolveEach v t' rest
    (t'', survivor.toList ++ survivors)

def resolveExits (v : BarSlice) (t : Turn) : Turn :=
  let (t', survivors) := env.resolveEach v t t.book.open_
  { t' with book := { t'.book with open_ := survivors } }

/-- `advance`: financing, reversals, entries and exits, in that order.  A mark that
is missing raises and leaves what was charged before it. -/
def advance (v : BarSlice) (b : PositionBook) : Except String AdvanceResult × PositionBook :=
  match env.chargeFinancing v b with
  | (.error e, b') => (.error e, b')
  | (.ok (), b') =>
    let t := env.resolveExits v (env.fillEntries v (env.runPendingCloses v ⟨b', .empty⟩))
    (.ok { t.result with realisedDelta := t.book.realised - b.realised }, t.book)

/-- The loop of `flatten` over its targets. -/
def flattenEach (v : BarSlice) (reason : ExitReason) : Turn → List ManagedPosition → Turn
  | t, [] => t
  | t, op :: rest =>
    match v.barOrLast op.position.instrument with
    | none => flattenEach v reason t rest
    | some bar =>
      let fill := env.sim.marketExit op.instrument op.position.direction op.position.size bar
        v.index reason bar.close op.seq (v.spacing op.position.instrument)
      let (t', op') := env.closeAtMarket t op fill v.timestamp
      let t'' := env.settle t' op' v.timestamp reason
      flattenEach v reason
        { t'' with book := { t''.book with
          open_ := t''.book.open_.filter fun p => p.seq ≠ op.seq } } rest

/-- Close positions at market now: those of the open ones that `which` picks. -/
def flatten (v : BarSlice) (reason : ExitReason) (which : ManagedPosition → Bool)
    (b : PositionBook) : AdvanceResult × PositionBook :=
  let t := env.flattenEach v reason ⟨b, .empty⟩ (b.open_.filter which)
  ({ t.result with realisedDelta := t.book.realised - b.realised }, t.book)

/-- `mark_to_market`: unrealised profit and gross exposure.  A missing mark raises. -/
def markToMarket (v : BarSlice) : List ManagedPosition → Option (ℚ × ℚ)
  | [] => some (0, 0)
  | op :: rest =>
    match v.mark op.position.instrument, markToMarket v rest with
    | some mark, some (unrealised, exposure) =>
      let rate := env.rate op.instrument.quote v.timestamp
      let quote := (mark - op.position.entryPrice) * op.position.direction.sign *
        op.position.size * op.instrument.contractSize
      some (unrealised + quote * rate - op.financingAccount,
        exposure + |mark * op.position.size * op.instrument.contractSize * rate|)
    | _, _ => none

end BookSetup

/-- The row a bar adds to an equity curve, of a run of the engine and of the paper venue alike. -/
structure EquityRow where
  timestamp : Timestamp
  balance : ℚ
  equity : ℚ
  unrealised : ℚ
  exposure : ℚ
  openPositions : ℕ

end Fiboki
