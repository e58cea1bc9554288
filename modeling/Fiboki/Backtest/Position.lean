import Fiboki.Backtest.Locks
import Fiboki.Core.Contracts
import Fiboki.Sim.Fills

/-!
The exit policy: how an open position is managed after it is open.

The position lifecycle, owned in one place: entries, exits, costs and the ledger
rows they leave.
-/

namespace Fiboki

open Text

inductive TrailKind where
  | none
  | atrChandelier
  | fixedDistance
  | percent
  | indicatorLine
  | breakevenAfterR
  deriving DecidableEq

/-- What `TrailSpec.__post_init__` asks of each kind. -/
def TrailKind.Allows (kind : TrailKind) (value : ℚ) (atrColumn levelColumn : Option String) :
    Prop :=
  match kind with
  | .atrChandelier => truthy atrColumn ∧ 0 < value
  | .indicatorLine => truthy levelColumn = true
  | .fixedDistance | .percent => 0 < value
  | .none | .breakevenAfterR => True

/-- One trailing rule.  `activateAfterR` is in multiples of the initial risk. -/
structure TrailSpec where
  kind : TrailKind
  value : ℚ
  activateAfterR : ℚ
  atrColumn : Option String
  levelColumn : Option String
  value_nonneg : 0 ≤ value
  activate_nonneg : 0 ≤ activateAfterR
  allows : kind.Allows value atrColumn levelColumn

namespace TrailSpec

def active (t : TrailSpec) : Bool := t.kind ≠ .none

/-- The level this rule proposes on a closed bar.  A value that is not finite is `none`. -/
def candidate (t : TrailSpec) (sign : ℚ) (extreme atr level : Option ℚ) : Option ℚ :=
  match t.kind with
  | .atrChandelier =>
    match atr with
    | none => none
    | some atr => if atr ≤ 0 then none else extreme.map fun e => e - sign * t.value * atr
  | .fixedDistance => extreme.map fun e => e - sign * t.value
  | .percent => extreme.map fun e => e * (1 - sign * t.value / 100)
  | .indicatorLine => level
  | .none | .breakevenAfterR => none

def noTrail : TrailSpec := ⟨.none, 0, 0, none, none, le_rfl, le_rfl, trivial⟩

end TrailSpec

/-- What an open position does when the strategy signals the other way. -/
inductive ReversalMode where
  | ignore
  | closeOnly
  | reverse
  deriving DecidableEq

/-- `in_blackout`: instrument, instant, minutes before and after, minimum impact. -/
abbrev BlackoutSource := String → Timestamp → ℕ → ℕ → String → Bool

structure EventBlackout where
  minutesBefore : ℕ
  minutesAfter : ℕ
  avoidMonthEnd : Bool
  avoidRolloverHour : Bool
  minImpact : String

namespace EventBlackout

def queriesCalendar (e : EventBlackout) : Bool := 0 < e.minutesBefore || 0 < e.minutesAfter

/-- The reason this bar is closed to new entries, or `none`. -/
def blocks (e : EventBlackout) (instrument : String) (ts : Timestamp) (rolloverHour : ℕ)
    (calendar : Option BlackoutSource) : Option String :=
  if e.avoidRolloverHour && ts.hour == rolloverHour then some "rollover_hour"
  else if e.avoidMonthEnd && ts.isMonthEnd then some "month_end"
  else
    match calendar with
    | some inBlackout =>
      if e.queriesCalendar &&
          inBlackout instrument ts e.minutesBefore e.minutesAfter e.minImpact then
        some "event_blackout"
      else none
    | none => none

end EventBlackout

/-- Everything the engine needs to manage a position after it is open. -/
structure ExitPolicy where
  allocations : List ℚ
  trailing : TrailSpec
  breakevenAtR : Option ℚ
  maxBarsInTrade : Option ℕ
  cooldownBarsAfterExit : ℕ
  reversal : ReversalMode
  events : Option EventBlackout
  locks : Option LockPolicy
  allocations_each : ∀ a ∈ allocations, 0 < a ∧ a ≤ 1
  allocations_total : allocations.sum ≤ 1 + 1 / 10 ^ 9
  breakeven_nonneg : ∀ r ∈ breakevenAtR, 0 ≤ r
  maxBars_pos : ∀ n ∈ maxBarsInTrade, 1 ≤ n

def defaultExitPolicy : ExitPolicy where
  allocations := []
  trailing := .noTrail
  breakevenAtR := none
  maxBarsInTrade := none
  cooldownBarsAfterExit := 0
  reversal := .ignore
  events := none
  locks := none
  allocations_each := by simp
  allocations_total := by norm_num
  breakeven_nonneg := by simp
  maxBars_pos := by simp

/-- One planned scale-out: a price and the size it is meant to close. -/
structure TakeProfitLeg where
  price : ℚ
  size : ℚ

/-- The loop of `plan_legs` over the targets that are left. -/
def planRest (i : Instrument) (filledSize : ℚ) (closesEverything : Bool) :
    List (ℚ × ℚ) → (allocated : ℚ) → List TakeProfitLeg
  | [], _ => []
  | (price, allocation) :: rest, allocated =>
    let wanted := if rest.isEmpty && closesEverything then filledSize - allocated
      else roundSize i (snapToStep (filledSize * allocation) i.sizeStep)
    let size := min wanted (filledSize - allocated)
    if size ≤ 0 then planRest i filledSize closesEverything rest allocated
    else ⟨price, size⟩ :: (if filledSize - 1 / 10 ^ 12 ≤ allocated + size then []
        else planRest i filledSize closesEverything rest (allocated + size))

def planLegs (i : Instrument) (filledSize : ℚ) (prices allocations : List ℚ) : List TakeProfitLeg :=
  match prices with
  | [] => []
  | price :: _ =>
    if allocations = [] then [⟨price, filledSize⟩]
    else planRest i filledSize (1 - 1 / 10 ^ 9 ≤ allocations.sum) (prices.zip allocations) 0

structure CostBreakdown where
  spread : ℚ
  commission : ℚ
  slippage : ℚ
  financing : ℚ
  guaranteedStopPremium : ℚ
  entryLegSpread : ℚ
  exitLegSpread : ℚ

def CostBreakdown.zero : CostBreakdown := ⟨0, 0, 0, 0, 0, 0, 0⟩

/-- `_costs_to_account`: the costs of one leg in the account currency. -/
structure AccountCosts where
  spread : ℚ
  slippage : ℚ
  premium : ℚ
  commission : ℚ

structure ExitLeg where
  positionSeq : ℕ
  instrument : String
  direction : String
  ordinal : ℕ
  size : ℚ
  exitPrice : ℚ
  exitTime : Timestamp
  exitReason : String
  grossPnl : ℚ
  spreadCost : ℚ
  commission : ℚ
  slippageCost : ℚ
  financingCost : ℚ
  netPnl : ℚ
  final : Bool

structure Trade where
  instrument : String
  direction : Direction
  size : ℚ
  entryPrice : ℚ
  exitPrice : ℚ
  entryTime : Timestamp
  exitTime : Timestamp
  exitReason : ExitReason
  grossPnl : ℚ
  spreadCost : ℚ
  commission : ℚ
  slippageCost : ℚ
  financingCost : ℚ
  netPnl : ℚ
  accountCcy : String
  strategyId : String
  barsHeld : ℕ
  maxAdverseExcursion : ℚ
  maxFavourableExcursion : ℚ
  provenance : Provenance
  fxRateUsed : ℚ
  initialStop : ℚ
  finalStop : ℚ
  takeProfitTargets : List ℚ
  stopMovedBy : String

/-- One open position and every piece of state its exit rules need.  `extreme` is
`none` until the first bar. -/
structure ManagedPosition where
  seq : ℕ
  position : Position
  instrument : Instrument
  entryMid : ℚ
  entryBarIndex : ℤ
  takeProfit : Option ℚ
  entryCostsAccount : AccountCosts
  financingAccount : ℚ
  lastFinancingTime : Option Timestamp
  entryFx : ℚ
  entrySize : ℚ
  legs : List TakeProfitLeg
  nextLeg : ℕ
  riskPerUnit : ℚ
  initialStop : ℚ
  extreme : Option ℚ
  breakevenDone : Bool
  stopTrailed : Bool
  stopMovedBy : String
  reversalPending : Bool
  realisedGross : ℚ
  realisedSpread : ℚ
  realisedCommission : ℚ
  realisedSlippage : ℚ
  realisedFinancing : ℚ
  realisedNet : ℚ
  exitValue : ℚ
  nLegsClosed : ℕ
  singleLegExitMid : ℚ
  ref : Option String

namespace ManagedPosition

def updateExtreme (op : ManagedPosition) (bar : Bar) : ManagedPosition :=
  { op with extreme := some <|
      match op.extreme, op.position.direction with
      | none, .long => bar.high
      | none, .short => bar.low
      | some e, .long => max e bar.high
      | some e, .short => min e bar.low }

def activeTarget (op : ManagedPosition) : Option ℚ := op.legs[op.nextLeg]?.map TakeProfitLeg.price

def rMultiple (op : ManagedPosition) : ℚ :=
  if op.riskPerUnit ≤ 0 then 0 else op.position.maxFavourableExcursion / op.riskPerUnit

def opposes (instrument : String) (direction : Direction) (op : ManagedPosition) : Bool :=
  op.position.instrument = instrument && op.position.direction ≠ direction && !op.reversalPending

def sizeForExit (op : ManagedPosition) (fill : ExitFill) : ℚ × Bool :=
  let remaining := op.position.size
  match op.legs[op.nextLeg]? with
  | none => (remaining, true)
  | some leg =>
    if fill.reason ≠ .takeProfit then (remaining, true)
    else
      let size := min leg.size remaining
      let residue := remaining - size
      if 0 < residue ∧ residue < op.instrument.minSize - 1 / 10 ^ 12 then (remaining, true)
      else if size ≤ 0 then (remaining, true)
      else (size, residue ≤ 1 / 10 ^ 12)

def exitReason (op : ManagedPosition) (fill : ExitFill) : ExitReason :=
  if fill.reason = .stopLoss ∧ op.stopTrailed then
    if op.stopMovedBy = "breakeven" then .breakeven else .trailingStop
  else fill.reason

end ManagedPosition

/-- An order awaiting the next actionable bar's open.  Its allocations are the
order's own, which are aligned with its targets. -/
structure PendingEntry where
  seq : ℕ
  instrument : Instrument
  direction : Direction
  size : ℚ
  stopPrice : ℚ
  takeProfitPrices : List ℚ
  takeProfitAllocations : List ℚ
  strategyId : String
  actionableIndex : ℤ
  createdIndex : ℤ
  ref : Option String
  allocations_aligned : takeProfitAllocations ≠ [] →
    takeProfitAllocations.length = takeProfitPrices.length
  deriving DecidableEq

structure PendingClose where
  seq : ℕ
  positionSeq : ℕ
  instrument : String
  actionableIndex : ℤ

/-- Everything the book is allowed to know about one timeline step. -/
structure BarSlice where
  index : ℤ
  timestamp : Timestamp
  bars : String → Option Bar
  previousTimestamp : Option Timestamp
  previousTimes : String → Option Timestamp
  intervals : String → Option Timedelta
  lastCloses : String → Option ℚ
  carriedBars : String → Option Bar
  series : String → String → Option ℚ

namespace BarSlice

def barOrLast (v : BarSlice) (symbol : String) : Option Bar :=
    v.bars symbol <|> v.carriedBars symbol

def mark (v : BarSlice) (symbol : String) : Option ℚ :=
  match v.bars symbol with
  | some bar => some bar.close
  | none => v.lastCloses symbol

def spacing (v : BarSlice) (symbol : String) : Spacing :=
  ⟨v.previousTimes symbol, v.intervals symbol⟩

def value (v : BarSlice) (symbol : String) (column : Option String) : Option ℚ :=
  match column with
  | some c => if c = "" then none else v.series symbol c
  | none => none

end BarSlice

/-- A pending order that reached a decision.  `managed` names the position it
opened by its sequence number. -/
structure EntryEvent where
  pending : PendingEntry
  filled : Bool
  reason : String
  fill : Option EntryFill
  managed : Option ℕ

/-- What one `advance` did.  Each fill is the one behind the leg at its place. -/
structure AdvanceResult where
  entries : List EntryEvent
  legs : List ExitLeg
  fills : List ExitFill
  trades : List Trade
  realisedDelta : ℚ

def AdvanceResult.empty : AdvanceResult := ⟨[], [], [], [], 0⟩

/-- The first rollover after `last`. -/
def rolloverAnchor (last : Timestamp) (rolloverHour : ℕ) : Timestamp :=
  let anchor := last.normalize + rolloverHour * hourNs
  if anchor ≤ last then anchor + dayNs else anchor

/-- Rollover crossings in the half-open interval from `last` to `now`. -/
def nightsBetween (last now : Timestamp) (rolloverHour : ℕ) : ℕ :=
  if now ≤ last then 0
  else
    let anchor := rolloverAnchor last rolloverHour
    if now < anchor then 0 else ((now - anchor) / dayNs).toNat + 1

def tripleRolloverWeekday : AssetClass → Option ℕ
  | .fxMajor | .fxCross | .metal => some 2
  | .index | .energy | .equity => some 4
  | .crypto | .bond | .commodity => none

def financingNights (last now : Timestamp) (rolloverHour : ℕ) (assetClass : AssetClass) : ℕ :=
  let count := nightsBetween last now rolloverHour
  match tripleRolloverWeekday assetClass with
  | none => count
  | some triple =>
    let firstDow := (rolloverAnchor last rolloverHour).dayofweek
    ((List.range count).map fun k =>
      let dow := (firstDow + k) % 7
      if 5 ≤ dow then 0 else if dow = triple then 3 else 1).sum

structure BookConfig where
  accountCcy : String
  maxConcurrent : ℕ
  maxPerInstrument : ℕ
  chargeFinancing : Bool
  financingRolloverHourUtc : ℕ
  strategyId : String
  provenance : Provenance

/-- What a book is built with and never changes.  `positionId` is the identifier
drawn for the position of a sequence number.  `fx` answers every rate: what a book does
when its source raises for one is in `RatedSetup`. -/
structure BookSetup where
  sim : FillSimulator
  fx : (fromCcy toCcy : String) → Timestamp → ℚ
  config : BookConfig
  policy : ExitPolicy
  blackout : Option BlackoutSource
  latencyBars : ℕ
  financing : Option FinancingModel
  positionId : ℕ → String

structure PositionBook where
  balance : ℚ
  realised : ℚ
  costs : CostBreakdown
  trades : List Trade
  exitLegs : List ExitLeg
  rejections : Dict String ℕ
  seq : ℕ
  open_ : List ManagedPosition
  pending : List PendingEntry
  pendingCloses : List PendingClose
  cooldownUntil : Dict String ℤ

/-- A book in the middle of a call, and the result the call is filling in. -/
structure Turn where
  book : PositionBook
  result : AdvanceResult

namespace PositionBook

def fresh (initialBalance : ℚ) : PositionBook :=
  { balance := initialBalance, realised := 0, costs := .zero, trades := [], exitLegs := [],
    rejections := .empty, seq := 0, open_ := [], pending := [], pendingCloses := [],
    cooldownUntil := .empty }

/-- `next_seq`: the number is the new counter. -/
def nextSeq (b : PositionBook) : PositionBook := { b with seq := b.seq + 1 }

def queueEntry (b : PositionBook) (entry : PendingEntry) : PositionBook :=
  { b with pending := b.pending ++ [entry] }

def bump (b : PositionBook) (key : String) : PositionBook :=
  { b with rejections := b.rejections.set key ((b.rejections.get key).getD 0 + 1) }

/-- The loop of `schedule_reversal` over the open positions: the counter, the
positions marked, and the closes scheduled. -/
def scheduleLoop (instrument : String) (direction : Direction) (actionable : ℤ) :
    List ManagedPosition → (seq : ℕ) → ℕ × List ManagedPosition × List PendingClose
  | [], seq => (seq, [], [])
  | op :: rest, seq =>
    if op.opposes instrument direction then
      let close : PendingClose := ⟨seq + 1, op.seq, instrument, actionable⟩
      let (seq', ops, closes) := scheduleLoop instrument direction actionable rest (seq + 1)
      (seq', { op with reversalPending := true } :: ops, close :: closes)
    else
      let (seq', ops, closes) := scheduleLoop instrument direction actionable rest seq
      (seq', op :: ops, closes)

def scheduleReversal (env : BookSetup) (b : PositionBook) (instrument : String)
    (direction : Direction) (index : ℤ) : List PendingClose × PositionBook :=
  if env.policy.reversal = .ignore then ([], b)
  else
    let (seq, ops, closes) :=
      scheduleLoop instrument direction (index + 1 + env.latencyBars) b.open_ b.seq
    (closes, { b with seq := seq, open_ := ops, pendingCloses := b.pendingCloses ++ closes })

end PositionBook

namespace BookSetup

variable (env : BookSetup)

def rate (fromCcy : String) (when_ : Timestamp) : ℚ := env.fx fromCcy env.config.accountCcy when_

def costsToAccount (i : Instrument) (leg : LegCosts) (ts : Timestamp) : AccountCosts :=
  { spread := leg.spreadQuote * env.rate i.quote ts
    slippage := leg.slippageQuote * env.rate i.quote ts
    premium := leg.guaranteedStopPremiumQuote * env.rate i.quote ts
    commission := leg.commissionAmount * env.rate leg.commissionCcy ts }

def entryShare (op : ManagedPosition) (size : ℚ) (final : Bool) : ℚ :=
  if final then 1 else if 0 < op.position.size then size / op.position.size else 1

/-- `_close_fill`: realise one closing fill and fold it into the position's totals. -/
def closeFill (costs : CostBreakdown) (op : ManagedPosition) (fill : ExitFill) (ts : Timestamp)
    (size : ℚ) (final : Bool) : ExitLeg × ManagedPosition × CostBreakdown :=
  let i := op.instrument
  let exitCosts := env.costsToAccount i fill.costs ts
  let share := entryShare op size final
  let pool := op.entryCostsAccount
  let entrySpread := pool.spread * share
  let entryCommission := pool.commission * share
  let entrySlippage := pool.slippage * share
  let entryPremium := pool.premium * share
  let pool' : AccountCosts :=
    if final then ⟨0, 0, 0, 0⟩
    else
      { spread := pool.spread - entrySpread
        slippage := pool.slippage - entrySlippage
        premium := pool.premium - entryPremium
        commission := pool.commission - entryCommission }
  let financing := if final then op.financingAccount else op.financingAccount * share
  let gross := (fill.midPrice - op.entryMid) * op.position.direction.sign * size *
    i.contractSize * env.rate i.quote ts
  let spreadCost := entrySpread + exitCosts.spread
  let slippageCost := entrySlippage + exitCosts.slippage
  let commission := entryCommission + exitCosts.commission + (entryPremium + exitCosts.premium)
  let net := gross - spreadCost - commission - slippageCost - financing
  let costs' := { costs with
    spread := costs.spread + exitCosts.spread
    exitLegSpread := costs.exitLegSpread + exitCosts.spread
    commission := costs.commission + exitCosts.commission
    slippage := costs.slippage + exitCosts.slippage
    guaranteedStopPremium := costs.guaranteedStopPremium + exitCosts.premium
    financing := costs.financing + financing }
  let op' := { op with
    entryCostsAccount := pool'
    financingAccount := op.financingAccount - financing
    realisedGross := op.realisedGross + gross
    realisedSpread := op.realisedSpread + spreadCost
    realisedCommission := op.realisedCommission + commission
    realisedSlippage := op.realisedSlippage + slippageCost
    realisedFinancing := op.realisedFinancing + financing
    realisedNet := op.realisedNet + net
    exitValue := op.exitValue + fill.midPrice * size
    nLegsClosed := op.nLegsClosed + 1
    singleLegExitMid := fill.midPrice
    position := { op.position with size := if final then 0 else op.position.size - size } }
  let leg : ExitLeg :=
    { positionSeq := op.seq
      instrument := op.position.instrument
      direction := op.position.direction.value
      ordinal := op.nLegsClosed
      size := size
      exitPrice := fill.midPrice
      exitTime := ts
      exitReason := (op.exitReason fill).value
      grossPnl := gross
      spreadCost := spreadCost
      commission := commission
      slippageCost := slippageCost
      financingCost := financing
      netPnl := net
      final := final }
  (leg, op', costs')

/-- `_finalise`: the one ledger row for a position, from its closing fills. -/
def finalise (op : ManagedPosition) (ts : Timestamp) (reason : ExitReason) : Trade :=
  let fxRate := env.rate op.instrument.quote ts
  let unitToAccount := op.entrySize * op.instrument.contractSize * fxRate
  { instrument := op.position.instrument
    direction := op.position.direction
    size := op.entrySize
    entryPrice := op.entryMid
    exitPrice := if op.nLegsClosed = 1 then op.singleLegExitMid else op.exitValue / op.entrySize
    entryTime := op.position.entryTime
    exitTime := ts
    exitReason := reason
    grossPnl := op.realisedGross
    spreadCost := op.realisedSpread
    commission := op.realisedCommission
    slippageCost := op.realisedSlippage
    financingCost := op.realisedFinancing
    netPnl := op.realisedNet
    accountCcy := env.config.accountCcy
    strategyId :=
      if op.position.strategyId = "" then env.config.strategyId else op.position.strategyId
    barsHeld := op.position.barsHeld
    maxAdverseExcursion := op.position.maxAdverseExcursion * unitToAccount
    maxFavourableExcursion := op.position.maxFavourableExcursion * unitToAccount
    provenance := env.config.provenance
    fxRateUsed := fxRate
    initialStop := op.initialStop
    finalStop := op.position.stopLoss
    takeProfitTargets := op.legs.map TakeProfitLeg.price
    stopMovedBy := op.stopMovedBy }

def realise (t : Turn) (op : ManagedPosition) (fill : ExitFill) (ts : Timestamp) (size : ℚ)
    (final : Bool) : Turn × ManagedPosition :=
  let (leg, op', costs) := env.closeFill t.book.costs op fill ts size final
  ({ book := { t.book with
        costs := costs
        exitLegs := t.book.exitLegs ++ [leg]
        balance := t.book.balance + leg.netPnl
        realised := t.book.realised + leg.netPnl }
     result := { t.result with
        legs := t.result.legs ++ [leg]
        fills := t.result.fills ++ [fill] } }, op')

def settle (t : Turn) (op : ManagedPosition) (ts : Timestamp) (reason : ExitReason) : Turn :=
  let trade := env.finalise op ts reason
  { book := { t.book with trades := t.book.trades ++ [trade] }
    result := { t.result with trades := t.result.trades ++ [trade] } }

def closeAtMarket (t : Turn) (op : ManagedPosition) (fill : ExitFill) (ts : Timestamp) :
    Turn × ManagedPosition :=
  env.realise t op fill ts op.position.size true

def chargePosition (financing : FinancingModel) (v : BarSlice) (op : ManagedPosition) :
    Except String ManagedPosition :=
  let nights := financingNights (op.lastFinancingTime.getD op.position.entryTime) v.timestamp
    env.config.financingRolloverHourUtc op.instrument.assetClass
  if nights = 0 then .ok op
  else
    match v.mark op.position.instrument with
    | none => .error op.position.instrument
    | some mark =>
      let chargeQuote :=
        financing.nightlyCharge op.instrument op.position.direction op.position.size mark * nights
      let charge := chargeQuote * env.rate (financing.currencyFor op.instrument) v.timestamp
      .ok { op with
        financingAccount := op.financingAccount + charge
        position := { op.position with
          financingAccrued := op.position.financingAccrued + charge }
        lastFinancingTime := some v.timestamp }

def chargeEach (financing : FinancingModel) (v : BarSlice) :
    List ManagedPosition → Except String Unit × List ManagedPosition
  | [] => (.ok (), [])
  | op :: rest =>
    match env.chargePosition financing v op with
    | .error e => (.error e, op :: rest)
    | .ok op' =>
      let (outcome, rest') := chargeEach financing v rest
      (outcome, op' :: rest')

def chargeFinancing (v : BarSlice) (b : PositionBook) : Except String Unit × PositionBook :=
  match env.financing with
  | none => (.ok (), b)
  | some financing =>
    if env.config.chargeFinancing = false ∨ v.previousTimestamp = none then (.ok (), b)
    else
      let (outcome, ops) := env.chargeEach financing v b.open_
      (outcome, { b with open_ := ops })

end BookSetup

end Fiboki
