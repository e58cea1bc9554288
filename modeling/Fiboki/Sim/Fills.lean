import Fiboki.Core.Instruments

/-!
Execution profiles: spread, slippage, commission and financing as data.

A model is what the fill simulator asks of it.  A generator is the sequence of
draws that its key fixes, and how many of them were taken.

The fill model: how an intention becomes a price, and what it costs.  Bars are
mid prices, every leg is charged, and a bar that touches both levels is resolved
by policy.
-/

namespace Fiboki

/-- A numpy generator: the draws its key fixes, by the number taken before. -/
structure Generator where
  random : ℕ → ℚ
  integers : ℕ → (low high : ℤ) → ℤ
  taken : ℕ

/-- `rng_for`: one generator for each seed, bar and sequence. -/
abbrev Entropy := (seed barIndex sequence : ℤ) → Generator

inductive SpreadModel where
  | fixedPip (pips : ℚ)
  | typicalMultiplier (multiplier floorPips : ℚ)
  | bpsOfMid (multiplier floorBps : ℚ)
  | timeOfDayWidening (base : SpreadModel) (windows : List (ℕ × ℕ × ℚ))

def insideWindow (start stop hour : ℕ) : Bool :=
  if start < stop then start ≤ hour && hour < stop else start ≤ hour || hour < stop

/-- In price units.  Pricing an instrument without basis points by `bpsOfMid`, and
a negative spread, raise in the source. -/
def SpreadModel.spreadPrice : SpreadModel → Instrument → (hourUtc : ℕ) → (mid : ℚ) → ℚ
  | fixedPip pips, i, _, _ => pips * i.pipSize
  | typicalMultiplier multiplier floorPips, i, _, _ =>
    max (i.typicalSpreadPips * multiplier) floorPips * i.pipSize
  | bpsOfMid multiplier floorBps, i, _, mid =>
    max (i.typicalSpreadBps.getD 0 * multiplier) floorBps * (1 / 10 ^ 4) * mid
  | timeOfDayWidening base windows, i, hour, mid =>
    match windows.find? (fun w => insideWindow w.1 w.2.1 hour) with
    | some w => base.spreadPrice i hour mid * w.2.2
    | none => base.spreadPrice i hour mid

inductive SlippageModel where
  | noSlippage
  | fixedPoints (pips : ℚ)
  | probabilisticAdverseTick (probability tickPips : ℚ) (maxTicks : ℤ)
  | bps (amount : ℚ)

def SlippageModel.slippagePrice : SlippageModel → Instrument → (mid : ℚ) → Generator → ℚ
  | noSlippage, _, _, _ => 0
  | fixedPoints pips, i, _, _ => pips * i.pipSize
  | probabilisticAdverseTick probability tickPips maxTicks, i, _, g =>
    if probability ≤ g.random g.taken then 0
    else g.integers (g.taken + 1) 1 (maxTicks + 1) * tickPips * i.pipSize
  | bps amount, _, mid, _ => amount * (1 / 10 ^ 4) * mid

/-- Per-leg commission.  `currency` is `"quote"` or a code. -/
structure CommissionModel where
  perTrade : ℚ
  perUnit : ℚ
  bpsOfNotional : ℚ
  minimum : ℚ
  currency : String

namespace CommissionModel

def commission (m : CommissionModel) (i : Instrument) (size price : ℚ) : ℚ :=
  if size ≤ 0 then 0
  else
    let notional := |price| * size * i.contractSize
    max (m.perTrade + m.perUnit * size + m.bpsOfNotional * (1 / 10 ^ 4) * notional) m.minimum

def currencyFor (m : CommissionModel) (i : Instrument) : String :=
  if m.currency = "quote" then i.quote else m.currency.toUpper

end CommissionModel

structure FinancingModel where
  annualBpsLong : ℚ
  annualBpsShort : ℚ
  basisDays : ℚ
  currency : String

namespace FinancingModel

def nightlyCharge (m : FinancingModel) (i : Instrument) (direction : Direction) (size price : ℚ) :
    ℚ :=
  if size ≤ 0 then 0
  else
    let notional := |price| * size * i.contractSize
    let bps := match direction with | .long => m.annualBpsLong | .short => m.annualBpsShort
    notional * (bps * (1 / 10 ^ 4)) / m.basisDays

def currencyFor (m : FinancingModel) (i : Instrument) : String :=
  if m.currency = "quote" then i.quote else m.currency.toUpper

end FinancingModel

inductive MinStopPolicy where
  | reject
  | widen
  | allow
  deriving DecidableEq

structure MinStopRule where
  floorPips : ℚ
  typicalSpreadMultiple : ℚ

def MinStopRule.distancePips (r : MinStopRule) (i : Instrument) : ℚ :=
  max r.floorPips (r.typicalSpreadMultiple * i.typicalSpreadPips)

/-- A complete statement of execution friction.  `minStop` is the rule of each
asset class, or the flat distance of a profile that has none. -/
structure ExecutionProfile where
  spread : SpreadModel
  slippage : SlippageModel
  commission : CommissionModel
  financing : FinancingModel
  minDealSize : ℚ
  minStopDistancePips : ℚ
  minStopByAssetClass : Option (AssetClass → MinStopRule)
  minStopPolicy : MinStopPolicy
  guaranteedStopPremiumPips : ℚ
  useGuaranteedStops : Bool
  partialFillProbability : ℚ
  partialFillMinFraction : ℚ
  rejectionProbability : ℚ
  latencyBars : ℕ
  stalePriceMaxGapMultiple : ℚ
  seed : ℤ
  entropy : Entropy

namespace ExecutionProfile

def halfSpreadPrice (p : ExecutionProfile) (i : Instrument) (hour : ℕ) (mid : ℚ) : ℚ :=
  p.spread.spreadPrice i hour mid / 2

def minStopDistancePrice (p : ExecutionProfile) (i : Instrument) : ℚ :=
  match p.minStopByAssetClass with
  | some rules => (rules i.assetClass).distancePips i * i.pipSize
  | none => p.minStopDistancePips * i.pipSize

def guaranteedStopPremiumPrice (p : ExecutionProfile) (i : Instrument) : ℚ :=
  p.guaranteedStopPremiumPips * i.pipSize

end ExecutionProfile

open Text

structure Bar where
  timestamp : Timestamp
  open_ : ℚ
  high : ℚ
  low : ℚ
  close : ℚ
  coherent : low ≤ open_ ∧ open_ ≤ high ∧ low ≤ close ∧ close ≤ high

def Bar.hourUtc (b : Bar) : ℕ := b.timestamp.hour

inductive IntrabarPolicy where
  | stopFirst
  | targetFirst
  | proportional

inductive RejectReason where
  | marketClosed
  | stalePrice
  | minStopDistance
  | minDealSize
  | brokerReject
  | sizeNotPositive
  deriving DecidableEq

def RejectReason.value : RejectReason → String
  | marketClosed => "market_closed"
  | stalePrice => "stale_price"
  | minStopDistance => "min_stop_distance"
  | minDealSize => "min_deal_size"
  | brokerReject => "broker_reject"
  | sizeNotPositive => "size_not_positive"

structure LegCosts where
  spreadQuote : ℚ
  slippageQuote : ℚ
  guaranteedStopPremiumQuote : ℚ
  commissionAmount : ℚ
  commissionCcy : String
  deriving DecidableEq

structure EntryFill where
  filledSize : ℚ
  filledPrice : ℚ
  midPrice : ℚ
  effectiveStop : ℚ
  halfSpread : ℚ
  slippage : ℚ
  isPartial : Bool
  stale : Bool
  costs : LegCosts
  deriving DecidableEq

structure ExitFill where
  reason : ExitReason
  exitPrice : ℚ
  midPrice : ℚ
  halfSpread : ℚ
  slippage : ℚ
  gapped : Bool
  bothTouched : Bool
  stale : Bool
  costs : LegCosts

abbrev SessionCalendar := Instrument → Timestamp → Bool

def alwaysOpenCalendar : SessionCalendar := fun _ _ => true

def worseExit (d : Direction) (a b : ℚ) : ℚ :=
  match d with
  | .long => min a b
  | .short => max a b

/-- Did the bar open already beyond `level`? -/
def through (d : Direction) (openPrice level : ℚ) (isStop : Bool) : Bool :=
  match d, isStop with
  | .long, true => openPrice ≤ level
  | .long, false => level ≤ openPrice
  | .short, true => level ≤ openPrice
  | .short, false => openPrice ≤ level

/-- Did the bar's range reach `level`? -/
def touched (d : Direction) (bar : Bar) (level : ℚ) (isStop : Bool) : Bool :=
  match d, isStop with
  | .long, true => bar.low ≤ level
  | .long, false => level ≤ bar.high
  | .short, true => level ≤ bar.high
  | .short, false => bar.low ≤ level

def roundDownToStep (size step : ℚ) : ℚ :=
  if step ≤ 0 then size else roundTo (pyInt (size / step + 1 / 10 ^ 9) * step) 10

/-- Stateless apart from its configuration: every draw is keyed. -/
structure FillSimulator where
  profile : ExecutionProfile
  intrabarPolicy : IntrabarPolicy
  calendar : SessionCalendar
  rejectOnStale : Bool
  staleSpreadMultiple : ℚ

/-- What is known of the previous bar of an instrument and of its spacing. -/
structure Spacing where
  previousTime : Option Timestamp
  interval : Option Timedelta

namespace FillSimulator

variable (sim : FillSimulator)

/-- The gap since the previous bar exceeds the profile's multiple of the interval.
An interval that is not positive raises in the source. -/
def isStale (spacing : Spacing) (current : Timestamp) : Bool :=
  match spacing.interval, spacing.previousTime with
  | some interval, some previous =>
    (interval : ℚ) * sim.profile.stalePriceMaxGapMultiple < ((current - previous : ℤ) : ℚ)
  | _, _ => false

/-- `enforce_min_stop`: the effective stop, or the reason of the refusal. -/
def enforceMinStop (i : Instrument) (d : Direction) (price stop : ℚ) : Except RejectReason ℚ :=
  let minDist := sim.profile.minStopDistancePrice i
  if minDist ≤ 0 ∨ sim.profile.minStopPolicy = .allow then .ok stop
  else if minDist ≤ |price - stop| then .ok stop
  else if sim.profile.minStopPolicy = .reject then .error .minStopDistance
  else .ok (match d with | .long => price - minDist | .short => price + minDist)

def dealtHalfSpread (i : Instrument) (bar : Bar) (mid : ℚ) (stale : Bool) : ℚ :=
  let half := sim.profile.halfSpreadPrice i bar.hourUtc mid
  if stale then half * sim.staleSpreadMultiple else half

/-- `simulate_entry`: open at the bar's open. -/
def simulateEntry (i : Instrument) (d : Direction) (size : ℚ) (bar : Bar) (barIndex : ℤ) (stop : ℚ)
    (sequence : ℤ) (spacing : Spacing) : Except RejectReason EntryFill :=
  if size ≤ 0 then .error .sizeNotPositive
  else if sim.calendar i bar.timestamp = false then .error .marketClosed
  else
    let stale := sim.isStale spacing bar.timestamp
    if stale ∧ sim.rejectOnStale then .error .stalePrice
    else
      let mid := bar.open_
      let rng := sim.profile.entropy sim.profile.seed barIndex sequence
      let rejectDraw := rng.random 0
      let partialDraw := rng.random 1
      let partialFractionDraw := rng.random 2
      if rejectDraw < sim.profile.rejectionProbability then .error .brokerReject
      else
        match sim.enforceMinStop i d mid stop with
        | .error reason => .error reason
        | .ok effectiveStop =>
          let drawn := partialDraw < sim.profile.partialFillProbability
          let lo := sim.profile.partialFillMinFraction
          let filledSize := if drawn then
              roundDownToStep (size * (lo + (1 - lo) * partialFractionDraw)) i.sizeStep
            else size
          if filledSize < sim.profile.minDealSize ∨ filledSize ≤ 0 then .error .minDealSize
          else
            let half := sim.dealtHalfSpread i bar mid stale
            let slip := sim.profile.slippage.slippagePrice i mid { rng with taken := 3 }
            let price := mid + d.sign * (half + slip)
            .ok
              { filledSize := filledSize
                filledPrice := price
                midPrice := mid
                effectiveStop := effectiveStop
                halfSpread := half
                slippage := slip
                isPartial := drawn && filledSize < size
                stale := stale
                costs :=
                  { spreadQuote := half * filledSize * i.contractSize
                    slippageQuote := slip * filledSize * i.contractSize
                    guaranteedStopPremiumQuote := 0
                    commissionAmount := sim.profile.commission.commission i filledSize price
                    commissionCcy := sim.profile.commission.currencyFor i } }

/-- `_price_exit`: the dealt price and the costs of an exit at `mid`. -/
def priceExit (i : Instrument) (d : Direction) (size : ℚ) (bar : Bar) (barIndex sequence : ℤ)
    (mid : ℚ) (reason : ExitReason) (gapped bothTouched slips : Bool) (requestedLevel : Option ℚ)
    (stale : Bool) : ExitFill :=
  -- a guaranteed stop fills at its level, never slips, and charges its premium here
  let guaranteed :=
    if reason = .stopLoss ∧ sim.profile.useGuaranteedStops then requestedLevel else none
  let mid := guaranteed.getD mid
  let slips := slips && guaranteed.isNone
  let premium := if guaranteed.isSome then
      sim.profile.guaranteedStopPremiumPrice i * size * i.contractSize
    else 0
  let half := sim.dealtHalfSpread i bar mid stale
  let slip := if slips then
      sim.profile.slippage.slippagePrice i mid
        (sim.profile.entropy sim.profile.seed barIndex (200000 + sequence))
    else 0
  let price := mid - d.sign * (half + slip)
  { reason := reason
    exitPrice := price
    midPrice := mid
    halfSpread := half
    slippage := slip
    gapped := gapped && guaranteed.isNone
    bothTouched := bothTouched
    stale := stale
    costs :=
      { spreadQuote := half * size * i.contractSize
        slippageQuote := slip * size * i.contractSize
        guaranteedStopPremiumQuote := premium
        commissionAmount := sim.profile.commission.commission i size price
        commissionCcy := sim.profile.commission.currencyFor i } }

/-- `_resolve_ambiguity`: did the stop fill first? -/
def resolveAmbiguity (bar : Bar) (stop target : ℚ) (barIndex sequence : ℤ) : Bool :=
  match sim.intrabarPolicy with
  | .stopFirst => true
  | .targetFirst => false
  | .proportional =>
    let dStop := |bar.open_ - stop|
    let dTarget := |bar.open_ - target|
    let total := dStop + dTarget
    if total ≤ 0 then true
    else (sim.profile.entropy sim.profile.seed barIndex (100000 + sequence)).random 0 <
      dTarget / total

/-- `resolve_exit`: does this bar close the position, and at what price?  The open
comes before the range. -/
def resolveExit (i : Instrument) (d : Direction) (size : ℚ) (bar : Bar) (barIndex : ℤ)
    (stop : ℚ) (takeProfit : Option ℚ) (sequence : ℤ) (spacing : Spacing) : Option ExitFill :=
  let stale := sim.isStale spacing bar.timestamp
  let exit := fun (mid : ℚ) (reason : ExitReason) (gapped bothTouched slips : Bool)
      (level : Option ℚ) =>
    some (sim.priceExit i d size bar barIndex sequence mid reason gapped bothTouched
      slips level stale)
  if through d bar.open_ stop true then
    exit (worseExit d stop bar.open_) .stopLoss true false true (some stop)
  else
    let stopTouched := touched d bar stop true
    let stopped := exit stop .stopLoss false
    match takeProfit with
    | none => if stopTouched then stopped false true (some stop) else none
    | some target =>
      if through d bar.open_ target false then
        exit (worseExit d target bar.open_) .takeProfit true false false none
      else if stopTouched then
        if touched d bar target false then
          if sim.resolveAmbiguity bar stop target barIndex sequence then
            stopped true true (some stop)
          else exit target .takeProfit false true false none
        else stopped false true (some stop)
      else if touched d bar target false then exit target .takeProfit false false false none
      else none

/-- `market_exit`: close at a chosen mid price, with costs. -/
def marketExit (i : Instrument) (d : Direction) (size : ℚ) (bar : Bar) (barIndex : ℤ)
    (reason : ExitReason) (price : ℚ) (sequence : ℤ) (spacing : Spacing) : ExitFill :=
  sim.priceExit i d size bar barIndex sequence price reason false false true none
    (sim.isStale spacing bar.timestamp)

end FillSimulator

end Fiboki
