import Fiboki.Core.Instruments
import Fiboki.Lib.Digests
import Fiboki.Lib.Floating
import Fiboki.Lib.Json
import Fiboki.Risk.KillSwitch

/-!
Limit sets: named, validated and fingerprinted values.

The pre-order risk gateway: its inputs, its checks, and the decision it records.

Any input may be unknown, and any number may be infinite or not a number.
-/

namespace Fiboki

open Floating Json Wire

/-- A complete, named statement of what the book is allowed to do. -/
structure LimitSet where
  version : String
  maxPerTradeRiskPct : Number := .fin 1
  maxAccountRiskPct : Number := .fin 5
  maxInstrumentExposurePct : Number := .fin 1000
  maxStrategyExposurePct : Number := .fin 1500
  maxCurrencyExposurePct : Number := .fin 1500
  maxCorrelatedExposurePct : Number := .fin 2000
  correlationThreshold : Number := .fin (3 / 5)
  maxDailyLossPct : Number := .fin 3
  maxWeeklyLossPct : Number := .fin 6
  maxTotalDrawdownPct : Number := .fin 20
  maxMarginUtilisationPct : Number := .fin 50
  maxPriceAgeSeconds : Number := .fin 90
  maxDataAgeSeconds : Number := .fin 300
  maxSpreadMultiple : Number := .fin 3
  minBrokerHealth : Number := .fin (1 / 2)
  eventBlackoutMinutes : Number := .fin 15
  eventBlackoutPreMinutes : Option Number := none
  eventBlackoutPostMinutes : Option Number := none
  marginUtilisationAfterTrade : Option Bool := none
  versioned : version ≠ ""
  nonneg : ∀ x ∈ [maxPerTradeRiskPct, maxAccountRiskPct, maxInstrumentExposurePct,
    maxStrategyExposurePct, maxCurrencyExposurePct, maxCorrelatedExposurePct,
    correlationThreshold, maxDailyLossPct, maxWeeklyLossPct, maxTotalDrawdownPct,
    maxMarginUtilisationPct, maxPriceAgeSeconds, maxDataAgeSeconds, maxSpreadMultiple,
    minBrokerHealth, eventBlackoutMinutes] ++ eventBlackoutPreMinutes.toList ++
    eventBlackoutPostMinutes.toList, Number.lt x (.fin 0) = false
  threshold_unit : Number.le (.fin 0) correlationThreshold = true ∧
    Number.le correlationThreshold (.fin 1) = true
  health_unit : Number.le (.fin 0) minBrokerHealth = true ∧
    Number.le minBrokerHealth (.fin 1) = true
  trade_in_book : Number.lt maxAccountRiskPct maxPerTradeRiskPct = false
  daily_in_weekly : Number.lt maxWeeklyLossPct maxDailyLossPct = false
  weekly_in_total : Number.lt maxTotalDrawdownPct maxWeeklyLossPct = false
  blackout_pair : eventBlackoutPreMinutes.isNone = eventBlackoutPostMinutes.isNone

namespace LimitSet

def asymmetricBlackout (l : LimitSet) : Bool := l.eventBlackoutPreMinutes.isSome

def afterTrade (l : LimitSet) : Bool := l.marginUtilisationAfterTrade.getD false

def number : Number → Value
  | .nan => .nan
  | .inf negative => .inf negative
  | .fin q => .num q

def payload (l : LimitSet) : List (String × Value) :=
  [("max_per_trade_risk_pct", number l.maxPerTradeRiskPct),
    ("max_account_risk_pct", number l.maxAccountRiskPct),
    ("max_instrument_exposure_pct", number l.maxInstrumentExposurePct),
    ("max_strategy_exposure_pct", number l.maxStrategyExposurePct),
    ("max_currency_exposure_pct", number l.maxCurrencyExposurePct),
    ("max_correlated_exposure_pct", number l.maxCorrelatedExposurePct),
    ("correlation_threshold", number l.correlationThreshold),
    ("max_daily_loss_pct", number l.maxDailyLossPct),
    ("max_weekly_loss_pct", number l.maxWeeklyLossPct),
    ("max_total_drawdown_pct", number l.maxTotalDrawdownPct),
    ("max_margin_utilisation_pct", number l.maxMarginUtilisationPct),
    ("max_price_age_seconds", number l.maxPriceAgeSeconds),
    ("max_data_age_seconds", number l.maxDataAgeSeconds),
    ("max_spread_multiple", number l.maxSpreadMultiple),
    ("min_broker_health", number l.minBrokerHealth),
    ("event_blackout_minutes", number l.eventBlackoutMinutes)] ++
  (l.eventBlackoutPreMinutes.map fun x => ("event_blackout_pre_minutes", number x)).toList ++
  (l.eventBlackoutPostMinutes.map fun x => ("event_blackout_post_minutes", number x)).toList ++
  (l.marginUtilisationAfterTrade.map fun b =>
    ("margin_utilisation_after_trade", .bool b)).toList

def fingerprint (floats : FloatText) (l : LimitSet) : String :=
  let text := render floats (.dict (Dict.ofList l.payload).entries)
  String.ofList
    ((Sha256.hexdigest (text.flatMap String.utf8EncodeChar)).toList.take 16)

end LimitSet

def defaultLimits : LimitSet where
  version := "limits_v1_default"
  versioned := by decide
  nonneg := by decide +kernel
  threshold_unit := by decide +kernel
  health_unit := by decide +kernel
  trade_in_book := by decide
  daily_in_weekly := by decide
  weekly_in_total := by decide
  blackout_pair := rfl

namespace PreTrade

open Number

inductive Instant where
  | nat
  | naive (t : Timestamp)
  | utc (t : Timestamp)

structure ContractSpec extends Instrument where
  base : String
  venue : String

structure MarketView where
  midPrice : Option Number
  spreadPrice : Option Number
  quoteTime : Option Instant
  lastBarTime : Option Instant
  marketOpen : Option Bool
  regime : String
  eventTimes : List Instant
  halted : Bool

structure VenueView where
  connected : Option Bool
  score : Option Number
  message : String

structure StrategyView where
  lifecycle : Option StrategyLifecycle
  degraded : Bool

structure AccountState where
  equity : Number
  marginUsed : Number
  peakEquity : Number

structure PortfolioSnapshot where
  account : AccountState
  instrumentExposure : Dict String Number
  strategyExposure : Dict String Number
  currencyExposure : Dict String Number

structure Signal where
  signalId : String
  strategyId : String
  instrument : String
  timeframe : String
  direction : Direction
  barTime : Timestamp
  referencePrice : Number
  features : Dict String Number
  reference_pos : le referencePrice (fin 0) = false

structure TradePlan where
  planId : String
  signal : Signal
  size : Number
  riskAmount : Number
  maxLeverageApplied : Number
  portfolioWeight : Number
  size_pos : le size (fin 0) = false

structure VetoReason where
  annotationId : String
  eventType : String
  buckets : List String
  severity : ℤ

def VetoReason.code (v : VetoReason) : String :=
  v.eventType ++ ":" ++ String.intercalate "+" v.buckets ++ ":sev" ++ toString v.severity ++ ":" ++
    v.annotationId

structure VetoAssessment where
  enabled : Bool
  available : Bool
  veto : Option VetoReason
  detail : String

/-- What an exception inside a check says: a named block, a note of what a shadow check
would have done, or an error. -/
inductive Raised where
  | blocked (reason : String)
  | noted (reasons : List String)
  | error (kind message : String)

structure EventVetoProvider where
  policyVersion : String
  assess : String → Instant → Except (String × String) VetoAssessment

structure RiskContext where
  plan : TradePlan
  snapshot : PortfolioSnapshot
  now : Instant
  mode : ExecutionMode
  limits : Option LimitSet
  market : MarketView
  venue : VenueView
  strategy : StrategyView
  requestKind : RequestKind
  openRiskAmount : Option Number
  correlatedExposure : Option Number
  dailyPnl : Option Number
  weeklyPnl : Option Number
  fxQuoteToAccount : Option Number
  eventVeto : Option EventVetoProvider

def RiskContext.equity (ctx : RiskContext) : Number := ctx.snapshot.account.equity

inductive LockAnswer where
  | free
  | locked (code : String)
  | unavailable (message : String)
  | raised (kind message : String)

/-- `lock_for`: instrument, strategy, decision bar, whether the document declares locks,
and the timeframe. -/
abbrev LockSource := String → String → Timestamp → Bool → String → LockAnswer

structure Formats where
  floats : Json.FloatText
  fixed : ℕ → Number → String
  float : Number → String
  isoformat : Timestamp → String

structure Gateway where
  formats : Formats
  registry : String → Option ContractSpec
  durable : Bool
  switchState : Except (String × String) KillSwitchState
  locks : Option LockSource
  defaultLimits : LimitSet
  paperAllowsMissingInputs : Bool

def modeValue : ExecutionMode → String
  | .backtest => "backtest"
  | .paper => "paper"
  | .shadow => "shadow"
  | .demo => "demo"
  | .live => "live"

def touchesBroker : ExecutionMode → Bool
  | .shadow | .demo | .live => true
  | .backtest | .paper => false

def requestValue : RequestKind → String
  | .open_ => "open"
  | .increase => "increase"
  | .reduce => "reduce"
  | .close => "close"
  | .protectiveAmend => "protective_amend"

abbrev Check := Except Raised Unit

def block {α : Type} (reason : String) : Except Raised α := .error (.blocked reason)

def refuse (c : Bool) (reason : String) : Check := if c then block reason else .ok ()

def valueError {α : Type} (message : String) : Except Raised α :=
    .error (.error "ValueError" message)

def typeError {α : Type} (message : String) : Except Raised α := .error (.error "TypeError" message)

def pctOfEquity (amount equity : Number) : Except Raised Number :=
  if le equity (fin 0) then valueError "equity must be positive to express a percentage of it"
  else .ok (amount / equity * fin 100)

def secondsBetween (start stop : Timestamp) : Number := fin (((stop - start : ℤ) : ℚ) / 10 ^ 9)

def ageSeconds (start : Option Instant) (now : Instant) : Except Raised Number :=
  match start with
  | none => valueError "timestamp is unknown"
  | some .nat | some (.naive _) => valueError "timestamp must be timezone-aware UTC"
  | some (.utc t) =>
    match now with
    | .nat => .ok nan
    | .naive _ => typeError "Cannot subtract tz-naive and tz-aware datetime-like objects."
    | .utc n => .ok (secondsBetween t n)

inductive InputField where
  | openRiskAmount
  | fxQuoteToAccount
  | correlatedExposure
  | dailyPnl
  | weeklyPnl

namespace InputField

def name : InputField → String
  | openRiskAmount => "open_risk_amount"
  | fxQuoteToAccount => "fx_quote_to_account"
  | correlatedExposure => "correlated_exposure"
  | dailyPnl => "daily_pnl"
  | weeklyPnl => "weekly_pnl"

def get (ctx : RiskContext) : InputField → Option Number
  | openRiskAmount => ctx.openRiskAmount
  | fxQuoteToAccount => ctx.fxQuoteToAccount
  | correlatedExposure => ctx.correlatedExposure
  | dailyPnl => ctx.dailyPnl
  | weeklyPnl => ctx.weeklyPnl

def all : List InputField :=
  [openRiskAmount, fxQuoteToAccount, correlatedExposure, dailyPnl, weeklyPnl]

end InputField

def missingInputs (ctx : RiskContext) (fields : List InputField) : List String :=
  (fields.filter fun f => (f.get ctx).isNone).map InputField.name

def forbiddenStates : List StrategyLifecycle :=
  [.quarantined, .retired, .degraded, .discovery, .research, .validating, .candidate]

def timeframeOf (text : String) : Option Timeframe :=
  [("M1", Timeframe.M1), ("M5", .M5), ("M15", .M15), ("M30", .M30), ("H1", .H1), ("H4", .H4),
    ("D1", .D1)].lookup text

/-- `pd.Timedelta(minutes=x)`. -/
def minutesDelta (x : Number) : Except Raised Timedelta :=
  match x with
  | .nan => valueError "cannot convert float NaN to integer"
  | .inf _ => .error (.error "OverflowError" "cannot convert float infinity to integer")
  | .fin q => .ok (pyInt (q * 60 * 10 ^ 9))

section Checks

variable (g : Gateway)

/-- `True` when every input named is present; an excused gap is `False`. -/
def requireInputs (ctx : RiskContext) (check : String) (fields : List InputField) :
    Except Raised Bool :=
  match missingInputs ctx fields with
  | [] => .ok true
  | missing =>
    if g.paperAllowsMissingInputs && !touchesBroker ctx.mode then .ok false
    else block (check ++ "_input_missing:" ++ String.intercalate "," missing)

def RiskContext.instrument (ctx : RiskContext) : Except Raised ContractSpec :=
  match g.registry ctx.plan.signal.instrument with
  | some i => .ok i
  | none =>
    .error (.error "KeyError" (Text.pyRepr (unknownInstrument ctx.plan.signal.instrument)))

def RiskContext.planNotionalAccount (ctx : RiskContext) : Except Raised Number :=
  match ctx.fxQuoteToAccount with
  | none => valueError "fx_quote_to_account is missing"
  | some fx => do
    let price := orElse ctx.market.midPrice ctx.plan.signal.referencePrice
    let instrument ← ctx.instrument g
    return (price * ctx.plan.size * fin instrument.contractSize * fx).abs

/-- The value of an input that `requireInputs` found present. -/
def asserted (x : Option Number) : Except Raised Number :=
  match x with
  | some x => .ok x
  | none => .error (.error "AssertionError" "")

def capCheck (ctx : RiskContext) (head : String) (digits : ℕ) (tail : String)
    (amount limit : Number) : Check := do
  let pct ← pctOfEquity amount ctx.equity
  refuse (lt limit pct)
    (head ++ g.formats.fixed digits pct ++ "%>" ++ g.formats.float limit ++ "%" ++ tail)

def ageCheck (ctx : RiskContext) (future stale : String) (start : Option Instant)
    (limit : Number) : Check := do
  let age ← ageSeconds start ctx.now
  refuse (lt age (fin 0)) (future ++ g.formats.fixed 1 age ++ "s")
  refuse (lt limit age) (stale ++ g.formats.fixed 1 age ++ "s>" ++ g.formats.float limit ++ "s")

def lossCheck (ctx : RiskContext) (check : String) (field : InputField) (limit : Number) :
    Check := do
  if ← requireInputs g ctx check [field] then
    let pnl ← asserted (field.get ctx)
    if le (fin 0) pnl then return ()
    let pct ← pctOfEquity (-pnl) ctx.equity
    refuse (le limit pct)
      (check ++ ":" ++ g.formats.fixed 2 pct ++ "%>=" ++ g.formats.float limit ++ "%")

def checkKillSwitch (ctx : RiskContext) : Check := do
  refuse (ctx.requestKind.addsRisk && !g.durable && touchesBroker ctx.mode)
    ("kill_switch_journal_not_durable:" ++ modeValue ctx.mode)
  match g.switchState with
  | .error e => .error (.error e.1 e.2)
  | .ok state => refuse (!(state.allows ctx.requestKind).1) (state.allows ctx.requestKind).2

def checkStrategyLifecycle (ctx : RiskContext) : Check :=
  match ctx.strategy.lifecycle with
  | none => block "strategy_lifecycle_unknown"
  | some lc => do
    refuse (decide (lc ∈ forbiddenStates)) ("strategy_lifecycle_blocks:" ++ lc.value)
    refuse ctx.strategy.degraded "strategy_degraded"
    refuse (decide (ctx.mode = .live ∧ lc ≠ .live)) ("strategy_not_live_approved:" ++ lc.value)
    refuse (decide (ctx.mode = .demo ∧ lc = .paper)) ("strategy_not_demo_approved:" ++ lc.value)

def checkMarketState (ctx : RiskContext) : Check := do
  refuse ctx.market.halted "market_halted"
  match ctx.market.marketOpen with
  | none => block "market_state_unknown"
  | some isOpen => refuse (!isOpen) "market_closed"

def checkDirectionPermitted (ctx : RiskContext) : Check :=
  if ctx.plan.signal.direction = .short then do
    let i ← ctx.instrument g
    refuse (!i.shortable) ("short_not_permitted:" ++ i.symbol ++ ":" ++ i.venue)
  else .ok ()

def checkDataFreshness (ctx : RiskContext) (limits : LimitSet) : Check :=
  ageCheck g ctx "data_from_the_future:" "data_stale:" ctx.market.lastBarTime
    limits.maxDataAgeSeconds

def checkStalePrice (ctx : RiskContext) (limits : LimitSet) : Check :=
  ageCheck g ctx "quote_from_the_future:" "stale_price:" ctx.market.quoteTime
    limits.maxPriceAgeSeconds

def typicalSpread (ctx : RiskContext) (i : ContractSpec) : Except Raised Number :=
  match i.typicalSpreadBps with
  | none => .ok (fin i.typicalSpreadPips * fin i.pipSize)
  | some bps =>
    match ctx.market.midPrice with
    | none => block "spread_reference_mid_unknown"
    | some mid =>
      if !lt (fin 0) mid then block "spread_reference_mid_unknown"
      else .ok (fin bps * fin (1 / 10 ^ 4) * mid)

def checkAbnormalSpread (ctx : RiskContext) (limits : LimitSet) : Check :=
  match ctx.market.spreadPrice with
  | none => block "spread_unknown"
  | some spread => do
    refuse (lt spread (fin 0)) ("negative_spread:" ++ g.formats.float spread)
    let typical ← typicalSpread ctx (← ctx.instrument g)
    if le typical (fin 0) then return ()
    let multiple := spread / typical
    refuse (lt limits.maxSpreadMultiple multiple)
      ("abnormal_spread:" ++ g.formats.fixed 2 multiple ++ "x>" ++
        g.formats.float limits.maxSpreadMultiple ++ "x_typical")

def checkBrokerHealth (ctx : RiskContext) (limits : LimitSet) : Check :=
  match ctx.venue.connected, ctx.venue.score with
  | some connected, some score => do
    refuse (!connected) ("broker_disconnected:" ++ ctx.venue.message)
    refuse (lt score limits.minBrokerHealth)
      ("broker_unhealthy:" ++ g.formats.fixed 2 score ++ "<" ++
        g.formats.float limits.minBrokerHealth)
  | _, _ => block "broker_health_unknown"

/-- `back` before to `ahead` after `decision`, for each event. -/
def outsideEvents (decision : Instant) (back ahead : Timedelta) : List Instant → Check
  | [] => .ok ()
  | .utc ev :: rest =>
    match decision with
    | .naive _ => typeError "Cannot subtract tz-naive and tz-aware datetime-like objects."
    | .nat => outsideEvents decision back ahead rest
    | .utc t => do
      refuse (decide (t - back ≤ ev ∧ ev ≤ t + ahead))
        ("event_blackout:" ++ g.formats.isoformat ev)
      outsideEvents decision back ahead rest
  | _ :: _ => block "event_time_not_utc"

/-- The later of `now` and the close of the signal's bar. -/
def decisionTime (now : Instant) (barClose : Timestamp) : Except Raised Instant :=
  match now with
  | .nat => .ok .nat
  | .naive _ => typeError "Cannot compare tz-naive and tz-aware timestamps"
  | .utc t => .ok (.utc (if t < barClose then barClose else t))

def checkEventBlackout (ctx : RiskContext) (limits : LimitSet) : Check :=
  if limits.asymmetricBlackout = false then do
    let window ← minutesDelta limits.eventBlackoutMinutes
    if window ≤ 0 then return ()
    outsideEvents g ctx.now window window ctx.market.eventTimes
  else do
    let pre ← minutesDelta (orElse limits.eventBlackoutPreMinutes (fin 0))
    let post ← minutesDelta (orElse limits.eventBlackoutPostMinutes (fin 0))
    let bar : Timedelta :=
      match timeframeOf ctx.plan.signal.timeframe with
      | some tf => tf.minutes * 60 * 10 ^ 9
      | none => 0
    let decision ← decisionTime ctx.now (ctx.plan.signal.barTime + bar)
    outsideEvents g decision post (max pre bar) ctx.market.eventTimes

def shadowNotes (verdict : VetoAssessment) : List String :=
  (if verdict.available then []
    else ["event_veto_shadow:unavailable:" ++
      (if verdict.detail = "" then "unknown" else verdict.detail)]) ++
  (verdict.veto.map fun v => "event_veto_shadow:" ++ v.code).toList

def vetoed (verdict : VetoAssessment) : Check :=
  match verdict.veto with
  | some veto => refuse verdict.enabled ("event_veto:" ++ veto.code)
  | none => .ok ()

def checkEventVeto (ctx : RiskContext) : Check :=
  match ctx.eventVeto with
  | none => .ok ()
  | some source =>
    if ctx.requestKind ≠ .open_ then .ok ()
    else match source.assess ctx.plan.signal.instrument ctx.now with
      | .error e => .error (.error e.1 e.2)
      | .ok verdict => do
        vetoed verdict
        if shadowNotes verdict = [] then return () else .error (.noted (shadowNotes verdict))

def checkInstrumentLock (ctx : RiskContext) : Check :=
  let signal := ctx.plan.signal
  let declared := lt (fin 0) ((signal.features.get "locks_declared").getD (fin 0))
  match g.locks with
  | none => refuse declared "instrument_lock_state_unavailable:no_lock_source"
  | some lockFor =>
    match lockFor signal.instrument signal.strategyId signal.barTime declared signal.timeframe with
    | .free => .ok ()
    | .locked code => block ("instrument_lock:" ++ code)
    | .unavailable message => block ("instrument_lock_state_unavailable:" ++ message)
    | .raised kind message => .error (.error kind message)

def checkMaxPerTradeRisk (ctx : RiskContext) (limits : LimitSet) : Check :=
  capCheck g ctx "max_per_trade_risk:" 3 "" ctx.plan.riskAmount limits.maxPerTradeRiskPct

def checkMaxAccountRisk (ctx : RiskContext) (limits : LimitSet) : Check := do
  if ← requireInputs g ctx "max_account_risk" [.openRiskAmount] then
    let openRisk ← asserted ctx.openRiskAmount
    capCheck g ctx "max_account_risk:" 3 "" (openRisk + ctx.plan.riskAmount)
      limits.maxAccountRiskPct

def exposureCheck (ctx : RiskContext) (check key : String) (held : Dict String Number)
    (limit : Number) : Check := do
  if ← requireInputs g ctx check [.fxQuoteToAccount] then
    let notional ← ctx.planNotionalAccount g
    capCheck g ctx (check ++ ":" ++ key ++ ":") 2 "" (((held.get key).getD (fin 0)).abs + notional)
      limit

def checkMaxInstrumentExposure (ctx : RiskContext) (limits : LimitSet) : Check :=
  exposureCheck g ctx "max_instrument_exposure" ctx.plan.signal.instrument
    ctx.snapshot.instrumentExposure limits.maxInstrumentExposurePct

def checkMaxStrategyExposure (ctx : RiskContext) (limits : LimitSet) : Check :=
  exposureCheck g ctx "max_strategy_exposure" ctx.plan.signal.strategyId
    ctx.snapshot.strategyExposure limits.maxStrategyExposurePct

/-- The net exposure to a currency once `delta` is added. -/
def currencyAfter (ctx : RiskContext) (ccy : String) (delta : Number) : Number :=
  ((ctx.snapshot.currencyExposure.get ccy).getD (fin 0) + delta).abs

def checkMaxCurrencyExposure (ctx : RiskContext) (limits : LimitSet) : Check := do
  if ← requireInputs g ctx "max_currency_exposure" [.fxQuoteToAccount] then
    let i ← ctx.instrument g
    let add ← ctx.planNotionalAccount g
    let delta := fin ctx.plan.signal.direction.sign * add
    capCheck g ctx ("max_currency_exposure:" ++ i.base ++ ":") 2 ""
      (currencyAfter ctx i.base delta) limits.maxCurrencyExposurePct
    capCheck g ctx ("max_currency_exposure:" ++ i.quote ++ ":") 2 ""
      (currencyAfter ctx i.quote (-delta)) limits.maxCurrencyExposurePct

def checkMaxCorrelatedExposure (ctx : RiskContext) (limits : LimitSet) : Check := do
  if ← requireInputs g ctx "max_correlated_exposure" [.correlatedExposure, .fxQuoteToAccount] then
    let correlated ← asserted ctx.correlatedExposure
    let notional ← ctx.planNotionalAccount g
    capCheck g ctx "max_correlated_exposure:" 2
      ("@rho>=" ++ g.formats.float limits.correlationThreshold) (correlated + notional)
      limits.maxCorrelatedExposurePct

def checkDailyLoss (ctx : RiskContext) (limits : LimitSet) : Check :=
  lossCheck g ctx "daily_loss" .dailyPnl limits.maxDailyLossPct

def checkWeeklyLoss (ctx : RiskContext) (limits : LimitSet) : Check :=
  lossCheck g ctx "weekly_loss" .weeklyPnl limits.maxWeeklyLossPct

def AccountState.drawdownPct (a : AccountState) : Number :=
  if le a.peakEquity (fin 0) then fin 0
  else max0 ((a.peakEquity - a.equity) / a.peakEquity * fin 100)

def checkTotalDrawdown (ctx : RiskContext) (limits : LimitSet) : Check :=
  let dd := ctx.snapshot.account.drawdownPct
  refuse (le limits.maxTotalDrawdownPct dd)
    ("total_drawdown:" ++ g.formats.fixed 2 dd ++ "%>=" ++
      g.formats.float limits.maxTotalDrawdownPct ++ "%")

def PortfolioSnapshot.marginUtilisation (s : PortfolioSnapshot) : Number :=
  if le s.account.equity (fin 0) then fin 1 else max0 (s.account.marginUsed / s.account.equity)

/-- `plan.max_leverage_applied or instrument.retail_leverage`. -/
def planLeverage (ctx : RiskContext) : Except Raised Number :=
  if ctx.plan.maxLeverageApplied = fin 0 then do return fin (← ctx.instrument g).retailLeverage
  else .ok ctx.plan.maxLeverageApplied

def checkMarginUtilisation (ctx : RiskContext) (limits : LimitSet) : Check :=
  if limits.afterTrade = false then
    let util := ctx.snapshot.marginUtilisation * fin 100
    refuse (le limits.maxMarginUtilisationPct util)
      ("margin_utilisation:" ++ g.formats.fixed 2 util ++ "%>=" ++
        g.formats.float limits.maxMarginUtilisationPct ++ "%")
  else do
    let leverage ← planLeverage g ctx
    refuse (le ctx.equity (fin 0) || le leverage (fin 0))
      "margin_utilisation_after_trade:equity_or_leverage_not_positive"
    let notional ← ctx.planNotionalAccount g
    let after := (ctx.snapshot.account.marginUsed + notional / leverage) / ctx.equity * fin 100
    refuse (le limits.maxMarginUtilisationPct after)
      ("margin_utilisation_after_trade:" ++ g.formats.fixed 2 after ++ "%>=" ++
        g.formats.float limits.maxMarginUtilisationPct ++ "%")

inductive CheckName where
  | killSwitch
  | strategyLifecycle
  | marketState
  | directionPermitted
  | dataFreshness
  | stalePrice
  | abnormalSpread
  | brokerHealth
  | eventBlackout
  | eventVeto
  | instrumentLock
  | maxPerTradeRisk
  | maxAccountRisk
  | maxInstrumentExposure
  | maxStrategyExposure
  | maxCurrencyExposure
  | maxCorrelatedExposure
  | dailyLoss
  | weeklyLoss
  | totalDrawdown
  | marginUtilisation
  deriving DecidableEq

namespace CheckName

def value : CheckName → String
  | killSwitch => "kill_switch"
  | strategyLifecycle => "strategy_lifecycle"
  | marketState => "market_state"
  | directionPermitted => "direction_permitted"
  | dataFreshness => "data_freshness"
  | stalePrice => "stale_price"
  | abnormalSpread => "abnormal_spread"
  | brokerHealth => "broker_health"
  | eventBlackout => "event_blackout"
  | eventVeto => "event_veto"
  | instrumentLock => "instrument_lock"
  | maxPerTradeRisk => "max_per_trade_risk"
  | maxAccountRisk => "max_account_risk"
  | maxInstrumentExposure => "max_instrument_exposure"
  | maxStrategyExposure => "max_strategy_exposure"
  | maxCurrencyExposure => "max_currency_exposure"
  | maxCorrelatedExposure => "max_correlated_exposure"
  | dailyLoss => "daily_loss"
  | weeklyLoss => "weekly_loss"
  | totalDrawdown => "total_drawdown"
  | marginUtilisation => "margin_utilisation"

/-- `CHECKS`: every check, in the order it runs. -/
def checks : List CheckName :=
  [killSwitch, strategyLifecycle, marketState, directionPermitted, dataFreshness, stalePrice,
    abnormalSpread, brokerHealth, eventBlackout, eventVeto, instrumentLock, maxPerTradeRisk,
    maxAccountRisk, maxInstrumentExposure, maxStrategyExposure, maxCurrencyExposure,
    maxCorrelatedExposure, dailyLoss, weeklyLoss, totalDrawdown, marginUtilisation]

theorem mem_checks (name : CheckName) : name ∈ checks := by cases name <;> decide

theorem nodup_checks : checks.Nodup := by decide

end CheckName

def handler (ctx : RiskContext) (limits : LimitSet) : CheckName → Check
  | .killSwitch => checkKillSwitch g ctx
  | .strategyLifecycle => checkStrategyLifecycle ctx
  | .marketState => checkMarketState ctx
  | .directionPermitted => checkDirectionPermitted g ctx
  | .dataFreshness => checkDataFreshness g ctx limits
  | .stalePrice => checkStalePrice g ctx limits
  | .abnormalSpread => checkAbnormalSpread g ctx limits
  | .brokerHealth => checkBrokerHealth g ctx limits
  | .eventBlackout => checkEventBlackout g ctx limits
  | .eventVeto => checkEventVeto ctx
  | .instrumentLock => checkInstrumentLock g ctx
  | .maxPerTradeRisk => checkMaxPerTradeRisk g ctx limits
  | .maxAccountRisk => checkMaxAccountRisk g ctx limits
  | .maxInstrumentExposure => checkMaxInstrumentExposure g ctx limits
  | .maxStrategyExposure => checkMaxStrategyExposure g ctx limits
  | .maxCurrencyExposure => checkMaxCurrencyExposure g ctx limits
  | .maxCorrelatedExposure => checkMaxCorrelatedExposure g ctx limits
  | .dailyLoss => checkDailyLoss g ctx limits
  | .weeklyLoss => checkWeeklyLoss g ctx limits
  | .totalDrawdown => checkTotalDrawdown g ctx limits
  | .marginUtilisation => checkMarginUtilisation g ctx limits

def shadowPrefix : String := "event_veto_shadow:"

def isShadowReason (reason : String) : Bool := shadowPrefix.toList.isPrefixOf reason.toList

structure RiskDecision where
  allowed : Bool
  reasons : List String
  checksRun : List CheckName
  decidedAt : Instant

def votes (name : CheckName) : Check → List String
  | .ok _ => []
  | .error (.blocked reason) => [reason]
  | .error (.noted reasons) => reasons
  | .error (.error kind message) =>
    ["check_error:" ++ name.value ++ ":" ++ kind ++ ":" ++ message]

def runChecks (ctx : RiskContext) (limits : LimitSet) :
    List CheckName → List String × List CheckName → List String × List CheckName
  | [], done => done
  | name :: rest, (reasons, ran) =>
    runChecks ctx limits rest
      (reasons ++ votes name (handler g ctx limits name), ran ++ [name])

def verifyCoverage (ran : List CheckName) : List String :=
  (CheckName.checks.filter fun c => decide (c ∉ ran)).map fun c => "check_did_not_run:" ++ c.value

structure ExecutionAttempt where
  planId : String
  signalId : String
  strategyId : String
  instrument : String
  mode : ExecutionMode
  requestedSize : Number
  decision : RiskDecision
  decidedAt : Instant
  limitsVersion : String
  limitsFingerprint : String
  requestedPrice : Number
  regime : String
  requestKind : String
  riskAmount : Number
  portfolioWeight : Number
  eventVetoPolicy : String
  killSwitchJournal : String
  missingInputs : List String
  paperAllowsMissingInputs : Bool

def attempt (ctx : RiskContext) (decision : RiskDecision) (limits : LimitSet) :
    ExecutionAttempt where
  planId := ctx.plan.planId
  signalId := ctx.plan.signal.signalId
  strategyId := ctx.plan.signal.strategyId
  instrument := ctx.plan.signal.instrument
  mode := ctx.mode
  requestedSize := ctx.plan.size
  decision
  decidedAt := ctx.now
  limitsVersion := limits.version
  limitsFingerprint := limits.fingerprint g.formats.floats
  requestedPrice := orElse ctx.market.midPrice ctx.plan.signal.referencePrice
  regime := ctx.market.regime
  requestKind := requestValue ctx.requestKind
  riskAmount := ctx.plan.riskAmount
  portfolioWeight := ctx.plan.portfolioWeight
  eventVetoPolicy := (ctx.eventVeto.map EventVetoProvider.policyVersion).getD "not_wired"
  killSwitchJournal := if g.durable then "durable" else "in_memory"
  missingInputs := missingInputs ctx InputField.all
  paperAllowsMissingInputs := g.paperAllowsMissingInputs

def decisionOf (ctx : RiskContext) (limits : LimitSet) : RiskDecision :=
  let (reasons, ran) := runChecks g ctx limits CheckName.checks ([], [])
  let reasons := reasons ++ verifyCoverage ran
  ⟨(reasons.filter fun r => !isShadowReason r).isEmpty, reasons, ran, ctx.now⟩

def evaluate (ctx : RiskContext) (attempts : List ExecutionAttempt) :
    RiskDecision × List ExecutionAttempt :=
  let limits := ctx.limits.getD g.defaultLimits
  let decision := decisionOf g ctx limits
  (decision, attempts ++ [attempt g ctx decision limits])

end Checks

end PreTrade

end Fiboki
