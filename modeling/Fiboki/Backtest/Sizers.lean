import Fiboki.Backtest.Engine
import Fiboki.Lib.StepGrid

/-!
What a stop-out is expected to cost, and the sizer of the engine that prices it.
-/

namespace Fiboki

open Text

inductive PricingError where
  | noTypicalBps (symbol : String)
  | spreadNeedsMid (symbol : String) (mid : ℚ)
  | slippageNeedsPrice (symbol : String)
  | negativeSpread (profile : String) (spread : ℚ)
  deriving DecidableEq

/-- The text of the `ValueError`, with numbers as `str` writes them. -/
def PricingError.message (str : ℚ → String) : PricingError → String
  | noTypicalBps symbol =>
    symbol ++ " has no typical_spread_bps; BpsOfMidSpread prices " ++
      "spreads that are a proportion of price (spot crypto) only"
  | spreadNeedsMid symbol mid => symbol ++ ": a bps spread needs a positive mid, got " ++ str mid
  | slippageNeedsPrice symbol =>
    symbol ++ ": BpsSlippage needs the price it is a proportion of; " ++
      "got none. Pass mid_price rather than let sizing price the stop-out at zero."
  | negativeSpread profile spread =>
    "Profile " ++ profile ++ " produced a negative spread " ++ str spread

/-- `spread_price`, with what it raises. -/
def SpreadModel.quote : SpreadModel → Instrument → (hourUtc : ℕ) → (mid : ℚ) → Except PricingError ℚ
  | fixedPip pips, i, _, _ => .ok (pips * i.pipSize)
  | typicalMultiplier multiplier floorPips, i, _, _ =>
    .ok (max (i.typicalSpreadPips * multiplier) floorPips * i.pipSize)
  | bpsOfMid multiplier floorBps, i, _, mid =>
    match i.typicalSpreadBps with
    | none => .error (.noTypicalBps i.symbol)
    | some typical =>
      if mid ≤ 0 then .error (.spreadNeedsMid i.symbol mid)
      else .ok (max (typical * multiplier) floorBps * (1 / 10 ^ 4) * mid)
  | timeOfDayWidening base windows, i, hour, mid => do
    let spread ← base.quote i hour mid
    match windows.find? (fun w => insideWindow w.1 w.2.1 hour) with
    | some w => return spread * w.2.2
    | none => return spread

/-- `expected_slippage_price`: the mean of one fill, from the model's own parameters. -/
def expectedSlippagePrice : SlippageModel → Instrument → (mid : ℚ) → Except PricingError ℚ
  | .bps amount, i, mid =>
    if mid ≤ 0 then .error (.slippageNeedsPrice i.symbol) else .ok (amount * (1 / 10 ^ 4) * mid)
  | .noSlippage, _, _ => .ok 0
  | .fixedPoints pips, i, _ => .ok (pips * i.pipSize)
  | .probabilisticAdverseTick probability tickPips maxTicks, i, _ =>
    .ok (probability * ((maxTicks + 1) / 2) * tickPips * i.pipSize)

/-- A row of the registry, with its venue. A row sizes in steps that `round_size` keeps as they
are. -/
structure SizingRow extends Instrument where
  venue : String
  contract_pos : 0 < contractSize
  step_pos : 0 < sizeStep
  step_places : ∃ n : ℕ, sizeStep * 10 ^ 10 = n

def SizingRow.isSpot (i : SizingRow) : Bool := i.venue = "coinbase"

structure CostProfile where
  name : String
  spread : SpreadModel
  slippage : SlippageModel
  commission : CommissionModel

namespace CostProfile

variable (p : CostProfile) (i : SizingRow) (price : ℚ)

def spreadPrice (hourUtc : ℕ) : Except PricingError ℚ := do
  let s ← p.spread.quote i.toInstrument hourUtc price
  if s < 0 then .error (.negativeSpread p.name s) else .ok s

def stopOutCostPerUnit (hourUtc : ℕ) : Except PricingError ℚ := do
  let spread ← p.spreadPrice i price hourUtc
  let slippage ← expectedSlippagePrice p.slippage i.toInstrument price
  let cost := spread + 2 * slippage
  if i.isSpot ∧ p.commission.bpsOfNotional ≠ 0 then
    return cost + 2 * p.commission.bpsOfNotional * (1 / 10 ^ 4) * |price|
  else return cost

end CostProfile

def igRealistic : CostProfile where
  name := "IG_REALISTIC"
  spread := .timeOfDayWidening (.typicalMultiplier 1 (6 / 10)) [(21, 23, 3), (23, 6, 18 / 10)]
  slippage := .probabilisticAdverseTick (30 / 100) (4 / 10) 3
  commission := ⟨0, 0, 0, 0, "quote"⟩

def defaultSizingCostProfile : CostProfile := igRealistic

def expectedEntryTime (signal : TimedSignal) : Timestamp :=
  match Timeframe.ofValue signal.timeframe with
  | some tf => signal.barTime + tf.minutes * minuteNs
  | none => signal.barTime

def stopOutCostPerUnit (p : CostProfile) (i : SizingRow) (signal : TimedSignal) :
    Except PricingError ℚ :=
  p.stopOutCostPerUnit i signal.referencePrice (expectedEntryTime signal).hour

namespace Signal

def stopDistance (s : Signal) : ℚ := |s.referencePrice - s.stopPrice|

theorem stopDistance_pos (s : Signal) : 0 < s.stopDistance := by
  have hside := s.stop_side
  rw [stopDistance, abs_pos, sub_ne_zero]
  generalize s.direction = d at hside
  cases d with
  | long => exact hside.ne'
  | short => exact hside.ne

end Signal

/-- What `_snap_to_step` declares: a relative billionth. -/
def snapTolerance : ℚ := 1 / 10 ^ 9

theorem snapTolerance_nonneg : 0 ≤ snapTolerance := by norm_num [snapTolerance]

theorem roundHalfEven_near (q : ℚ) : |(roundHalfEven q : ℚ) - q| ≤ 1 / 2 := by
  rw [abs_le]
  constructor
  · linarith [sub_half_le_roundHalfEven q]
  · linarith [roundHalfEven_le_add_half q]

namespace SizingRow

variable (i : SizingRow)

def Reaches (size : ℚ) (k : ℕ) : Prop :=
  StepGrid.Reaches roundHalfEven snapTolerance i.sizeStep size k

theorem roundTo_steps (n : ℕ) : roundTo (n * i.sizeStep) 10 = n * i.sizeStep := by
  obtain ⟨m, hm⟩ := i.step_places
  have hwhole : (n * i.sizeStep) * 10 ^ 10 = ((n * m : ℕ) : ℤ) := by
    rw [mul_assoc, hm]
    push_cast
    rfl
  rw [roundTo, hwhole, roundHalfEven_intCast, ← hwhole, mul_div_assoc,
    div_self (by norm_num), mul_one]

variable {size : ℚ}

theorem snapToStep_eq (h : 0 < size) : snapToStep size i.sizeStep =
    StepGrid.snap roundHalfEven snapTolerance i.sizeStep size := by
  rw [snapToStep, if_neg (not_or.2 ⟨not_le.2 i.step_pos, not_le.2 h⟩)]
  rfl

theorem roundSize_snap (h : 0 < size) :
    ∃ n : ℕ, roundSize i.toInstrument (snapToStep size i.sizeStep) = n * i.sizeStep ∧
      IsGreatest {k : ℕ | i.Reaches size k} n := by
  obtain ⟨n, hfloor, hgreatest⟩ := StepGrid.floor_snap roundHalfEven_near
    snapTolerance_nonneg (by norm_num [snapTolerance]) i.step_pos h
  refine ⟨n, ?_, hgreatest⟩
  have hpos : 0 < snapToStep size i.sizeStep := by
    rw [i.snapToStep_eq h, StepGrid.snap]
    split_ifs with hnear
    · exact mul_pos (Int.cast_pos.2 hnear.1) i.step_pos
    · exact h
  have hnonneg : 0 ≤ snapToStep size i.sizeStep / i.sizeStep + 1 / 10 ^ 9 :=
    add_nonneg (div_pos hpos i.step_pos).le (by norm_num)
  rw [roundSize, if_neg (not_le.2 hpos), pyInt, if_pos hnonneg, i.snapToStep_eq h]
  rw [snapTolerance] at hfloor ⊢
  rw [hfloor, Int.cast_natCast, i.roundTo_steps]

theorem roundSize_of_nonpos (h : size ≤ 0) :
    roundSize i.toInstrument (snapToStep size i.sizeStep) = 0 := by
  rw [snapToStep, if_pos (.inr h), roundSize, if_pos h]

theorem not_reaches_of_nonpos (h : size ≤ 0) {k : ℕ} (hk : 0 < k) : ¬ i.Reaches size k :=
  StepGrid.not_reaches roundHalfEven_near i.step_pos h hk

end SizingRow

inductive SizingRule where
  | v1
  | v2

def SizingRule.id : SizingRule → String
  | v1 => "fixed_fractional_v1"
  | v2 => "fixed_fractional_v2"

/-- `FixedFractionalSizer`: a fraction of current equity for each trade, capped by leverage. -/
structure FixedFractionalSizer where
  riskFraction : ℚ
  maxLeverage : Option ℚ
  policyId : SizingRule
  costProfile : Option CostProfile
  portfolioWeight : ℚ
  weight_range : 0 ≤ portfolioWeight ∧ portfolioWeight ≤ 1

namespace FixedFractionalSizer

def resolvedCostProfile (z : FixedFractionalSizer) : Option CostProfile :=
  match z.policyId with
  | .v1 => none
  | .v2 => some (z.costProfile.getD defaultSizingCostProfile)

def perUnitPrice (z : FixedFractionalSizer) (i : SizingRow) (signal : TimedSignal) :
    Except PricingError ℚ :=
  match z.resolvedCostProfile with
  | none => .ok signal.stopDistance
  | some p => (stopOutCostPerUnit p i signal).map fun cost => signal.stopDistance + cost

def leverage (z : FixedFractionalSizer) (i : SizingRow) : ℚ :=
  match z.maxLeverage with
  | none => i.retailLeverage
  | some asked => min asked i.retailLeverage

def sizeFor (z : FixedFractionalSizer) (signal : TimedSignal) (i : SizingRow)
    (account : AccountState)
    (fxQuoteToAccount : ℚ) : Except PricingError ℚ :=
  let stopDistance := signal.stopDistance
  if stopDistance ≤ 0 then .ok 0
  else
    let riskAccount := account.equity * z.riskFraction * z.portfolioWeight
    if riskAccount ≤ 0 then .ok 0
    else do
      let perUnitPrice ← z.perUnitPrice i signal
      let riskPerUnitAccount := perUnitPrice * i.contractSize * fxQuoteToAccount
      if riskPerUnitAccount ≤ 0 then .ok 0
      else
        let size := riskAccount / riskPerUnitAccount
        let notionalPerUnit := signal.referencePrice * i.contractSize * fxQuoteToAccount
        let capped :=
          if 0 < notionalPerUnit then min size (account.equity * z.leverage i / notionalPerUnit)
          else size
        .ok (roundSize i.toInstrument (snapToStep capped i.sizeStep))

end FixedFractionalSizer

end Fiboki
