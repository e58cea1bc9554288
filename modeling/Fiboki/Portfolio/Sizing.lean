import Fiboki.Backtest.Sizers
import Fiboki.Broker.Driver

/-!
The sizing authority: `size_trade`, its adapter to the engine, and the sizer that the engine has of
its own.
-/

namespace Fiboki

inductive SizingRejection where
  | nonPositiveEquity
  | nonPositiveStopDistance
  | nonPositiveRiskBudget
  | nonPositiveRiskPerUnit
  | belowMinSize
  | roundedToZero
  | invalidFxRate
  | zeroPortfolioWeight

def SizingRejection.value : SizingRejection → String
  | nonPositiveEquity => "non_positive_equity"
  | nonPositiveStopDistance => "non_positive_stop_distance"
  | nonPositiveRiskBudget => "non_positive_risk_budget"
  | nonPositiveRiskPerUnit => "non_positive_risk_per_unit"
  | belowMinSize => "below_min_size"
  | roundedToZero => "rounded_to_zero"
  | invalidFxRate => "invalid_fx_rate"
  | zeroPortfolioWeight => "zero_portfolio_weight"

structure SizingPolicy where
  riskFraction : ℚ
  maxLeverage : Option ℚ
  policyId : SizingRule
  costProfile : Option CostProfile
  risk_range : 0 < riskFraction ∧ riskFraction ≤ 1
  leverage_pos : ∀ asked ∈ maxLeverage, 0 < asked

namespace SizingPolicy

variable (policy : SizingPolicy) (i : SizingRow)

def resolvedCostProfile : Option CostProfile :=
  match policy.policyId with
  | .v1 => none
  | .v2 => some (policy.costProfile.getD defaultSizingCostProfile)

def costPerUnit (signal : TimedSignal) : Except PricingError ℚ :=
  match policy.resolvedCostProfile with
  | none => .ok 0
  | some p => stopOutCostPerUnit p i signal

def basis : String :=
  match policy.resolvedCostProfile with
  | none => policy.policyId.id
  | some p => policy.policyId.id ++ ":" ++ p.name

def leverageFor : ℚ :=
  match policy.maxLeverage with
  | none => i.retailLeverage
  | some asked => min asked i.retailLeverage

end SizingPolicy

structure SizedPlan extends TradePlan where
  accountCcy : String
  maxLeverageApplied : ℚ
  portfolioWeight : ℚ

inductive SizingOutcome where
  | planned (plan : SizedPlan)
  | rejected (reason : SizingRejection)

def SizingOutcome.size : SizingOutcome → ℚ
  | planned plan => plan.size
  | rejected _ => 0

/-- The end of `size_trade`: the plan of a rounded size, or why there is none. -/
def planOf (planId : String) (signal : TimedSignal) (i : SizingRow) (fxQuoteToAccount : ℚ)
    (policy : SizingPolicy) (portfolioWeight : ℚ) (ccy : String) (perUnitPrice leverage size : ℚ) :
    SizingOutcome :=
  if h : 0 < size then
    if size < i.minSize then .rejected .belowMinSize
    else
      .planned {
        signal := signal.toSignal
        size := size
        riskAmount := perUnitPrice * size * i.contractSize * fxQuoteToAccount
        sizingBasis := policy.basis
        planId := planId
        size_pos := h
        accountCcy := ccy
        maxLeverageApplied := leverage
        portfolioWeight := portfolioWeight }
  else .rejected .roundedToZero

theorem planOf_size {planId : String} {signal : TimedSignal} {i : SizingRow} {fx : ℚ}
    {policy : SizingPolicy} {weight : ℚ} {ccy : String} {perUnitPrice leverage size : ℚ} :
    (planOf planId signal i fx policy weight ccy perUnitPrice leverage size).size =
      if size ≤ 0 ∨ size < i.minSize then 0 else size := by
  unfold planOf
  by_cases hpos : 0 < size
  · rw [dif_pos hpos]
    by_cases hmin : size < i.minSize
    · rw [if_pos hmin, if_pos (.inr hmin)]
      rfl
    · rw [if_neg hmin, if_neg (not_or.2 ⟨not_le.2 hpos, hmin⟩)]
      rfl
  · rw [dif_neg hpos, if_pos (.inl (not_lt.1 hpos))]
    rfl

/-- `size_trade`, at a rate that is a number. -/
def sizeTrade (planId : String) (signal : TimedSignal) (i : SizingRow) (account : AccountState)
    (fxQuoteToAccount : ℚ) (policy : SizingPolicy) (portfolioWeight : ℚ)
    (accountCcy : Option String) :
    Except PricingError SizingOutcome :=
  let ccy := match accountCcy with
    | none => account.currency
    | some c => if c = "" then account.currency else c
  if account.equity ≤ 0 then .ok (.rejected .nonPositiveEquity)
  else if ¬ 0 < fxQuoteToAccount then .ok (.rejected .invalidFxRate)
  else if portfolioWeight ≤ 0 then .ok (.rejected .zeroPortfolioWeight)
  else
    let stopDistance := signal.stopDistance
    if stopDistance ≤ 0 then .ok (.rejected .nonPositiveStopDistance)
    else
      let riskAccount := account.equity * policy.riskFraction * portfolioWeight
      if riskAccount ≤ 0 then .ok (.rejected .nonPositiveRiskBudget)
      else do
        let cost ← policy.costPerUnit i signal
        let perUnitPrice := stopDistance + cost
        let riskPerUnit := perUnitPrice * i.contractSize * fxQuoteToAccount
        if riskPerUnit ≤ 0 then .ok (.rejected .nonPositiveRiskPerUnit)
        else
          let raw := riskAccount / riskPerUnit
          let leverage := policy.leverageFor i
          let notionalPerUnit := signal.referencePrice * i.contractSize * fxQuoteToAccount
          let leverageCapped :=
            if 0 < notionalPerUnit then min raw
              (account.equity * leverage / notionalPerUnit) else raw
          let size := roundSize i.toInstrument (snapToStep leverageCapped i.sizeStep)
          .ok (planOf planId signal i fxQuoteToAccount policy portfolioWeight ccy perUnitPrice
            leverage size)

/-- `PortfolioSizer`: the authority behind the engine's protocol. -/
structure PortfolioSizer where
  policy : SizingPolicy
  portfolioWeight : ℚ

def PortfolioSizer.sizeFor (z : PortfolioSizer) (planId : String) (signal : TimedSignal)
    (i : SizingRow) (account : AccountState) (fxQuoteToAccount : ℚ) : Except PricingError ℚ :=
  (sizeTrade planId signal i account fxQuoteToAccount z.policy z.portfolioWeight none).map
    SizingOutcome.size

def SizingPolicy.fixedFractional (policy : SizingPolicy) (weight : ℚ)
    (h : 0 ≤ weight ∧ weight ≤ 1) : FixedFractionalSizer where
  riskFraction := policy.riskFraction
  maxLeverage := policy.maxLeverage
  policyId := policy.policyId
  costProfile := policy.costProfile
  portfolioWeight := weight
  weight_range := h

/-- A call of `size_for`, with the policy and the weight that both sizers have. -/
structure SizingCall where
  policy : SizingPolicy
  weight : ℚ
  signal : TimedSignal
  row : SizingRow
  account : AccountState
  fx : ℚ
  planId : String
  weight_range : 0 ≤ weight ∧ weight ≤ 1

namespace SizingCall

variable (c : SizingCall)

def engineSize : Except PricingError ℚ :=
  (c.policy.fixedFractional c.weight c.weight_range).sizeFor c.signal c.row c.account c.fx

def portfolioSize : Except PricingError ℚ :=
  (PortfolioSizer.mk c.policy c.weight).sizeFor c.planId c.signal c.row c.account c.fx

def riskBudget : ℚ := c.account.equity * c.policy.riskFraction * c.weight

def riskPerUnit (cost : ℚ) : ℚ := (c.signal.stopDistance + cost) * c.row.contractSize * c.fx

def notionalPerUnit : ℚ := c.signal.referencePrice * c.row.contractSize * c.fx

def notionalLimit : ℚ := c.account.equity * c.policy.leverageFor c.row

def limit (cost : ℚ) : ℚ :=
  if 0 < c.notionalPerUnit then
    min (c.riskBudget / c.riskPerUnit cost) (c.notionalLimit / c.notionalPerUnit)
  else c.riskBudget / c.riskPerUnit cost

def Reaches (cost : ℚ) (k : ℕ) : Prop := c.row.Reaches (c.limit cost) k

def sized (cost : ℚ) : ℚ :=
  if c.riskPerUnit cost ≤ 0 then 0
  else roundSize c.row.toInstrument (snapToStep (c.limit cost) c.row.sizeStep)

def accepted (cost : ℚ) : ℚ :=
  if c.sized cost ≤ 0 ∨ c.sized cost < c.row.minSize then 0 else c.sized cost

variable {c}

theorem engineSize_of_nonpos (h : c.riskBudget ≤ 0) : c.engineSize = .ok 0 := by
  have hstop := c.signal.stopDistance_pos
  rw [engineSize, FixedFractionalSizer.sizeFor]
  dsimp only
  rw [if_neg (not_le.2 hstop)]
  exact if_pos h

theorem perUnitPrice_eq : (c.policy.fixedFractional c.weight c.weight_range).perUnitPrice
    c.row c.signal =
    (c.policy.costPerUnit c.row c.signal).map fun cost => c.signal.stopDistance + cost := by
  rw [FixedFractionalSizer.perUnitPrice, SizingPolicy.costPerUnit]
  have hprofile : (c.policy.fixedFractional c.weight c.weight_range).resolvedCostProfile =
      c.policy.resolvedCostProfile := rfl
  rw [hprofile]
  cases c.policy.resolvedCostProfile with
  | none => exact congrArg Except.ok (add_zero _).symm
  | some p => rfl

theorem engineSize_eq (h : 0 < c.riskBudget) :
    c.engineSize = (c.policy.costPerUnit c.row c.signal).map c.sized := by
  have hstop := c.signal.stopDistance_pos
  rw [engineSize, FixedFractionalSizer.sizeFor]
  dsimp only
  rw [if_neg (not_le.2 hstop)]
  refine (if_neg (not_le.2 h)).trans ?_
  rw [perUnitPrice_eq]
  cases c.policy.costPerUnit c.row c.signal with
  | error e => rfl
  | ok cost =>
    by_cases hrisk : c.riskPerUnit cost ≤ 0
    · exact (if_pos hrisk).trans (congrArg Except.ok (if_pos hrisk).symm)
    · exact (if_neg hrisk).trans (congrArg Except.ok (if_neg hrisk).symm)

theorem portfolioSize_of_refused (h : c.riskBudget ≤ 0 ∨ c.fx ≤ 0) : c.portfolioSize = .ok 0 := by
  have hrefused : ∃ reason, sizeTrade c.planId c.signal c.row c.account c.fx c.policy
    c.weight none =
      .ok (.rejected reason) := by
    unfold sizeTrade
    dsimp only
    by_cases hequity : c.account.equity ≤ 0
    · exact ⟨_, if_pos hequity⟩
    rw [if_neg hequity]
    by_cases hfx : 0 < c.fx
    · rw [if_neg (not_not.2 hfx)]
      by_cases hweight : c.weight ≤ 0
      · exact ⟨_, if_pos hweight⟩
      rw [if_neg hweight, if_neg (not_le.2 c.signal.stopDistance_pos)]
      have hbudget : c.riskBudget ≤ 0 := h.resolve_right (not_le.2 hfx)
      exact ⟨_, if_pos hbudget⟩
    · exact ⟨_, if_pos hfx⟩
  obtain ⟨reason, hreason⟩ := hrefused
  rw [portfolioSize, PortfolioSizer.sizeFor, hreason]
  rfl

theorem equity_pos (h : 0 < c.riskBudget) : 0 < c.account.equity ∧ 0 < c.weight := by
  have hfraction := c.policy.risk_range.1
  have hweight : 0 < c.weight := by
    refine lt_of_le_of_ne c.weight_range.1 fun hzero => ?_
    rw [riskBudget, ← hzero, mul_zero] at h
    exact lt_irrefl _ h
  have hproduct : 0 < c.account.equity * c.policy.riskFraction := pos_of_mul_pos_left h hweight.le
  exact ⟨pos_of_mul_pos_left hproduct hfraction.le, hweight⟩

theorem portfolioSize_eq (h : 0 < c.riskBudget) (hfx : 0 < c.fx) :
    c.portfolioSize = (c.policy.costPerUnit c.row c.signal).map c.accepted := by
  obtain ⟨hequity, hweight⟩ := equity_pos h
  rw [portfolioSize, PortfolioSizer.sizeFor, sizeTrade]
  dsimp only
  rw [if_neg (not_le.2 hequity), if_neg (not_not.2 hfx), if_neg (not_le.2 hweight),
    if_neg (not_le.2 c.signal.stopDistance_pos)]
  rw [if_neg (show ¬ c.account.equity * c.policy.riskFraction * c.weight ≤ 0 from not_le.2 h)]
  cases c.policy.costPerUnit c.row c.signal with
  | error e => rfl
  | ok cost =>
    show Except.map SizingOutcome.size (ite (c.riskPerUnit cost ≤ 0) _ _) = .ok (c.accepted cost)
    by_cases hrisk : c.riskPerUnit cost ≤ 0
    · have hzero : c.sized cost = 0 := if_pos hrisk
      rw [if_pos hrisk, accepted, if_pos (.inl hzero.le)]
      rfl
    · have hsized : c.sized cost =
          roundSize c.row.toInstrument (snapToStep (c.limit cost) c.row.sizeStep) := if_neg hrisk
      rw [if_neg hrisk, accepted, hsized]
      exact congrArg Except.ok planOf_size

variable {cost : ℚ}

theorem sized_steps (hrisk : 0 < c.riskPerUnit cost) (hlimit : 0 < c.limit cost) :
    ∃ n : ℕ, c.sized cost = n * c.row.sizeStep ∧ IsGreatest {k : ℕ | c.Reaches cost k} n := by
  rw [sized, if_neg (not_le.2 hrisk)]
  exact c.row.roundSize_snap hlimit

theorem sized_pos (h : 0 < c.sized cost) : 0 < c.riskPerUnit cost ∧ 0 < c.limit cost := by
  have hrisk : 0 < c.riskPerUnit cost := by
    by_contra hnot
    rw [sized, if_pos (not_lt.1 hnot)] at h
    exact lt_irrefl _ h
  refine ⟨hrisk, ?_⟩
  by_contra hnot
  rw [sized, if_neg (not_le.2 hrisk), c.row.roundSize_of_nonpos (not_lt.1 hnot)] at h
  exact lt_irrefl _ h

theorem sized_pos_iff :
    0 < c.sized cost ↔ 0 < c.riskPerUnit cost ∧ ∃ k, 0 < k ∧ c.Reaches cost k := by
  constructor
  · intro h
    obtain ⟨hrisk, hlimit⟩ := sized_pos h
    obtain ⟨n, hn, hgreatest⟩ := sized_steps hrisk hlimit
    refine ⟨hrisk, n, ?_, hgreatest.1⟩
    rw [hn] at h
    exact Nat.cast_pos.1 (pos_of_mul_pos_left h c.row.step_pos.le)
  · rintro ⟨hrisk, k, hk, hreach⟩
    have hlimit : 0 < c.limit cost := not_le.1 fun hle => c.row.not_reaches_of_nonpos hle hk hreach
    obtain ⟨n, hn, hgreatest⟩ := sized_steps hrisk hlimit
    have hle : k ≤ n := hgreatest.2 hreach
    rw [hn]
    exact mul_pos (Nat.cast_pos.2 (hk.trans_le hle)) c.row.step_pos

theorem sized_nonneg : 0 ≤ c.sized cost := by
  by_cases hrisk : c.riskPerUnit cost ≤ 0
  · exact (if_pos hrisk).ge
  by_cases hlimit : 0 < c.limit cost
  · obtain ⟨n, hn, -⟩ := sized_steps (not_le.1 hrisk) hlimit
    rw [hn]
    exact mul_nonneg n.cast_nonneg c.row.step_pos.le
  · rw [sized, if_neg hrisk, c.row.roundSize_of_nonpos (not_lt.1 hlimit)]

theorem minSize_le_sized_iff (h : 0 < c.sized cost) :
    c.row.minSize ≤ c.sized cost ↔ ∃ k, c.Reaches cost k ∧ c.row.minSize ≤ k * c.row.sizeStep := by
  obtain ⟨hrisk, hlimit⟩ := sized_pos h
  obtain ⟨n, hn, hgreatest⟩ := sized_steps hrisk hlimit
  rw [hn]
  constructor
  · exact fun hmin => ⟨n, hgreatest.1, hmin⟩
  · rintro ⟨k, hreach, hmin⟩
    have hle : (k : ℚ) ≤ n := Nat.cast_le.2 (hgreatest.2 hreach)
    exact hmin.trans (mul_le_mul_of_nonneg_right hle c.row.step_pos.le)

theorem accepted_eq_iff : c.sized cost = c.accepted cost ↔
    (0 < c.sized cost → c.row.minSize ≤ c.sized cost) := by
  have hnonneg : 0 ≤ c.sized cost := sized_nonneg
  rw [accepted]
  split_ifs with hzero
  · constructor
    · exact fun heq hpos => absurd heq hpos.ne'
    · intro himp
      rcases hzero with hle | hlt
      · exact le_antisymm hle hnonneg
      · by_contra hne
        exact absurd (himp (lt_of_le_of_ne hnonneg (Ne.symm hne))) (not_le.2 hlt)
  · exact ⟨fun _ _ => not_lt.1 fun hlt => hzero (.inr hlt), fun _ => rfl⟩

theorem sized_atMost (hfx : 0 < c.fx) (h : 0 < c.sized cost) :
    StepGrid.AtMost snapTolerance (c.sized cost * c.riskPerUnit cost) c.riskBudget ∧
    StepGrid.AtMost snapTolerance (c.sized cost * c.notionalPerUnit) c.notionalLimit := by
  obtain ⟨hrisk, hlimit⟩ := sized_pos h
  obtain ⟨n, hn, hgreatest⟩ := sized_steps hrisk hlimit
  have hnpos : 0 < n := by
    rw [hn] at h
    exact Nat.cast_pos.1 (pos_of_mul_pos_left h c.row.step_pos.le)
  have hslack : StepGrid.AtMost snapTolerance (c.sized cost) (c.limit cost) := by
    rw [hn]
    exact StepGrid.Reaches.atMost hgreatest.1 snapTolerance_nonneg hlimit.le c.row.step_pos hnpos
  have hnotional : 0 < c.notionalPerUnit :=
    mul_pos (mul_pos c.signal.reference_pos c.row.contract_pos) hfx
  have hmin : c.limit cost =
      min (c.riskBudget / c.riskPerUnit cost) (c.notionalLimit / c.notionalPerUnit) :=
    if_pos hnotional
  constructor
  · have hrisk' :=
      (hslack.trans_le snapTolerance_nonneg h.le (hmin.trans_le (min_le_left _ _))).mul_right
      hrisk.le
    rwa [div_mul_cancel₀ _ hrisk.ne'] at hrisk'
  · have hlever := (hslack.trans_le snapTolerance_nonneg h.le
      (hmin.trans_le (min_le_right _ _))).mul_right hnotional.le
    rwa [div_mul_cancel₀ _ hnotional.ne'] at hlever

/-- A size in whole steps, of the minimum or more, within the budget and the leverage. -/
structure WithinLimits (c : SizingCall) (size : ℚ) : Prop where
  steps : ∃ n : ℕ, size = n * c.row.sizeStep
  minimum : c.row.minSize ≤ size
  loss : ∃ cost, c.policy.costPerUnit c.row c.signal = .ok cost ∧
    StepGrid.AtMost snapTolerance (size * c.riskPerUnit cost) c.riskBudget
  notional : StepGrid.AtMost snapTolerance (size * c.notionalPerUnit) c.notionalLimit

/-- The two sizers return one result, and a positive one keeps to the limits. -/
structure SizersAgree (c : SizingCall) : Prop where
  same : c.engineSize = c.portfolioSize
  within : ∀ size, c.engineSize = .ok size ∨ c.portfolioSize = .ok size → 0 < size →
    c.WithinLimits size

/-- With a budget: a cost that has no price comes with a positive rate, and a limit that comes to a
step comes with a positive rate and to the minimum size. -/
def MinimumReached (c : SizingCall) : Prop :=
  0 < c.riskBudget → (∀ e, c.policy.costPerUnit c.row c.signal = .error e → 0 < c.fx) ∧
    ∀ cost, c.policy.costPerUnit c.row c.signal = .ok cost → 0 < c.riskPerUnit cost →
      (∃ k, 0 < k ∧ c.Reaches cost k) →
        0 < c.fx ∧ ∃ k, c.Reaches cost k ∧ c.row.minSize ≤ k * c.row.sizeStep

theorem same_iff (h : 0 < c.riskBudget) : c.engineSize = c.portfolioSize ↔
    (∀ e, c.policy.costPerUnit c.row c.signal = .error e → 0 < c.fx) ∧
    ∀ cost, c.policy.costPerUnit c.row c.signal = .ok cost → 0 < c.sized cost →
      0 < c.fx ∧ c.row.minSize ≤ c.sized cost := by
  rw [engineSize_eq h]
  by_cases hfx : 0 < c.fx
  · rw [portfolioSize_eq h hfx]
    cases c.policy.costPerUnit c.row c.signal with
    | error e => exact ⟨fun _ => ⟨fun _ _ => hfx, nofun⟩, fun _ => rfl⟩
    | ok cost =>
      constructor
      · intro heq
        refine ⟨nofun, ?_⟩
        rintro _ ⟨⟩ hpos
        exact ⟨hfx, accepted_eq_iff.1 (Except.ok.inj heq) hpos⟩
      · rintro ⟨-, hmin⟩
        exact congrArg Except.ok (accepted_eq_iff.2 fun hpos => (hmin cost rfl hpos).2)
  · rw [portfolioSize_of_refused (.inr (not_lt.1 hfx))]
    cases c.policy.costPerUnit c.row c.signal with
    | error e => exact ⟨nofun, fun hboth => absurd (hboth.1 e rfl) hfx⟩
    | ok cost =>
      constructor
      · intro heq
        refine ⟨nofun, ?_⟩
        rintro _ ⟨⟩ hpos
        exact absurd (Except.ok.inj heq) hpos.ne'
      · rintro ⟨-, hmin⟩
        have hzero : ¬ 0 < c.sized cost := fun hpos => hfx (hmin cost rfl hpos).1
        exact congrArg Except.ok (le_antisymm (not_lt.1 hzero) sized_nonneg)

theorem minimumReached_iff (h : 0 < c.riskBudget) :
    c.MinimumReached ↔ c.engineSize = c.portfolioSize := by
  rw [same_iff h]
  constructor
  · intro hreached
    obtain ⟨hprice, hcost⟩ := hreached h
    refine ⟨hprice, fun cost hok hpos => ?_⟩
    obtain ⟨hrisk, hstep⟩ := sized_pos_iff.1 hpos
    obtain ⟨hfx, hmin⟩ := hcost cost hok hrisk hstep
    exact ⟨hfx, (minSize_le_sized_iff hpos).2 hmin⟩
  · rintro ⟨hprice, hcost⟩ -
    refine ⟨hprice, fun cost hok hrisk hstep => ?_⟩
    have hpos : 0 < c.sized cost := sized_pos_iff.2 ⟨hrisk, hstep⟩
    obtain ⟨hfx, hmin⟩ := hcost cost hok hpos
    exact ⟨hfx, (minSize_le_sized_iff hpos).1 hmin⟩

theorem withinLimits (h : c.engineSize = c.portfolioSize) {size : ℚ}
    (hsize : c.engineSize = .ok size)
    (hpos : 0 < size) : c.WithinLimits size := by
  have hbudget : 0 < c.riskBudget := by
    by_contra hnot
    rw [engineSize_of_nonpos (not_lt.1 hnot)] at hsize
    obtain rfl := Except.ok.inj hsize
    exact lt_irrefl _ hpos
  rw [engineSize_eq hbudget] at hsize
  have hsame := (same_iff hbudget).1 h
  cases hcost : c.policy.costPerUnit c.row c.signal with
  | error e =>
    rw [hcost] at hsize
    cases hsize
  | ok cost =>
    rw [hcost] at hsize
    obtain rfl := Except.ok.inj hsize
    obtain ⟨hfx, hmin⟩ := hsame.2 cost hcost hpos
    obtain ⟨hrisk, hlimit⟩ := sized_pos hpos
    obtain ⟨n, hn, -⟩ := sized_steps hrisk hlimit
    obtain ⟨hloss, hnotional⟩ := sized_atMost hfx hpos
    exact ⟨⟨n, hn⟩, hmin, ⟨cost, hcost, hloss⟩, hnotional⟩

/-- The sizers agree, and keep to the limits, in exactly the calls whose limit comes to no step or
to the minimum size. -/
theorem sizers_agree_iff (c : SizingCall) : c.SizersAgree ↔ c.MinimumReached := by
  by_cases hbudget : 0 < c.riskBudget
  · rw [minimumReached_iff hbudget]
    constructor
    · exact fun h => h.same
    · intro hsame
      refine ⟨hsame, fun size hsize hpos => ?_⟩
      rcases hsize with hsize | hsize
      · exact withinLimits hsame hsize hpos
      · exact withinLimits hsame (hsame.trans hsize) hpos
  · have hengine : c.engineSize = .ok 0 := engineSize_of_nonpos (not_lt.1 hbudget)
    have hportfolio : c.portfolioSize = .ok 0 := portfolioSize_of_refused (.inl (not_lt.1 hbudget))
    refine ⟨fun _ h => absurd h hbudget, fun _ => ⟨hengine.trans hportfolio.symm, ?_⟩⟩
    rintro size hsize hpos
    have hzero : Except.ok size = (Except.ok 0 : Except PricingError ℚ) := by
      rcases hsize with hsize | hsize
      · exact hsize.symm.trans hengine
      · exact hsize.symm.trans hportfolio
    exact absurd (Except.ok.inj hzero) hpos.ne'

end SizingCall

section HalfMinimum

open Frictionless

theorem tenth_places : ∃ n : ℕ, (1 / 10 : ℚ) * 10 ^ 10 = n := ⟨10 ^ 9, by norm_num⟩

theorem tenth_pos : (0 : ℚ) < 1 / 10 := by norm_num

def tenthsRow : SizingRow where
  toInstrument := { instrumentOf "EURUSD" with minSize := 1, sizeStep := 1 / 10 }
  venue := "oanda"
  contract_pos := zero_lt_one
  step_pos := tenth_pos
  step_places := tenth_places

theorem stopAt98_side : StopSide .long 100 98 := by
  show (98 : ℚ) < 100
  norm_num

theorem stopAt98_pos : (0 : ℚ) < 98 := by norm_num

theorem referenceAt100_pos : (0 : ℚ) < 100 := by norm_num

def stopAt98 : TimedSignal where
  strategyId := "sample"
  instrument := "EURUSD"
  direction := .long
  barTime := 0
  referencePrice := 100
  stopPrice := 98
  takeProfitPrices := []
  takeProfitAllocations := []
  signalId := "sig"
  stop_pos := stopAt98_pos
  reference_pos := referenceAt100_pos
  stop_side := stopAt98_side
  target_side _ h := absurd h List.not_mem_nil
  allocations_ok h := absurd rfl h
  timeframe := "H1"

theorem hundredth_range : (0 : ℚ) < 1 / 100 ∧ (1 / 100 : ℚ) ≤ 1 := by norm_num

theorem full_weight_range : (0 : ℚ) ≤ 1 ∧ (1 : ℚ) ≤ 1 := by norm_num

theorem unlevered : ∀ v ∈ (none : Option ℚ), 0 < v := fun _ h => absurd h (Option.not_mem_none _)

def hundredthPolicy : SizingPolicy where
  riskFraction := 1 / 100
  maxLeverage := none
  policyId := .v1
  costProfile := none
  risk_range := hundredth_range
  leverage_pos := unlevered

def halfMinimum : SizingCall where
  policy := hundredthPolicy
  weight := 1
  signal := stopAt98
  row := tenthsRow
  account := ⟨100, 100, "USD", 0, 0, 0, 0, 100⟩
  fx := 1
  planId := "plan"
  weight_range := full_weight_range

theorem halfMinimum_engine : halfMinimum.engineSize = .ok (1 / 2) := by decide +kernel

theorem halfMinimum_portfolio : halfMinimum.portfolioSize = .ok 0 := by decide +kernel

/-- The engine takes half a unit where one is the least, and the authority takes nothing. -/
theorem halfMinimum_differ : ¬ halfMinimum.SizersAgree := by
  intro h
  have heq : Except.ok (1 / 2) = (Except.ok 0 : Except PricingError ℚ) :=
    (halfMinimum_engine.symm.trans h.same).trans halfMinimum_portfolio
  exact absurd (Except.ok.inj heq) (by norm_num)

end HalfMinimum

end Fiboki
