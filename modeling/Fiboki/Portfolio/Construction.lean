import Fiboki.Core.Instruments
import Fiboki.Lib.Wire
import Mathlib.Data.Prod.Lex

/-!
Portfolio construction: what each concurrent candidate is entitled to, and the steps
that said so.
-/

namespace Fiboki.Construction

open Wire

inductive StrategyTier where
  | probationary
  | established
  | proven
  | flagship
  deriving DecidableEq

def StrategyTier.value : StrategyTier → String
  | probationary => "probationary"
  | established => "established"
  | proven => "proven"
  | flagship => "flagship"

inductive AgentInfluenceTier where
  | T0_OBSERVE
  | T1_ANNOTATE_SHADOW
  | T2_VETO_ENTRIES
  | T3_DAMPEN_SIZE
  | T4_AUTHOR_CANDIDATES

namespace AgentInfluenceTier

def value : AgentInfluenceTier → String
  | T0_OBSERVE => "t0_observe"
  | T1_ANNOTATE_SHADOW => "t1_annotate_shadow"
  | T2_VETO_ENTRIES => "t2_veto_entries"
  | T3_DAMPEN_SIZE => "t3_dampen_size"
  | T4_AUTHOR_CANDIDATES => "t4_author_candidates"

def level : AgentInfluenceTier → ℕ
  | T0_OBSERVE => 0
  | T1_ANNOTATE_SHADOW => 1
  | T2_VETO_ENTRIES => 2
  | T3_DAMPEN_SIZE => 3
  | T4_AUTHOR_CANDIDATES => 4

def permitsDampen (t : AgentInfluenceTier) : Bool := 3 ≤ t.level

end AgentInfluenceTier

structure TierReading where
  tier : AgentInfluenceTier
  source : String
  requested : Option AgentInfluenceTier
  ceiling : AgentInfluenceTier

structure ConvictionPolicy where
  version : String
  enabled : Bool
  strongDisagreementFactor : ℚ
  weakDisagreementFactor : ℚ
  maxFactor : ℚ
  maxValidityHours : ℚ
  max_le : maxFactor ≤ 1
  half_le : 1 / 2 ≤ strongDisagreementFactor
  strong_le : strongDisagreementFactor ≤ weakDisagreementFactor
  weak_le : weakDisagreementFactor ≤ 1
  floor_le : strongDisagreementFactor ≤ maxFactor
  validity_pos : 0 < maxValidityHours

def ConvictionPolicy.floor (p : ConvictionPolicy) : ℚ := p.strongDisagreementFactor

inductive ConvictionStance where
  | long
  | short
  | none
  deriving DecidableEq

def ConvictionStance.agrees : ConvictionStance → Direction → Bool
  | long, .long | short, .short => true
  | _, _ => false

structure ConvictionReading where
  instrument : String
  stance : ConvictionStance
  strength : ℕ
  asOf : Timestamp
  validUntil : Timestamp
  artefactId : String
  strength_le : strength ≤ 2
  stance_strength : stance = .none ↔ strength = 0
  expires : asOf < validUntil

/-- A labelled correlation matrix with a default for what it does not label. -/
structure CorrelationMatrix where
  labels : List String
  matrix : List (List ℚ)
  default : ℚ
  square : matrix.length = labels.length ∧ ∀ row ∈ matrix, row.length = labels.length
  unique : labels.Nodup
  bounded : ∀ row ∈ matrix, ∀ v ∈ row, -(1 + 1 / 10 ^ 7) ≤ v ∧ v ≤ 1 + 1 / 10 ^ 7

def CorrelationMatrix.get (m : CorrelationMatrix) (a b : String) : ℚ :=
  if a = b then 1
  else if a ∈ m.labels ∧ b ∈ m.labels then
    (m.matrix.getD (m.labels.idxOf a) []).getD (m.labels.idxOf b) m.default
  else m.default

def lookupCorr (corr : CorrelationMatrix) (a b : String) (fallback : ℚ) : ℚ :=
  if a = b then 1
  else if a ∈ corr.labels ∧ b ∈ corr.labels then corr.get a b
  else fallback

structure Signal where
  signalId : String
  strategyId : String
  instrument : String
  direction : Direction
  confidence : ℚ

structure CandidateSignal where
  signal : Signal
  annualisedVol : ℚ
  health : ℚ
  lifecycle : StrategyLifecycle
  tier : StrategyTier
  regime : Option String
  conviction : Option ConvictionReading
  vol_pos : 0 < annualisedVol
  health_unit : 0 ≤ health ∧ health ≤ 1

def CandidateSignal.symbol (c : CandidateSignal) : String := c.signal.instrument

def CandidateSignal.strategyId (c : CandidateSignal) : String := c.signal.strategyId

def CandidateSignal.key (c : CandidateSignal) : String := c.signal.signalId

structure OpenPosition where
  instrument : String
  strategyId : String

structure AccountState where
  equity : ℚ
  marginUsed : ℚ
  peakEquity : ℚ

/-- Everything the portfolio knows about itself. A time that is not UTC is `none`, and so
is open risk that is not measured. -/
structure PortfolioSnapshot where
  account : AccountState
  asOf : Option Timestamp
  openPositions : List OpenPosition
  instrumentExposure : Dict String ℚ
  currencyExposure : Dict String ℚ
  assetClassExposure : Dict String ℚ
  instrumentCorrelation : CorrelationMatrix
  strategyCorrelation : CorrelationMatrix
  realisedPortfolioVol : ℚ
  regime : String
  openRiskByInstrument : Option (Dict String ℚ)

namespace PortfolioSnapshot

def equity (s : PortfolioSnapshot) : ℚ := s.account.equity

def drawdownPct (s : PortfolioSnapshot) : ℚ :=
  if s.account.peakEquity ≤ 0 then 0
  else max 0 ((s.account.peakEquity - s.account.equity) / s.account.peakEquity * 100)

def marginUtilisation (s : PortfolioSnapshot) : ℚ :=
  if s.account.equity ≤ 0 then 1 else max 0 (s.account.marginUsed / s.account.equity)

def openRiskPct (s : PortfolioSnapshot) : Option ℚ :=
  match s.openRiskByInstrument with
  | none => none
  | some risks =>
    if s.equity ≤ 0 then none
    else some ((risks.entries.map fun e => max 0 e.2).sum / s.equity * 100)

end PortfolioSnapshot

structure ConstructionConfig where
  version : String
  maxTotalWeight : ℚ
  maxWeightPerCandidate : ℚ
  minWeightToTrade : ℚ
  correlationSoftCap : ℚ
  correlationHardCap : ℚ
  unmeasuredCorrelation : ℚ
  maxInstrumentNotionalPct : ℚ
  maxAssetClassNotionalPct : ℚ
  maxCurrencyNotionalPct : ℚ
  targetPortfolioVol : Option ℚ
  volTargetMaxScale : ℚ
  maxMarginUtilisation : ℚ
  drawdownDeriskStartPct : ℚ
  drawdownDeriskFactor : ℚ
  drawdownSeverePct : ℚ
  drawdownSevereFactor : ℚ
  drawdownPausePct : ℚ
  drawdownZeroPct : ℚ
  tierRiskPct : StrategyTier → ℚ
  tierMaxConcurrent : StrategyTier → Option ℤ
  riskCeilingPct : Option ℚ
  maxScaleVsTier : ℚ
  maxTotalRiskPct : ℚ
  maxCorrelatedRiskPct : ℚ
  conviction : ConvictionPolicy
  regimeScalars : Dict String ℚ
  allocatableLifecycles : List StrategyLifecycle
  lifecycleScalars : StrategyLifecycle → Option ℚ
  total_weight_pos : 0 < maxTotalWeight
  correlation_caps : 0 ≤ correlationSoftCap ∧ correlationSoftCap ≤ correlationHardCap ∧
    correlationHardCap ≤ 1
  drawdown_bands : drawdownDeriskStartPct < drawdownSeverePct ∧
    drawdownSeverePct < drawdownPausePct ∧ drawdownPausePct ≤ drawdownZeroPct
  drawdown_factors : 0 < drawdownSevereFactor ∧ drawdownSevereFactor ≤ drawdownDeriskFactor ∧
    drawdownDeriskFactor ≤ 1
  vol_scale_le : volTargetMaxScale ≤ 1
  tier_scale : 0 < maxScaleVsTier ∧ maxScaleVsTier ≤ 1
  regime_unit : ∀ e ∈ regimeScalars.entries, 0 ≤ e.2 ∧ e.2 ≤ 1
  lifecycle_unit : ∀ l, ∀ v ∈ lifecycleScalars l, 0 ≤ v ∧ v ≤ 1
  tier_risk : ∀ t, 0 < tierRiskPct t ∧ tierRiskPct t ≤ 5
  ceiling_pos : ∀ v ∈ riskCeilingPct, 0 < v
  budgets_pos : 0 < maxTotalRiskPct ∧ 0 < maxCorrelatedRiskPct

def ConstructionConfig.baseRiskPct (cfg : ConstructionConfig) (t : StrategyTier) : ℚ :=
  match cfg.riskCeilingPct with
  | none => cfg.tierRiskPct t
  | some ceiling => min (cfg.tierRiskPct t) ceiling

/-- `ConvictionPolicy()`. -/
def defaultConviction : ConvictionPolicy where
  version := "conviction_v1"
  enabled := false
  strongDisagreementFactor := 3 / 4
  weakDisagreementFactor := 9 / 10
  maxFactor := 1
  maxValidityHours := 24
  max_le := le_refl _
  half_le := by decide +kernel
  strong_le := by decide +kernel
  weak_le := by decide +kernel
  floor_le := by decide +kernel
  validity_pos := by decide

def defaultTierRisk : StrategyTier → ℚ
  | .probationary => 1 / 4
  | .established => 3 / 4
  | .proven => 3 / 2
  | .flagship => 2

def defaultTierConcurrency : StrategyTier → Option ℤ
  | .probationary => some 2
  | .established => some 4
  | .proven => some 6
  | .flagship => some 8

def defaultRegimeScalars : Dict String ℚ :=
  Dict.ofList [("trend", 1), ("range", 7 / 10), ("high_vol", 1 / 2), ("crisis", 1 / 4),
    ("unknown", 3 / 5)]

def defaultLifecycleScalars : StrategyLifecycle → Option ℚ
  | .watch => some (1 / 2)
  | .demo => some (3 / 4)
  | _ => none

/-- `ConstructionConfig()`. -/
def defaultConfig : ConstructionConfig where
  version := "construction_v2"
  maxTotalWeight := 3
  maxWeightPerCandidate := 1
  minWeightToTrade := 1 / 10
  correlationSoftCap := 2 / 5
  correlationHardCap := 17 / 20
  unmeasuredCorrelation := 3 / 10
  maxInstrumentNotionalPct := 10
  maxAssetClassNotionalPct := 20
  maxCurrencyNotionalPct := 15
  targetPortfolioVol := some (3 / 25)
  volTargetMaxScale := 1
  maxMarginUtilisation := 1 / 2
  drawdownDeriskStartPct := 5
  drawdownDeriskFactor := 3 / 5
  drawdownSeverePct := 10
  drawdownSevereFactor := 3 / 10
  drawdownPausePct := 15
  drawdownZeroPct := 20
  tierRiskPct := defaultTierRisk
  tierMaxConcurrent := defaultTierConcurrency
  riskCeilingPct := none
  maxScaleVsTier := 1
  maxTotalRiskPct := 6
  maxCorrelatedRiskPct := 3
  conviction := defaultConviction
  regimeScalars := defaultRegimeScalars
  allocatableLifecycles := [.paper, .shadow, .demo, .approved, .live, .watch]
  lifecycleScalars := defaultLifecycleScalars
  total_weight_pos := by decide +kernel
  correlation_caps := by decide +kernel
  drawdown_bands := by decide +kernel
  drawdown_factors := by decide +kernel
  vol_scale_le := le_refl _
  tier_scale := by decide +kernel
  regime_unit := by decide +kernel
  lifecycle_unit := by
    intro l v hv
    cases l
    case watch =>
      cases hv
      decide +kernel
    case demo =>
      cases hv
      decide +kernel
    all_goals cases hv
  tier_risk := by
    intro t
    cases t <;> decide +kernel
  ceiling_pos := by
    intro v hv
    cases hv
  budgets_pos := by decide +kernel

structure AllocationReason where
  step : String
  factor : ℚ
  detail : String

structure Allocation where
  candidate : CandidateSignal
  weight : ℚ
  baseWeight : ℚ
  reasons : List AllocationReason
  dropped : Bool
  dropReason : Option String
  baseRiskPct : ℚ
  trace : List AllocationReason

namespace Allocation

def riskPct (a : Allocation) : ℚ := if a.dropped then 0 else a.baseRiskPct * a.weight

def live (a : Allocation) : Bool := !a.dropped && decide (0 < a.weight)

end Allocation

structure ShadowFactor where
  channel : String
  signalId : String
  strategyId : String
  instrument : String
  direction : String
  wouldBeFactor : ℚ
  appliedFactor : ℚ
  state : String
  effective : Bool
  policyVersion : String
  agentTier : String
  asOf : Option Timestamp
  artefactId : Option String

structure AllocationResult where
  allocations : List Allocation
  allocator : String
  configVersion : String
  asOf : Option Timestamp
  notes : List String
  stamp : List (String × Value)
  shadow : List ShadowFactor

namespace AllocationResult

def accepted (r : AllocationResult) : List Allocation := r.allocations.filter Allocation.live

def totalWeight (r : AllocationResult) : ℚ := (r.accepted.map Allocation.weight).sum

def totalRiskPct (r : AllocationResult) : ℚ := (r.accepted.map Allocation.riskPct).sum

end AllocationResult

inductive Allocator where
  | equalRisk
  | volatilityParity
  | correlationPenalised

def Allocator.name : Allocator → String
  | equalRisk => "equal_risk"
  | volatilityParity => "volatility_parity"
  | correlationPenalised => "correlation_penalised"

def proportional (cfg : ConstructionConfig) (scores : Dict String ℚ) : Dict String ℚ :=
  let total := (scores.entries.map Prod.snd).sum
  scores.map fun v =>
    if total ≤ 0 then 0 else min cfg.maxWeightPerCandidate (cfg.maxTotalWeight * v / total)

def diversification (cfg : ConstructionConfig) (snap : PortfolioSnapshot)
    (candidates : List CandidateSignal) (c : CandidateSignal) : ℚ :=
  let rhos := (candidates.filter fun o => decide (o.key ≠ c.key)).map fun o =>
    |lookupCorr snap.instrumentCorrelation c.symbol o.symbol cfg.unmeasuredCorrelation|
  max 0 (1 - if rhos = [] then 0 else rhos.sum / rhos.length)

def Allocator.baseWeights (allocator : Allocator) (candidates : List CandidateSignal)
    (snap : PortfolioSnapshot) (cfg : ConstructionConfig) : Dict String ℚ :=
  match allocator with
  | .equalRisk =>
    Dict.ofList (candidates.map fun c =>
      (c.key, min cfg.maxWeightPerCandidate (cfg.maxTotalWeight / candidates.length)))
  | .volatilityParity =>
    proportional cfg (Dict.ofList (candidates.map fun c => (c.key, 1 / c.annualisedVol)))
  | .correlationPenalised =>
    if candidates.length = 1 then
      Dict.ofList (candidates.map fun c =>
        (c.key, min cfg.maxWeightPerCandidate cfg.maxTotalWeight))
    else
      proportional cfg
        (Dict.ofList (candidates.map fun c => (c.key, diversification cfg snap candidates c)))

end Fiboki.Construction
