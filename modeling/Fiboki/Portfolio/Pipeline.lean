import Fiboki.Portfolio.Construction
import Mathlib.Data.List.Sort

/-!
The pipeline of a candidate, step by step, and the passes over the whole batch.
-/

namespace Fiboki.Construction

open Wire

structure Formats where
  fixed : ℕ → ℚ → String
  full : ℚ → String

structure Contract where
  assetClass : AssetClass
  base : String
  quote : String

def assetClassValue : AssetClass → String
  | .fxMajor => "fx_major"
  | .fxCross => "fx_cross"
  | .metal => "metal"
  | .energy => "energy"
  | .index => "index"
  | .crypto => "crypto"
  | .equity => "equity"
  | .bond => "bond"
  | .commodity => "commodity"

/-- What a step says: its factor, the detail, and whether the candidate is dropped. -/
structure StepResult where
  factor : ℚ
  detail : String
  hardDrop : Bool

def dropAt (detail : String) : StepResult := ⟨0, detail, true⟩

def scaleBy (factor : ℚ) (detail : String) : StepResult := ⟨factor, detail, false⟩

/-- `PIPELINE`. -/
inductive Step where
  | lifecycle
  | tier
  | health
  | confidence
  | instrumentCorrelation
  | strategyCorrelation
  | instrumentConcentration
  | assetClassConcentration
  | currencyExposure
  | volatilityTarget
  | margin
  | drawdown
  | regime
  | correlatedRiskBudget
  | conviction
  deriving DecidableEq

namespace Step

def name : Step → String
  | lifecycle => "lifecycle"
  | tier => "tier"
  | health => "health"
  | confidence => "confidence"
  | instrumentCorrelation => "instrument_correlation"
  | strategyCorrelation => "strategy_correlation"
  | instrumentConcentration => "instrument_concentration"
  | assetClassConcentration => "asset_class_concentration"
  | currencyExposure => "currency_exposure"
  | volatilityTarget => "volatility_target"
  | margin => "margin"
  | drawdown => "drawdown"
  | regime => "regime"
  | correlatedRiskBudget => "correlated_risk_budget"
  | conviction => "conviction"

def pipeline : List Step :=
  [lifecycle, tier, health, confidence, instrumentCorrelation, strategyCorrelation,
    instrumentConcentration, assetClassConcentration, currencyExposure, volatilityTarget, margin,
    drawdown, regime, correlatedRiskBudget, conviction]

def alwaysReason : Step → Bool
  | conviction => true
  | _ => false

end Step

/-- `max` of a list that is not empty. -/
def worstOf : List ℚ → ℚ
  | [] => 0
  | x :: xs => xs.foldl max x

def corrFactor (rho : ℚ) (cfg : ConstructionConfig) : ℚ :=
  if rho ≤ cfg.correlationSoftCap then 1
  else if cfg.correlationHardCap - cfg.correlationSoftCap ≤ 0 then 0
  else max 0 (1 - (rho - cfg.correlationSoftCap) /
    (cfg.correlationHardCap - cfg.correlationSoftCap))

def coarseRegimes : List String := ["trend", "range", "high_vol", "crisis", "unknown"]

/-- `label.split("|")`. -/
def splitBar : List Char → List (List Char)
  | [] => [[]]
  | c :: cs =>
    if c = '|' then [] :: splitBar cs
    else match splitBar cs with
      | [] => [[c]]
      | part :: rest => (c :: part) :: rest

def coarseRegime (label : String) : String :=
  if label = "" then "unknown"
  else if label ∈ coarseRegimes then label
  else match (splitBar label.toList).map String.ofList with
    | [_, volatility, persistence, _, stress] =>
      if volatility = "unknown" ∨ persistence = "unknown" ∨ stress = "unknown" then "unknown"
      else if stress = "stressed" then "crisis"
      else if volatility = "high" ∨ volatility = "extreme" ∨ stress = "elevated" then "high_vol"
      else if persistence = "trending" then "trend"
      else if persistence = "mean_reverting" ∨ persistence = "random" then "range"
      else "unknown"
    | _ => "unknown"

def convictionFactor (policy : ConvictionPolicy) (reading : Option ConvictionReading)
    (signal : Signal) (asOf : Option Timestamp) : ℚ × String :=
  match reading with
  | none => (1, "missing")
  | some r =>
    if r.instrument ≠ signal.instrument then (1, "instrument_mismatch")
    else match asOf with
      | none => (1, "clock_not_utc")
      | some now =>
        if now < r.asOf then (1, "not_yet_available")
        else if r.validUntil ≤ now then (1, "stale")
        else if pyInt (policy.maxValidityHours * 3600 * 10 ^ 9) < r.validUntil - r.asOf then
          (1, "validity_exceeds_policy")
        else if r.stance = .none then (1, "no_view")
        else if r.stance.agrees signal.direction then (min 1 policy.maxFactor, "agrees")
        else
          let factor :=
            if 2 ≤ r.strength then policy.strongDisagreementFactor
            else policy.weakDisagreementFactor
          (max policy.floor (min (min factor policy.maxFactor) 1),
            "disagrees_strength_" ++ toString r.strength)

section Steps

variable (fmt : Formats) (registry : String → Option Contract) (agentTier : TierReading)
  (c : CandidateSignal) (snap : PortfolioSnapshot) (cfg : ConstructionConfig)

def headroomFactor (used cap : ℚ) (label : String) : StepResult :=
  if cap ≤ 0 then dropAt (label ++ ":cap<=0")
  else if cap ≤ used then
    dropAt (label ++ "=" ++ fmt.fixed 0 used ++ ">=cap=" ++ fmt.fixed 0 cap)
  else scaleBy (1 - used / cap) (label ++ "_headroom=" ++ fmt.fixed 2 (1 - used / cap))

def stepLifecycle : StepResult :=
  if c.lifecycle ∉ cfg.allocatableLifecycles then dropAt c.lifecycle.value
  else scaleBy ((cfg.lifecycleScalars c.lifecycle).getD 1) c.lifecycle.value

def stepTier : StepResult :=
  let cap := cfg.tierMaxConcurrent c.tier
  let held := (snap.openPositions.filter fun p => decide (p.strategyId = c.strategyId)).length
  let detail := "tier=" ++ c.tier.value ++ " base_risk=" ++ fmt.fixed 4 (cfg.baseRiskPct c.tier) ++
    "% open=" ++ toString held ++ "/" ++ (match cap with | some n => toString n | none => "None")
  match cap with
  | some n => if n ≤ held then dropAt (detail ++ " at_concurrency_cap") else scaleBy 1 detail
  | none => scaleBy 1 detail

def stepHealth : StepResult :=
  if c.health ≤ 0 then dropAt "fully_degraded"
  else scaleBy c.health ("health=" ++ fmt.fixed 2 c.health)

def stepConfidence : StepResult :=
  let conf := max 0 (min 1 c.signal.confidence)
  if conf ≤ 0 then dropAt "zero_confidence" else scaleBy conf ("confidence=" ++ fmt.fixed 2 conf)

def correlationStep (corr : CorrelationMatrix) (label none_ head tail : String)
    (others : List String) : StepResult :=
  if others = [] then scaleBy 1 none_
  else
    let worst := worstOf (others.map fun o => |lookupCorr corr label o cfg.unmeasuredCorrelation|)
    if cfg.correlationHardCap ≤ worst then
      dropAt (head ++ "=" ++ fmt.fixed 2 worst ++ ">=hard_cap")
    else scaleBy (corrFactor worst cfg) (tail ++ "=" ++ fmt.fixed 2 worst)

def stepInstrumentCorrelation : StepResult :=
  correlationStep fmt cfg snap.instrumentCorrelation c.symbol "no_open_book" "rho" "max_rho"
    ((snap.openPositions.map OpenPosition.instrument).dedup.insertionSort (· ≤ ·))

def stepStrategyCorrelation : StepResult :=
  correlationStep fmt cfg snap.strategyCorrelation c.strategyId "no_other_strategies" "strategy_rho"
    "max_strategy_rho"
    (((snap.openPositions.map OpenPosition.strategyId).dedup.insertionSort (· ≤ ·)).filter
      fun s => decide (s ≠ "" ∧ s ≠ c.strategyId))

def concentrationStep (exposure : Dict String ℚ) (key : String) (multiple : ℚ)
    (label : String) : StepResult :=
  if snap.equity ≤ 0 then dropAt "non_positive_equity"
  else headroomFactor fmt |(exposure.get key).getD 0| (multiple * snap.equity) label

def stepInstrumentConcentration : StepResult :=
  concentrationStep fmt snap snap.instrumentExposure c.symbol cfg.maxInstrumentNotionalPct
    (c.symbol ++ "_notional")

def stepAssetClassConcentration (i : Contract) : StepResult :=
  concentrationStep fmt snap snap.assetClassExposure (assetClassValue i.assetClass)
    cfg.maxAssetClassNotionalPct (assetClassValue i.assetClass ++ "_notional")

def stepCurrencyExposure (i : Contract) : StepResult :=
  if snap.equity ≤ 0 then dropAt "non_positive_equity"
  else
    let leg (ccy : String) := headroomFactor fmt |(snap.currencyExposure.get ccy).getD 0|
      (cfg.maxCurrencyNotionalPct * snap.equity) (ccy ++ "_net")
    let first := leg i.base
    if first.hardDrop then first
    else
      let worst := if first.factor < 1 then first else scaleBy 1 "currency_ok"
      let second := leg i.quote
      if second.hardDrop then second
      else if second.factor < worst.factor then second
      else worst

def stepVolatilityTarget : StepResult :=
  match cfg.targetPortfolioVol with
  | none => scaleBy 1 "vol_targeting_off"
  | some target =>
    if target ≤ 0 then scaleBy 1 "vol_targeting_off"
    else if snap.realisedPortfolioVol ≤ 0 then scaleBy 1 "no_realised_vol"
    else scaleBy (min (min cfg.volTargetMaxScale 1) (target / snap.realisedPortfolioVol))
      ("target/realised=" ++ fmt.fixed 3 target ++ "/" ++ fmt.fixed 3 snap.realisedPortfolioVol)

def stepMargin : StepResult :=
  let util := snap.marginUtilisation
  let cap := cfg.maxMarginUtilisation
  if cap ≤ 0 then scaleBy 1 "margin_cap_off"
  else if cap ≤ util then dropAt ("margin_utilisation=" ++ fmt.fixed 2 util ++ ">=cap")
  else scaleBy (max 0 (1 - util / cap)) ("margin_utilisation=" ++ fmt.fixed 2 util)

def stepDrawdown : StepResult :=
  let dd := snap.drawdownPct
  let at_ := "dd=" ++ fmt.fixed 2 dd ++ "%"
  if cfg.drawdownZeroPct ≤ dd then
    dropAt (at_ ++ ">=" ++ fmt.full cfg.drawdownZeroPct ++ "%:flatten_required")
  else if cfg.drawdownPausePct ≤ dd then
    dropAt (at_ ++ ">=" ++ fmt.full cfg.drawdownPausePct ++ "%:pause")
  else if cfg.drawdownSeverePct ≤ dd then
    if c.tier = .probationary then
      dropAt (at_ ++ ">=" ++ fmt.full cfg.drawdownSeverePct ++ "%:probationary_suspended")
    else scaleBy cfg.drawdownSevereFactor (at_ ++ ":severe")
  else if cfg.drawdownDeriskStartPct ≤ dd then scaleBy cfg.drawdownDeriskFactor (at_ ++ ":derisk")
  else scaleBy 1 at_

def stepRegime : StepResult :=
  let raw := c.regime.getD snap.regime
  let regime := coarseRegime raw
  let factor := (cfg.regimeScalars.get regime).getD ((cfg.regimeScalars.get "unknown").getD 1)
  let detail := if regime = raw then "regime=" ++ regime
    else "regime=" ++ regime ++ " (from " ++ raw ++ ")"
  if factor ≤ 0 then dropAt detail else scaleBy (min 1 factor) detail

def correlatedOpen (risks : Dict String ℚ) : ℚ :=
  (risks.entries.map fun e =>
    if max 0 e.2 ≤ 0 then 0
    else |lookupCorr snap.instrumentCorrelation c.symbol e.1 cfg.unmeasuredCorrelation| *
      max 0 e.2 / snap.equity * 100).sum

def stepCorrelatedRiskBudget (w : ℚ) : StepResult :=
  match snap.openRiskByInstrument with
  | none => scaleBy 1 "open_risk_unmeasured"
  | some risks =>
    if snap.equity ≤ 0 then dropAt "non_positive_equity"
    else
      let correlated := correlatedOpen c snap cfg risks
      let headroom := cfg.maxCorrelatedRiskPct - correlated
      let planned := cfg.baseRiskPct c.tier * w
      let detail := "correlated_open=" ++ fmt.fixed 4 correlated ++ "% planned=" ++
        fmt.fixed 4 planned ++ "% cap=" ++ fmt.full cfg.maxCorrelatedRiskPct ++ "%"
      if headroom ≤ 0 then dropAt (detail ++ " no_headroom")
      else if planned ≤ 0 ∨ planned ≤ headroom then scaleBy 1 detail
      else scaleBy (headroom / planned) detail

def convictionEffective : Bool := cfg.conviction.enabled && agentTier.tier.permitsDampen

def shadowFactor : ShadowFactor :=
  let (wouldBe, state) := convictionFactor cfg.conviction c.conviction c.signal snap.asOf
  let effective := convictionEffective agentTier cfg
  { channel := "conviction"
    signalId := c.signal.signalId
    strategyId := c.strategyId
    instrument := c.symbol
    direction := c.signal.direction.value
    wouldBeFactor := wouldBe
    appliedFactor := if effective then wouldBe else 1
    state
    effective
    policyVersion := cfg.conviction.version
    agentTier := agentTier.tier.value
    asOf := snap.asOf
    artefactId := c.conviction.map ConvictionReading.artefactId }

def pyBool (b : Bool) : String := if b then "True" else "False"

def stepConviction : StepResult :=
  let s := shadowFactor agentTier c snap cfg
  scaleBy s.appliedFactor
    (s.state ++ " would_be=" ++ fmt.fixed 4 s.wouldBeFactor ++ " applied=" ++
      fmt.fixed 4 s.appliedFactor ++ " policy=" ++ cfg.conviction.version ++ " enabled=" ++
      pyBool cfg.conviction.enabled ++ " tier=" ++ agentTier.tier.value ++
      (match s.artefactId with | some a => " artefact=" ++ a | none => "") ++
      (if s.effective then "" else " SHADOW"))

def CandidateSignal.instrument : Except String Contract :=
  match registry c.symbol with
  | some i => .ok i
  | none => .error (unknownInstrument c.symbol)

/-- What one step says of a candidate that has come to weight `w`. -/
def factorOf (w : ℚ) : Step → Except String StepResult
  | .lifecycle => .ok (stepLifecycle c cfg)
  | .tier => .ok (stepTier fmt c snap cfg)
  | .health => .ok (stepHealth fmt c)
  | .confidence => .ok (stepConfidence fmt c)
  | .instrumentCorrelation => .ok (stepInstrumentCorrelation fmt c snap cfg)
  | .strategyCorrelation => .ok (stepStrategyCorrelation fmt c snap cfg)
  | .instrumentConcentration => .ok (stepInstrumentConcentration fmt c snap cfg)
  | .assetClassConcentration =>
    if snap.equity ≤ 0 then .ok (dropAt "non_positive_equity")
    else return stepAssetClassConcentration fmt snap cfg (← c.instrument registry)
  | .currencyExposure =>
    if snap.equity ≤ 0 then .ok (dropAt "non_positive_equity")
    else return stepCurrencyExposure fmt snap cfg (← c.instrument registry)
  | .volatilityTarget => .ok (stepVolatilityTarget fmt snap cfg)
  | .margin => .ok (stepMargin fmt snap cfg)
  | .drawdown => .ok (stepDrawdown fmt c snap cfg)
  | .regime => .ok (stepRegime c snap cfg)
  | .correlatedRiskBudget => .ok (stepCorrelatedRiskBudget fmt c snap cfg w)
  | .conviction => .ok (stepConviction fmt agentTier c snap cfg)

structure Progress where
  weight : ℚ
  reasons : List AllocationReason
  trace : List AllocationReason
  dropReason : Option String
  shadow : List ShadowFactor

def Progress.record (p : Progress) (step : Step) (r : StepResult) : Progress :=
  let reason : AllocationReason := ⟨step.name, r.factor, r.detail⟩
  if r.hardDrop then
    let zero : AllocationReason := ⟨step.name, 0, r.detail⟩
    { p with
      weight := 0
      reasons := p.reasons ++ [zero]
      trace := p.trace ++ [zero]
      dropReason := some (step.name ++ ":" ++ r.detail) }
  else
    { p with
      weight := p.weight * r.factor
      reasons := if r.factor ≠ 1 ∨ step.alwaysReason then p.reasons ++ [reason] else p.reasons
      trace := p.trace ++ [reason] }

def Progress.shadowed (p : Progress) (step : Step) : Progress :=
  if step = .conviction then { p with shadow := p.shadow ++ [shadowFactor agentTier c snap cfg] }
  else p

def runSteps : List Step → Progress → Except String Progress
  | [], p => .ok p
  | step :: rest, p =>
    match factorOf fmt registry agentTier c snap cfg p.weight step with
    | .error e => .error e
    | .ok r =>
      if 1 < r.factor then
        .error (step.name ++ " returned factor " ++ fmt.full r.factor ++ " > 1.0")
      else
        let p := (p.shadowed agentTier c snap cfg step).record step r
        if r.hardDrop then .ok p else runSteps rest p

def allocateOne (b : ℚ) : Except String (Allocation × List ShadowFactor) :=
  match runSteps fmt registry agentTier c snap cfg Step.pipeline ⟨b, [], [], none, []⟩ with
  | .error e => .error e
  | .ok p =>
    let below := p.dropReason.isNone && decide (p.weight < cfg.minWeightToTrade)
    let weight := if below then 0 else p.weight
    .ok (
      { candidate := c
        weight := min weight cfg.maxWeightPerCandidate
        baseWeight := b
        reasons := p.reasons
        dropped := below || p.dropReason.isSome
        dropReason :=
          if below then some ("below_min_weight:" ++ fmt.fixed 4 p.weight ++ "<" ++
            fmt.full cfg.minWeightToTrade)
          else p.dropReason
        baseRiskPct := cfg.baseRiskPct c.tier
        trace := p.trace },
      p.shadow)

end Steps

def Allocation.rescaled (a : Allocation) (scale : ℚ) (reason : AllocationReason)
    (exact : Option ℚ) : Allocation :=
  { a with
    weight := exact.getD (a.weight * scale)
    reasons := a.reasons ++ [reason]
    trace := a.trace ++ [reason] }

def Allocation.drop (a : Allocation) (step detail : String) : Allocation :=
  { a with
    weight := 0
    dropped := true
    dropReason := some (step ++ ":" ++ detail)
    reasons := a.reasons ++ [⟨step, 0, detail⟩]
    trace := a.trace ++ [⟨step, 0, detail⟩] }

section Passes

variable (fmt : Formats) (cfg : ConstructionConfig)

def onLive (f : Allocation → Allocation) (allocations : List Allocation) : List Allocation :=
  allocations.map fun a => if a.live then f a else a

def liveSum (f : Allocation → ℚ) (allocations : List Allocation) : ℚ :=
  ((allocations.filter Allocation.live).map f).sum

def applyTotalBudget (allocations : List Allocation) : List Allocation × List String :=
  let total := liveSum Allocation.weight allocations
  if total ≤ cfg.maxTotalWeight ∨ total ≤ 0 then (allocations, [])
  else
    let scale := cfg.maxTotalWeight / total
    (onLive (fun a => a.rescaled scale ⟨"total_budget", scale, "sum=" ++ fmt.fixed 4 total⟩ none)
        allocations,
      ["total weight " ++ fmt.fixed 4 total ++ " exceeded max_total_weight " ++
        fmt.full cfg.maxTotalWeight ++ "; scaled all by " ++ fmt.fixed 4 scale])

def applyTotalRiskCap (snap : PortfolioSnapshot) (allocations : List Allocation) :
    List Allocation × List String :=
  if allocations.filter Allocation.live = [] then (allocations, [])
  else
    let unmeasured :=
      if snap.openRiskPct.isNone then
        ["open risk NOT MEASURED: total_risk_cap applied to this batch's new " ++
          "risk only; the risk gateway's max_account_risk check still runs"]
      else []
    let openPct := snap.openRiskPct.getD 0
    let planned := liveSum Allocation.riskPct allocations
    let headroom := cfg.maxTotalRiskPct - openPct
    let detail := "open=" ++ fmt.fixed 4 openPct ++ "% batch=" ++ fmt.fixed 4 planned ++ "% cap=" ++
      fmt.full cfg.maxTotalRiskPct ++ "%"
    if headroom ≤ 0 then
      (onLive (fun a => a.drop "total_risk_cap" detail) allocations,
        unmeasured ++ ["total_risk_cap reached (" ++ detail ++ "); no new risk allocated"])
    else if planned ≤ headroom then (allocations, unmeasured)
    else
      let scale := headroom / planned
      (onLive (fun a => a.rescaled scale ⟨"total_risk_cap", scale, detail⟩ none) allocations,
        unmeasured ++ ["total_risk_cap bound (" ++ detail ++ "); scaled all by " ++
          fmt.fixed 4 scale])

/-- No weight above `max_scale_vs_tier`. -/
def capTier (a : Allocation) : Allocation :=
  if a.dropped ∨ a.weight ≤ cfg.maxScaleVsTier then a
  else
    a.rescaled (cfg.maxScaleVsTier / a.weight)
      ⟨"tier_cap", cfg.maxScaleVsTier / a.weight,
        "weight=" ++ fmt.fixed 4 a.weight ++ ">max_scale_vs_tier=" ++ fmt.full cfg.maxScaleVsTier⟩
      (some cfg.maxScaleVsTier)

def applyTierCap (allocations : List Allocation) : List Allocation :=
  allocations.map (capTier fmt cfg)

end Passes

structure PortfolioConstructor where
  formats : Formats
  registry : String → Option Contract
  allocator : Allocator
  config : ConstructionConfig
  agentTier : TierReading

namespace PortfolioConstructor

variable (pc : PortfolioConstructor)

def optional {α : Type} (f : α → Value) : Option α → Value
  | some a => f a
  | none => .null

def stamp (snap : PortfolioSnapshot) : List (String × Value) :=
  let cfg := pc.config
  [("construction_version", .str cfg.version),
    ("allocator", .str pc.allocator.name),
    ("conviction_policy", .str cfg.conviction.version),
    ("conviction_enabled_config", .bool cfg.conviction.enabled),
    ("conviction_floor", .num cfg.conviction.floor),
    ("conviction_max_factor", .num cfg.conviction.maxFactor),
    ("conviction_effective", .bool (convictionEffective pc.agentTier cfg)),
    ("conviction_gated_by_tier",
      .bool (cfg.conviction.enabled && !pc.agentTier.tier.permitsDampen)),
    ("agent_tier", .str pc.agentTier.tier.value),
    ("agent_tier_source", .str pc.agentTier.source),
    ("agent_tier_requested", optional (fun t => .str t.value) pc.agentTier.requested),
    ("agent_tier_ceiling", .str pc.agentTier.ceiling.value),
    ("max_total_risk_pct", .num cfg.maxTotalRiskPct),
    ("max_correlated_risk_pct", .num cfg.maxCorrelatedRiskPct),
    ("max_scale_vs_tier", .num cfg.maxScaleVsTier),
    ("risk_ceiling_pct", optional .num cfg.riskCeilingPct),
    ("open_risk_measured", .bool snap.openRiskByInstrument.isSome),
    ("open_risk_pct", optional .num snap.openRiskPct),
    ("drawdown_pct", .num snap.drawdownPct)]

def orderKey (c : CandidateSignal) : String ×ₗ String ×ₗ String :=
  toLex (c.strategyId, toLex (c.symbol, c.signal.signalId))

def ordered (candidates : List CandidateSignal) : List CandidateSignal :=
  candidates.insertionSort fun a b => orderKey a ≤ orderKey b

def allocateEach (snap : PortfolioSnapshot) (base : Dict String ℚ) :
    List CandidateSignal → Except String (List Allocation × List ShadowFactor)
  | [] => .ok ([], [])
  | c :: rest => do
    let (a, shadow) ← allocateOne pc.formats pc.registry pc.agentTier c snap pc.config
      ((base.get c.key).getD 0)
    let (as_, shadows) ← allocateEach snap base rest
    return (a :: as_, shadow ++ shadows)

def batch (snap : PortfolioSnapshot) (allocations : List Allocation) :
    List Allocation × List String :=
  let (budgeted, notes) := applyTotalBudget pc.formats pc.config allocations
  let (capped, more) := applyTotalRiskCap pc.formats pc.config snap budgeted
  (applyTierCap pc.formats pc.config capped, notes ++ more)

def allocate (candidates : List CandidateSignal) (snap : PortfolioSnapshot) :
    Except String AllocationResult :=
  if candidates = [] then
    .ok ⟨[], pc.allocator.name, pc.config.version, snap.asOf, ["no candidates"], pc.stamp snap, []⟩
  else do
    let inOrder := ordered candidates
    let base := pc.allocator.baseWeights inOrder snap pc.config
    let (allocations, shadow) ← pc.allocateEach snap base inOrder
    let (allocations, notes) := pc.batch snap allocations
    return ⟨allocations, pc.allocator.name, pc.config.version, snap.asOf, notes, pc.stamp snap,
      shadow⟩

end PortfolioConstructor

end Fiboki.Construction
