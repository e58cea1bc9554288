import Fiboki.Portfolio.Pipeline
import Mathlib.Algebra.BigOperators.Group.List.Lemmas
import Mathlib.Algebra.Order.BigOperators.Group.List

/-!
The caps of portfolio construction: what every accepted allocation and every accepted
batch keeps to once the last pass is done.
-/

namespace Fiboki.Construction

open Wire

section Factors

variable {fmt : Formats} {registry : String → Option Contract} {agentTier : TierReading}
  {c : CandidateSignal} {snap : PortfolioSnapshot} {cfg : ConstructionConfig}

def Down (r : StepResult) : Prop := 0 ≤ r.factor ∧ r.factor ≤ 1

variable (detail : String)

theorem down_dropAt : Down (dropAt detail) := ⟨le_refl _, zero_le_one⟩

theorem down_scaleBy {factor : ℚ} (h : 0 ≤ factor) (h' : factor ≤ 1) (detail : String) :
    Down (scaleBy factor detail) := ⟨h, h'⟩

theorem down_one : Down (scaleBy 1 detail) := ⟨zero_le_one, le_refl _⟩

theorem down_headroomFactor {used : ℚ} (cap : ℚ) (label : String) (h : 0 ≤ used) :
    Down (headroomFactor fmt used cap label) := by
  unfold headroomFactor
  split_ifs with hcap hused
  · exact down_dropAt _
  · exact down_dropAt _
  · have hpos : 0 < cap := not_le.1 hcap
    apply down_scaleBy
    · have : used / cap ≤ 1 := (div_le_one hpos).2 (not_le.1 hused).le
      linarith
    · have : 0 ≤ used / cap := div_nonneg h hpos.le
      linarith

theorem down_concentrationStep (exposure : Dict String ℚ) (key : String) (multiple : ℚ)
    (label : String) : Down (concentrationStep fmt snap exposure key multiple label) := by
  unfold concentrationStep
  split_ifs
  · exact down_dropAt _
  · exact down_headroomFactor _ _ (abs_nonneg _)

theorem corrFactor_unit {rho : ℚ} : 0 ≤ corrFactor rho cfg ∧ corrFactor rho cfg ≤ 1 := by
  unfold corrFactor
  split_ifs with hsoft hspan
  · exact ⟨zero_le_one, le_refl _⟩
  · exact ⟨le_refl _, zero_le_one⟩
  · refine ⟨le_max_left _ _, max_le zero_le_one ?_⟩
    have : 0 ≤ (rho - cfg.correlationSoftCap) / (cfg.correlationHardCap - cfg.correlationSoftCap) :=
      div_nonneg (sub_nonneg.2 (not_le.1 hsoft).le) (not_le.1 hspan).le
    linarith

theorem down_correlationStep (corr : CorrelationMatrix) (label none_ head tail : String)
    (others : List String) : Down (correlationStep fmt cfg corr label none_ head tail others) := by
  unfold correlationStep
  split_ifs
  · exact down_one _
  · dsimp only
    split_ifs
    · exact down_dropAt _
    · exact down_scaleBy corrFactor_unit.1 corrFactor_unit.2 _

theorem down_stepLifecycle : Down (stepLifecycle c cfg) := by
  unfold stepLifecycle
  by_cases hallocatable : c.lifecycle ∉ cfg.allocatableLifecycles
  · rw [if_pos hallocatable]
    exact down_dropAt _
  · rw [if_neg hallocatable]
    cases hscalar : cfg.lifecycleScalars c.lifecycle with
    | none => exact down_one _
    | some v =>
      obtain ⟨h0, h1⟩ := cfg.lifecycle_unit c.lifecycle v hscalar
      exact down_scaleBy h0 h1 _

theorem down_stepTier : Down (stepTier fmt c snap cfg) := by
  unfold stepTier
  dsimp only
  split
  · split_ifs
    · exact down_dropAt _
    · exact down_one _
  · exact down_one _

theorem down_stepCurrencyExposure (i : Contract) : Down (stepCurrencyExposure fmt snap cfg i) := by
  unfold stepCurrencyExposure
  split_ifs
  · exact down_dropAt _
  · dsimp only
    split_ifs
    all_goals first
      | exact down_headroomFactor _ _ (abs_nonneg _)
      | exact down_one _

theorem down_stepMargin : Down (stepMargin fmt snap cfg) := by
  unfold stepMargin
  dsimp only
  split_ifs with hcap hutil
  · exact down_one _
  · exact down_dropAt _
  · refine down_scaleBy (le_max_left _ _) (max_le zero_le_one ?_) _
    have hnonneg : 0 ≤ snap.marginUtilisation := by
      unfold PortfolioSnapshot.marginUtilisation
      split_ifs
      · exact zero_le_one
      · exact le_max_left _ _
    have : 0 ≤ snap.marginUtilisation / cfg.maxMarginUtilisation :=
      div_nonneg hnonneg (not_le.1 hcap).le
    linarith

theorem down_stepDrawdown : Down (stepDrawdown fmt c snap cfg) := by
  obtain ⟨hpos, hle, hone⟩ := cfg.drawdown_factors
  unfold stepDrawdown
  dsimp only
  split_ifs
  · exact down_dropAt _
  · exact down_dropAt _
  · exact down_dropAt _
  · exact down_scaleBy hpos.le (hle.trans hone) _
  · exact down_scaleBy (hpos.le.trans hle) hone _
  · exact down_one _

theorem down_stepRegime : Down (stepRegime c snap cfg) := by
  unfold stepRegime
  dsimp only
  split_ifs with hfactor
  all_goals first
    | exact down_dropAt _
    | exact down_scaleBy (le_min zero_le_one (not_le.1 hfactor).le) (min_le_left _ _) _

theorem down_stepCorrelatedRiskBudget (w : ℚ) :
    Down (stepCorrelatedRiskBudget fmt c snap cfg w) := by
  unfold stepCorrelatedRiskBudget
  split
  · exact down_one _
  · split_ifs with hequity
    · exact down_dropAt _
    · dsimp only
      split_ifs with hheadroom hplanned
      · exact down_dropAt _
      · exact down_one _
      · push Not at hheadroom hplanned
        refine down_scaleBy (div_nonneg hheadroom.le hplanned.1.le) ?_ _
        exact (div_le_one hplanned.1).2 hplanned.2.le

def Unit01 (x : ℚ × String) : Prop := 0 ≤ x.1 ∧ x.1 ≤ 1

theorem unit01_one (state : String) : Unit01 (1, state) := ⟨zero_le_one, le_refl _⟩

theorem convictionFactor_unit (policy : ConvictionPolicy) (reading : Option ConvictionReading)
    (signal : Signal) (asOf : Option Timestamp) :
    Unit01 (convictionFactor policy reading signal asOf) := by
  have hfloor : 0 ≤ policy.floor := by
    have := policy.half_le
    unfold ConvictionPolicy.floor
    linarith
  have hmax : 0 ≤ policy.maxFactor := hfloor.trans policy.floor_le
  have hfloor1 : policy.floor ≤ 1 := policy.strong_le.trans policy.weak_le
  unfold convictionFactor
  cases reading with
  | none => exact unit01_one _
  | some r =>
    cases asOf with
    | none =>
      dsimp only
      split_ifs <;> exact unit01_one _
    | some now =>
      dsimp only
      split_ifs
      · exact unit01_one _
      · exact unit01_one _
      · exact unit01_one _
      · exact unit01_one _
      · exact unit01_one _
      · exact ⟨le_min zero_le_one hmax, min_le_left _ _⟩
      · exact ⟨hfloor.trans (le_max_left _ _), max_le hfloor1 (min_le_right _ _)⟩
      · exact ⟨hfloor.trans (le_max_left _ _), max_le hfloor1 (min_le_right _ _)⟩

theorem down_stepConviction : Down (stepConviction fmt agentTier c snap cfg) := by
  obtain ⟨h0, h1⟩ := convictionFactor_unit cfg.conviction c.conviction c.signal snap.asOf
  unfold stepConviction shadowFactor
  dsimp only
  split_ifs
  all_goals first
    | exact down_scaleBy h0 h1 _
    | exact down_one _

theorem stepVolatilityTarget_le : (stepVolatilityTarget fmt snap cfg).factor ≤ 1 := by
  unfold stepVolatilityTarget
  split
  · exact le_refl _
  · split_ifs
    · exact le_refl _
    · exact le_refl _
    · exact (min_le_left _ _).trans (min_le_right _ _)

theorem factorOf_down {w : ℚ} {step : Step} {r : StepResult} (hstep : step ≠ .volatilityTarget)
    (h : factorOf fmt registry agentTier c snap cfg w step = .ok r) : Down r := by
  cases step with
  | lifecycle => cases h; exact down_stepLifecycle
  | tier => cases h; exact down_stepTier
  | health =>
    cases h
    unfold stepHealth
    split_ifs
    · exact down_dropAt _
    · exact down_scaleBy c.health_unit.1 c.health_unit.2 _
  | confidence =>
    cases h
    unfold stepConfidence
    dsimp only
    split_ifs
    · exact down_dropAt _
    · exact down_scaleBy (le_max_left _ _) (max_le zero_le_one (min_le_left _ _)) _
  | instrumentCorrelation | strategyCorrelation => cases h; exact down_correlationStep _ _ _ _ _ _
  | instrumentConcentration => cases h; exact down_concentrationStep _ _ _ _
  | assetClassConcentration =>
    unfold factorOf at h
    split_ifs at h
    · cases h
      exact down_dropAt _
    · obtain ⟨i, -, hi⟩ := bind_ok h
      cases hi
      exact down_concentrationStep _ _ _ _
  | currencyExposure =>
    unfold factorOf at h
    split_ifs at h
    · cases h
      exact down_dropAt _
    · obtain ⟨i, -, hi⟩ := bind_ok h
      cases hi
      exact down_stepCurrencyExposure i
  | volatilityTarget => exact absurd rfl hstep
  | margin => cases h; exact down_stepMargin
  | drawdown => cases h; exact down_stepDrawdown
  | regime => cases h; exact down_stepRegime
  | correlatedRiskBudget => cases h; exact down_stepCorrelatedRiskBudget w
  | conviction => cases h; exact down_stepConviction

theorem factorOf_le {w : ℚ} {step : Step} {r : StepResult}
    (h : factorOf fmt registry agentTier c snap cfg w step = .ok r) : r.factor ≤ 1 := by
  by_cases hstep : step = .volatilityTarget
  · subst hstep
    cases h
    exact stepVolatilityTarget_le
  · exact (factorOf_down hstep h).2

end Factors

section Runs

variable {fmt : Formats} {registry : String → Option Contract} {agentTier : TierReading}
  {c : CandidateSignal} {snap : PortfolioSnapshot} {cfg : ConstructionConfig}

def traceProduct (trace : List AllocationReason) : ℚ := (trace.map AllocationReason.factor).prod

theorem traceProduct_snoc (trace : List AllocationReason) (r : AllocationReason) :
    traceProduct (trace ++ [r]) = traceProduct trace * r.factor := by
  simp only [traceProduct, List.map_append, List.prod_append, List.map_cons, List.map_nil,
    List.prod_cons, List.prod_nil, mul_one]

variable (agentTier c snap cfg) in
theorem shadowed_eq (p : Progress) (step : Step) :
    (p.shadowed agentTier c snap cfg step).weight = p.weight ∧
      (p.shadowed agentTier c snap cfg step).trace = p.trace ∧
      (p.shadowed agentTier c snap cfg step).dropReason = p.dropReason := by
  unfold Progress.shadowed
  split_ifs <;> exact ⟨rfl, rfl, rfl⟩

def kept (agentTier : TierReading) (c : CandidateSignal) (snap : PortfolioSnapshot)
    (cfg : ConstructionConfig) (p : Progress) (step : Step) (r : StepResult) : Progress :=
  (p.shadowed agentTier c snap cfg step).record step r

variable (agentTier c snap cfg) in
theorem kept_drop (p : Progress) (step : Step) {r : StepResult} (h : r.hardDrop = true) :
    (kept agentTier c snap cfg p step r).weight = 0 ∧
      traceProduct (kept agentTier c snap cfg p step r).trace = 0 ∧
      (kept agentTier c snap cfg p step r).dropReason ≠ none := by
  unfold kept Progress.record
  rw [if_pos h]
  refine ⟨rfl, ?_, by simp⟩
  rw [traceProduct_snoc, mul_zero]

variable (agentTier c snap cfg) in
theorem kept_scale (p : Progress) (step : Step) {r : StepResult} (h : r.hardDrop = false) :
    (kept agentTier c snap cfg p step r).weight = p.weight * r.factor ∧
      traceProduct (kept agentTier c snap cfg p step r).trace = traceProduct p.trace * r.factor ∧
      (kept agentTier c snap cfg p step r).dropReason = p.dropReason := by
  obtain ⟨hweight, htrace, hdrop⟩ := shadowed_eq agentTier c snap cfg p step
  unfold kept Progress.record
  rw [if_neg (by rw [h]; decide)]
  refine ⟨by rw [hweight], ?_, hdrop⟩
  rw [traceProduct_snoc, htrace]

theorem runSteps_cons {step : Step} {rest : List Step} {p q : Progress}
    (h : runSteps fmt registry agentTier c snap cfg (step :: rest) p = .ok q) :
    ∃ r, factorOf fmt registry agentTier c snap cfg p.weight step = .ok r ∧ r.factor ≤ 1 ∧
      (r.hardDrop = true ∧ q = kept agentTier c snap cfg p step r ∨
        r.hardDrop = false ∧ runSteps fmt registry agentTier c snap cfg rest
          (kept agentTier c snap cfg p step r) = .ok q) := by
  unfold runSteps at h
  split at h
  · cases h
  · rename_i r hr
    refine ⟨r, hr, factorOf_le hr, ?_⟩
    rw [if_neg (not_lt.2 (factorOf_le hr))] at h
    cases hdrop : r.hardDrop with
    | true =>
      rw [hdrop] at h
      cases h
      exact .inl ⟨rfl, rfl⟩
    | false =>
      rw [hdrop] at h
      exact .inr ⟨rfl, h⟩

theorem runSteps_identity {b : ℚ} {steps : List Step} {p q : Progress}
    (h : runSteps fmt registry agentTier c snap cfg steps p = .ok q)
    (hp : p.weight = b * traceProduct p.trace) : q.weight = b * traceProduct q.trace := by
  induction steps generalizing p with
  | nil =>
    cases h
    exact hp
  | cons step rest ih =>
    obtain ⟨r, -, -, ⟨hdrop, rfl⟩ | ⟨hdrop, hrest⟩⟩ := runSteps_cons h
    · obtain ⟨hweight, htrace, -⟩ := kept_drop agentTier c snap cfg p step hdrop
      rw [hweight, htrace, mul_zero]
    · obtain ⟨hweight, htrace, -⟩ := kept_scale agentTier c snap cfg p step hdrop
      refine ih hrest ?_
      rw [hweight, htrace, hp, mul_assoc]

theorem runSteps_dropped {steps : List Step} {p q : Progress}
    (h : runSteps fmt registry agentTier c snap cfg steps p = .ok q) (hp : p.dropReason = none)
    (hq : q.dropReason ≠ none) : q.weight = 0 := by
  induction steps generalizing p with
  | nil =>
    cases h
    exact absurd hp hq
  | cons step rest ih =>
    obtain ⟨r, -, -, ⟨hdrop, rfl⟩ | ⟨hdrop, hrest⟩⟩ := runSteps_cons h
    · exact (kept_drop agentTier c snap cfg p _ hdrop).1
    · exact ih hrest ((kept_scale agentTier c snap cfg p _ hdrop).2.2.trans hp)

theorem runSteps_passed {steps : List Step} {p q : Progress}
    (h : runSteps fmt registry agentTier c snap cfg steps p = .ok q) (hq : q.dropReason = none) :
    ∀ step ∈ steps, ∃ w r, factorOf fmt registry agentTier c snap cfg w step = .ok r ∧
      r.hardDrop = false := by
  induction steps generalizing p with
  | nil =>
    intro step hstep
    cases hstep
  | cons first rest ih =>
    intro step hstep
    obtain ⟨r, hr, -, ⟨hdrop, rfl⟩ | ⟨hdrop, hrest⟩⟩ := runSteps_cons h
    · exact absurd hq (kept_drop agentTier c snap cfg p _ hdrop).2.2
    · rcases List.mem_cons.1 hstep with rfl | hstep
      · exact ⟨p.weight, r, hr, hdrop⟩
      · exact ih hrest step hstep

def Guarded (steps : List Step) (w : ℚ) : Prop := .volatilityTarget ∈ steps → 0 ≤ w

theorem guarded_cons {step : Step} {rest : List Step} {w : ℚ} {r : StepResult}
    (hnodup : (step :: rest).Nodup) (hw : Guarded (step :: rest) w)
    (hr : factorOf fmt registry agentTier c snap cfg w step = .ok r) :
    (0 ≤ r.factor ∨ 0 ≤ w) ∧ Guarded rest (w * r.factor) := by
  by_cases hstep : step = .volatilityTarget
  · subst hstep
    refine ⟨.inr (hw List.mem_cons_self), ?_⟩
    intro hmem
    exact absurd hmem (List.nodup_cons.1 hnodup).1
  · obtain ⟨h0, -⟩ := factorOf_down hstep hr
    refine ⟨.inl h0, ?_⟩
    intro hmem
    exact mul_nonneg (hw (List.mem_cons_of_mem _ hmem)) h0

variable {w f : ℚ}

theorem scaled_le (hf : f ≤ 1) (h : 0 ≤ f ∨ 0 ≤ w) (hpos : 0 < w * f) : 0 < w ∧ w * f ≤ w := by
  have hw : 0 < w := by
    rcases h with h | h
    · exact pos_of_mul_pos_left hpos h
    · rcases h.lt_or_eq with h | h
      · exact h
      · rw [← h, zero_mul] at hpos
        exact absurd hpos (lt_irrefl _)
  exact ⟨hw, mul_le_of_le_one_right hw.le hf⟩

theorem runSteps_le {b : ℚ} {steps : List Step} {p q : Progress}
    (h : runSteps fmt registry agentTier c snap cfg steps p = .ok q) (hb : 0 ≤ b)
    (hnodup : steps.Nodup) (hguard : Guarded steps p.weight) (hp : p.weight ≤ b) :
    q.weight ≤ b := by
  induction steps generalizing p with
  | nil =>
    cases h
    exact hp
  | cons step rest ih =>
    obtain ⟨r, hr, hle, ⟨hdrop, rfl⟩ | ⟨hdrop, hrest⟩⟩ := runSteps_cons h
    · rw [(kept_drop agentTier c snap cfg p _ hdrop).1]
      exact hb
    · obtain ⟨hsign, hguard'⟩ := guarded_cons hnodup hguard hr
      have hweight := (kept_scale agentTier c snap cfg p step hdrop).1
      refine ih hrest (List.nodup_cons.1 hnodup).2 (by rw [hweight]; exact hguard') ?_
      rw [hweight]
      by_cases hpos : 0 < p.weight * r.factor
      · exact (scaled_le hle hsign hpos).2.trans hp
      · exact (not_lt.1 hpos).trans hb

/-- Correlated open risk and the risk of weight `w` fit the budget, if the weight counts. -/
def Fits (c : CandidateSignal) (snap : PortfolioSnapshot) (cfg : ConstructionConfig)
    (risks : Dict String ℚ) (w : ℚ) : Prop :=
  0 < w → correlatedOpen c snap cfg risks + cfg.baseRiskPct c.tier * w ≤ cfg.maxCorrelatedRiskPct

theorem baseRiskPct_pos (cfg : ConstructionConfig) (t : StrategyTier) : 0 < cfg.baseRiskPct t := by
  unfold ConstructionConfig.baseRiskPct
  split
  · exact (cfg.tier_risk t).1
  · rename_i ceiling hceiling
    exact lt_min (cfg.tier_risk t).1 (cfg.ceiling_pos ceiling hceiling)

variable {risks : Dict String ℚ}

theorem Fits.scaled (h : Fits c snap cfg risks w) (hf : f ≤ 1)
    (hsign : 0 ≤ f ∨ 0 ≤ w) : Fits c snap cfg risks (w * f) := by
  intro hpos
  obtain ⟨hw, hle⟩ := scaled_le hf hsign hpos
  have := h hw
  have := mul_le_mul_of_nonneg_left hle (baseRiskPct_pos cfg c.tier).le
  linarith

theorem fits_budget (hrisks : snap.openRiskByInstrument = some risks) {w : ℚ}
    (hdrop : (stepCorrelatedRiskBudget fmt c snap cfg w).hardDrop = false) :
    Fits c snap cfg risks (w * (stepCorrelatedRiskBudget fmt c snap cfg w).factor) := by
  have hbase := baseRiskPct_pos cfg c.tier
  unfold stepCorrelatedRiskBudget at hdrop ⊢
  rw [hrisks] at hdrop ⊢
  dsimp only at hdrop ⊢
  split_ifs at hdrop ⊢ with hequity hheadroom hplanned
  · cases hdrop
  · cases hdrop
  · intro hpos
    change 0 < w * 1 at hpos
    change _ + _ * (w * 1) ≤ _
    rw [mul_one] at hpos ⊢
    rcases hplanned with hplanned | hplanned
    · exact absurd (mul_pos hbase hpos) (not_lt.2 hplanned)
    · linarith
  · push Not at hheadroom hplanned
    intro _
    change _ + cfg.baseRiskPct c.tier *
      (w * ((cfg.maxCorrelatedRiskPct - correlatedOpen c snap cfg risks) /
        (cfg.baseRiskPct c.tier * w))) ≤ _
    rw [← mul_assoc, mul_div_cancel₀ _ hplanned.1.ne']
    linarith

theorem runSteps_fits (hrisks : snap.openRiskByInstrument = some risks) {steps : List Step}
    {p q : Progress}
    (h : runSteps fmt registry agentTier c snap cfg steps p = .ok q) (hq : q.dropReason = none)
    (hnodup : steps.Nodup) (hguard : Guarded steps p.weight)
    (hp : .correlatedRiskBudget ∈ steps ∨ Fits c snap cfg risks p.weight) :
    Fits c snap cfg risks q.weight := by
  induction steps generalizing p with
  | nil =>
    cases h
    rcases hp with hp | hp
    · cases hp
    · exact hp
  | cons step rest ih =>
    obtain ⟨r, hr, hle, ⟨hdrop, rfl⟩ | ⟨hdrop, hrest⟩⟩ := runSteps_cons h
    · exact absurd hq (kept_drop agentTier c snap cfg p _ hdrop).2.2
    · obtain ⟨hsign, hguard'⟩ := guarded_cons hnodup hguard hr
      have hweight := (kept_scale agentTier c snap cfg p step hdrop).1
      refine ih hrest (List.nodup_cons.1 hnodup).2 (by rw [hweight]; exact hguard') ?_
      rw [hweight]
      by_cases hstep : step = .correlatedRiskBudget
      · subst hstep
        cases hr
        exact .inr (fits_budget hrisks hdrop)
      · rcases hp with hp | hp
        · rcases List.mem_cons.1 hp with rfl | hp
          · exact absurd rfl hstep
          · exact .inl hp
        · exact .inr (hp.scaled hle hsign)

end Runs

section Allocations

variable {fmt : Formats} {registry : String → Option Contract} {agentTier : TierReading}
  {c : CandidateSignal} {snap : PortfolioSnapshot} {cfg : ConstructionConfig} {a : Allocation}

structure Sound (snap : PortfolioSnapshot) (cfg : ConstructionConfig) (a : Allocation) : Prop where
  base : a.baseRiskPct = cfg.baseRiskPct a.candidate.tier
  identity : a.dropped = false → 0 < a.weight ∨ 0 ≤ cfg.maxWeightPerCandidate →
    a.weight = a.baseWeight * traceProduct a.trace
  zero : a.dropped = true → 0 ≤ cfg.maxWeightPerCandidate → a.weight = 0
  equity : a.dropped = false → 0 < snap.equity
  fits : a.dropped = false → ∀ risks, snap.openRiskByInstrument = some risks →
    Fits a.candidate snap cfg risks a.weight

theorem live_iff : a.live = true ↔ a.dropped = false ∧ 0 < a.weight := by
  unfold Allocation.live
  rw [Bool.and_eq_true, Bool.not_eq_true', decide_eq_true_eq]

theorem Sound.baseRiskPct_pos (h : Sound snap cfg a) : 0 < a.baseRiskPct := by
  rw [h.base]
  exact Construction.baseRiskPct_pos cfg _

theorem riskPct_of_live (h : a.live = true) : a.riskPct = a.baseRiskPct * a.weight := by
  unfold Allocation.riskPct
  rw [(live_iff.1 h).1]
  rfl

theorem nodup_pipeline : Step.pipeline.Nodup := by decide

def BaseOk (cfg : ConstructionConfig) (b : ℚ) : Prop :=
  0 ≤ cfg.maxWeightPerCandidate → 0 ≤ b ∧ b ≤ cfg.maxWeightPerCandidate

theorem sound_allocateOne {b : ℚ} {shadow : List ShadowFactor} (hb : BaseOk cfg b)
    (h : allocateOne fmt registry agentTier c snap cfg b = .ok (a, shadow)) : Sound snap cfg a := by
  unfold allocateOne at h
  split at h
  · cases h
  · rename_i p hrun
    have hproduct : p.weight = b * traceProduct p.trace := runSteps_identity hrun (mul_one b).symm
    have hle : 0 ≤ cfg.maxWeightPerCandidate → p.weight ≤ cfg.maxWeightPerCandidate := fun hmax =>
      (runSteps_le hrun (hb hmax).1 nodup_pipeline (fun _ => (hb hmax).1) (le_refl _)).trans
        (hb hmax).2
    cases h
    refine ⟨rfl, ?_, ?_, ?_, ?_⟩
    · intro hdropped hweight
      dsimp only at hdropped hweight ⊢
      rw [Bool.or_eq_false_iff] at hdropped
      rw [hdropped.1] at hweight ⊢
      rw [if_neg (by decide)] at hweight ⊢
      have hmax : 0 ≤ cfg.maxWeightPerCandidate := by
        rcases hweight with hweight | hmax
        · exact hweight.le.trans (min_le_right _ _)
        · exact hmax
      rw [min_eq_left (hle hmax)]
      exact hproduct
    · intro hdropped hmax
      dsimp only at hdropped ⊢
      by_cases hbelow : (p.dropReason.isNone && decide (p.weight < cfg.minWeightToTrade)) = true
      · rw [if_pos hbelow]
        exact min_eq_left hmax
      · rw [if_neg hbelow]
        have hsome : p.dropReason ≠ none := by
          rw [Bool.or_eq_true] at hdropped
          intro hnone
          rcases hdropped with hdropped | hdropped
          · exact hbelow hdropped
          · rw [hnone] at hdropped
            cases hdropped
        rw [runSteps_dropped hrun rfl hsome]
        exact min_eq_left hmax
    · intro hdropped
      dsimp only at hdropped
      rw [Bool.or_eq_false_iff] at hdropped
      have hnone : p.dropReason = none := by simpa using hdropped.2
      obtain ⟨w, r, hr, hkept⟩ := runSteps_passed hrun hnone .instrumentConcentration (by decide)
      cases hr
      by_contra hequity
      unfold stepInstrumentConcentration concentrationStep at hkept
      rw [if_pos (not_lt.1 hequity)] at hkept
      cases hkept
    · intro hdropped risks hrisks
      dsimp only at hdropped
      rw [Bool.or_eq_false_iff] at hdropped
      have hnone : p.dropReason = none := by simpa using hdropped.2
      intro hpos
      dsimp only at hpos ⊢
      rw [hdropped.1, if_neg (by decide)] at hpos ⊢
      have hmax : 0 ≤ cfg.maxWeightPerCandidate := hpos.le.trans (min_le_right _ _)
      rw [min_eq_left (hle hmax)] at hpos ⊢
      exact runSteps_fits hrisks hrun hnone nodup_pipeline (fun _ => (hb hmax).1)
        (.inl (by decide)) hpos

theorem Sound.rescaled (h : Sound snap cfg a) (hlive : a.live = true) {scale : ℚ} (h0 : 0 < scale)
    (h1 : scale ≤ 1) {reason : AllocationReason} (hreason : reason.factor = scale)
    {exact : Option ℚ} (hexact : ∀ x ∈ exact, x = a.weight * scale) :
    Sound snap cfg (a.rescaled scale reason exact) := by
  obtain ⟨hdropped, hpos⟩ := live_iff.1 hlive
  have hweight : (a.rescaled scale reason exact).weight = a.weight * scale := by
    unfold Allocation.rescaled
    cases exact with
    | none => rfl
    | some x => exact hexact x rfl
  refine ⟨h.base, ?_, ?_, h.equity, ?_⟩
  · intro _ _
    rw [hweight, h.identity hdropped (.inl hpos)]
    change _ = a.baseWeight * traceProduct (a.trace ++ [reason])
    rw [traceProduct_snoc, hreason, mul_assoc]
  · intro hd
    rw [show a.dropped = true from hd] at hdropped
    cases hdropped
  · intro _ risks hrisks
    rw [hweight]
    exact (h.fits hdropped risks hrisks).scaled h1 (.inl h0.le)

theorem Sound.drop (h : Sound snap cfg a) (step detail : String) :
    Sound snap cfg (a.drop step detail) where
  base := h.base
  identity hd := by cases hd
  zero _ _ := rfl
  equity hd := by cases hd
  fits hd := by cases hd

variable (fmt cfg) in
theorem capTier_of_live (hlive : a.live = true) :
    (capTier fmt cfg a).live = true ∧ (capTier fmt cfg a).weight ≤ a.weight ∧
      (capTier fmt cfg a).weight ≤ cfg.maxScaleVsTier ∧
      (capTier fmt cfg a).baseRiskPct = a.baseRiskPct := by
  obtain ⟨hdropped, hpos⟩ := live_iff.1 hlive
  unfold capTier
  by_cases hcap : a.dropped = true ∨ a.weight ≤ cfg.maxScaleVsTier
  · rw [if_pos hcap]
    refine ⟨hlive, le_refl _, ?_, rfl⟩
    rcases hcap with hcap | hcap
    · rw [hdropped] at hcap
      cases hcap
    · exact hcap
  · rw [if_neg hcap]
    push Not at hcap
    exact ⟨live_iff.2 ⟨hdropped, cfg.tier_scale.1⟩, hcap.2.le, le_refl _, rfl⟩

theorem live_of_capTier (h : (capTier fmt cfg a).live = true) : a.live = true := by
  unfold capTier at h
  split_ifs at h with hcap
  · exact h
  · push Not at hcap
    exact live_iff.2 ⟨by simpa using hcap.1, cfg.tier_scale.1.trans hcap.2⟩

theorem Sound.capTier (h : Sound snap cfg a) : Sound snap cfg (capTier fmt cfg a) := by
  unfold Construction.capTier
  split_ifs with hcap
  · exact h
  · push Not at hcap
    have hpos : 0 < a.weight := cfg.tier_scale.1.trans hcap.2
    refine h.rescaled (live_iff.2 ⟨by simpa using hcap.1, hpos⟩) (div_pos cfg.tier_scale.1 hpos)
      ((div_le_one hpos).2 hcap.2.le) rfl ?_
    intro x hx
    cases hx
    rw [mul_div_cancel₀ _ hpos.ne']

end Allocations

section Batches

variable {fmt : Formats} {snap : PortfolioSnapshot} {cfg : ConstructionConfig}
  {as : List Allocation} {g : Allocation → ℚ}

variable (a : Allocation)

theorem liveSum_cons : liveSum g (a :: as) = (if a.live then g a else 0) + liveSum g as := by
  unfold liveSum
  rw [List.filter_cons]
  split_ifs
  · rw [List.map_cons, List.sum_cons]
  · rw [zero_add]

variable {f : Allocation → Allocation}

theorem liveSum_map_le (hf : ∀ a ∈ as, (f a).live = true → a.live = true ∧ g (f a) ≤ g a)
    (hg : ∀ a ∈ as, a.live = true → 0 ≤ g a) : liveSum g (as.map f) ≤ liveSum g as := by
  induction as with
  | nil => exact le_refl _
  | cons a as ih =>
    rw [List.map_cons, liveSum_cons, liveSum_cons]
    have hrest := ih (fun x hx => hf x (List.mem_cons_of_mem _ hx))
      fun x hx => hg x (List.mem_cons_of_mem _ hx)
    refine add_le_add ?_ hrest
    by_cases hlive : (f a).live = true
    · obtain ⟨ha, hle⟩ := hf a List.mem_cons_self hlive
      rw [if_pos hlive, if_pos ha]
      exact hle
    · rw [if_neg hlive]
      split_ifs with ha
      · exact hg a List.mem_cons_self ha
      · exact le_refl _

variable {scale : ℚ}

theorem liveSum_onLive (hf : ∀ a ∈ as, a.live = true → (f a).live = true ∧ g (f a) = g a * scale) :
    liveSum g (onLive f as) = liveSum g as * scale := by
  induction as with
  | nil => exact (zero_mul _).symm
  | cons a as ih =>
    have hrest := ih fun x hx => hf x (List.mem_cons_of_mem _ hx)
    unfold onLive at hrest ⊢
    rw [List.map_cons, liveSum_cons, liveSum_cons, hrest, add_mul]
    congr 1
    by_cases hlive : a.live = true
    · obtain ⟨hlive', heq⟩ := hf a List.mem_cons_self hlive
      rw [if_pos hlive, if_pos hlive, if_pos hlive', heq]
    · rw [if_neg hlive, if_neg hlive, zero_mul]

theorem rescaled_live {a : Allocation} (h : a.live = true) (hscale : 0 < scale)
    (reason : AllocationReason) : (a.rescaled scale reason none).live = true := by
  obtain ⟨hdropped, hpos⟩ := live_iff.1 h
  exact live_iff.2 ⟨hdropped, mul_pos hpos hscale⟩

theorem riskPct_rescaled {a : Allocation} (h : a.live = true) (hscale : 0 < scale)
    (reason : AllocationReason) : (a.rescaled scale reason none).riskPct = a.riskPct * scale := by
  rw [riskPct_of_live h, riskPct_of_live (rescaled_live h hscale reason), mul_assoc]
  rfl

def AllSound (snap : PortfolioSnapshot) (cfg : ConstructionConfig) (as : List Allocation) : Prop :=
  ∀ a ∈ as, Sound snap cfg a

theorem AllSound.onLive (h : AllSound snap cfg as)
    (hf : ∀ a ∈ as, Sound snap cfg a → a.live = true → Sound snap cfg (f a)) :
    AllSound snap cfg (onLive f as) := by
  intro x hx
  obtain ⟨a, ha, rfl⟩ := List.mem_map.1 hx
  split_ifs with hlive
  · exact hf a ha (h a ha) hlive
  · exact h a ha

variable (fmt) in
theorem totalBudget_spec (h : AllSound snap cfg as) :
    AllSound snap cfg (applyTotalBudget fmt cfg as).1 ∧
      liveSum Allocation.weight (applyTotalBudget fmt cfg as).1 ≤ cfg.maxTotalWeight := by
  unfold applyTotalBudget
  dsimp only
  split_ifs with hsmall
  · refine ⟨h, ?_⟩
    rcases hsmall with hsmall | hsmall
    · exact hsmall
    · exact hsmall.trans cfg.total_weight_pos.le
  · push Not at hsmall
    have hscale : 0 < cfg.maxTotalWeight / liveSum Allocation.weight as :=
      div_pos cfg.total_weight_pos hsmall.2
    refine ⟨h.onLive fun a _ ha hlive => ha.rescaled hlive hscale
      ((div_le_one hsmall.2).2 hsmall.1.le) rfl (by simp), ?_⟩
    rw [liveSum_onLive fun a _ hlive => ⟨rescaled_live hlive hscale _, rfl⟩,
      mul_div_cancel₀ _ hsmall.2.ne']

theorem liveWeight_onLive_le
    (hf : ∀ a ∈ as, a.live = true → (f a).live = true → (f a).weight ≤ a.weight) :
    liveSum Allocation.weight (onLive f as) ≤ liveSum Allocation.weight as := by
  apply liveSum_map_le
  · intro a ha hlive
    split_ifs at hlive ⊢ with h
    · exact ⟨h, hf a ha h hlive⟩
    · exact absurd hlive h
  · intro a _ hlive
    exact (live_iff.1 hlive).2.le

theorem drop_not_live (step detail : String) : (a.drop step detail).live = false := rfl

def RiskCapped (snap : PortfolioSnapshot) (cfg : ConstructionConfig)
    (as : List Allocation) : Prop :=
  as.filter Allocation.live ≠ [] → ∀ openPct, snap.openRiskPct = some openPct →
    openPct + liveSum Allocation.riskPct as ≤ cfg.maxTotalRiskPct

variable (fmt) in
theorem totalRiskCap_spec (h : AllSound snap cfg as) :
    AllSound snap cfg (applyTotalRiskCap fmt cfg snap as).1 ∧
      liveSum Allocation.weight (applyTotalRiskCap fmt cfg snap as).1 ≤
        liveSum Allocation.weight as ∧
      RiskCapped snap cfg (applyTotalRiskCap fmt cfg snap as).1 := by
  unfold applyTotalRiskCap
  dsimp only
  by_cases hnone : as.filter Allocation.live = []
  · rw [if_pos hnone]
    exact ⟨h, le_refl _, fun hne => absurd hnone hne⟩
  rw [if_neg hnone]
  by_cases hheadroom : cfg.maxTotalRiskPct - snap.openRiskPct.getD 0 ≤ 0
  · rw [if_pos hheadroom]
    refine ⟨h.onLive fun a _ ha _ => ha.drop _ _, liveWeight_onLive_le ?_, ?_⟩
    · intro a _ _ hlive
      rw [drop_not_live] at hlive
      cases hlive
    · intro hne
      obtain ⟨x, hx⟩ := List.exists_mem_of_ne_nil _ hne
      obtain ⟨hx, hlive⟩ := List.mem_filter.1 hx
      obtain ⟨a, -, rfl⟩ := List.mem_map.1 hx
      by_cases ha : a.live = true
      · rw [if_pos ha, drop_not_live] at hlive
        cases hlive
      · rw [if_neg ha] at hlive
        exact absurd hlive ha
  rw [if_neg hheadroom]
  by_cases hplanned : liveSum Allocation.riskPct as ≤ cfg.maxTotalRiskPct - snap.openRiskPct.getD 0
  · rw [if_pos hplanned]
    refine ⟨h, le_refl _, ?_⟩
    intro _ openPct hopen
    rw [hopen, Option.getD_some] at hplanned
    linarith
  · rw [if_neg hplanned]
    push Not at hheadroom hplanned
    have hpos : 0 < liveSum Allocation.riskPct as := hheadroom.trans hplanned
    have hscale := div_pos hheadroom hpos
    refine ⟨h.onLive fun a _ ha hlive => ha.rescaled hlive hscale
      ((div_le_one hpos).2 hplanned.le) rfl (by simp), liveWeight_onLive_le ?_, ?_⟩
    · intro a _ hlive _
      exact mul_le_of_le_one_right (live_iff.1 hlive).2.le ((div_le_one hpos).2 hplanned.le)
    · intro _ openPct hopen
      rw [liveSum_onLive fun a _ hlive =>
        ⟨rescaled_live hlive hscale _, riskPct_rescaled hlive hscale _⟩,
        mul_div_cancel₀ _ hpos.ne', hopen, Option.getD_some]
      linarith

variable (fmt) in
theorem tierCap_spec (h : AllSound snap cfg as) : AllSound snap cfg (applyTierCap fmt cfg as) ∧
      liveSum Allocation.weight (applyTierCap fmt cfg as) ≤ liveSum Allocation.weight as ∧
      (RiskCapped snap cfg as → RiskCapped snap cfg (applyTierCap fmt cfg as)) ∧
      ∀ a ∈ applyTierCap fmt cfg as, a.live = true → a.weight ≤ 1 := by
  unfold applyTierCap
  refine ⟨?_, ?_, ?_, ?_⟩
  · intro x hx
    obtain ⟨a, ha, rfl⟩ := List.mem_map.1 hx
    exact (h a ha).capTier
  · apply liveSum_map_le
    · intro a _ hlive
      have ha := live_of_capTier hlive
      exact ⟨ha, (capTier_of_live fmt cfg ha).2.1⟩
    · intro a _ hlive
      exact (live_iff.1 hlive).2.le
  · intro hcapped hne openPct hopen
    obtain ⟨x, hx⟩ := List.exists_mem_of_ne_nil _ hne
    obtain ⟨hx, hlive⟩ := List.mem_filter.1 hx
    obtain ⟨a, ha, rfl⟩ := List.mem_map.1 hx
    have hne' : as.filter Allocation.live ≠ [] :=
      List.ne_nil_of_mem (List.mem_filter.2 ⟨ha, live_of_capTier hlive⟩)
    have hle : liveSum Allocation.riskPct (as.map (capTier fmt cfg)) ≤
        liveSum Allocation.riskPct as := by
      apply liveSum_map_le
      · intro b hb hblive
        have hlive' := live_of_capTier hblive
        obtain ⟨-, hweight, -, hbase⟩ := capTier_of_live fmt cfg hlive'
        refine ⟨hlive', ?_⟩
        rw [riskPct_of_live hblive, riskPct_of_live hlive', hbase]
        exact mul_le_mul_of_nonneg_left hweight (h b hb).baseRiskPct_pos.le
      · intro b hb hblive
        rw [riskPct_of_live hblive]
        exact mul_nonneg (h b hb).baseRiskPct_pos.le (live_iff.1 hblive).2.le
    have := hcapped hne' openPct hopen
    linarith
  · intro x hx hlive
    obtain ⟨a, -, rfl⟩ := List.mem_map.1 hx
    exact (capTier_of_live fmt cfg (live_of_capTier hlive)).2.2.1.trans cfg.tier_scale.2

end Batches

section BaseWeights

variable {snap : PortfolioSnapshot} {cfg : ConstructionConfig} {candidates : List CandidateSignal}

theorem baseOk_zero : BaseOk cfg 0 := fun hmax => ⟨le_refl _, hmax⟩

theorem baseOk_min {x : ℚ} (h : 0 ≤ x) : BaseOk cfg (min cfg.maxWeightPerCandidate x) :=
  fun hmax => ⟨le_min hmax h, min_le_left _ _⟩

theorem baseOk_get {d : Dict String ℚ} (h : ∀ k v, d.get k = some v → BaseOk cfg v) (k : String) :
    BaseOk cfg ((d.get k).getD 0) := by
  cases hk : d.get k with
  | none => exact baseOk_zero
  | some v => exact h k v hk

variable {f : CandidateSignal → ℚ}

theorem get_ofList_mem {k : String} {v : ℚ}
    (h : (Dict.ofList (candidates.map fun c => (c.key, f c))).get k = some v) :
    ∃ c ∈ candidates, f c = v := by
  obtain ⟨c, hc, heq⟩ := List.mem_map.1 (Dict.mem_of_get_ofList h)
  cases heq
  exact ⟨c, hc, rfl⟩

theorem baseOk_proportional (hf : ∀ c ∈ candidates, 0 ≤ f c) (k : String) :
    BaseOk cfg (((proportional cfg
      (Dict.ofList (candidates.map fun c => (c.key, f c)))).get k).getD 0) := by
  apply baseOk_get
  intro k v hv
  unfold proportional at hv
  dsimp only at hv
  rw [Dict.get_map, Option.map_eq_some_iff] at hv
  obtain ⟨x, hx, rfl⟩ := hv
  obtain ⟨c, hc, rfl⟩ := get_ofList_mem hx
  split_ifs with htotal
  · exact baseOk_zero
  · apply baseOk_min
    exact div_nonneg (mul_nonneg cfg.total_weight_pos.le (hf c hc)) (not_le.1 htotal).le

theorem baseOk_baseWeights (allocator : Allocator) (k : String) :
    BaseOk cfg (((allocator.baseWeights candidates snap cfg).get k).getD 0) := by
  unfold Allocator.baseWeights
  cases allocator with
  | equalRisk =>
    apply baseOk_get
    intro k v hv
    obtain ⟨c, -, rfl⟩ := get_ofList_mem hv
    exact baseOk_min (div_nonneg cfg.total_weight_pos.le (Nat.cast_nonneg _))
  | volatilityParity =>
    apply baseOk_proportional
    intro c _
    exact div_nonneg zero_le_one c.vol_pos.le
  | correlationPenalised =>
    dsimp only
    split_ifs
    · apply baseOk_get
      intro k v hv
      obtain ⟨c, -, rfl⟩ := get_ofList_mem hv
      exact baseOk_min cfg.total_weight_pos.le
    · apply baseOk_proportional
      intro c _
      exact le_max_left _ _

end BaseWeights

section Results

variable {pc : PortfolioConstructor} {snap : PortfolioSnapshot}

variable {cs : List CandidateSignal}

theorem sound_allocateEach {base : Dict String ℚ} {as : List Allocation}
    {shadows : List ShadowFactor}
    (hbase : ∀ k, BaseOk pc.config ((base.get k).getD 0))
    (h : pc.allocateEach snap base cs = .ok (as, shadows)) : AllSound snap pc.config as := by
  induction cs generalizing as shadows with
  | nil =>
    cases h
    intro a ha
    cases ha
  | cons c rest ih =>
    unfold PortfolioConstructor.allocateEach at h
    obtain ⟨⟨a, shadow⟩, ha, h⟩ := bind_ok h
    obtain ⟨⟨later, more⟩, hlater, h⟩ := bind_ok h
    cases h
    intro x hx
    rcases List.mem_cons.1 hx with rfl | hx
    · exact sound_allocateOne (hbase c.key) ha
    · exact ih hlater x hx

def Registered (registry : String → Option Contract) (c : CandidateSignal) : Prop :=
  (registry c.symbol).isSome = true

variable (snap) in
theorem factorOf_total {c : CandidateSignal} (h : Registered pc.registry c) (w : ℚ) (step : Step) :
    ∃ r, factorOf pc.formats pc.registry pc.agentTier c snap pc.config w step = .ok r := by
  obtain ⟨i, hi⟩ := Option.isSome_iff_exists.1 h
  have hinstrument : c.instrument pc.registry = .ok i := by
    unfold CandidateSignal.instrument
    rw [hi]
  cases step
  case assetClassConcentration =>
    unfold factorOf
    split_ifs
    · exact ⟨_, rfl⟩
    · rw [hinstrument]
      exact ⟨_, rfl⟩
  case currencyExposure =>
    unfold factorOf
    split_ifs
    · exact ⟨_, rfl⟩
    · rw [hinstrument]
      exact ⟨_, rfl⟩
  all_goals exact ⟨_, rfl⟩

variable (snap) in
theorem runSteps_total {c : CandidateSignal} (h : Registered pc.registry c) (steps : List Step)
    (p : Progress) :
    ∃ q, runSteps pc.formats pc.registry pc.agentTier c snap pc.config steps p = .ok q := by
  induction steps generalizing p with
  | nil => exact ⟨p, rfl⟩
  | cons step rest ih =>
    obtain ⟨r, hr⟩ := factorOf_total snap h p.weight step
    unfold runSteps
    rw [hr]
    dsimp only
    rw [if_neg (not_lt.2 (factorOf_le hr))]
    split_ifs
    · exact ⟨_, rfl⟩
    · exact ih _

variable (snap) in
theorem allocateEach_total (h : ∀ c ∈ cs, Registered pc.registry c)
    (base : Dict String ℚ) : ∃ x, pc.allocateEach snap base cs = .ok x := by
  induction cs with
  | nil => exact ⟨_, rfl⟩
  | cons c rest ih =>
    obtain ⟨x, hx⟩ := ih fun d hd => h d (List.mem_cons_of_mem _ hd)
    obtain ⟨p, hp⟩ := runSteps_total snap (h c List.mem_cons_self) Step.pipeline
      ⟨(base.get c.key).getD 0, [], [], none, []⟩
    unfold PortfolioConstructor.allocateEach allocateOne
    rw [hp, hx]
    exact ⟨_, rfl⟩

theorem ordered_perm {cs cs' : List CandidateSignal} (hperm : cs.Perm cs')
    (hkeys : (cs.map PortfolioConstructor.orderKey).Nodup) :
    PortfolioConstructor.ordered cs = PortfolioConstructor.ordered cs' := by
  have hto : (PortfolioConstructor.ordered cs).Perm cs := List.perm_insertionSort _ _
  have hto' : (PortfolioConstructor.ordered cs').Perm cs' := List.perm_insertionSort _ _
  refine List.Perm.eq_of_pairwise ?_ (List.pairwise_insertionSort _ _)
    (List.pairwise_insertionSort _ _) (hto.trans (hperm.trans hto'.symm))
  intro a b ha hb hab hba
  exact List.inj_on_of_nodup_map hkeys (hto.mem_iff.1 ha)
    (hperm.mem_iff.2 (hto'.mem_iff.1 hb)) (le_antisymm hab hba)

structure CapsHold (snap : PortfolioSnapshot) (cfg : ConstructionConfig) (r : AllocationResult) :
    Prop where
  risk : ∀ a ∈ r.accepted, 0 ≤ a.riskPct ∧ a.riskPct ≤ a.baseRiskPct
  total_weight : r.totalWeight ≤ cfg.maxTotalWeight
  total_risk : r.accepted ≠ [] → ∀ risks, snap.openRiskByInstrument = some risks →
    ∃ openPct, snap.openRiskPct = some openPct ∧ openPct + r.totalRiskPct ≤ cfg.maxTotalRiskPct
  correlated : ∀ a ∈ r.accepted, ∀ risks, snap.openRiskByInstrument = some risks →
    correlatedOpen a.candidate snap cfg risks + a.riskPct ≤ cfg.maxCorrelatedRiskPct
  product : ∀ a ∈ r.accepted, a.weight = a.baseWeight * traceProduct a.trace
  product_kept : 0 ≤ cfg.maxWeightPerCandidate → ∀ a ∈ r.allocations, a.dropped = false →
    a.weight = a.baseWeight * traceProduct a.trace
  dropped : 0 ≤ cfg.maxWeightPerCandidate → ∀ a ∈ r.allocations, a.dropped = true → a.weight = 0

theorem capsHold_of {cfg : ConstructionConfig} {r : AllocationResult}
    (hsound : AllSound snap cfg r.allocations)
    (hweight : liveSum Allocation.weight r.allocations ≤ cfg.maxTotalWeight)
    (hrisk : RiskCapped snap cfg r.allocations)
    (hone : ∀ a ∈ r.allocations, a.live = true → a.weight ≤ 1) : CapsHold snap cfg r where
  risk a ha := by
    obtain ⟨ha, hlive⟩ := List.mem_filter.1 ha
    have hbase := (hsound a ha).baseRiskPct_pos.le
    rw [riskPct_of_live hlive]
    exact ⟨mul_nonneg hbase (live_iff.1 hlive).2.le, mul_le_of_le_one_right hbase (hone a ha hlive)⟩
  total_weight := hweight
  total_risk hne risks hrisks := by
    obtain ⟨a, ha⟩ := List.exists_mem_of_ne_nil _ hne
    obtain ⟨ha, hlive⟩ := List.mem_filter.1 ha
    have hequity := (hsound a ha).equity (live_iff.1 hlive).1
    have hopen : snap.openRiskPct =
        some ((risks.entries.map fun e => max 0 e.2).sum / snap.equity * 100) := by
      unfold PortfolioSnapshot.openRiskPct
      rw [hrisks]
      exact if_neg (not_le.2 hequity)
    exact ⟨_, hopen, hrisk hne _ hopen⟩
  correlated a ha risks hrisks := by
    obtain ⟨ha, hlive⟩ := List.mem_filter.1 ha
    obtain ⟨hdropped, hpos⟩ := live_iff.1 hlive
    rw [riskPct_of_live hlive, (hsound a ha).base]
    exact (hsound a ha).fits hdropped risks hrisks hpos
  product a ha := by
    obtain ⟨ha, hlive⟩ := List.mem_filter.1 ha
    obtain ⟨hdropped, hpos⟩ := live_iff.1 hlive
    exact (hsound a ha).identity hdropped (.inl hpos)
  product_kept hmax a ha hdropped := (hsound a ha).identity hdropped (.inr hmax)
  dropped hmax a ha hdropped := (hsound a ha).zero hdropped hmax

variable {candidates : List CandidateSignal}

theorem capsHold_allocate {r : AllocationResult}
    (h : pc.allocate candidates snap = .ok r) : CapsHold snap pc.config r := by
  unfold PortfolioConstructor.allocate at h
  split_ifs at h with hempty
  · cases h
    refine capsHold_of (fun a ha => ?_) pc.config.total_weight_pos.le (fun hne => absurd rfl hne)
      fun a ha => ?_
    all_goals cases ha
  · obtain ⟨⟨as, shadow⟩, has, h⟩ := bind_ok h
    cases h
    have hsound := sound_allocateEach (fun k => baseOk_baseWeights pc.allocator k) has
    obtain ⟨hbudget, hweight⟩ := totalBudget_spec pc.formats hsound
    obtain ⟨hcap, hweight', hrisk⟩ := totalRiskCap_spec pc.formats hbudget
    obtain ⟨htier, hweight'', hrisk', hone⟩ := tierCap_spec pc.formats hcap
    exact capsHold_of htier (hweight''.trans (hweight'.trans hweight)) (hrisk' hrisk) hone

theorem allocate_total
    (h : ∀ c ∈ candidates, Registered pc.registry c) : ∃ r,
      pc.allocate candidates snap = .ok r := by
  unfold PortfolioConstructor.allocate
  split_ifs
  · exact ⟨_, rfl⟩
  · have hordered : ∀ c ∈ PortfolioConstructor.ordered candidates, Registered pc.registry c :=
      fun c hc => h c ((List.perm_insertionSort _ _).mem_iff.1 hc)
    obtain ⟨x, hx⟩ := allocateEach_total snap hordered
      (pc.allocator.baseWeights (PortfolioConstructor.ordered candidates) snap pc.config)
    dsimp only
    rw [hx]
    exact ⟨_, rfl⟩

theorem allocate_perm {candidates candidates' : List CandidateSignal}
    (hperm : candidates.Perm candidates')
    (hkeys : (candidates.map PortfolioConstructor.orderKey).Nodup) :
    pc.allocate candidates snap = pc.allocate candidates' snap := by
  unfold PortfolioConstructor.allocate
  rw [ordered_perm hperm hkeys]
  by_cases hempty : candidates = []
  · subst hempty
    rw [List.nil_perm.1 hperm]
  · have hempty' : candidates' ≠ [] := by
      rintro rfl
      exact hempty (List.perm_nil.1 hperm)
    rw [if_neg hempty, if_neg hempty']

/-- Every result keeps to the caps, there is one wherever the instruments are registered, and
the order of the candidates does not matter where their keys are distinct. -/
theorem portfolio_caps (pc : PortfolioConstructor) (candidates : List CandidateSignal)
    (snap : PortfolioSnapshot) :
    (∀ r, pc.allocate candidates snap = .ok r → CapsHold snap pc.config r) ∧
      ((∀ c ∈ candidates, Registered pc.registry c) → ∃ r, pc.allocate candidates snap = .ok r) ∧
      ∀ candidates', candidates.Perm candidates' →
        (candidates.map PortfolioConstructor.orderKey).Nodup →
        pc.allocate candidates' snap = pc.allocate candidates snap :=
  ⟨fun _ => capsHold_allocate, allocate_total,
    fun _ hperm hkeys => (allocate_perm hperm hkeys).symm⟩

end Results

section Overcommitted

/-- `f"{q:.{decimals}f}"`. -/
def fixedText (decimals : ℕ) (q : ℚ) : String :=
  let units := (Text.roundHalfEven (|q| * 10 ^ decimals)).toNat
  let fraction := Text.digits (units % 10 ^ decimals)
  let whole := (if q < 0 then ['-'] else []) ++ Text.digits (units / 10 ^ decimals)
  if decimals = 0 then String.ofList whole
  else
    String.ofList (whole ++ '.' :: List.replicate (decimals - fraction.length) '0' ++ fraction)

def dollarPairs (symbol : String) : Option Contract :=
  if symbol = "EURUSD" then some ⟨.fxMajor, "EUR", "USD"⟩
  else if symbol = "GBPUSD" then some ⟨.fxMajor, "GBP", "USD"⟩
  else none

/-- `PortfolioConstructor()`. -/
def defaultConstructor : PortfolioConstructor where
  formats := ⟨fixedText, fixedText 1⟩
  registry := dollarPairs
  allocator := .equalRisk
  config := defaultConfig
  agentTier := ⟨.T1_ANNOTATE_SHADOW, "not_supplied", none, .T1_ANNOTATE_SHADOW⟩

def unmeasured : CorrelationMatrix where
  labels := []
  matrix := []
  default := 3 / 10
  square := by decide
  unique := List.nodup_nil
  bounded := by decide

def bookWith (openRisk : ℚ) : PortfolioSnapshot where
  account := ⟨100000, 0, 100000⟩
  asOf := some 0
  openPositions := []
  instrumentExposure := Dict.empty
  currencyExposure := Dict.empty
  assetClassExposure := Dict.empty
  instrumentCorrelation := unmeasured
  strategyCorrelation := unmeasured
  realisedPortfolioVol := 0
  regime := "trend"
  openRiskByInstrument := some (Dict.empty.set "EURUSD" openRisk)

def sterling (id : String) (health : ℚ) (h : 0 ≤ health ∧ health ≤ 1) : CandidateSignal where
  signal := ⟨id, "trend", "GBPUSD", .long, 1⟩
  annualisedVol := 1 / 10
  health := health
  lifecycle := .live
  tier := .probationary
  regime := none
  conviction := none
  vol_pos := by decide +kernel
  health_unit := h

def healthy : CandidateSignal := sterling "sig-1" 1 (by decide)

def degraded : CandidateSignal := sterling "sig-2" (1 / 20) (by decide +kernel)

theorem portfolio_caps_sterling :
    ∃ r, defaultConstructor.allocate [degraded, healthy] (bookWith 1000) = .ok r ∧
      CapsHold (bookWith 1000) defaultConfig r ∧
      defaultConstructor.allocate [healthy, degraded] (bookWith 1000) = .ok r := by
  obtain ⟨hcaps, htotal, hperm⟩ :=
    portfolio_caps defaultConstructor [degraded, healthy] (bookWith 1000)
  obtain ⟨r, hr⟩ := htotal (by unfold Registered; decide)
  refine ⟨r, hr, hcaps r hr, ?_⟩
  rw [hperm _ (List.Perm.swap _ _ _) (by decide), hr]

/-- Open risk above its cap stays there with nothing accepted, and a weight dropped for being
below the minimum is not the product of its trace. -/
theorem caps_breached : ∃ r, defaultConstructor.allocate [healthy, degraded]
    (bookWith 7000) = .ok r ∧
    (∃ openPct, (bookWith 7000).openRiskPct = some openPct ∧
      ¬ openPct + r.totalRiskPct ≤ defaultConfig.maxTotalRiskPct) ∧
    ∃ a ∈ r.allocations, a.weight ≠ a.baseWeight * traceProduct a.trace := by
  have hrun : (match defaultConstructor.allocate [healthy, degraded] (bookWith 7000) with
      | .ok r => decide (r.totalRiskPct = 0) &&
          decide (∃ a ∈ r.allocations, a.weight ≠ a.baseWeight * traceProduct a.trace)
      | .error _ => false) = true := by
    decide +kernel
  cases h : defaultConstructor.allocate [healthy, degraded] (bookWith 7000) with
  | error e =>
    rw [h] at hrun
    cases hrun
  | ok r =>
    rw [h] at hrun
    dsimp only at hrun
    rw [Bool.and_eq_true, decide_eq_true_eq, decide_eq_true_eq] at hrun
    refine ⟨r, rfl, ⟨7, by decide +kernel, ?_⟩, hrun.2⟩
    rw [hrun.1]
    decide +kernel

end Overcommitted

end Fiboki.Construction
