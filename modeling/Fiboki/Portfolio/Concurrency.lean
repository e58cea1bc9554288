import Fiboki.Portfolio.Caps

/-!
Concurrent positions of one strategy: the cap of its tier against what a batch accepts.
-/

namespace Fiboki.Construction

open Wire

section Kept

variable (fmt : Formats) (registry : String → Option Contract) (agentTier : TierReading)
  (c : CandidateSignal) (snap : PortfolioSnapshot) (cfg : ConstructionConfig)

def scaledBy : List Step → ℚ → Option ℚ
  | [], w => some w
  | step :: rest, w =>
    match factorOf fmt registry agentTier c snap cfg w step with
    | .error _ => none
    | .ok r => if r.hardDrop then none else scaledBy rest (w * r.factor)

def passes (steps : List Step) (b : ℚ) : Bool :=
  match scaledBy fmt registry agentTier c snap cfg steps b with
  | none => false
  | some w => cfg.minWeightToTrade ≤ w && 0 < min w cfg.maxWeightPerCandidate

def held (snap : PortfolioSnapshot) (strategyId : String) : ℕ :=
  snap.openPositions.countP fun p => p.strategyId = strategyId

/-- Before the batch, the strategy holds fewer positions than the tier of its candidate allows. -/
def hasSeat (c : CandidateSignal) (snap : PortfolioSnapshot) (cfg : ConstructionConfig) : Bool :=
  match cfg.tierMaxConcurrent c.tier with
  | none => true
  | some cap => (held snap c.strategyId : ℤ) < cap

def otherSteps : List Step := Step.pipeline.filter (· ≠ .tier)

variable {fmt registry agentTier c snap cfg}

theorem stepTier_hasSeat : (stepTier fmt c snap cfg).hardDrop = !hasSeat c snap cfg := by
  have hheld : ((snap.openPositions.filter fun p => decide (p.strategyId = c.strategyId)).length) =
      held snap c.strategyId := List.countP_eq_length_filter.symm
  unfold stepTier hasSeat
  rw [hheld]
  cases cfg.tierMaxConcurrent c.tier with
  | none => rfl
  | some cap =>
    dsimp only
    by_cases hfull : cap ≤ (held snap c.strategyId : ℤ)
    · simp [hfull, dropAt]
    · simp [hfull, not_le.1 hfull, scaleBy]

theorem stepTier_factor (h : hasSeat c snap cfg = true) : (stepTier fmt c snap cfg).factor = 1 := by
  have hkept : (stepTier fmt c snap cfg).hardDrop = false := by
    rw [stepTier_hasSeat, h]
    rfl
  unfold stepTier at hkept ⊢
  dsimp only at hkept ⊢
  split at hkept
  · split_ifs at hkept ⊢ with hfull
    · cases hkept
    · rfl
  · rfl

theorem scaledBy_seated (h : hasSeat c snap cfg = true) (steps : List Step) (w : ℚ) :
    scaledBy fmt registry agentTier c snap cfg steps w =
      scaledBy fmt registry agentTier c snap cfg (steps.filter (· ≠ .tier)) w := by
  induction steps generalizing w with
  | nil => rfl
  | cons step rest ih =>
    by_cases htier : step = .tier
    · subst htier
      have hdrop : (stepTier fmt c snap cfg).hardDrop = false := by
        rw [stepTier_hasSeat, h]
        rfl
      rw [List.filter_cons_of_neg (by simp), scaledBy, factorOf]
      dsimp only
      rw [hdrop, stepTier_factor h, mul_one]
      exact ih w
    · rw [List.filter_cons_of_pos (by simp [htier]), scaledBy, scaledBy]
      simp only [ih]

theorem scaledBy_full (h : hasSeat c snap cfg = false) {steps : List Step} (htier : .tier ∈ steps)
    (w : ℚ) : scaledBy fmt registry agentTier c snap cfg steps w = none := by
  induction steps generalizing w with
  | nil => exact absurd htier List.not_mem_nil
  | cons step rest ih =>
    rw [scaledBy]
    rcases List.mem_cons.1 htier with rfl | hrest
    · have hdrop : (stepTier fmt c snap cfg).hardDrop = true := by
        rw [stepTier_hasSeat, h]
        rfl
      rw [factorOf]
      dsimp only
      rw [hdrop]
      rfl
    · cases factorOf fmt registry agentTier c snap cfg w step with
      | error e => rfl
      | ok r =>
        dsimp only
        split_ifs
        · rfl
        · exact ih hrest _

/-- The tier step turns a candidate away when its strategy is at the cap before the batch,
and says nothing otherwise. -/
theorem passes_pipeline (b : ℚ) :
    passes fmt registry agentTier c snap cfg Step.pipeline b =
      (hasSeat c snap cfg && passes fmt registry agentTier c snap cfg otherSteps b) := by
  unfold passes
  cases hseat : hasSeat c snap cfg with
  | true =>
    rw [scaledBy_seated hseat, Bool.true_and]
    rfl
  | false =>
    rw [scaledBy_full hseat (by decide), Bool.false_and]

theorem scaledBy_of_runSteps {steps : List Step} {p q : Progress}
    (h : runSteps fmt registry agentTier c snap cfg steps p = .ok q) (hp : p.dropReason = none) :
    scaledBy fmt registry agentTier c snap cfg steps p.weight =
      if q.dropReason = none then some q.weight else none := by
  induction steps generalizing p with
  | nil =>
    cases h
    exact (if_pos hp).symm
  | cons step rest ih =>
    obtain ⟨r, hr, -, ⟨hdrop, rfl⟩ | ⟨hdrop, hrest⟩⟩ := runSteps_cons h
    · rw [scaledBy, hr, if_neg (kept_drop agentTier c snap cfg p step hdrop).2.2]
      exact if_pos hdrop
    · obtain ⟨hweight, -, hreason⟩ := kept_scale agentTier c snap cfg p step hdrop
      have hlater := ih hrest (hreason.trans hp)
      rw [hweight] at hlater
      rw [scaledBy, hr, ← hlater]
      exact if_neg (by rw [hdrop]; decide)

theorem live_allocateOne {b : ℚ} {a : Allocation} {shadow : List ShadowFactor}
    (h : allocateOne fmt registry agentTier c snap cfg b = .ok (a, shadow)) :
    a.candidate = c ∧
      a.live = passes fmt registry agentTier c snap cfg Step.pipeline b := by
  unfold allocateOne at h
  split at h
  · cases h
  · rename_i p hrun
    have hscaled := scaledBy_of_runSteps hrun rfl
    cases h
    refine ⟨rfl, ?_⟩
    rw [passes, hscaled]
    cases hreason : p.dropReason with
    | none =>
      rw [if_pos rfl]
      by_cases hsmall : p.weight < cfg.minWeightToTrade
      · simp [Allocation.live, hsmall]
      · simp [Allocation.live, hsmall, not_lt.1 hsmall]
    | some reason => simp [Allocation.live]

end Kept

section Seats

variable {fmt : Formats} {snap : PortfolioSnapshot} {cfg : ConstructionConfig}
    {as : List Allocation}

def seat (a : Allocation) : CandidateSignal × Bool := (a.candidate, a.live)

theorem seat_onLive {f : Allocation → Allocation}
    (hf : ∀ a ∈ as, a.live = true → seat (f a) = seat a) :
    (onLive f as).map seat = as.map seat := by
  rw [onLive, List.map_map]
  apply List.map_congr_left
  intro a ha
  dsimp only [Function.comp]
  split_ifs with hlive
  · exact hf a ha hlive
  · rfl

theorem seat_rescaled {a : Allocation} (h : a.live = true) {scale : ℚ} (hscale : 0 < scale)
    (reason : AllocationReason) : seat (a.rescaled scale reason none) = seat a := by
  rw [seat, rescaled_live h hscale reason, seat, h]
  rfl

variable (fmt cfg) in
theorem totalBudget_seats : (applyTotalBudget fmt cfg as).1.map seat = as.map seat := by
  unfold applyTotalBudget
  dsimp only
  split_ifs with hsmall
  · rfl
  · push Not at hsmall
    exact seat_onLive fun a _ hlive =>
      seat_rescaled hlive (div_pos cfg.total_weight_pos hsmall.2) _

def riskRoom (snap : PortfolioSnapshot) (cfg : ConstructionConfig) : Bool :=
  0 < cfg.maxTotalRiskPct - snap.openRiskPct.getD 0

variable (fmt) in
theorem totalRiskCap_seats : (applyTotalRiskCap fmt cfg snap as).1.map seat =
      as.map fun a => (a.candidate, a.live && riskRoom snap cfg) := by
  unfold applyTotalRiskCap
  dsimp only
  by_cases hnone : as.filter Allocation.live = []
  · rw [if_pos hnone]
    apply List.map_congr_left
    intro a ha
    have hdead : a.live = false := Bool.eq_false_iff.2 fun hlive => by
      have hmem : a ∈ as.filter Allocation.live := List.mem_filter.2 ⟨ha, hlive⟩
      rw [hnone] at hmem
      exact List.not_mem_nil hmem
    rw [seat, hdead, Bool.false_and]
  rw [if_neg hnone]
  by_cases hheadroom : cfg.maxTotalRiskPct - snap.openRiskPct.getD 0 ≤ 0
  · have hroom : riskRoom snap cfg = false := decide_eq_false (not_lt.2 hheadroom)
    rw [if_pos hheadroom, hroom, onLive, List.map_map]
    apply List.map_congr_left
    intro a _
    dsimp only [Function.comp]
    rw [Bool.and_false]
    split_ifs with hlive
    · rfl
    · exact Prod.ext rfl (Bool.eq_false_iff.2 hlive)
  have hroom : riskRoom snap cfg = true := decide_eq_true (not_le.1 hheadroom)
  have hkeep : (as.map fun a => (a.candidate, a.live && riskRoom snap cfg)) = as.map seat := by
    simp only [hroom, Bool.and_true]
    rfl
  rw [if_neg hheadroom, hkeep]
  by_cases hplanned : liveSum Allocation.riskPct as ≤ cfg.maxTotalRiskPct - snap.openRiskPct.getD 0
  · rw [if_pos hplanned]
  · rw [if_neg hplanned]
    have hpos : 0 < liveSum Allocation.riskPct as := (not_le.1 hheadroom).trans (not_le.1 hplanned)
    exact seat_onLive fun a _ hlive => seat_rescaled hlive (div_pos (not_le.1 hheadroom) hpos) _

variable (fmt cfg) in
theorem tierCap_seats : (applyTierCap fmt cfg as).map seat = as.map seat := by
  rw [applyTierCap, List.map_map]
  apply List.map_congr_left
  intro a _
  dsimp only [Function.comp]
  have hcandidate : (capTier fmt cfg a).candidate = a.candidate := by
    unfold capTier
    split_ifs <;> rfl
  have hlive : (capTier fmt cfg a).live = a.live :=
    Bool.eq_iff_iff.2 ⟨live_of_capTier, fun h => (capTier_of_live fmt cfg h).1⟩
  exact Prod.ext hcandidate hlive

end Seats

section Cap

variable {pc : PortfolioConstructor} {snap : PortfolioSnapshot}

def startWeight (pc : PortfolioConstructor) (snap : PortfolioSnapshot)
    (candidates : List CandidateSignal) (c : CandidateSignal) : ℚ :=
  ((pc.allocator.baseWeights (PortfolioConstructor.ordered candidates) snap pc.config).get
    c.key).getD 0

/-- What every step and pass but the tier's concurrency check says of a candidate. -/
def clearsOthers (pc : PortfolioConstructor) (snap : PortfolioSnapshot)
    (candidates : List CandidateSignal) (c : CandidateSignal) : Bool :=
  passes pc.formats pc.registry pc.agentTier c snap pc.config otherSteps
    (startWeight pc snap candidates c) && riskRoom snap pc.config

def AllocationResult.acceptedOf (r : AllocationResult) (strategyId : String) : ℕ :=
  r.accepted.countP fun a => a.candidate.strategyId = strategyId

theorem allocateEach_seats {base : Dict String ℚ} {cs : List CandidateSignal} {as : List Allocation}
    {shadows : List ShadowFactor} (h : pc.allocateEach snap base cs = .ok (as, shadows)) :
    as.map seat = cs.map fun c => (c, passes pc.formats pc.registry pc.agentTier c snap pc.config
      Step.pipeline ((base.get c.key).getD 0)) := by
  induction cs generalizing as shadows with
  | nil =>
    cases h
    rfl
  | cons c rest ih =>
    unfold PortfolioConstructor.allocateEach at h
    obtain ⟨⟨a, shadow⟩, ha, h⟩ := bind_ok h
    obtain ⟨⟨later, more⟩, hlater, h⟩ := bind_ok h
    cases h
    obtain ⟨hcandidate, hlive⟩ := live_allocateOne ha
    rw [List.map_cons, List.map_cons, ih hlater, seat, hcandidate, hlive]

variable (snap) in
theorem batch_seats (as : List Allocation) : (pc.batch snap as).1.map seat =
    as.map fun a => (a.candidate, a.live && riskRoom snap pc.config) := by
  have hroom : (fun a : Allocation => (a.candidate, a.live && riskRoom snap pc.config)) =
      (fun x => (x.1, x.2 && riskRoom snap pc.config)) ∘ seat := rfl
  show (applyTierCap pc.formats pc.config (applyTotalRiskCap pc.formats pc.config snap
    (applyTotalBudget pc.formats pc.config as).1).1).map seat = _
  rw [tierCap_seats, totalRiskCap_seats, hroom, ← List.map_map, totalBudget_seats, List.map_map]

variable {candidates : List CandidateSignal}

variable {r : AllocationResult}

theorem allocate_seats
    (h : pc.allocate candidates snap = .ok r) : r.allocations.map seat =
      (PortfolioConstructor.ordered candidates).map fun c =>
        (c, hasSeat c snap pc.config && clearsOthers pc snap candidates c) := by
  unfold PortfolioConstructor.allocate at h
  split_ifs at h with hempty
  · cases h
    subst hempty
    rfl
  · obtain ⟨⟨as, shadow⟩, has, h⟩ := bind_ok h
    have hbatch : (pc.batch snap as).1.map seat =
        as.map fun a => (a.candidate, a.live && riskRoom snap pc.config) := batch_seats snap as
    dsimp only at h
    generalize pc.batch snap as = b at h hbatch
    obtain ⟨allocations, notes⟩ := b
    cases h
    have hroom : (fun a : Allocation => (a.candidate, a.live && riskRoom snap pc.config)) =
        (fun x => (x.1, x.2 && riskRoom snap pc.config)) ∘ seat := rfl
    rw [hbatch, hroom, ← List.map_map, allocateEach_seats has, List.map_map]
    apply List.map_congr_left
    intro c _
    rw [clearsOthers, ← Bool.and_assoc, startWeight, ← passes_pipeline]
    rfl

theorem acceptedOf_eq (h : pc.allocate candidates snap = .ok r)
    (strategyId : String) :
    r.acceptedOf strategyId =
      candidates.countP fun c => c.strategyId = strategyId &&
        (hasSeat c snap pc.config && clearsOthers pc snap candidates c) := by
  have hcount : r.acceptedOf strategyId =
      (r.allocations.map seat).countP fun x => x.1.strategyId = strategyId && x.2 := by
    rw [AllocationResult.acceptedOf, AllocationResult.accepted, List.countP_filter, List.countP_map]
    rfl
  have hperm : (PortfolioConstructor.ordered candidates).Perm candidates :=
    List.perm_insertionSort _ _
  rw [hcount, allocate_seats h, List.countP_map, hperm.countP_eq]
  rfl

def TierCapped (cfg : ConstructionConfig) (snap : PortfolioSnapshot)
    (candidates : List CandidateSignal)
    (r : AllocationResult) : Prop :=
  ∀ c ∈ candidates, ∀ cap ∈ cfg.tierMaxConcurrent c.tier,
    ((held snap c.strategyId + r.acceptedOf c.strategyId : ℕ) : ℤ) ≤ cap

/-- Beside the positions a strategy holds there is room for each of its candidates that
finds a seat before the batch and that nothing else turns away. -/
def TierRoom (pc : PortfolioConstructor) (snap : PortfolioSnapshot)
    (candidates : List CandidateSignal) : Prop :=
  ∀ c ∈ candidates, ∀ cap ∈ pc.config.tierMaxConcurrent c.tier,
    ((held snap c.strategyId + candidates.countP fun d => d.strategyId = c.strategyId &&
      (hasSeat d snap pc.config && clearsOthers pc snap candidates d) : ℕ) : ℤ) ≤ cap

/-- Nothing held passes a cap, and where a seat is left there is one for the whole batch. -/
def BatchFits (cfg : ConstructionConfig) (snap : PortfolioSnapshot)
    (candidates : List CandidateSignal) : Prop :=
  ∀ c ∈ candidates, ∀ cap ∈ cfg.tierMaxConcurrent c.tier,
    ((held snap c.strategyId + candidates.countP fun d =>
      d.strategyId = c.strategyId && hasSeat d snap cfg : ℕ) : ℤ) ≤ cap

theorem BatchFits.tierRoom {pc : PortfolioConstructor} {candidates : List CandidateSignal}
    (h : BatchFits pc.config snap candidates) : TierRoom pc snap candidates := by
  intro c hc cap hcap
  refine le_trans (Int.ofNat_le.2 (Nat.add_le_add_left ?_ _)) (h c hc cap hcap)
  apply List.countP_mono_left
  intro d _ hd
  simp only [Bool.and_eq_true] at hd ⊢
  exact ⟨hd.1, hd.2.1⟩

/-- The positions held and accepted stay within the caps exactly when there was room for
all that the rest of the pipeline lets through.  The tier step itself turns away only the
candidates whose strategy is full before the batch.  A batch that fits whatever the other
steps do is always within the caps. -/
theorem tier_capped_iff (pc : PortfolioConstructor) (snap : PortfolioSnapshot)
    (candidates : List CandidateSignal) (r : AllocationResult)
    (h : pc.allocate candidates snap = .ok r) :
    (TierCapped pc.config snap candidates r ↔ TierRoom pc snap candidates) ∧
      (BatchFits pc.config snap candidates → TierCapped pc.config snap candidates r) := by
  have hiff : TierCapped pc.config snap candidates r ↔ TierRoom pc snap candidates := by
    unfold TierCapped TierRoom
    simp only [acceptedOf_eq h]
  exact ⟨hiff, fun hfits => hiff.2 hfits.tierRoom⟩

theorem full_health : (0 : ℚ) ≤ 1 ∧ (1 : ℚ) ≤ 1 := by decide

def twoSignals : List CandidateSignal :=
    [sterling "sig-1" 1 full_health, sterling "sig-2" 1 full_health]

def bookHolding (positions : List OpenPosition) : PortfolioSnapshot :=
  { bookWith 0 with openPositions := positions }

theorem twoSignals_registered : ∀ c ∈ twoSignals, Registered defaultConstructor.registry c := by
  unfold Registered
  decide

/-- With one position held under a cap of two, both are accepted. -/
theorem tier_cap_breached :
    ∃ r, defaultConstructor.allocate twoSignals (bookHolding [⟨"EURUSD", "trend"⟩]) = .ok r ∧
      ¬ TierCapped defaultConfig (bookHolding [⟨"EURUSD", "trend"⟩]) twoSignals r := by
  obtain ⟨r, hr⟩ : ∃ r, defaultConstructor.allocate twoSignals
      (bookHolding [⟨"EURUSD", "trend"⟩]) = .ok r := allocate_total twoSignals_registered
  refine ⟨r, hr, fun hcapped => ?_⟩
  have hle := hcapped _ List.mem_cons_self 2 rfl
  rw [acceptedOf_eq hr] at hle
  exact absurd hle (by decide +kernel)

theorem tier_capped_two : ∃ r, defaultConstructor.allocate twoSignals (bookHolding []) = .ok r ∧
    TierCapped defaultConfig (bookHolding []) twoSignals r := by
  obtain ⟨r, hr⟩ : ∃ r, defaultConstructor.allocate twoSignals (bookHolding []) = .ok r :=
    allocate_total twoSignals_registered
  refine ⟨r, hr, (tier_capped_iff defaultConstructor (bookHolding []) twoSignals r hr).2 ?_⟩
  have hcount : ∀ c ∈ twoSignals, held (bookHolding []) c.strategyId + twoSignals.countP (fun d =>
      d.strategyId = c.strategyId && hasSeat d (bookHolding []) defaultConfig) ≤ 2 := by
    decide +kernel
  have hcap : ∀ c ∈ twoSignals, defaultConfig.tierMaxConcurrent c.tier = some 2 := by
    unfold twoSignals
    simp only [List.forall_mem_cons]
    exact ⟨rfl, rfl, List.forall_mem_nil _⟩
  intro c hc cap hmem
  have heq : cap = 2 := Option.mem_unique hmem (hcap c hc)
  rw [heq]
  exact Int.ofNat_le.2 (hcount c hc)

end Cap

end Fiboki.Construction
