import Fiboki.Lib.Quantile
import Fiboki.Stats.Overfitting

/-!
Superior predictive ability of a family of strategies, and which of them a step-wise test
rejects, from resampled means of their differentials.

The three p-values keep their order, and the step-wise test loses nothing by going on.
-/

namespace Fiboki

open Quantile StableSort

section Differentials

variable {K : Type} [Field K] [LinearOrder K] {L : ℕ}

/-- A bootstrap draw: resampled means of every strategy, one row a replicate. -/
structure Draw (K : Type) (L : ℕ) where
  blockLength : K
  means : List (Fin L → K)
  nonempty : means ≠ []

def maxOver (columns : List (Fin L)) (f : Fin L → K) : K := (columns.map f).max?.getD 0

/-- `std` with no degree of freedom lost. -/
def populationStd (fns : RealFunctions K) (xs : List K) : K :=
  fns.sqrt (mean (xs.map fun x => (x - mean xs) ^ 2))

variable (fns : RealFunctions K) (d : List (Fin L → K)) (draw : Draw K L)

def dBar (k : Fin L) : K := mean (column d k)

def rawOmega (k : Fin L) : K := fns.sqrt d.length * populationStd fns (column draw.means k)

def omegaOf (k : Fin L) : K :=
  let scale := if L = 0 then 1 else maxOver (List.finRange L) (rawOmega fns d draw)
  let eps : K := 1 / 10 ^ 12
  let floor := max eps (scale * eps)
  max (rawOmega fns d draw k) floor

def tStats (scale : Fin L → K) (k : Fin L) : K := fns.sqrt d.length * dBar d k / scale k

def centred (scale row : Fin L → K) (k : Fin L) : K :=
  fns.sqrt d.length * (row k - dBar d k) / scale k

def raw (scale row : Fin L → K) (k : Fin L) : K := fns.sqrt d.length * row k / scale k

def pValue (keep : Fin L → Bool) (statistic : K) : K :=
  let omega := omegaOf fns d draw
  let zMax := draw.means.map fun row =>
    max 0 (maxOver (List.finRange L) fun k =>
      if keep k then centred fns d omega row k else raw fns d omega row k)
  share (fun z => statistic < z) zMax

def keepLower (k : Fin L) : Bool := 0 ≤ dBar d k

def keepConsistent (k : Fin L) : Bool :=
  -(1 / 4) * fns.sqrt (fns.sqrt d.length) ≤ tStats fns d (omegaOf fns d draw) k

def keepUpper (_ : Fin L) : Bool := true

structure SPAResult (K : Type) (L : ℕ) where
  statistic : K
  pLower : K
  pConsistent : K
  pUpper : K
  nObs : ℕ
  nStrategies : ℕ
  nBoot : ℕ
  blockLength : K
  bestIndex : Fin L
  meanDifferential : Fin L → K
  omega : Fin L → K
  tStats : Fin L → K

/-- `superior_predictive_ability`, given the draw. -/
def superiorPredictiveAbility : Except String (SPAResult K L) :=
  if d.length < 4 then .error "need at least 4 periods"
  else if h : 0 < L then
    let omega := omegaOf fns d draw
    let tStats := tStats fns d omega
    let statistic := max 0 (maxOver (List.finRange L) tStats)
    .ok
      { statistic
        pLower := pValue fns d draw (keepLower d) statistic
        pConsistent := pValue fns d draw (keepConsistent fns d draw) statistic
        pUpper := pValue fns d draw keepUpper statistic
        nObs := d.length
        nStrategies := L
        nBoot := draw.means.length
        blockLength := draw.blockLength
        bestIndex := argmax h tStats
        meanDifferential := dBar d
        omega, tStats }
  else .error "zero-size array to reduction operation maximum which has no identity"

/-- The loop's state: the strategies not rejected, those rejected, and the critical values. -/
structure Steps (K : Type) (L : ℕ) where
  active : List (Fin L)
  rejected : List (Fin L)
  critical : List K

structure StepMResult (K : Type) (L : ℕ) where
  rejected : List (Fin L)
  criticalValues : List K
  tStats : Fin L → K
  alpha : K
  nSteps : ℕ
  nObs : ℕ
  nStrategies : ℕ
  blockLength : K

variable [FloorSemiring K]

/-- The critical value of a set of strategies: a quantile of their greatest resampled statistic.
The quantile of a draw is there, since a draw is not empty. -/
def criticalValue (zStar : List (Fin L → K)) (alpha : K) (active : List (Fin L)) : K :=
  (quantile (zStar.map (maxOver active)) (1 - alpha)).getD 0

/-- The loop of `step_m` over the given number of steps. -/
def stepMLoop (zStar : List (Fin L → K)) (alpha : K) (t : Fin L → K) : ℕ → Steps K L → Steps K L
  | 0, s => s
  | n + 1, s =>
    if s.active = [] then s
    else
      let c := criticalValue zStar alpha s.active
      let newly := s.active.filter fun k => c < t k
      if newly = [] then { s with critical := s.critical ++ [c] }
      else
        stepMLoop zStar alpha t n
          { active := s.active.filter fun k => ¬c < t k
            rejected := s.rejected ++ newly
            critical := s.critical ++ [c] }

def scaleOf (studentised : Bool) : Fin L → K :=
  if studentised then omegaOf fns d draw else fun _ => 1

/-- `step_m`, given the draw. -/
def stepM (alpha : K) (studentised : Bool) (maxSteps : ℤ) : Except String (StepMResult K L) :=
  if d.length < 4 then .error "need at least 4 periods"
  else if ¬(0 < alpha ∧ alpha < 1) then .error "alpha must be in (0, 1)"
  else
    let scale := scaleOf fns d draw studentised
    let t := tStats fns d scale
    let zStar := draw.means.map (centred fns d scale)
    let s := stepMLoop zStar alpha t maxSteps.toNat ⟨List.finRange L, [], []⟩
    .ok
      { rejected := sortBy (fun k => -t k) s.rejected
        criticalValues := s.critical
        tStats := t
        alpha
        nSteps := s.critical.length
        nObs := d.length
        nStrategies := L
        blockLength := draw.blockLength }

end Differentials

section Columns

variable {K : Type} [Field K] [LinearOrder K] {L : ℕ}

theorem maxOver_spec {columns : List (Fin L)} (h : columns ≠ []) (f : Fin L → K) :
    (∃ k ∈ columns, maxOver columns f = f k) ∧ ∀ k ∈ columns, f k ≤ maxOver columns f := by
  unfold maxOver
  cases hmax : (columns.map f).max? with
  | none =>
    rw [List.max?_eq_none_iff, List.map_eq_nil_iff] at hmax
    exact absurd hmax h
  | some m =>
    obtain ⟨hmem, hle⟩ := List.max?_eq_some_iff.1 hmax
    obtain ⟨k, hk, rfl⟩ := List.mem_map.1 hmem
    exact ⟨⟨k, hk, rfl⟩, fun j hj => hle _ (List.mem_map_of_mem hj)⟩

theorem maxOver_le_maxOver {columns columns' : List (Fin L)} {f g : Fin L → K} (h : columns ≠ [])
    (hsub : columns ⊆ columns') (hle : ∀ k ∈ columns, f k ≤ g k) :
    maxOver columns f ≤ maxOver columns' g := by
  obtain ⟨⟨k, hk, hmax⟩, -⟩ := maxOver_spec h f
  have hne : columns' ≠ [] := List.ne_nil_of_mem (hsub hk)
  rw [hmax]
  exact (hle k hk).trans ((maxOver_spec hne g).2 k (hsub hk))

variable [IsStrictOrderedRing K]

theorem share_mono {α β : Type} {test : α → Bool} {test' : β → Bool} {xs : List α} {ys : List β}
    (h : List.Forall₂ (fun x y => test x = true → test' y = true) xs ys) :
    (share test xs : K) ≤ share test' ys := by
  have hcount : xs.countP test ≤ ys.countP test' := by
    induction h with
    | nil => exact le_rfl
    | @cons x y xs ys hxy _ ih =>
      rw [List.countP_cons, List.countP_cons]
      have hstep : (if test x = true then 1 else 0) ≤ if test' y = true then 1 else 0 := by
        by_cases hx : test x = true
        · simp [hx, hxy hx]
        · simp [hx]
      omega
  unfold share
  rw [h.length_eq]
  exact div_le_div_of_nonneg_right (Nat.cast_le.2 hcount) (Nat.cast_nonneg _)

end Columns

section Values

variable {K : Type} [Field K] [LinearOrder K] {L : ℕ} {fns : RealFunctions K}
  {d : List (Fin L → K)} {draw : Draw K L}

theorem centred_eq (scale row : Fin L → K) (k : Fin L) :
    centred fns d scale row k = raw fns d scale row k - tStats fns d scale k := by
  unfold centred raw tStats
  rw [mul_sub, sub_div]

variable [IsStrictOrderedRing K]

theorem omegaOf_pos (k : Fin L) : 0 < omegaOf fns d draw k := by
  have heps : (0 : K) < 1 / 10 ^ 12 := by positivity
  unfold omegaOf
  exact heps.trans_le ((le_max_left _ _).trans (le_max_right _ _))

theorem antitone_pValue (keep : Fin L → Bool) : Antitone (pValue fns d draw keep) := by
  intro s s' hs
  unfold pValue
  apply share_mono
  rw [List.forall₂_same]
  intro z _ hz
  simp only [decide_eq_true_eq] at hz ⊢
  exact hs.trans_lt hz

theorem pValue_mono (hL : 0 < L) {keep keep' : Fin L → Bool}
    (hkeep : ∀ k, keep k = true → keep' k = true)
    (hmore : ∀ k, keep k = false → keep' k = true → tStats fns d (omegaOf fns d draw) k ≤ 0)
    (s : K) : pValue fns d draw keep s ≤ pValue fns d draw keep' s := by
  have hne : List.finRange L ≠ [] := List.ne_nil_of_mem (List.mem_finRange ⟨0, hL⟩)
  unfold pValue
  apply share_mono
  rw [List.forall₂_map_left_iff, List.forall₂_map_right_iff, List.forall₂_same]
  intro row _ hz
  simp only [decide_eq_true_eq] at hz ⊢
  refine hz.trans_le (max_le_max le_rfl (maxOver_le_maxOver hne (List.Subset.refl _) ?_))
  intro k _
  cases hk : keep k with
  | true => rw [hkeep k hk]
  | false =>
    cases hk' : keep' k with
    | true =>
      have ht := hmore k hk hk'
      simp only [Bool.false_eq_true, if_false, if_true]
      rw [centred_eq]
      linarith
    | false => exact le_rfl

theorem sqrt_length_pos (h : 4 ≤ d.length) : 0 < fns.sqrt (d.length : K) := by
  rw [fns.sqrt_pos, Nat.cast_pos]
  omega

theorem tStats_neg_iff (h : 4 ≤ d.length) {scale : Fin L → K} {k : Fin L} (hk : 0 < scale k) :
    tStats fns d scale k < 0 ↔ dBar d k < 0 := by
  unfold tStats
  rw [div_lt_iff₀ hk, zero_mul]
  constructor
  · intro hneg
    by_contra hnot
    exact not_lt.2 (mul_nonneg (sqrt_length_pos h).le (not_lt.1 hnot)) hneg
  · exact mul_neg_of_pos_of_neg (sqrt_length_pos h)

theorem keepConsistent_of_keepLower (h : 4 ≤ d.length) {k : Fin L} (hk : keepLower d k = true) :
    keepConsistent fns d draw k = true := by
  unfold keepLower at hk
  unfold keepConsistent
  rw [decide_eq_true_eq] at hk ⊢
  have ht : 0 ≤ tStats fns d (omegaOf fns d draw) k := by
    rw [← not_lt, tStats_neg_iff h (omegaOf_pos k), not_lt]
    exact hk
  have hthreshold : 0 < fns.sqrt (fns.sqrt (d.length : K)) := by
    rw [fns.sqrt_pos]
    exact sqrt_length_pos h
  linarith

theorem pLower_le_pConsistent (hL : 0 < L) (h : 4 ≤ d.length) (s : K) :
    pValue fns d draw (keepLower d) s ≤ pValue fns d draw (keepConsistent fns d draw) s := by
  apply pValue_mono hL
  · intro k hk
    exact keepConsistent_of_keepLower h hk
  · intro k hk _
    unfold keepLower at hk
    rw [decide_eq_false_iff_not, not_le] at hk
    exact ((tStats_neg_iff h (omegaOf_pos k)).2 hk).le

theorem pConsistent_le_pUpper (hL : 0 < L) (h : 4 ≤ d.length) (s : K) :
    pValue fns d draw (keepConsistent fns d draw) s ≤ pValue fns d draw keepUpper s := by
  apply pValue_mono hL
  · intro k _
    rfl
  · intro k hk _
    have hlower : keepLower d k = false := by
      cases hlower : keepLower d k with
      | false => rfl
      | true => rw [keepConsistent_of_keepLower h hlower] at hk; cases hk
    unfold keepLower at hlower
    rw [decide_eq_false_iff_not, not_le] at hlower
    exact ((tStats_neg_iff h (omegaOf_pos k)).2 hlower).le

end Values

section Loop

variable {K : Type} [Field K] [LinearOrder K] [FloorSemiring K] {L : ℕ}
  {zStar : List (Fin L → K)} {alpha : K} {t : Fin L → K}

structure SoundSteps (zStar : List (Fin L → K)) (alpha : K) (t : Fin L → K) (s : Steps K L) :
    Prop where
  covers : ∀ k, k ∈ s.active ∨ k ∈ s.rejected
  apart : ∀ k ∈ s.active, k ∉ s.rejected
  closed : ∀ i ∈ s.rejected, ∀ j, t i ≤ t j → j ∈ s.rejected
  falling : s.critical.Pairwise (· ≥ ·)
  ahead : ∀ c ∈ s.critical, ∀ active, active ≠ [] → active ⊆ s.active →
    criticalValue zStar alpha active ≤ c

theorem soundSteps_start : SoundSteps zStar alpha t ⟨List.finRange L, [], []⟩ where
  covers k := .inl (List.mem_finRange k)
  apart _ _ := List.not_mem_nil
  closed _ hi := absurd hi List.not_mem_nil
  falling := .nil
  ahead _ hc := absurd hc List.not_mem_nil

theorem SoundSteps.falling_next {s : Steps K L} (h : SoundSteps zStar alpha t s)
    (hne : s.active ≠ []) :
    (s.critical ++ [criticalValue zStar alpha s.active]).Pairwise (· ≥ ·) := by
  rw [List.pairwise_append]
  refine ⟨h.falling, List.pairwise_singleton _ _, ?_⟩
  intro c hc c' hc'
  obtain rfl := List.mem_singleton.1 hc'
  exact h.ahead c hc s.active hne (List.Subset.refl _)

theorem loop_stops (n : ℕ) {s : Steps K L}
    (h : (stepMLoop zStar alpha t n s).critical.length < s.critical.length + n) :
    ∀ k ∈ (stepMLoop zStar alpha t n s).active,
      t k ≤ criticalValue zStar alpha (stepMLoop zStar alpha t n s).active := by
  induction n generalizing s with
  | zero => exact absurd h (lt_irrefl _)
  | succ n ih =>
    rw [stepMLoop] at h ⊢
    split at h
    next hempty =>
      rw [if_pos hempty]
      intro k hk
      rw [hempty] at hk
      cases hk
    next hne =>
      rw [if_neg hne]
      dsimp only at h ⊢
      split at h
      next hnone =>
        rw [if_pos hnone]
        intro k hk
        have hnot := List.filter_eq_nil_iff.1 hnone k hk
        simpa using hnot
      next hsome =>
        rw [if_neg hsome]
        apply ih
        rw [List.length_append, List.length_singleton]
        omega

theorem rejected_subset_loop (n : ℕ) {s : Steps K L} :
    s.rejected ⊆ (stepMLoop zStar alpha t n s).rejected := by
  induction n generalizing s with
  | zero => exact List.Subset.refl _
  | succ n ih =>
    rw [stepMLoop]
    split
    · exact List.Subset.refl _
    · dsimp only
      split
      · exact List.Subset.refl _
      · intro k hk
        exact ih (List.mem_append_left _ hk)

theorem first_step_subset_loop {n : ℕ} (hn : 1 ≤ n) {s : Steps K L} {k : Fin L} (hk : k ∈ s.active)
    (hlt : criticalValue zStar alpha s.active < t k) :
    k ∈ (stepMLoop zStar alpha t n s).rejected := by
  obtain ⟨m, rfl⟩ : ∃ m, n = m + 1 := ⟨n - 1, by omega⟩
  have hmem : k ∈ s.active.filter fun k => decide (criticalValue zStar alpha s.active < t k) := by
    rw [List.mem_filter, decide_eq_true_eq]
    exact ⟨hk, hlt⟩
  rw [stepMLoop, if_neg (List.ne_nil_of_mem hk)]
  dsimp only
  rw [if_neg (List.ne_nil_of_mem hmem)]
  exact rejected_subset_loop m (List.mem_append_right _ hmem)

variable [IsStrictOrderedRing K]

theorem criticalValue_mono (hz : zStar ≠ []) (h0 : 0 < alpha) (h1 : alpha < 1)
    {active active' : List (Fin L)} (hne : active ≠ []) (hsub : active ⊆ active') :
    criticalValue zStar alpha active ≤ criticalValue zStar alpha active' := by
  have hne' : zStar.map (maxOver active) ≠ [] := by
    rw [Ne, List.map_eq_nil_iff]
    exact hz
  have hne'' : zStar.map (maxOver active') ≠ [] := by
    rw [Ne, List.map_eq_nil_iff]
    exact hz
  have hq : 1 - alpha ≤ 1 := by linarith
  obtain ⟨hi, hj, ha⟩ := quantile_eq_some hne' hq
  obtain ⟨hi', hj', hb⟩ := quantile_eq_some hne'' hq
  unfold criticalValue
  rw [ha, hb, Option.getD_some, Option.getD_some]
  refine quantile_mono ?_ hne' (by linarith) hq ha hb
  rw [List.forall₂_map_left_iff, List.forall₂_map_right_iff, List.forall₂_same]
  intro row _
  exact maxOver_le_maxOver hne hsub fun k _ => le_rfl

theorem SoundSteps.ahead_next {s : Steps K L} (h : SoundSteps zStar alpha t s) (hz : zStar ≠ [])
    (h0 : 0 < alpha) (h1 : alpha < 1) :
    ∀ c ∈ s.critical ++ [criticalValue zStar alpha s.active], ∀ active, active ≠ [] →
      active ⊆ s.active → criticalValue zStar alpha active ≤ c := by
  intro c hc active hne hsub
  rcases List.mem_append.1 hc with hc | hc
  · exact h.ahead c hc active hne hsub
  · obtain rfl := List.mem_singleton.1 hc
    exact criticalValue_mono hz h0 h1 hne hsub

theorem SoundSteps.next {s : Steps K L} (h : SoundSteps zStar alpha t s) (hz : zStar ≠ [])
    (h0 : 0 < alpha) (h1 : alpha < 1) (hne : s.active ≠ []) {c : K}
    (hc : c = criticalValue zStar alpha s.active) :
    SoundSteps zStar alpha t
      { active := s.active.filter fun k => ¬c < t k
        rejected := s.rejected ++ s.active.filter fun k => c < t k
        critical := s.critical ++ [c] } where
  covers k := by
    simp only [List.mem_filter, List.mem_append, decide_eq_true_eq]
    rcases h.covers k with hk | hk
    · by_cases hlt : c < t k
      · exact .inr (.inr ⟨hk, hlt⟩)
      · exact .inl ⟨hk, hlt⟩
    · exact .inr (.inl hk)
  apart k hk := by
    simp only [List.mem_filter, List.mem_append, decide_eq_true_eq, not_or, not_and] at hk ⊢
    exact ⟨h.apart k hk.1, fun _ => hk.2⟩
  closed i hi j hij := by
    simp only [List.mem_filter, List.mem_append, decide_eq_true_eq] at hi ⊢
    rcases hi with hi | ⟨-, hlt⟩
    · exact .inl (h.closed i hi j hij)
    · rcases h.covers j with hj | hj
      · exact .inr ⟨hj, hlt.trans_le hij⟩
      · exact .inl hj
  falling := by
    rw [hc]
    exact h.falling_next hne
  ahead c' hc' active hactive hsub := by
    rw [hc] at hc'
    exact h.ahead_next hz h0 h1 c' hc' active hactive
      (List.Subset.trans hsub List.filter_sublist.subset)

theorem soundSteps_loop (hz : zStar ≠ []) (h0 : 0 < alpha) (h1 : alpha < 1) (n : ℕ) {s : Steps K L}
    (h : SoundSteps zStar alpha t s) : SoundSteps zStar alpha t (stepMLoop zStar alpha t n s) := by
  induction n generalizing s with
  | zero => exact h
  | succ n ih =>
    rw [stepMLoop]
    split
    · exact h
    next hne =>
      dsimp only
      split
      · exact ⟨h.covers, h.apart, h.closed, h.falling_next hne, h.ahead_next hz h0 h1⟩
      · exact ih (h.next hz h0 h1 hne rfl)

end Loop

section Tests

variable {K : Type} [Field K] [LinearOrder K] [FloorSemiring K] {L : ℕ}

def resampled (fns : RealFunctions K) (d : List (Fin L → K)) (draw : Draw K L)
    (studentised : Bool) : List (Fin L → K) :=
  draw.means.map (centred fns d (scaleOf fns d draw studentised))

variable [IsStrictOrderedRing K]

theorem stepM_orderings {fns : RealFunctions K} {d : List (Fin L → K)} {draw : Draw K L} {alpha : K}
    {studentised : Bool} {maxSteps : ℤ} {r : StepMResult K L}
    (h : stepM fns d draw alpha studentised maxSteps = .ok r) :
    r.criticalValues.Pairwise (· ≥ ·) ∧
    (∀ i ∈ r.rejected, ∀ j, r.tStats i ≤ r.tStats j → j ∈ r.rejected) ∧
    (1 ≤ maxSteps → ∀ k, criticalValue (resampled fns d draw studentised) alpha
      (List.finRange L) < r.tStats k → k ∈ r.rejected) ∧
    (r.nSteps < maxSteps → ∀ k, k ∉ r.rejected →
      r.tStats k ≤ criticalValue (resampled fns d draw studentised) alpha
        ((List.finRange L).filter fun j => j ∉ r.rejected)) := by
  unfold stepM at h
  split at h
  · cases h
  split at h
  · cases h
  next halpha =>
    obtain ⟨h0, h1⟩ := not_not.1 halpha
    have hz : resampled fns d draw studentised ≠ [] := by
      unfold resampled
      rw [Ne, List.map_eq_nil_iff]
      exact draw.nonempty
    dsimp only at h
    cases h
    dsimp only
    have hmem : ∀ (rejected : List (Fin L)) (t : Fin L → K) (k : Fin L),
        k ∈ sortBy (fun k => -t k) rejected ↔ k ∈ rejected := fun rejected _ _ =>
      (List.perm_insertionSort _ rejected).mem_iff
    change _ ∧ _ ∧ _ ∧ _
    generalize hzStar : draw.means.map (centred fns d (scaleOf fns d draw studentised)) = zStar
    have hzStar' : resampled fns d draw studentised = zStar := hzStar
    rw [hzStar'] at hz ⊢
    generalize htStats : tStats fns d (scaleOf fns d draw studentised) = t
    generalize hlast : stepMLoop zStar alpha t maxSteps.toNat ⟨List.finRange L, [], []⟩ = last
    have hsound : SoundSteps zStar alpha t last := by
      rw [← hlast]
      exact soundSteps_loop hz h0 h1 _ soundSteps_start
    refine ⟨hsound.falling, ?_, ?_, ?_⟩
    · intro i hi j hij
      rw [hmem] at hi ⊢
      exact hsound.closed i hi j hij
    · intro hsteps k hk
      rw [hmem, ← hlast]
      exact first_step_subset_loop (by omega) (List.mem_finRange k) hk
    · intro hsteps k hk
      rw [hmem] at hk
      have hactive : k ∈ last.active := (hsound.covers k).resolve_right hk
      have hstop : t k ≤ criticalValue zStar alpha last.active := by
        have hstops := @loop_stops K _ _ _ L zStar alpha t maxSteps.toNat
          ⟨List.finRange L, [], []⟩
        rw [hlast] at hstops
        refine hstops ?_ k hactive
        rw [List.length_nil]
        omega
      refine hstop.trans (criticalValue_mono hz h0 h1 (List.ne_nil_of_mem hactive) ?_)
      intro j hj
      rw [List.mem_filter, decide_eq_true_eq, hmem]
      exact ⟨List.mem_finRange j, hsound.apart j hj⟩

/-- The three p-values are in order and fall as the statistic rises; critical values fall, what
is rejected is closed upwards and has all that one step rejects, and a run that stops early
leaves no strategy above the critical value of those left. -/
theorem predictive_orderings (fns : RealFunctions K) (d : List (Fin L → K)) (draw : Draw K L) :
    (∀ r, superiorPredictiveAbility fns d draw = .ok r →
      r.pLower ≤ r.pConsistent ∧ r.pConsistent ≤ r.pUpper ∧
      r.pLower = pValue fns d draw (keepLower d) r.statistic ∧
      r.pConsistent = pValue fns d draw (keepConsistent fns d draw) r.statistic ∧
      r.pUpper = pValue fns d draw keepUpper r.statistic ∧
      ∀ keep, Antitone (pValue fns d draw keep)) ∧
    ∀ alpha studentised maxSteps r, stepM fns d draw alpha studentised maxSteps = .ok r →
      r.criticalValues.Pairwise (· ≥ ·) ∧
      (∀ i ∈ r.rejected, ∀ j, r.tStats i ≤ r.tStats j → j ∈ r.rejected) ∧
      (1 ≤ maxSteps → ∀ k, criticalValue (resampled fns d draw studentised) alpha
        (List.finRange L) < r.tStats k → k ∈ r.rejected) ∧
      (r.nSteps < maxSteps → ∀ k, k ∉ r.rejected →
        r.tStats k ≤ criticalValue (resampled fns d draw studentised) alpha
          ((List.finRange L).filter fun j => j ∉ r.rejected)) := by
  constructor
  · intro r h
    unfold superiorPredictiveAbility at h
    split at h
    · cases h
    next hfour =>
      split at h
      next hL =>
        cases h
        exact ⟨pLower_le_pConsistent hL (by omega) _, pConsistent_le_pUpper hL (by omega) _, rfl,
          rfl, rfl, antitone_pValue⟩
      · cases h
  · intro alpha studentised maxSteps r h
    exact stepM_orderings h

end Tests

/-- Four periods of two strategies, resampled twice. -/
theorem predictive_orderings_real :
    let d : List (Fin 2 → ℝ) := [![1, 3], ![2, 1], ![3, 4], ![4, 2]]
    let draw : Draw ℝ 2 := ⟨1, [![2, 3], ![3, 2]], by simp⟩
    (∃ r, superiorPredictiveAbility realFunctions d draw = .ok r ∧
      r.pLower ≤ r.pConsistent ∧ r.pConsistent ≤ r.pUpper) ∧
    ∃ r, stepM realFunctions d draw (1 / 2) true 2 = .ok r ∧
      r.criticalValues.Pairwise (· ≥ ·) := by
  intro d draw
  obtain ⟨htests, hsteps⟩ := predictive_orderings realFunctions d draw
  obtain ⟨r, hr⟩ : ∃ r, stepM realFunctions d draw (1 / 2) true 2 = .ok r := by
    unfold stepM
    rw [if_neg (by simp [d]), if_neg (by norm_num)]
    exact ⟨_, rfl⟩
  have h := htests _ rfl
  exact ⟨⟨_, rfl, h.1, h.2.1⟩, r, hr, (hsteps _ _ _ _ hr).1⟩

end Fiboki
