import Fiboki.Core.Instruments
import Fiboki.Lib.Accumulate
import Fiboki.Lib.Buckets
import Fiboki.Stats.Overfitting
import Fiboki.Validation.Evaluation

/-!
The design effect of pooling the sleeves of one strategy document, with exact arithmetic, and the
pooled evaluation whose trades it counts.

The design effect lies between one and the number of sleeves that move, whatever the order and the
unit of the sleeves, and is that number for sleeves that move alike.
-/

namespace Fiboki

open Buckets
open Floating (Number)

inductive Frequency where
  | daily
  | weekly

namespace Frequency

def value : Frequency → String
  | daily => "daily"
  | weekly => "weekly"

def members : List Frequency := [daily, weekly]

/-- `MIN_PERIODS_FOR_DEFF`. -/
def minPeriods : Frequency → ℕ
  | daily => 60
  | weekly => 26

def keyOf : Frequency → Timestamp → ℤ
  | daily, t => Timestamp.dayNumber t
  | weekly, t => (Timestamp.dayNumber t + 3) / 7

end Frequency

section Measured

variable {m : ℕ}

def bucketSums (pnl : List (Fin m → ℚ)) (timestamps : List Timestamp) (frequency : Frequency) :
    List (Fin m → ℚ) :=
  (buckets (fun x : Timestamp × (Fin m → ℚ) => frequency.keyOf x.1) (timestamps.zip pnl)).map
    fun rows j => (rows.map fun x => x.2 j).sum

/-- `sums.var(axis=0, ddof=1)`, and zero for a single period. -/
def sleeveVariance (sums : List (Fin m → ℚ)) (j : Fin m) : ℚ :=
  if 1 < sums.length then sampleVariance (column sums j) else 0

def activeSleeves (sums : List (Fin m → ℚ)) : Finset (Fin m) :=
  Finset.univ.filter fun j => 0 < sleeveVariance sums j

/-- `np.cov(sums, rowvar=False, ddof=1)`. -/
def covariance (sums : List (Fin m → ℚ)) (i j : Fin m) : ℚ :=
  (sums.map fun row => (row i - mean (column sums i)) * (row j - mean (column sums j))).sum /
    ((sums.length : ℚ) - 1)

/-- `cov.sum() / np.trace(cov)` over some sleeves. -/
def varianceRatio (sums : List (Fin m → ℚ)) (active : Finset (Fin m)) : ℚ :=
  (∑ i ∈ active, ∑ j ∈ active, covariance sums i j) / ∑ i ∈ active, covariance sums i i

structure FrequencyRow where
  nPeriods : ℕ
  mActive : ℕ
  deff : Option ℚ
  deffRaw : Option ℚ
  rhoBar : Option ℚ
  note : Option String

def frequencyRow (frequency : Frequency) (sums : List (Fin m → ℚ)) : FrequencyRow :=
  let active := activeSleeves sums
  if active.card < 2 then
    ⟨sums.length, active.card, some 1, none, none,
      some "fewer than two sleeves moved: nothing to correlate"⟩
  else if sums.length < frequency.minPeriods then
    ⟨sums.length, active.card, none, none, none,
      some (toString sums.length ++ " periods, below " ++ toString frequency.minPeriods ++
        ": not used")⟩
  else
    let raw := varianceRatio sums active
    ⟨sums.length, active.card, some (max 1 raw), some raw,
      some ((raw - 1) / ((active.card : ℚ) - 1)), none⟩

structure DesignEffect where
  deff : ℚ
  mSleeves : ℕ
  mActive : ℕ
  byFrequency : Frequency → FrequencyRow
  basis : String

def DesignEffect.effective (d : DesignEffect) (nTrades : ℤ) : ℚ := nTrades / d.deff

def winningFrequency (row : Frequency → FrequencyRow) : Frequency :=
  match (row .daily).deff, (row .weekly).deff with
  | some daily, some weekly => if weekly < daily then .daily else .weekly
  | some _, none => .daily
  | none, _ => .weekly

/-- The design effect from what each frequency says of `m` sleeves. -/
def designEffectOf (m : ℕ) (row : Frequency → FrequencyRow) : DesignEffect :=
  let mActive := max (row .daily).mActive (row .weekly).mActive
  let estimates := Frequency.members.filterMap fun f => (row f).deff
  if mActive < 2 then ⟨1, m, mActive, row, "fewer than two active sleeves"⟩
  else if estimates = [] then
    ⟨mActive, m, mActive, row, "too few periods at every frequency: DEFF = m_active (conservative)"⟩
  else
    ⟨estimates.foldl max 1, m, mActive, row,
      "max over frequencies -> " ++ (winningFrequency row).value⟩

def finiteRow (row : Fin m → Number) : Option (Fin m → ℚ) :=
  if ∀ j, (row j).isfinite = true then
    some fun j => match row j with
      | .fin q => q
      | _ => 0
  else none

def designEffect (pnl : List (Fin m → Number)) (timestamps : List Timestamp) :
    Except String DesignEffect :=
  if pnl.length ≠ timestamps.length then .error "pnl must be T x m and match the timestamps"
  else
    match pnl.mapM finiteRow with
    | none => .error "per-bar P&L contains non-finite values"
    | some rows =>
      .ok (designEffectOf m fun f => frequencyRow f (bucketSums rows timestamps f))

end Measured

/-- One series of a pooled candidate in a window: its bars there and its evaluation. -/
structure SleeveRun (T : Type) where
  instrument : String
  bars : List Timestamp
  evaluation : WindowEvaluation T
  counted : 0 ≤ evaluation.nTrades

section Pooled

variable {T : Type} (sleeves : List (SleeveRun T))

def SleeveRun.check (sleeve : SleeveRun T) : Except String Unit :=
  if sleeve.evaluation.returnsBasis ≠ .period then
    .error (sleeve.instrument ++ ": a pooled candidate needs period returns on the sleeve's bar " ++
      "calendar, got '" ++ sleeve.evaluation.returnsBasis.value ++ "'")
  else if sleeve.bars.length ≠ sleeve.evaluation.returns.length then
    .error (sleeve.instrument ++ ": " ++ toString sleeve.evaluation.returns.length ++
      " period returns for " ++ toString sleeve.bars.length ++ " bars in the window; the " ++
      "sleeve's calendar is not its evaluator's")
  else .ok ()

def pooledCalendar : List Timestamp := (sleeves.flatMap SleeveRun.bars).dedup.insertionSort (· ≤ ·)

def SleeveRun.pnlAt (sleeve : SleeveRun T) (t : Timestamp) : Number :=
  (((sleeve.bars.zip sleeve.evaluation.returns).findRev? fun x => x.1 == t).map Prod.snd).getD
    (.fin 0)

def pooledPnl : List (Fin sleeves.length → Number) :=
  (pooledCalendar sleeves).map fun t j => (sleeves.get j).pnlAt t

/-- `PooledEvaluator.__call__`, with the fields that no count reads.  The sleeves are of one
strategy: the source refuses others. -/
def poolEvaluations (others : WindowEvaluation T) : Except String (WindowEvaluation T) := do
  sleeves.forM SleeveRun.check
  let pnl := pooledPnl sleeves
  let nTrades := (sleeves.map fun s => s.evaluation.nTrades).sum
  let deff ← designEffect pnl (pooledCalendar sleeves)
  .ok { others with
    nTrades
    returns := pnl.map fun row => (List.ofFn row).foldl Number.add (.fin 0)
    returnsBasis := .period
    metadata := others.metadata.set "n_trades_effective"
      (numberValue (.fin (deff.effective nTrades))) }

end Pooled

open Accumulate

variable {m : ℕ}

theorem sum_list_sum {α : Type} (a : Finset (Fin m)) (f : Fin m → α → ℚ) (xs : List α) :
    ∑ i ∈ a, (xs.map (f i)).sum = (xs.map fun x => ∑ i ∈ a, f i x).sum := by
  induction xs with
  | nil => simp
  | cons x xs ih =>
    simp only [List.map_cons, List.sum_cons]
    rw [Finset.sum_add_distrib, ih]

def deviation (sums : List (Fin m → ℚ)) (row : Fin m → ℚ) (i : Fin m) : ℚ :=
  row i - mean (column sums i)

theorem covariance_self (sums : List (Fin m → ℚ)) (j : Fin m) :
    covariance sums j j = sampleVariance (column sums j) := by
  unfold covariance sampleVariance
  congr 1
  · unfold column
    rw [List.map_map]
    congr 1
    apply List.map_congr_left
    intro row _
    exact (sq _).symm
  · unfold column
    rw [List.length_map]

theorem trace_covariance (sums : List (Fin m → ℚ)) (a : Finset (Fin m)) :
    ∑ i ∈ a, covariance sums i i =
      (sums.map fun row => ∑ i ∈ a, deviation sums row i ^ 2).sum / ((sums.length : ℚ) - 1) := by
  unfold covariance
  rw [← Finset.sum_div, sum_list_sum]
  congr 3
  funext row
  exact Finset.sum_congr rfl fun i _ => (sq _).symm

theorem sum_covariance (sums : List (Fin m → ℚ)) (a : Finset (Fin m)) :
    ∑ i ∈ a, ∑ j ∈ a, covariance sums i j =
      (sums.map fun row => (∑ i ∈ a, deviation sums row i) ^ 2).sum / ((sums.length : ℚ) - 1) := by
  unfold covariance
  simp only [← Finset.sum_div]
  congr 1
  have hinner : ∀ i, ∑ j ∈ a, (sums.map fun row =>
      (row i - mean (column sums i)) * (row j - mean (column sums j))).sum =
      (sums.map fun row => ∑ j ∈ a, deviation sums row i * deviation sums row j).sum :=
    fun i => sum_list_sum a _ sums
  rw [Finset.sum_congr rfl fun i _ => hinner i, sum_list_sum]
  congr 2
  funext row
  rw [sq, Finset.sum_mul_sum]

variable {sums : List (Fin m → ℚ)}

theorem mem_activeSleeves {j : Fin m} :
    j ∈ activeSleeves sums ↔ 1 < sums.length ∧ 0 < covariance sums j j := by
  unfold activeSleeves sleeveVariance
  rw [Finset.mem_filter, covariance_self]
  split
  · simp [*]
  · simp [*]

theorem trace_pos (h : 0 < (activeSleeves sums).card) :
    0 < ∑ i ∈ activeSleeves sums, covariance sums i i :=
  Finset.sum_pos (fun _ hi => (mem_activeSleeves.1 hi).2) (Finset.card_pos.1 h)

theorem one_lt_length (h : 0 < (activeSleeves sums).card) : 1 < sums.length := by
  obtain ⟨j, hj⟩ := Finset.card_pos.1 h
  exact (mem_activeSleeves.1 hj).1

theorem varianceRatio_le (h : 0 < (activeSleeves sums).card) :
    varianceRatio sums (activeSleeves sums) ≤ (activeSleeves sums).card := by
  have hlength : (0 : ℚ) ≤ (sums.length : ℚ) - 1 := by
    have hlt : (1 : ℚ) < sums.length := by exact_mod_cast one_lt_length h
    linarith
  unfold varianceRatio
  rw [div_le_iff₀ (trace_pos h), sum_covariance, trace_covariance, ← mul_div_assoc]
  apply div_le_div_of_nonneg_right _ hlength
  rw [← List.sum_map_mul_left]
  apply List.sum_le_sum
  intro row _
  exact sq_sum_le_card_mul_sum_sq

theorem varianceRatio_of_alike (h : 0 < (activeSleeves sums).card)
    (halike : ∀ i ∈ activeSleeves sums, ∀ j ∈ activeSleeves sums, ∀ row ∈ sums, row i = row j) :
    varianceRatio sums (activeSleeves sums) = (activeSleeves sums).card := by
  have hcov : ∀ i ∈ activeSleeves sums, ∀ j ∈ activeSleeves sums,
      covariance sums i j = covariance sums i i := by
    intro i hi j hj
    have hcol : column sums j = column sums i :=
      List.map_congr_left fun row hrow => halike j hj i hi row hrow
    unfold covariance
    rw [hcol]
    congr 2
    apply List.map_congr_left
    intro row hrow
    rw [halike j hj i hi row hrow]
  unfold varianceRatio
  rw [div_eq_iff (trace_pos h).ne', Finset.mul_sum]
  apply Finset.sum_congr rfl
  intro i hi
  rw [Finset.sum_congr rfl fun j hj => hcov i hi j hj, Finset.sum_const, nsmul_eq_mul]

def regauged (c : ℚ) (e : Equiv.Perm (Fin m)) (row : Fin m → ℚ) : Fin m → ℚ :=
  fun j => c * row (e j)

variable (c : ℚ) (e : Equiv.Perm (Fin m))

theorem mean_column_regauged (sums : List (Fin m → ℚ))
    (j : Fin m) : mean (column (sums.map (regauged c e)) j) = c * mean (column sums (e j)) := by
  unfold mean column regauged
  rw [List.length_map, List.length_map, List.length_map, List.map_map, mul_div_assoc',
    ← List.sum_map_mul_left]
  rfl

theorem covariance_regauged (sums : List (Fin m → ℚ))
    (i j : Fin m) :
    covariance (sums.map (regauged c e)) i j = c ^ 2 * covariance sums (e i) (e j) := by
  unfold covariance
  rw [mean_column_regauged, mean_column_regauged, List.length_map, List.map_map, mul_div_assoc']
  congr 1
  rw [← List.sum_map_mul_left]
  congr 1
  apply List.map_congr_left
  intro row _
  unfold regauged
  rw [Function.comp_apply]
  ring

section Regauged

variable {c : ℚ} (hc : 0 < c) (e : Equiv.Perm (Fin m)) (sums : List (Fin m → ℚ))
include hc

theorem mem_activeSleeves_regauged (j : Fin m) :
    j ∈ activeSleeves (sums.map (regauged c e)) ↔ e j ∈ activeSleeves sums := by
  rw [mem_activeSleeves, mem_activeSleeves, List.length_map, covariance_regauged,
    mul_pos_iff_of_pos_left (pow_pos hc 2)]

theorem card_activeSleeves_regauged :
    (activeSleeves (sums.map (regauged c e))).card = (activeSleeves sums).card :=
  Finset.card_equiv e (mem_activeSleeves_regauged hc e sums)

theorem varianceRatio_regauged :
    varianceRatio (sums.map (regauged c e)) (activeSleeves (sums.map (regauged c e))) =
      varianceRatio sums (activeSleeves sums) := by
  have hmem := mem_activeSleeves_regauged hc e sums
  have htrace : ∑ i ∈ activeSleeves (sums.map (regauged c e)),
      covariance (sums.map (regauged c e)) i i =
      c ^ 2 * ∑ i ∈ activeSleeves sums, covariance sums i i := by
    rw [Finset.mul_sum]
    exact Finset.sum_equiv e hmem fun i _ => covariance_regauged c e sums i i
  have hsum : ∑ i ∈ activeSleeves (sums.map (regauged c e)),
      ∑ j ∈ activeSleeves (sums.map (regauged c e)), covariance (sums.map (regauged c e)) i j =
      c ^ 2 * ∑ i ∈ activeSleeves sums, ∑ j ∈ activeSleeves sums, covariance sums i j := by
    rw [Finset.mul_sum]
    apply Finset.sum_equiv e hmem
    intro i _
    rw [Finset.mul_sum]
    exact Finset.sum_equiv e hmem fun j _ => covariance_regauged c e sums i j
  unfold varianceRatio
  rw [htrace, hsum, mul_div_mul_left _ _ (pow_pos hc 2).ne']

theorem frequencyRow_regauged (f : Frequency) :
    frequencyRow f (sums.map (regauged c e)) = frequencyRow f sums := by
  unfold frequencyRow
  simp only [card_activeSleeves_regauged hc e sums, varianceRatio_regauged hc e sums,
    List.length_map]

end Regauged

theorem bucketSums_regauged (pnl : List (Fin m → ℚ))
    (timestamps : List Timestamp) (f : Frequency) :
    bucketSums (pnl.map (regauged c e)) timestamps f =
      (bucketSums pnl timestamps f).map (regauged c e) := by
  unfold bucketSums
  rw [List.zip_map_right, buckets_map, List.map_map, List.map_map]
  apply List.map_congr_left
  intro rows _
  funext j
  unfold regauged
  rw [Function.comp_apply, Function.comp_apply, List.map_map, ← List.sum_map_mul_left]
  rfl

section Row

variable {f : Frequency} {sums : List (Fin m → ℚ)}

theorem mActive_frequencyRow : (frequencyRow f sums).mActive = (activeSleeves sums).card := by
  unfold frequencyRow
  dsimp only
  split_ifs <;> rfl

theorem deff_of_idle (h : (activeSleeves sums).card < 2) : (frequencyRow f sums).deff = some 1 := by
  unfold frequencyRow
  rw [if_pos h]

theorem deff_of_short (h : 2 ≤ (activeSleeves sums).card) (hshort : sums.length < f.minPeriods) :
    (frequencyRow f sums).deff = none := by
  unfold frequencyRow
  rw [if_neg (by omega), if_pos hshort]

theorem deff_of_measured (h : 2 ≤ (activeSleeves sums).card) (hlong : f.minPeriods ≤ sums.length) :
    (frequencyRow f sums).deff = some (max 1 (varianceRatio sums (activeSleeves sums))) := by
  unfold frequencyRow
  rw [if_neg (by omega), if_neg (by omega)]

theorem deff_cases {x : ℚ} (h : (frequencyRow f sums).deff = some x) :
    x = 1 ∨ (2 ≤ (activeSleeves sums).card ∧ f.minPeriods ≤ sums.length ∧
      x = max 1 (varianceRatio sums (activeSleeves sums))) := by
  rcases lt_or_ge (activeSleeves sums).card 2 with hidle | hmoves
  · rw [deff_of_idle hidle, Option.some.injEq] at h
    exact .inl h.symm
  · rcases lt_or_ge sums.length f.minPeriods with hshort | hlong
    · rw [deff_of_short hmoves hshort] at h
      cases h
    · rw [deff_of_measured hmoves hlong, Option.some.injEq] at h
      exact .inr ⟨hmoves, hlong, h.symm⟩

theorem deff_bounds {x : ℚ} (h : (frequencyRow f sums).deff = some x) :
    1 ≤ x ∧ x ≤ max 1 ((activeSleeves sums).card : ℚ) := by
  rcases deff_cases h with rfl | ⟨hmoves, -, rfl⟩
  · exact ⟨le_rfl, le_max_left _ _⟩
  · exact ⟨le_max_left _ _, max_le_max le_rfl (varianceRatio_le (by omega))⟩

end Row

section Winner

variable {row : Frequency → FrequencyRow}

theorem mActive_designEffectOf :
    (designEffectOf m row).mActive = max (row .daily).mActive (row .weekly).mActive := by
  unfold designEffectOf
  dsimp only
  split_ifs <;> rfl

theorem mActive_le (m : ℕ) (row : Frequency → FrequencyRow) (f : Frequency) :
    (row f).mActive ≤ (designEffectOf m row).mActive := by
  rw [mActive_designEffectOf]
  cases f
  · exact le_max_left _ _
  · exact le_max_right _ _

theorem exists_mActive (m : ℕ) (row : Frequency → FrequencyRow) :
    ∃ f, (designEffectOf m row).mActive = (row f).mActive := by
  rw [mActive_designEffectOf]
  rcases max_choice (row .daily).mActive (row .weekly).mActive with h | h
  · exact ⟨.daily, h⟩
  · exact ⟨.weekly, h⟩

variable {x : ℚ}

theorem mem_estimates :
    x ∈ Frequency.members.filterMap (fun f => (row f).deff) ↔ ∃ f, (row f).deff = some x := by
  rw [List.mem_filterMap]
  constructor
  · rintro ⟨f, -, h⟩
    exact ⟨f, h⟩
  · rintro ⟨f, h⟩
    exact ⟨f, by cases f <;> simp [Frequency.members], h⟩

theorem deff_of_few (h : (designEffectOf m row).mActive < 2) : (designEffectOf m row).deff = 1 := by
  rw [mActive_designEffectOf] at h
  unfold designEffectOf
  dsimp only
  rw [if_pos h]

theorem deff_of_no_estimate (h : 2 ≤ (designEffectOf m row).mActive)
    (hnone : ∀ f, (row f).deff = none) :
    (designEffectOf m row).deff = (designEffectOf m row).mActive := by
  have hnil : Frequency.members.filterMap (fun f => (row f).deff) = [] := by
    apply List.eq_nil_iff_forall_not_mem.2
    intro x hx
    obtain ⟨f, hf⟩ := mem_estimates.1 hx
    rw [hnone f] at hf
    cases hf
  rw [mActive_designEffectOf] at h ⊢
  unfold designEffectOf
  dsimp only
  rw [if_neg (by omega), if_pos hnil]

variable {f : Frequency}

theorem deff_of_estimate (h : 2 ≤ (designEffectOf m row).mActive)
    (hf : (row f).deff = some x) :
    (designEffectOf m row).deff =
      (Frequency.members.filterMap fun f => (row f).deff).foldl max 1 := by
  have hne : Frequency.members.filterMap (fun f => (row f).deff) ≠ [] :=
    List.ne_nil_of_mem (mem_estimates.2 ⟨f, hf⟩)
  rw [mActive_designEffectOf] at h
  unfold designEffectOf
  dsimp only
  rw [if_neg (by omega), if_neg hne]

theorem estimate_le_deff (h : 2 ≤ (designEffectOf m row).mActive)
    (hf : (row f).deff = some x) : x ≤ (designEffectOf m row).deff := by
  rw [deff_of_estimate h hf]
  exact (foldl_max_le.1 le_rfl).2 x (mem_estimates.2 ⟨f, hf⟩)

theorem deff_designEffectOf (m : ℕ) (row : Frequency → FrequencyRow) :
    (designEffectOf m row).deff = 1 ∨ (∃ f, (row f).deff = some (designEffectOf m row).deff) ∨
      (2 ≤ (designEffectOf m row).mActive ∧
        (designEffectOf m row).deff = (designEffectOf m row).mActive ∧
        ∀ f, (row f).deff = none) := by
  rcases lt_or_ge (designEffectOf m row).mActive 2 with hfew | hmany
  · exact .inl (deff_of_few hfew)
  · by_cases hnone : ∀ f, (row f).deff = none
    · exact .inr (.inr ⟨hmany, deff_of_no_estimate hmany hnone, hnone⟩)
    · push Not at hnone
      obtain ⟨f, hf⟩ := hnone
      obtain ⟨x, hx⟩ := Option.ne_none_iff_exists'.1 hf
      rw [deff_of_estimate hmany hx]
      rcases foldl_max_mem (a := (1 : ℚ))
        (l := Frequency.members.filterMap fun f => (row f).deff) with hone | hmem
      · exact .inl hone
      · exact .inr (.inl (mem_estimates.1 hmem))

theorem designEffectOf_bounds (hrow : ∀ f x, (row f).deff = some x →
      1 ≤ x ∧ x ≤ max 1 ((row f).mActive : ℚ)) :
    1 ≤ (designEffectOf m row).deff ∧
      (designEffectOf m row).deff ≤ max 1 ((designEffectOf m row).mActive : ℚ) := by
  rcases deff_designEffectOf m row with hone | ⟨f, hf⟩ | ⟨hmany, hall, -⟩
  · rw [hone]
    exact ⟨le_rfl, le_max_left _ _⟩
  · obtain ⟨hge, hle⟩ := hrow f _ hf
    refine ⟨hge, hle.trans (max_le_max le_rfl ?_)⟩
    exact_mod_cast mActive_le m row f
  · rw [hall]
    refine ⟨?_, le_max_right _ _⟩
    have hone : 1 ≤ (designEffectOf m row).mActive := by omega
    exact_mod_cast hone

end Winner

section Equal

variable (pnl : List (Fin m → ℚ)) (timestamps : List Timestamp)

def activeAt (f : Frequency) : Finset (Fin m) := activeSleeves (bucketSums pnl timestamps f)

def Enough (f : Frequency) : Prop := f.minPeriods ≤ (bucketSums pnl timestamps f).length

def Identical : Prop :=
  ∀ f g, ∀ i ∈ activeAt pnl timestamps f, ∀ j ∈ activeAt pnl timestamps g,
    ∀ row ∈ pnl, row i = row j

def CountsAllSleeves : Prop :=
  (Identical pnl timestamps ∧ ∃ f, Enough pnl timestamps f) ∨ ∀ f, ¬ Enough pnl timestamps f

def NoIdleFrequency : Prop :=
  (∀ f, (activeAt pnl timestamps f).card < 2) ∨
    (∃ f, Enough pnl timestamps f ∧ 2 ≤ (activeAt pnl timestamps f).card) ∨
    ∀ f, 2 ≤ (activeAt pnl timestamps f).card

def designEffectOfAmounts : DesignEffect :=
  designEffectOf m fun f => frequencyRow f (bucketSums pnl timestamps f)

theorem card_activeAt_le (f : Frequency) :
    (activeAt pnl timestamps f).card ≤ (designEffectOfAmounts pnl timestamps).mActive := by
  have hle := mActive_le m (fun f => frequencyRow f (bucketSums pnl timestamps f)) f
  rw [mActive_frequencyRow] at hle
  exact hle

theorem exists_card_activeAt :
    ∃ f, (designEffectOfAmounts pnl timestamps).mActive = (activeAt pnl timestamps f).card := by
  obtain ⟨f, hf⟩ := exists_mActive m fun f => frequencyRow f (bucketSums pnl timestamps f)
  rw [mActive_frequencyRow] at hf
  exact ⟨f, hf⟩

theorem designEffectOfAmounts_bounds : 1 ≤ (designEffectOfAmounts pnl timestamps).deff ∧
      (designEffectOfAmounts pnl timestamps).deff ≤
        max 1 ((designEffectOfAmounts pnl timestamps).mActive : ℚ) := by
  apply designEffectOf_bounds
  intro f x hx
  rw [mActive_frequencyRow]
  exact deff_bounds hx

variable {pnl timestamps}

variable {f : Frequency}

theorem bucketSums_alike {i j : Fin m} (h : ∀ row ∈ pnl, row i = row j)
    {sums : Fin m → ℚ} (hsums : sums ∈ bucketSums pnl timestamps f) : sums i = sums j := by
  obtain ⟨rows, hrows, rfl⟩ := List.mem_map.1 hsums
  dsimp only
  congr 1
  apply List.map_congr_left
  intro x hx
  exact h x.2 (List.of_mem_zip (mem_of_mem_stretches hrows hx)).2

theorem activeAt_subset (h : Identical pnl timestamps) {f g : Frequency}
    (hf : 0 < (activeAt pnl timestamps f).card) :
    activeAt pnl timestamps g ⊆ activeAt pnl timestamps f := by
  intro j hj
  obtain ⟨i, hi⟩ := Finset.card_pos.1 hf
  have hsame : ∀ sums ∈ bucketSums pnl timestamps f, sums i = sums j :=
    fun sums hsums => bucketSums_alike (h f g i hi j hj) hsums
  have hcol : column (bucketSums pnl timestamps f) i = column (bucketSums pnl timestamps f) j :=
    List.map_congr_left hsame
  obtain ⟨hlength, hpos⟩ := mem_activeSleeves.1 hi
  refine mem_activeSleeves.2 ⟨hlength, ?_⟩
  rw [covariance_self] at hpos ⊢
  rw [← hcol]
  exact hpos

theorem deff_of_identical (h : Identical pnl timestamps)
    (hlong : Enough pnl timestamps f) (hmoves : 2 ≤ (activeAt pnl timestamps f).card) :
    (designEffectOfAmounts pnl timestamps).deff =
      (designEffectOfAmounts pnl timestamps).mActive := by
  have hpos : 0 < (activeAt pnl timestamps f).card := by omega
  obtain ⟨g, hg⟩ := exists_card_activeAt pnl timestamps
  have hall : (designEffectOfAmounts pnl timestamps).mActive =
      (activeAt pnl timestamps f).card := by
    apply le_antisymm _ (card_activeAt_le pnl timestamps f)
    rw [hg]
    exact Finset.card_le_card (activeAt_subset h hpos)
  have hone : (1 : ℚ) ≤ (activeAt pnl timestamps f).card := by
    exact_mod_cast (by omega : 1 ≤ (activeAt pnl timestamps f).card)
  apply le_antisymm
  · have hle := (designEffectOfAmounts_bounds pnl timestamps).2
    rw [hall] at hle ⊢
    rwa [max_eq_right hone] at hle
  · have hratio := varianceRatio_of_alike hpos fun i hi j hj sums hsums =>
      bucketSums_alike (h f f i hi j hj) hsums
    have hmeasured := deff_of_measured hmoves hlong
    rw [hratio] at hmeasured
    rw [hall]
    refine le_trans (le_max_right 1 _) (estimate_le_deff ?_ hmeasured)
    change 2 ≤ (designEffectOfAmounts pnl timestamps).mActive
    omega

theorem deff_of_idle_frequency (h : ¬ NoIdleFrequency pnl timestamps) :
    (designEffectOfAmounts pnl timestamps).deff = 1 ∧
      2 ≤ (designEffectOfAmounts pnl timestamps).mActive := by
  unfold NoIdleFrequency at h
  push Not at h
  obtain ⟨⟨f, hmoves⟩, hshort, g, hidle⟩ := h
  have hmany := hmoves.trans (card_activeAt_le pnl timestamps f)
  refine ⟨?_, hmany⟩
  rcases deff_designEffectOf m fun f =>
      frequencyRow f (bucketSums pnl timestamps f) with hone | ⟨k, hk⟩ | ⟨-, -, hnone⟩
  · exact hone
  · rcases deff_cases hk with hone | ⟨htwo, hlong, -⟩
    · exact hone
    · exact absurd (hshort k hlong) (by unfold activeAt; omega)
  · have hg := hnone g
    rw [deff_of_idle hidle] at hg
    cases hg

/-- The design effect is the number of active sleeves where it should be, unless a frequency at
which fewer than two sleeves move has the last word. -/
theorem deff_eq_mActive_iff (h : CountsAllSleeves pnl timestamps) :
    (designEffectOfAmounts pnl timestamps).deff =
        max 1 ((designEffectOfAmounts pnl timestamps).mActive : ℚ) ↔
      NoIdleFrequency pnl timestamps := by
  constructor
  · intro heq
    by_contra hidle
    obtain ⟨hone, hmany⟩ := deff_of_idle_frequency hidle
    have htwo : (2 : ℚ) ≤ (designEffectOfAmounts pnl timestamps).mActive := by exact_mod_cast hmany
    rw [hone] at heq
    have hle := le_max_right 1 ((designEffectOfAmounts pnl timestamps).mActive : ℚ)
    linarith
  · intro hcond
    rcases lt_or_ge (designEffectOfAmounts pnl timestamps).mActive 2 with hfew | hmany
    · have hone : (designEffectOfAmounts pnl timestamps).deff = 1 := deff_of_few hfew
      have hle : ((designEffectOfAmounts pnl timestamps).mActive : ℚ) ≤ 1 := by
        exact_mod_cast (by omega : (designEffectOfAmounts pnl timestamps).mActive ≤ 1)
      rw [hone, max_eq_left hle]
    · have hone : (1 : ℚ) ≤ (designEffectOfAmounts pnl timestamps).mActive := by
        exact_mod_cast (by omega : 1 ≤ (designEffectOfAmounts pnl timestamps).mActive)
      rw [max_eq_right hone]
      by_cases hmeasured : ∃ f, Enough pnl timestamps f ∧ 2 ≤ (activeAt pnl timestamps f).card
      · obtain ⟨f, hlong, hmoves⟩ := hmeasured
        rcases h with ⟨hsame, -⟩ | hnone
        · exact deff_of_identical hsame hlong hmoves
        · exact absurd hlong (hnone f)
      · have hboth : ∀ f, 2 ≤ (activeAt pnl timestamps f).card := by
          rcases hcond with hidle | hsome | hboth
          · obtain ⟨f, hf⟩ := exists_card_activeAt pnl timestamps
            exact absurd (hidle f) (by omega)
          · exact absurd hsome hmeasured
          · exact hboth
        apply deff_of_no_estimate hmany
        intro f
        apply deff_of_short (hboth f)
        by_contra hlong
        exact hmeasured ⟨f, not_lt.1 hlong, hboth f⟩

end Equal

def Frequency.start : Frequency → ℤ → Timestamp
  | daily, q => q * dayNs
  | weekly, q => (7 * q - 3) * dayNs

variable {t : Timestamp}

theorem dayNumber_mem_iff {a b : ℤ} :
    a ≤ Timestamp.dayNumber t ∧ Timestamp.dayNumber t < b ↔ a * dayNs ≤ t ∧ t < b * dayNs := by
  have hpos : 0 < dayNs := by decide
  unfold Timestamp.dayNumber
  rw [Int.le_ediv_iff_mul_le hpos, Int.ediv_lt_iff_lt_mul hpos]

theorem keyOf_eq_iff {f : Frequency} {q : ℤ} :
    f.keyOf t = q ↔ f.start q ≤ t ∧ t < f.start (q + 1) := by
  cases f
  · have hdays : Timestamp.dayNumber t = q ↔
        q ≤ Timestamp.dayNumber t ∧ Timestamp.dayNumber t < q + 1 := by omega
    exact hdays.trans dayNumber_mem_iff
  · have hdays : (Timestamp.dayNumber t + 3) / 7 = q ↔
        7 * q - 3 ≤ Timestamp.dayNumber t ∧ Timestamp.dayNumber t < 7 * (q + 1) - 3 := by omega
    exact hdays.trans dayNumber_mem_iff

variable (f : Frequency)

theorem keyOf_mono {s t : Timestamp} (h : s ≤ t) : f.keyOf s ≤ f.keyOf t := by
  have hday : Timestamp.dayNumber s ≤ Timestamp.dayNumber t := Int.ediv_le_ediv (by decide) h
  cases f
  · exact hday
  · exact Int.ediv_le_ediv (by decide) (by omega)

variable {timestamps : List Timestamp}

variable {pnl : List (Fin m → ℚ)}

/-- On an ascending calendar there is one sum for each day or week that has a bar, in order, and
it is the sum of the bars of that day or week. -/
theorem bucketSums_of_ascending (hascending : timestamps.Pairwise (· ≤ ·))
    (hlength : pnl.length = timestamps.length)
    (f : Frequency) :
    ∃ periods : List ℤ, periods.Pairwise (· < ·) ∧
      (∀ q, q ∈ periods ↔ ∃ t ∈ timestamps, f.start q ≤ t ∧ t < f.start (q + 1)) ∧
      bucketSums pnl timestamps f = periods.map fun q j =>
        (((timestamps.zip pnl).filter fun x => f.start q ≤ x.1 ∧ x.1 < f.start (q + 1)).map
          fun x => x.2 j).sum := by
  have hkeys : (timestamps.zip pnl).map (fun x => f.keyOf x.1) = timestamps.map f.keyOf := by
    rw [← Function.comp_def f.keyOf Prod.fst, ← List.map_map, List.map_fst_zip (by omega)]
  have hsorted : ((timestamps.zip pnl).map fun x => f.keyOf x.1).Pairwise (· ≤ ·) := by
    rw [hkeys, List.pairwise_map]
    exact hascending.imp fun h => keyOf_mono f h
  obtain ⟨periods, hlt, hmem, hbuckets⟩ := buckets_of_ascending hsorted
  refine ⟨periods, hlt, ?_, ?_⟩
  · intro q
    rw [hmem, hkeys, List.mem_map]
    simp only [keyOf_eq_iff]
  · unfold bucketSums
    rw [hbuckets, List.map_map]
    simp only [keyOf_eq_iff]
    rfl

theorem finiteRow_fin (row : Fin m → ℚ) : finiteRow (fun j => Number.fin (row j)) = some row := by
  unfold finiteRow
  exact if_pos fun j => rfl

def amounts (pnl : List (Fin m → ℚ)) : List (Fin m → Number) :=
  pnl.map fun row j => Number.fin (row j)

theorem designEffect_amounts (h : pnl.length = timestamps.length) :
    designEffect (amounts pnl) timestamps = .ok (designEffectOfAmounts pnl timestamps) := by
  have hfinite : (amounts pnl).mapM finiteRow = some pnl := by
    unfold amounts
    rw [Pointwise.mapM_eq_some, List.forall₂_map_left_iff, List.forall₂_same]
    exact fun row _ => finiteRow_fin row
  unfold designEffect
  rw [if_neg (by unfold amounts; rw [List.length_map]; omega), hfinite]
  rfl

variable {d : DesignEffect}

theorem designEffect_ok {pnl : List (Fin m → Number)}
    (h : designEffect pnl timestamps = .ok d) :
    ∃ rows : List (Fin m → ℚ), d = designEffectOfAmounts rows timestamps := by
  unfold designEffect at h
  split at h
  · cases h
  · split at h
    · cases h
    · cases h
      exact ⟨_, rfl⟩

theorem effective_bounds {n : ℤ} (hn : 0 ≤ n)
    (h : 1 ≤ d.deff ∧ d.deff ≤ max 1 (d.mActive : ℚ)) :
    0 ≤ d.effective n ∧ d.effective n ≤ n ∧ n / max 1 (d.mActive : ℚ) ≤ d.effective n := by
  have hn : (0 : ℚ) ≤ n := by exact_mod_cast hn
  have hpos : 0 < d.deff := lt_of_lt_of_le one_pos h.1
  unfold DesignEffect.effective
  refine ⟨div_nonneg hn hpos.le, div_le_self hn h.1, ?_⟩
  exact div_le_div_of_nonneg_left hn hpos h.2

section Pooled

variable {T : Type} {sleeves : List (SleeveRun T)} {others e : WindowEvaluation T}

theorem pooledCalendar_ascending (sleeves : List (SleeveRun T)) :
    (pooledCalendar sleeves).Pairwise (· ≤ ·) := List.pairwise_insertionSort _ _

theorem nTrades_nonneg (sleeves : List (SleeveRun T)) :
    0 ≤ (sleeves.map fun s => s.evaluation.nTrades).sum := by
  apply List.sum_nonneg
  intro n hn
  obtain ⟨s, -, rfl⟩ := List.mem_map.1 hn
  exact s.counted

variable (text : Numerals)

theorem nTradesEffective_of_metadata {q : ℚ}
    (h : e.metadata.get "n_trades_effective" = some (numberValue (.fin q))) (hq : 0 ≤ q)
    (hle : q ≤ e.nTrades) : e.nTradesEffective text = .ok (.fin q) := by
  have hread : text.float (.num q) = .ok (.fin q) := text.float_number (.fin q)
  unfold WindowEvaluation.nTradesEffective
  rw [h]
  simp only [numberValue, hread]
  change (if (!(Number.fin q).isfinite || Number.lt (.fin q) (.fin 0)) = true then _ else _) = _
  rw [Number.lt_fin, if_neg (by simp [Number.isfinite, hq]), Number.lt_fin, if_neg (by simp [hle])]

theorem poolEvaluations_ok (h : poolEvaluations sleeves others = .ok e) :
    ∃ d, designEffect (pooledPnl sleeves) (pooledCalendar sleeves) = .ok d ∧ 0 ≤ e.nTrades ∧
      e.metadata.get "n_trades_effective" = some (numberValue (.fin (d.effective e.nTrades))) := by
  unfold poolEvaluations at h
  cases hcheck : sleeves.forM SleeveRun.check with
  | error m =>
    rw [hcheck] at h
    cases h
  | ok u =>
    rw [hcheck] at h
    cases hdeff : designEffect (pooledPnl sleeves) (pooledCalendar sleeves) with
    | error m =>
      simp only [hdeff] at h
      cases h
    | ok d =>
      simp only [hdeff] at h
      cases h
      exact ⟨d, rfl, nTrades_nonneg sleeves, Dict.get_set_self _ _ _⟩

theorem nTradesEffective_pooled (h : poolEvaluations sleeves others = .ok e) :
    ∃ d, designEffect (pooledPnl sleeves) (pooledCalendar sleeves) = .ok d ∧
      ∃ q : ℚ, e.nTradesEffective text = .ok (.fin q) ∧ q ≤ e.nTrades ∧
        e.nTrades / max 1 (d.mActive : ℚ) ≤ q := by
  obtain ⟨d, hd, hn, hmeta⟩ := poolEvaluations_ok h
  obtain ⟨rows, rfl⟩ := designEffect_ok hd
  obtain ⟨hnonneg, hle, hge⟩ := effective_bounds hn (designEffectOfAmounts_bounds rows _)
  exact ⟨_, hd, _, nTradesEffective_of_metadata text hmeta hnonneg hle, hle, hge⟩

/-- The design effect lies between one and the number of active sleeves, whatever the order and the
unit of the sleeves; where it should be that number, it is, if and only if no frequency at which
fewer than two sleeves move has the last word; the sums are those of the bars of each UTC day and
Monday week; and a pooled evaluation counts its trades by it. -/
theorem design_effect_of_pooling {m : ℕ} (pnl : List (Fin m → ℚ)) (timestamps : List Timestamp)
    {T : Type} (sleeves : List (SleeveRun T)) (others e : WindowEvaluation T) :
    (timestamps.Pairwise (· ≤ ·) → pnl.length = timestamps.length →
      ∃ d, designEffect (amounts pnl) timestamps = .ok d ∧
        (1 ≤ d.deff ∧ d.deff ≤ max 1 (d.mActive : ℚ)) ∧
        (∀ c : ℚ, 0 < c → ∀ e : Equiv.Perm (Fin m),
          designEffect (amounts (pnl.map (regauged c e))) timestamps = .ok d) ∧
        (CountsAllSleeves pnl timestamps →
          (d.deff = max 1 (d.mActive : ℚ) ↔ NoIdleFrequency pnl timestamps)) ∧
        ∀ f : Frequency, ∃ periods : List ℤ, periods.Pairwise (· < ·) ∧
          (∀ q, q ∈ periods ↔ ∃ t ∈ timestamps, f.start q ≤ t ∧ t < f.start (q + 1)) ∧
          bucketSums pnl timestamps f = periods.map fun q j =>
            (((timestamps.zip pnl).filter fun x =>
              f.start q ≤ x.1 ∧ x.1 < f.start (q + 1)).map fun x => x.2 j).sum) ∧
      (poolEvaluations sleeves others = .ok e → (pooledCalendar sleeves).Pairwise (· ≤ ·) ∧
        ∀ text : Numerals, ∃ d, designEffect (pooledPnl sleeves) (pooledCalendar sleeves) = .ok d ∧
          ∃ q : ℚ, e.nTradesEffective text = .ok (.fin q) ∧ q ≤ e.nTrades ∧
            e.nTrades / max 1 (d.mActive : ℚ) ≤ q) := by
  constructor
  · intro hascending hlength
    refine ⟨_, designEffect_amounts hlength, designEffectOfAmounts_bounds pnl timestamps, ?_,
      deff_eq_mActive_iff, bucketSums_of_ascending hascending hlength⟩
    intro c hc e
    rw [designEffect_amounts (by rw [List.length_map]; exact hlength)]
    unfold designEffectOfAmounts
    simp only [bucketSums_regauged, frequencyRow_regauged hc]
  · intro h
    exact ⟨pooledCalendar_ascending sleeves, fun text => nTradesEffective_pooled text h⟩

end Pooled

def twoDays : List (Fin 2 → ℚ) := [fun _ => 1, fun _ => 3]

def mondayAndTuesday : List Timestamp := [4 * dayNs, 5 * dayNs]

theorem not_enough_twoDays : ¬ Enough twoDays mondayAndTuesday f := by
  cases f
  · exact Nat.not_le.2 (by decide)
  · exact Nat.not_le.2 (by decide)

/-- Two sleeves that move alike on two days of one week: no frequency has periods enough, and the
week, at which nothing moves, says that there is nothing to correlate. -/
theorem idle_week_counts_sleeves_as_independent : CountsAllSleeves twoDays mondayAndTuesday ∧
      (designEffect (amounts twoDays) mondayAndTuesday).toOption.map
        (fun d => (d.deff, d.mActive)) = some (1, 2) :=
  ⟨.inr not_enough_twoDays, by decide +kernel⟩

def sleeveOfTwo : SleeveRun ℕ where
  instrument := "EURUSD"
  bars := mondayAndTuesday
  evaluation :=
    { window := ⟨"week", 4 * dayNs, 9 * dayNs, by decide⟩
      params := Dict.empty
      nTrades := 3
      netProfit := .fin 4
      returns := [.fin 1, .fin 3]
      returnsBasis := .period
      trades := [1, 2, 3]
      metadata := Dict.empty
      canonical := rfl }
  counted := by decide

theorem design_effect_of_two_sleeves :
    (∃ d, designEffect (amounts twoDays) mondayAndTuesday = .ok d ∧
      1 ≤ d.deff ∧ ¬ d.deff = max 1 (d.mActive : ℚ)) ∧
      ∃ e, poolEvaluations [sleeveOfTwo, sleeveOfTwo] sleeveOfTwo.evaluation = .ok e ∧
        ∀ text : Numerals, ∃ q : ℚ, e.nTradesEffective text = .ok (.fin q) ∧ q ≤ e.nTrades := by
  have hpooled : (poolEvaluations [sleeveOfTwo, sleeveOfTwo]
      sleeveOfTwo.evaluation).toOption.isSome = true := by decide
  cases he : poolEvaluations [sleeveOfTwo, sleeveOfTwo] sleeveOfTwo.evaluation with
  | error message =>
    rw [he] at hpooled
    cases hpooled
  | ok e =>
    obtain ⟨hmeasured, hcounted⟩ := design_effect_of_pooling twoDays mondayAndTuesday
      [sleeveOfTwo, sleeveOfTwo] sleeveOfTwo.evaluation e
    constructor
    · obtain ⟨d, hd, hbounds, -, hiff, -⟩ := hmeasured (by decide) rfl
      refine ⟨d, hd, hbounds.1, ?_⟩
      intro heq
      have hweekly : (activeAt twoDays mondayAndTuesday .weekly).card = 0 := by decide
      have hdaily : (activeAt twoDays mondayAndTuesday .daily).card = 2 := by decide +kernel
      rcases (hiff (.inr not_enough_twoDays)).1 heq with hfew | ⟨f, hlong, -⟩ | hboth
      · exact absurd (hfew .daily) (by omega)
      · exact not_enough_twoDays f hlong
      · exact absurd (hboth .weekly) (by omega)
    · refine ⟨e, rfl, fun text => ?_⟩
      obtain ⟨d, -, q, hq, hle, -⟩ := (hcounted he).2 text
      exact ⟨q, hq, hle⟩

end Fiboki
