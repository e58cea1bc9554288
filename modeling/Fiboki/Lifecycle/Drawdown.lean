import Fiboki.Lib.Accumulate
import Fiboki.Lib.Floating
import Fiboki.Lifecycle.Degradation

/-!
The maximum drawdown of a forward record, and the stopping rule that reads it.
-/

namespace Fiboki

open Accumulate Floating

/-- `_clean`: the finite members of a series. -/
def clean (series : List Number) : List ℚ :=
  series.filterMap fun x => match x with
    | .fin q => some q
    | .inf _ | .nan => none

def maxDrawdown (returns : List Number) : ℚ :=
  let arr := clean returns
  if arr.isEmpty then 0
  else
    let equity := accumulate (· * ·) (arr.map (1 + ·))
    let peak := accumulate max equity
    (List.zipWith (fun e p => 1 - e / p) equity peak).max?.getD 0

structure BootstrapDrawdownParameters where
  threshold : ℚ
  minObservations : ℤ
  fractional : 0 < threshold ∧ threshold < 1

/-- A verdict of the rule, with the arithmetic that produced it. -/
structure DrawdownVerdict where
  status : RuleStatus
  statistic : Option ℚ
  threshold : Option ℚ
  comparison : String
  nObservations : ℕ

def BootstrapDrawdownParameters.evaluate (params : BootstrapDrawdownParameters)
    (returns : List Number) : DrawdownVerdict :=
  let n := (clean returns).length
  if n < params.minObservations then ⟨.notEvaluated, none, none, "", n⟩
  else
    let observed := maxDrawdown returns
    ⟨if params.threshold < observed then .fired else .clear, some observed, some params.threshold,
      ">", n⟩

def equityAfter (arr : List ℚ) (k : ℕ) : ℚ := ((arr.take k).map (1 + ·)).prod

def Falls (arr : List ℚ) : Set ℚ :=
  {d | ∃ i j, i ≤ j ∧ j ≤ arr.length ∧ d = 1 - equityAfter arr j / equityAfter arr i}

def FallsAfterTrade (arr : List ℚ) : Set ℚ :=
  {d | ∃ i j, 1 ≤ i ∧ i ≤ j ∧ j ≤ arr.length ∧ d = 1 - equityAfter arr j / equityAfter arr i}

section Equity

variable {arr : List ℚ}

theorem equityAfter_pos (h : ∀ r ∈ arr, -1 < r) (k : ℕ) : 0 < equityAfter arr k := by
  apply List.prod_pos
  intro x hx
  obtain ⟨r, hr, rfl⟩ := List.mem_map.1 hx
  have := h r (List.mem_of_mem_take hr)
  linarith

theorem equityAfter_append {k : ℕ} (h : k ≤ arr.length) (more : List ℚ) :
    equityAfter (arr ++ more) k = equityAfter arr k := by
  unfold equityAfter
  rw [List.take_append_of_le_length h]

theorem getElem_equity {j : ℕ} (h : j < (accumulate (· * ·) (arr.map (1 + ·))).length) :
    (accumulate (· * ·) (arr.map (1 + ·)))[j] = equityAfter arr (j + 1) := by
  rw [getElem_accumulate_mul]
  unfold equityAfter
  rw [List.map_take]

theorem isGreatest_fallsAfterTrade {returns : List Number} (hne : clean returns ≠ [])
    (h : ∀ r ∈ clean returns, -1 < r) :
    IsGreatest (FallsAfterTrade (clean returns)) (maxDrawdown returns) := by
  generalize hequity : accumulate (· * ·) ((clean returns).map (1 + ·)) = equity
  have hlength : equity.length = (clean returns).length := by
    rw [← hequity, length_accumulate, List.length_map]
  have hpeaks : (accumulate max equity).length = (clean returns).length := by
    rw [length_accumulate, hlength]
  have hget : ∀ j (hj : j < equity.length), equity[j] = equityAfter (clean returns) (j + 1) := by
    intro j hj
    subst hequity
    exact getElem_equity hj
  generalize hfalls : List.zipWith (fun e p => 1 - e / p) equity (accumulate max equity) = falls
  have hfallsLength : falls.length = (clean returns).length := by
    rw [← hfalls, List.length_zipWith, hlength, hpeaks, min_self]
  have hmax : falls.max? = some (maxDrawdown returns) := by
    unfold maxDrawdown
    rw [if_neg fun hempty => hne (List.isEmpty_iff.1 hempty)]
    dsimp only
    rw [hequity, hfalls]
    cases hm : falls.max? with
    | some d => rfl
    | none =>
      rw [List.max?_eq_none_iff] at hm
      rw [hm] at hfallsLength
      exact absurd (List.eq_nil_of_length_eq_zero hfallsLength.symm) hne
  obtain ⟨hmem, hle⟩ := List.max?_eq_some_iff.1 hmax
  constructor
  · obtain ⟨j, hj, hjd⟩ := List.getElem_of_mem hmem
    subst hfalls
    have hje : j < equity.length := by omega
    obtain ⟨i, hi, hij, hpeak⟩ := accumulate_max_mem (l := equity) (i := j) (by omega)
    rw [List.getElem_zipWith, hpeak, hget j hje, hget i hi] at hjd
    exact ⟨i + 1, j + 1, by omega, by omega, by omega, hjd.symm⟩
  · rintro d ⟨i, j, hi, hij, hj, rfl⟩
    obtain ⟨i, rfl⟩ := Nat.exists_eq_add_of_le' hi
    obtain ⟨j, rfl⟩ := Nat.exists_eq_add_of_le' (hi.trans hij)
    have hje : j < equity.length := by omega
    have hjp : j < (accumulate max equity).length := by omega
    have hpeak := (accumulate_max_le hjp).1 le_rfl i (by omega) (by omega)
    have hfall : 1 - equity[j] / (accumulate max equity)[j] ∈ falls := by
      rw [← hfalls]
      have hj' : j <
        (List.zipWith (fun e p => 1 - e / p) equity (accumulate max equity)).length := by
        rw [hfalls]
        omega
      have := List.getElem_mem hj'
      rwa [List.getElem_zipWith] at this
    apply le_trans _ (hle _ hfall)
    rw [hget i (by omega)] at hpeak
    rw [hget j hje]
    have hpos := equityAfter_pos h (i + 1)
    have hdiv := div_le_div_of_nonneg_left (equityAfter_pos h (j + 1)).le hpos hpeak
    linarith

end Equity

theorem clean_append (returns more : List Number) :
    clean (returns ++ more) = clean returns ++ clean more := List.filterMap_append

variable {returns : List Number}

theorem maxDrawdown_of_empty (h : clean returns = []) : maxDrawdown returns = 0 := by
  unfold maxDrawdown
  rw [h]
  rfl

theorem maxDrawdown_range (h : ∀ r ∈ clean returns, -1 < r) :
    0 ≤ maxDrawdown returns ∧ maxDrawdown returns < 1 := by
  by_cases hne : clean returns = []
  · rw [maxDrawdown_of_empty hne]
    exact ⟨le_rfl, one_pos⟩
  obtain ⟨⟨i, j, -, -, -, hd⟩, hgreatest⟩ := isGreatest_fallsAfterTrade hne h
  constructor
  · apply hgreatest
    have hpos := equityAfter_pos h 1
    refine ⟨1, 1, le_rfl, le_rfl, List.length_pos_iff.2 hne, ?_⟩
    rw [div_self hpos.ne', sub_self]
  · rw [hd]
    have hdiv := div_pos (equityAfter_pos h j) (equityAfter_pos h i)
    linarith

theorem maxDrawdown_append {returns more : List Number} (h : ∀ r ∈ clean returns, -1 < r)
    (hmore : ∀ r ∈ clean more, -1 < r) : maxDrawdown returns ≤ maxDrawdown (returns ++ more) := by
  have hall : ∀ r ∈ clean (returns ++ more), -1 < r := by
    intro r hr
    rw [clean_append] at hr
    rcases List.mem_append.1 hr with hr | hr
    · exact h r hr
    · exact hmore r hr
  by_cases hne : clean returns = []
  · rw [maxDrawdown_of_empty hne]
    exact (maxDrawdown_range hall).1
  have hne' : clean (returns ++ more) ≠ [] := by
    rw [clean_append]
    exact List.append_ne_nil_of_left_ne_nil hne _
  obtain ⟨⟨i, j, hi, hij, hj, hd⟩, -⟩ := isGreatest_fallsAfterTrade hne h
  apply (isGreatest_fallsAfterTrade hne' hall).2
  refine ⟨i, j, hi, hij, ?_, ?_⟩
  · rw [clean_append, List.length_append]
    omega
  · rw [clean_append, equityAfter_append hj, equityAfter_append (hij.trans hj)]
    exact hd

def StartMatched (arr : List ℚ) : Prop :=
  ∀ k, 1 ≤ k → k ≤ arr.length → ∃ i j, 1 ≤ i ∧ i ≤ j ∧ j ≤ arr.length ∧
    equityAfter arr j ≤ equityAfter arr i * equityAfter arr k

/-- The greatest fall of the equity from the start on, and what follows of that. -/
structure IsDrawdown (arr : List ℚ) (d : ℚ) : Prop where
  greatest : IsGreatest (Falls arr) d
  range : 0 ≤ d ∧ d < 1
  first : ∀ r ∈ arr.head?, -r ≤ d

theorem equityAfter_zero (arr : List ℚ) : equityAfter arr 0 = 1 := rfl

theorem isGreatest_falls_iff (h : ∀ r ∈ clean returns, -1 < r) :
    IsGreatest (Falls (clean returns)) (maxDrawdown returns) ↔ StartMatched (clean returns) := by
  by_cases hne : clean returns = []
  · rw [maxDrawdown_of_empty hne, hne]
    refine iff_of_true ⟨⟨0, 0, le_rfl, le_rfl, ?_⟩, ?_⟩ ?_
    · rw [equityAfter_zero, div_one, sub_self]
    · rintro d ⟨i, j, hij, hj, rfl⟩
      obtain rfl : j = 0 := Nat.le_zero.1 hj
      obtain rfl : i = 0 := Nat.le_zero.1 hij
      rw [equityAfter_zero, div_one, sub_self]
    · intro k hk hk'
      exact absurd hk' (by rw [List.length_nil]; omega)
  obtain ⟨hmem, hgreatest⟩ := isGreatest_fallsAfterTrade hne h
  constructor
  · intro hfalls k hk hk'
    obtain ⟨i, j, hi, hij, hj, hd⟩ := hmem
    refine ⟨i, j, hi, hij, hj, ?_⟩
    have hle := hfalls.2 ⟨0, k, Nat.zero_le k, hk', rfl⟩
    rw [hd, equityAfter_zero, div_one] at hle
    have hpos := equityAfter_pos h i
    have hratio : equityAfter (clean returns) j / equityAfter (clean returns) i ≤
        equityAfter (clean returns) k := by linarith
    rw [div_le_iff₀ hpos] at hratio
    linarith
  · intro hmatched
    constructor
    · obtain ⟨i, j, -, hij, hj, hd⟩ := hmem
      exact ⟨i, j, hij, hj, hd⟩
    · rintro d ⟨i, j, hij, hj, rfl⟩
      rcases Nat.eq_zero_or_pos i with rfl | hi
      · rw [equityAfter_zero, div_one]
        rcases Nat.eq_zero_or_pos j with rfl | hjpos
        · rw [equityAfter_zero, sub_self]
          exact (maxDrawdown_range h).1
        obtain ⟨i', j', hi', hij', hj', hle⟩ := hmatched j hjpos hj
        apply le_trans _ (hgreatest ⟨i', j', hi', hij', hj', rfl⟩)
        have hpos := equityAfter_pos h i'
        have hratio := (div_le_iff₀ hpos).2 (by linarith :
          equityAfter (clean returns) j' ≤ equityAfter (clean returns) j * _)
        linarith
      · exact hgreatest ⟨i, j, hi, hij, hj, rfl⟩

theorem isDrawdown_iff (h : ∀ r ∈ clean returns, -1 < r) :
    IsDrawdown (clean returns) (maxDrawdown returns) ↔ StartMatched (clean returns) := by
  rw [← isGreatest_falls_iff h]
  constructor
  · exact IsDrawdown.greatest
  · intro hgreatest
    refine ⟨hgreatest, maxDrawdown_range h, ?_⟩
    intro r hr
    cases harr : clean returns with
    | nil =>
      rw [harr] at hr
      cases hr
    | cons a rest =>
      rw [harr] at hr
      cases hr
      have hfirst : 1 - equityAfter (clean returns) 1 / equityAfter (clean returns) 0 = -r := by
        rw [harr, equityAfter_zero, div_one]
        show 1 - ([1 + r] : List ℚ).prod = -r
        rw [List.prod_singleton]
        ring
      rw [← hfirst]
      apply hgreatest.2
      refine ⟨0, 1, Nat.zero_le 1, ?_, rfl⟩
      rw [harr, List.length_cons]
      omega

theorem fired_iff (params : BootstrapDrawdownParameters) (returns : List Number) :
    (params.evaluate returns).status = .fired ↔
      params.minObservations ≤ (clean returns).length ∧ params.threshold < maxDrawdown returns := by
  unfold BootstrapDrawdownParameters.evaluate
  dsimp only
  split_ifs with hn hobserved
  · exact iff_of_false (fun hs => nomatch hs) fun hand => absurd hand.1 (not_le.2 hn)
  · exact iff_of_true rfl ⟨not_lt.1 hn, hobserved⟩
  · exact iff_of_false (fun hs => nomatch hs) fun hand => hobserved hand.2

/-- The maximum drawdown is the greatest fall of the equity from its start on exactly when the
start is matched. It lies in `[0, 1)` and does not decrease along a record, so that a rule that
has fired fires on every longer record. -/
theorem max_drawdown_means (returns : List Number) (h : ∀ r ∈ clean returns, -1 < r) :
    (IsDrawdown (clean returns) (maxDrawdown returns) ↔ StartMatched (clean returns)) ∧
    (0 ≤ maxDrawdown returns ∧ maxDrawdown returns < 1) ∧
    ∀ more : List Number, (∀ r ∈ clean more, -1 < r) →
      maxDrawdown returns ≤ maxDrawdown (returns ++ more) ∧
      ∀ params : BootstrapDrawdownParameters, (params.evaluate returns).status = .fired →
        (params.evaluate (returns ++ more)).status = .fired := by
  refine ⟨isDrawdown_iff h, maxDrawdown_range h, ?_⟩
  intro more hmore
  have hle := maxDrawdown_append h hmore
  refine ⟨hle, ?_⟩
  intro params hfired
  obtain ⟨hn, hthreshold⟩ := (fired_iff params returns).1 hfired
  apply (fired_iff params _).2
  refine ⟨?_, lt_of_lt_of_le hthreshold hle⟩
  rw [clean_append, List.length_append]
  push_cast
  omega

/-- A record of one loss of a half has no drawdown. -/
theorem first_loss_is_not_counted :
    maxDrawdown [.fin (-1 / 2)] = 0 ∧ ¬ IsDrawdown (clean [.fin (-1 / 2)]) 0 := by
  refine ⟨by decide +kernel, ?_⟩
  intro h
  have hfirst := h.first (-1 / 2) rfl
  linarith

theorem rise_then_fall :
    IsDrawdown (clean [.fin (1 / 2), .fin (-1 / 2)])
    (maxDrawdown [.fin (1 / 2), .fin (-1 / 2)]) := by
  have h : ∀ r ∈ clean [.fin (1 / 2), .fin (-1 / 2)], -1 < r := by decide +kernel
  apply (max_drawdown_means [.fin (1 / 2), .fin (-1 / 2)] h).1.2
  intro k hk hk'
  have hlength : (clean [.fin (1 / 2), .fin (-1 / 2)]).length = 2 := rfl
  rw [hlength] at hk'
  refine ⟨1, 2, le_rfl, by omega, by rw [hlength], ?_⟩
  obtain rfl | rfl : k = 1 ∨ k = 2 := by omega
  · decide +kernel
  · decide +kernel

end Fiboki
