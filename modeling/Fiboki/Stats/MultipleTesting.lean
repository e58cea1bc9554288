import Fiboki.Lib.Accumulate
import Fiboki.Lib.Argsort
import Fiboki.Lib.Floating

/-!
Multiple-testing corrections: Bonferroni, Holm and Benjamini-Hochberg.

An adjusted p-value is read through its bounds: for each method `adjusted ≤ c` is a condition on
the raw value and on how many others lie below it, without an order of the tests.

What the adjusted p-values keep of the raw ones, and the corrections as step procedures.
-/

namespace Fiboki

open Accumulate Argsort Floating

/-- P-values that passed `_as_pvalues`. -/
structure PValues where
  values : List ℚ
  nonempty : values ≠ []
  unit : ∀ x ∈ values, 0 ≤ x ∧ x ≤ 1

def finite (pvalues : List Number) : Option (List ℚ) :=
  pvalues.mapM fun x => match x with
    | .fin q => some q
    | .inf _ | .nan => none

def asPvalues (pvalues : List Number) : Except String PValues :=
  if pvalues.isEmpty then .error "no p-values supplied"
  else match finite pvalues with
    | none => .error "p-values contain non-finite values"
    | some values =>
      if h : values ≠ [] ∧ ∀ x ∈ values, 0 ≤ x ∧ x ≤ 1 then .ok ⟨values, h.1, h.2⟩
      else .error "p-values must lie in [0, 1]"

structure MultipleTestResult where
  method : String
  alpha : ℚ
  rejected : List Bool
  adjustedPvalues : List ℚ
  nTests : ℕ
  /-- The largest raw p-value that was rejected, or 0 if none was. -/
  threshold : ℚ
  deriving DecidableEq

namespace PValues

variable (p : PValues)

def result (method : String) (alpha : ℚ) (adjusted : List ℚ) : MultipleTestResult :=
  let rejected := adjusted.map fun a => decide (a ≤ alpha)
  { method, alpha, rejected
    adjustedPvalues := adjusted
    nTests := p.values.length
    threshold := (((p.values.zip rejected).filter Prod.snd).map Prod.fst).max?.getD 0 }

def bonferroniAdjusted : List ℚ := p.values.map fun x => min 1 (x * p.values.length)

/-- `(m - np.arange(m)) * p_sorted`. -/
def holmRaw : List ℚ := (sorted p.values).zipIdx.map fun x => ((p.values.length : ℚ) - x.2) * x.1

def holmAdjusted : List ℚ := scatter (order p.values) ((accumulate max p.holmRaw).map (min 1))

/-- `p_sorted * m / ranks`. -/
def stepUpRaw : List ℚ :=
  (sorted p.values).zipIdx.map fun x => x.1 * p.values.length / ((x.2 : ℚ) + 1)

def benjaminiHochbergAdjusted : List ℚ :=
  scatter (order p.values) ((accumulate min p.stepUpRaw.reverse).reverse.map (min 1))

def bonferroni (alpha : ℚ) : MultipleTestResult := p.result "bonferroni" alpha p.bonferroniAdjusted

def holm (alpha : ℚ) : MultipleTestResult := p.result "holm" alpha p.holmAdjusted

def benjaminiHochberg (alpha : ℚ) : MultipleTestResult :=
  p.result "benjamini_hochberg" alpha p.benjaminiHochbergAdjusted

end PValues

def bonferroni (pvalues : List Number) (alpha : ℚ) : Except String MultipleTestResult :=
  (asPvalues pvalues).map fun p => p.bonferroni alpha

def holm (pvalues : List Number) (alpha : ℚ) : Except String MultipleTestResult :=
  (asPvalues pvalues).map fun p => p.holm alpha

def benjaminiHochberg (pvalues : List Number) (alpha : ℚ) : Except String MultipleTestResult :=
  (asPvalues pvalues).map fun p => p.benjaminiHochberg alpha

def stepDownFrom (alpha : ℚ) : List (ℚ × ℕ) → List ℕ
  | [] => []
  | x :: rest =>
    if x.1 ≤ alpha / ((rest.length : ℚ) + 1) then x.2 :: stepDownFrom alpha rest else []

def stepDown (p : PValues) (alpha : ℚ) : List ℕ := stepDownFrom alpha (ranked p.values)

/-- The `k`-th smallest p-value is at most `k * alpha / m`. -/
def underLine (p : PValues) (alpha : ℚ) (k : ℕ) : Bool :=
  (sorted p.values)[k - 1]?.any fun x => x ≤ k * alpha / p.values.length

def stepUp (p : PValues) (alpha : ℚ) : List ℕ :=
  (order p.values).take (Nat.findGreatest (fun k => underLine p alpha k) p.values.length)

section Numbers

theorem finite_map (values : List ℚ) : finite (values.map .fin) = some values := by
  induction values with
  | nil => rfl
  | cons x values ih =>
    unfold finite at ih ⊢
    rw [List.map_cons, List.mapM_cons, ih]
    rfl

theorem asPvalues_fin (p : PValues) : asPvalues (p.values.map .fin) = .ok p := by
  unfold asPvalues
  rw [if_neg, finite_map]
  · dsimp only
    rw [dif_pos ⟨p.nonempty, p.unit⟩]
  · rw [List.isEmpty_iff, List.map_eq_nil_iff]
    exact p.nonempty

end Numbers

namespace PValues

variable {p : PValues}

theorem length_pos (p : PValues) : 0 < p.values.length := List.length_pos_iff.2 p.nonempty

theorem mem_values_nonneg {x : ℚ} (h : x ∈ p.values) : 0 ≤ x := (p.unit x h).1

theorem length_holmRaw : p.holmRaw.length = p.values.length := by
  unfold holmRaw
  rw [List.length_map, List.length_zipIdx, length_sorted]

theorem length_stepUpRaw : p.stepUpRaw.length = p.values.length := by
  unfold stepUpRaw
  rw [List.length_map, List.length_zipIdx, length_sorted]

theorem getElem_holmRaw {k : ℕ} (h : k < p.holmRaw.length) (hs : k < (sorted p.values).length) :
    p.holmRaw[k] = ((p.values.length : ℚ) - k) * (sorted p.values)[k] := by
  simp only [holmRaw, List.getElem_map, List.getElem_zipIdx, Nat.zero_add]

theorem getElem_stepUpRaw {k : ℕ} (h : k < p.stepUpRaw.length) (hs : k < (sorted p.values).length) :
    p.stepUpRaw[k] = (sorted p.values)[k] * p.values.length / ((k : ℚ) + 1) := by
  simp only [stepUpRaw, List.getElem_map, List.getElem_zipIdx, Nat.zero_add]

theorem sorted_order {k i : ℕ} {x : ℚ} (hk : k < (order p.values).length)
    (hs : k < (sorted p.values).length) (hi : (order p.values)[k] = i)
    (hx : p.values[i]? = some x) : (sorted p.values)[k] = x := by
  subst hi
  have hr : k < (ranked p.values).length := by
    rw [length_sorted] at hs
    rw [length_ranked]
    exact hs
  obtain ⟨hlt, hget⟩ := getElem_sorted p.values k hr
  have horder : (order p.values)[k] = (ranked p.values)[k].2 := List.getElem_map _
  have hvalue : (sorted p.values)[k] = (ranked p.values)[k].1 := List.getElem_map _
  rw [horder, List.getElem?_eq_getElem hlt, Option.some.injEq] at hx
  rw [hvalue, hget, hx]

variable {a x : ℚ}

variable {i : ℕ}

theorem adjusted_at_place {running : List ℚ} (hrunning : running.length = p.values.length)
    (hx : p.values[i]? = some x)
    (ha : (scatter (order p.values) (running.map (min 1)))[i]? = some a) :
    ∃ (k : ℕ) (hk : k < running.length), (order p.values)[k]? = some i ∧
      (sorted p.values)[k]? = some x ∧ a = min 1 running[k] := by
  have hvalues : (running.map (min 1)).length = p.values.length := by
    rw [List.length_map, hrunning]
  obtain ⟨hi, -⟩ := List.getElem?_eq_some_iff.1 hx
  obtain ⟨hs, k, hk, hv, horder, hget⟩ := getElem_scatter (order_perm p.values) hvalues hi
  have hsorted := (length_sorted p.values).symm
  have hks : k < (sorted p.values).length := by omega
  refine ⟨k, by omega, ?_, ?_, ?_⟩
  · rw [List.getElem?_eq_getElem hk, horder]
  · rw [List.getElem?_eq_getElem hks, sorted_order hk hks horder hx]
  · rw [List.getElem?_eq_getElem hs, hget, List.getElem_map, Option.some.injEq] at ha
    exact ha.symm

theorem holmAdjusted_le (hx : p.values[i]? = some x) (ha : p.holmAdjusted[i]? = some a) :
    ∃ k : ℕ, (order p.values)[k]? = some i ∧ (sorted p.values)[k]? = some x ∧
      ∀ c, a ≤ c ↔ 1 ≤ c ∨ ∀ (j : ℕ) (y : ℚ), j ≤ k → (sorted p.values)[j]? = some y →
        ((p.values.length : ℚ) - j) * y ≤ c := by
  have hrunning : (accumulate max p.holmRaw).length = p.values.length := by
    rw [length_accumulate, length_holmRaw]
  obtain ⟨k, hk, horder, hvalue, rfl⟩ := adjusted_at_place hrunning hx ha
  have hsorted := (length_sorted p.values).symm
  refine ⟨k, horder, hvalue, ?_⟩
  intro c
  rw [min_le_iff, accumulate_max_le]
  apply or_congr_right
  constructor
  · intro hall j y hjk hy
    obtain ⟨hj, rfl⟩ := List.getElem?_eq_some_iff.1 hy
    have hjr : j < p.holmRaw.length := by
      rw [length_holmRaw]
      omega
    rw [← getElem_holmRaw hjr hj]
    exact hall j hjr hjk
  · intro hall j hjr hjk
    have hj : j < (sorted p.values).length := by
      rw [length_holmRaw] at hjr
      omega
    rw [getElem_holmRaw hjr hj]
    exact hall j _ hjk (List.getElem?_eq_getElem hj)

theorem benjaminiHochbergAdjusted_le (hx : p.values[i]? = some x)
    (ha : p.benjaminiHochbergAdjusted[i]? = some a) :
    ∃ k : ℕ, (order p.values)[k]? = some i ∧ (sorted p.values)[k]? = some x ∧
      ∀ c, a ≤ c ↔ 1 ≤ c ∨ ∃ (j : ℕ) (y : ℚ), k ≤ j ∧ (sorted p.values)[j]? = some y ∧
        y * p.values.length / ((j : ℚ) + 1) ≤ c := by
  have hrunning : (accumulate min p.stepUpRaw.reverse).reverse.length = p.values.length := by
    rw [List.length_reverse, length_accumulate, List.length_reverse, length_stepUpRaw]
  obtain ⟨k, hk, horder, hvalue, rfl⟩ := adjusted_at_place hrunning hx ha
  have hsorted := (length_sorted p.values).symm
  refine ⟨k, horder, hvalue, ?_⟩
  intro c
  rw [min_le_iff, reverse_accumulate_min_le]
  apply or_congr_right
  constructor
  · intro hex
    obtain ⟨j, hjr, hkj, hle⟩ := hex
    have hj : j < (sorted p.values).length := by
      rw [length_stepUpRaw] at hjr
      omega
    rw [getElem_stepUpRaw hjr hj] at hle
    exact ⟨j, _, hkj, List.getElem?_eq_getElem hj, hle⟩
  · intro hex
    obtain ⟨j, y, hkj, hy, hle⟩ := hex
    obtain ⟨hj, rfl⟩ := List.getElem?_eq_some_iff.1 hy
    have hjr : j < p.stepUpRaw.length := by
      rw [length_stepUpRaw]
      omega
    refine ⟨j, hjr, hkj, ?_⟩
    rw [getElem_stepUpRaw hjr hj]
    exact hle

def SingleBound (ps : List ℚ) (x c : ℚ) : Prop := 1 ≤ c ∨ x * ps.length ≤ c

def DownBound (ps : List ℚ) (x c : ℚ) : Prop :=
  1 ≤ c ∨ ∀ y ∈ ps, y ≤ x → ((ps.length : ℚ) - ps.countP (· < y)) * y ≤ c

def UpBound (ps : List ℚ) (x c : ℚ) : Prop :=
  1 ≤ c ∨ ∃ y ∈ ps, x ≤ y ∧ y * ps.length / ps.countP (· ≤ y) ≤ c

variable {q : PValues}

theorem countP_sorted (test : ℚ → Bool) :
    (sorted p.values).countP test = p.values.countP test := (sorted_perm p.values).countP_eq test

theorem bonferroniAdjusted_bound (hx : p.values[i]? = some x)
    (ha : p.bonferroniAdjusted[i]? = some a) (c : ℚ) : a ≤ c ↔ SingleBound p.values x c := by
  unfold bonferroniAdjusted at ha
  rw [List.getElem?_map, hx, Option.map_some, Option.some.injEq] at ha
  rw [← ha, min_le_iff]
  rfl

theorem holmAdjusted_bound (hx : p.values[i]? = some x) (ha : p.holmAdjusted[i]? = some a)
    (c : ℚ) : a ≤ c ↔ DownBound p.values x c := by
  obtain ⟨k, -, hk, hle⟩ := holmAdjusted_le hx ha
  obtain ⟨hkl, hkx⟩ := List.getElem?_eq_some_iff.1 hk
  rw [hle c]
  apply or_congr_right
  constructor
  · intro hall y hy hyx
    -- the first place of a value is where as many are below it
    have hmem := (sorted_perm p.values).symm.subset hy
    obtain ⟨hj, hjy⟩ := getElem_countP_lt (pairwise_sorted p.values) hmem
    have hjk : (sorted p.values).countP (· < y) ≤ k := by
      rw [← le_getElem_iff (pairwise_sorted p.values) hkl, hkx]
      exact hyx
    have hbound := hall _ y hjk (List.getElem?_eq_some_iff.2 ⟨hj, hjy⟩)
    rwa [countP_sorted] at hbound
  · intro hall j y hjk hy
    obtain ⟨hj, hjy⟩ := List.getElem?_eq_some_iff.1 hy
    have hmem : y ∈ p.values := by
      rw [← hjy]
      exact (sorted_perm p.values).subset (List.getElem_mem hj)
    have hyx : y ≤ x := by
      rw [← hjy, ← hkx]
      rcases hjk.eq_or_lt with rfl | hlt
      · exact le_rfl
      · exact List.pairwise_iff_getElem.1 (pairwise_sorted p.values) _ _ hj hkl hlt
    have hcount : (p.values.countP (· < y) : ℚ) ≤ j := by
      rw [← countP_sorted, Nat.cast_le, ← le_getElem_iff (pairwise_sorted p.values) hj, hjy]
    have hy0 := mem_values_nonneg hmem
    calc ((p.values.length : ℚ) - j) * y
        ≤ ((p.values.length : ℚ) - p.values.countP (· < y)) * y := by gcongr
      _ ≤ c := hall y hmem hyx

theorem benjaminiHochbergAdjusted_bound (hx : p.values[i]? = some x)
    (ha : p.benjaminiHochbergAdjusted[i]? = some a) (c : ℚ) : a ≤ c ↔ UpBound p.values x c := by
  obtain ⟨k, -, hk, hle⟩ := benjaminiHochbergAdjusted_le hx ha
  obtain ⟨hkl, hkx⟩ := List.getElem?_eq_some_iff.1 hk
  rw [hle c]
  apply or_congr_right
  constructor
  · intro hex
    obtain ⟨j, y, hkj, hy, hbound⟩ := hex
    obtain ⟨hj, hjy⟩ := List.getElem?_eq_some_iff.1 hy
    have hmem : y ∈ p.values := by
      rw [← hjy]
      exact (sorted_perm p.values).subset (List.getElem_mem hj)
    have hxy : x ≤ y := by
      rw [← hjy, ← hkx]
      rcases hkj.eq_or_lt with rfl | hlt
      · exact le_rfl
      · exact List.pairwise_iff_getElem.1 (pairwise_sorted p.values) _ _ hkl hj hlt
    have hcount : (j : ℚ) + 1 ≤ p.values.countP (· ≤ y) := by
      have hlt := (getElem_le_iff (pairwise_sorted p.values) hj y).1 hjy.le
      rw [countP_sorted] at hlt
      exact_mod_cast hlt
    have hy0 := mem_values_nonneg hmem
    refine ⟨y, hmem, hxy, le_trans ?_ hbound⟩
    gcongr
  · intro hex
    obtain ⟨y, hmem, hxy, hbound⟩ := hex
    -- the last place of a value is where as many are at most it
    obtain ⟨hj, hjy⟩ := getElem_countP_le (pairwise_sorted p.values)
      ((sorted_perm p.values).symm.subset hmem)
    have hlt : k < (sorted p.values).countP (· ≤ y) := by
      rw [← getElem_le_iff (pairwise_sorted p.values) hkl, hkx]
      exact hxy
    refine ⟨_, y, Nat.le_sub_one_of_lt hlt, List.getElem?_eq_some_iff.2 ⟨hj, hjy⟩, ?_⟩
    rw [← Nat.cast_add_one, Nat.sub_add_cancel (by omega), countP_sorted]
    exact hbound

/-- An adjustment as long as the p-values, never below them, in their order, and the same for
the same p-value in whichever order the tests are listed. -/
structure Consistent (adjust : PValues → List ℚ) : Prop where
  length : ∀ p, (adjust p).length = p.values.length
  raw_le : ∀ (p : PValues) (i : ℕ) (x a : ℚ), p.values[i]? = some x → (adjust p)[i]? = some a →
    x ≤ a
  monotone : ∀ (p : PValues) (i j : ℕ) (x y a b : ℚ), p.values[i]? = some x →
    p.values[j]? = some y → (adjust p)[i]? = some a → (adjust p)[j]? = some b → x ≤ y → a ≤ b
  equal : ∀ (p : PValues) (i j : ℕ) (x a b : ℚ), p.values[i]? = some x → p.values[j]? = some x →
    (adjust p)[i]? = some a → (adjust p)[j]? = some b → a = b
  permuted : ∀ p q : PValues, q.values.Perm p.values → ∀ (i j : ℕ) (x a b : ℚ),
    q.values[i]? = some x → p.values[j]? = some x → (adjust q)[i]? = some a →
    (adjust p)[j]? = some b → a = b

section Bound

variable {adjust : PValues → List ℚ} (Bound : List ℚ → ℚ → ℚ → Prop)

/-- An adjustment is consistent when its bounds are: they hold of no smaller value than the raw
one, of smaller p-values too, and count the others only. -/
theorem consistent_of_bound (hlength : ∀ p, (adjust p).length = p.values.length)
    (hbound : ∀ (p : PValues) (i : ℕ) (x a : ℚ), p.values[i]? = some x →
      (adjust p)[i]? = some a → ∀ c, a ≤ c ↔ Bound p.values x c)
    (hraw : ∀ (p : PValues) (x c : ℚ), x ∈ p.values → Bound p.values x c → x ≤ c)
    (hmono : ∀ (p : PValues) (x y c : ℚ), x ∈ p.values → x ≤ y → Bound p.values y c →
      Bound p.values x c)
    (hperm : ∀ (ps qs : List ℚ) (x c : ℚ), qs.Perm ps → Bound ps x c → Bound qs x c) :
    Consistent adjust := by
  have hpermuted : ∀ p q : PValues, q.values.Perm p.values → ∀ (i j : ℕ) (x a b : ℚ),
      q.values[i]? = some x → p.values[j]? = some x → (adjust q)[i]? = some a →
      (adjust p)[j]? = some b → a = b := by
    intro p q hqp i j x a b hx hx' ha hb
    apply le_antisymm
    · rw [hbound q i x a hx ha]
      exact hperm _ _ _ _ hqp ((hbound p j x b hx' hb b).1 le_rfl)
    · rw [hbound p j x b hx' hb]
      exact hperm _ _ _ _ hqp.symm ((hbound q i x a hx ha a).1 le_rfl)
  refine ⟨hlength, ?_, ?_, fun p => hpermuted p p (.refl _), hpermuted⟩
  · intro p i x a hx ha
    exact hraw p x a (List.mem_of_getElem? hx) ((hbound p i x a hx ha a).1 le_rfl)
  · intro p i j x y a b hx hy ha hb hxy
    rw [hbound p i x a hx ha]
    exact hmono p x y b (List.mem_of_getElem? hx) hxy ((hbound p j y b hy hb b).1 le_rfl)

end Bound

theorem one_le_length (p : PValues) : (1 : ℚ) ≤ p.values.length := by
  exact_mod_cast p.length_pos

theorem consistent_bonferroniAdjusted : Consistent bonferroniAdjusted := by
  refine consistent_of_bound SingleBound ?_ ?_ ?_ ?_ ?_
  · intro p
    exact List.length_map _
  · intro p i x a hx ha
    exact bonferroniAdjusted_bound hx ha
  · intro p x c hx hc
    rcases hc with hc | hc
    · exact (p.unit x hx).2.trans hc
    · exact (le_mul_of_one_le_right (mem_values_nonneg hx) p.one_le_length).trans hc
  · intro p x y c hx hxy hc
    refine hc.imp_right fun hc => le_trans ?_ hc
    gcongr
  · intro ps qs x c hqp hc
    unfold SingleBound
    rw [hqp.length_eq]
    exact hc

theorem countP_lt_add_one_le {x : ℚ} (h : x ∈ p.values) :
    (p.values.countP (· < x) : ℚ) + 1 ≤ p.values.length := by
  have hlt : p.values.countP (· < x) < p.values.length := by
    rw [List.countP_lt_length_iff]
    exact ⟨x, h, by simp⟩
  exact_mod_cast hlt

theorem one_le_countP_le {x : ℚ} (h : x ∈ p.values) : (1 : ℚ) ≤ p.values.countP (· ≤ x) := by
  have hpos : 0 < p.values.countP (· ≤ x) := List.countP_pos_iff.2 ⟨x, h, by simp⟩
  exact_mod_cast hpos

theorem countP_le_length_cast (x : ℚ) : (p.values.countP (· ≤ x) : ℚ) ≤ p.values.length := by
  exact_mod_cast List.countP_le_length

theorem length_scatter_order {values : List ℚ} (h : values.length = p.values.length) :
    (scatter (order p.values) values).length = p.values.length := by
  unfold scatter
  rw [List.length_map, (StableSort.perm_sortBy _ _).length_eq, List.length_zip,
    length_order, h, min_self]

theorem consistent_holmAdjusted : Consistent holmAdjusted := by
  refine consistent_of_bound DownBound ?_ ?_ ?_ ?_ ?_
  · intro p
    apply length_scatter_order
    rw [List.length_map, length_accumulate, length_holmRaw]
  · intro p i x a hx ha
    exact holmAdjusted_bound hx ha
  · intro p x c hx hc
    rcases hc with hc | hc
    · exact (p.unit x hx).2.trans hc
    · refine le_trans ?_ (hc x hx le_rfl)
      apply le_mul_of_one_le_left (mem_values_nonneg hx)
      linarith [countP_lt_add_one_le hx]
  · intro p x y c hx hxy hc
    exact hc.imp_right fun hc z hz hzx => hc z hz (hzx.trans hxy)
  · intro ps qs x c hqp hc
    refine hc.imp_right fun hc y hy hyx => ?_
    rw [hqp.length_eq, hqp.countP_eq]
    exact hc y (hqp.subset hy) hyx

theorem consistent_benjaminiHochbergAdjusted : Consistent benjaminiHochbergAdjusted := by
  refine consistent_of_bound UpBound ?_ ?_ ?_ ?_ ?_
  · intro p
    apply length_scatter_order
    rw [List.length_map, List.length_reverse, length_accumulate, List.length_reverse,
      length_stepUpRaw]
  · intro p i x a hx ha
    exact benjaminiHochbergAdjusted_bound hx ha
  · intro p x c hx hc
    rcases hc with hc | ⟨y, hy, hxy, hc⟩
    · exact (p.unit x hx).2.trans hc
    · refine hxy.trans (le_trans ?_ hc)
      rw [le_div_iff₀ (by linarith [one_le_countP_le hy])]
      exact mul_le_mul_of_nonneg_left (countP_le_length_cast y) (mem_values_nonneg hy)
  · intro p x y c hx hxy hc
    refine hc.imp_right fun hc => ?_
    obtain ⟨z, hz, hyz, hc⟩ := hc
    exact ⟨z, hz, hxy.trans hyz, hc⟩
  · intro ps qs x c hqp hc
    refine hc.imp_right fun hc => ?_
    obtain ⟨y, hy, hxy, hc⟩ := hc
    refine ⟨y, hqp.symm.subset hy, hxy, ?_⟩
    rw [hqp.length_eq, hqp.countP_eq]
    exact hc

theorem downBound_of_singleBound {x c : ℚ} (h : SingleBound p.values x c) :
    DownBound p.values x c := by
  refine h.imp_right fun h y hy hyx => le_trans ?_ h
  have hy0 := mem_values_nonneg hy
  calc ((p.values.length : ℚ) - p.values.countP (· < y)) * y ≤ p.values.length * x := by
        gcongr
        exact sub_le_self _ (Nat.cast_nonneg _)
    _ = x * p.values.length := mul_comm _ _

theorem countP_lt_add_one_le_countP_le {x : ℚ} (h : x ∈ p.values) :
    (p.values.countP (· < x) : ℚ) + 1 ≤ p.values.countP (· ≤ x) := by
  obtain ⟨hk, hkx⟩ := getElem_countP_lt (pairwise_sorted p.values)
    ((sorted_perm p.values).symm.subset h)
  have hlt := (getElem_le_iff (pairwise_sorted p.values) hk x).1 hkx.le
  rw [countP_sorted, countP_sorted] at hlt
  exact_mod_cast hlt

theorem upBound_of_downBound {x c : ℚ} (hx : x ∈ p.values) (h : DownBound p.values x c) :
    UpBound p.values x c := by
  refine h.imp_right fun h => ⟨x, hx, le_rfl, le_trans ?_ (h x hx le_rfl)⟩
  have hone := one_le_countP_le hx
  have hlength := countP_le_length_cast (p := p) x
  have hbelow := countP_lt_add_one_le_countP_le hx
  have hx0 := mem_values_nonneg hx
  rw [div_le_iff₀ (by linarith)]
  generalize (p.values.countP (· < x) : ℚ) = below at *
  generalize (p.values.countP (· ≤ x) : ℚ) = upTo at *
  generalize (p.values.length : ℚ) = m at *
  have hproduct : m ≤ (m - below) * upTo := by
    have hgap : 0 ≤ (upTo - 1) * (m - upTo) := mul_nonneg (by linarith) (by linarith)
    have htie : 0 ≤ (upTo - 1 - below) * upTo := mul_nonneg (by linarith) (by linarith)
    calc m ≤ m + (upTo - 1) * (m - upTo) + (upTo - 1 - below) * upTo := by linarith
      _ = (m - below) * upTo := by ring
  calc x * m ≤ x * ((m - below) * upTo) := mul_le_mul_of_nonneg_left hproduct hx0
    _ = (m - below) * x * upTo := by ring

variable {alpha : ℚ}

theorem rejected_iff {method : String} {adjusted : List ℚ} :
    (p.result method alpha adjusted).rejected[i]? = some true ↔
      ∃ a, adjusted[i]? = some a ∧ a ≤ alpha := by
  unfold result
  dsimp only
  rw [List.getElem?_map, Option.map_eq_some_iff]
  simp only [decide_eq_true_eq]

theorem getElem?_exists (values : List ℚ) (h : i < values.length) :
    ∃ x, values[i]? = some x := ⟨_, List.getElem?_eq_getElem h⟩

theorem mem_stepDownFrom {tests : List (ℚ × ℕ)} :
    i ∈ stepDownFrom alpha tests ↔ ∃ (k : ℕ) (x : ℚ), tests[k]? = some (x, i) ∧
      ∀ (j : ℕ) (y : ℚ × ℕ), j ≤ k → tests[j]? = some y → y.1 ≤
        alpha / ((tests.length : ℚ) - j) := by
  induction tests with
  | nil => simp [stepDownFrom]
  | cons t rest ih =>
    rw [stepDownFrom]
    have hhead : ((t :: rest).length : ℚ) - (0 : ℕ) = (rest.length : ℚ) + 1 := by simp
    have htail : ∀ j : ℕ, ((t :: rest).length : ℚ) - (j + 1 : ℕ) = (rest.length : ℚ) - j := by
      intro j
      rw [List.length_cons]
      push_cast
      ring
    split
    next hle =>
      rw [List.mem_cons, ih]
      constructor
      · intro h
        rcases h with rfl | ⟨k, x, hk, hall⟩
        · refine ⟨0, t.1, rfl, ?_⟩
          intro j y hj hy
          obtain rfl : j = 0 := by omega
          obtain rfl : t = y := by simpa using hy
          rw [hhead]
          exact hle
        · refine ⟨k + 1, x, hk, ?_⟩
          intro j y hj hy
          cases j with
          | zero =>
            obtain rfl : t = y := by simpa using hy
            rw [hhead]
            exact hle
          | succ j =>
            rw [htail]
            exact hall j y (by omega) hy
      · intro h
        obtain ⟨k, x, hk, hall⟩ := h
        cases k with
        | zero =>
          obtain rfl : t = (x, i) := by simpa using hk
          exact .inl rfl
        | succ k =>
          refine .inr ⟨k, x, hk, ?_⟩
          intro j y hj hy
          rw [← htail]
          exact hall (j + 1) y (by omega) hy
    next hnot =>
      refine iff_of_false List.not_mem_nil ?_
      intro h
      obtain ⟨k, x, -, hall⟩ := h
      have hfirst := hall 0 t (by omega) rfl
      rw [hhead] at hfirst
      exact hnot hfirst

theorem mem_stepDown : i ∈ stepDown p alpha ↔ ∃ k : ℕ, (order p.values)[k]? = some i ∧
      ∀ (j : ℕ) (y : ℚ), j ≤ k → (sorted p.values)[j]? = some y →
        y ≤ alpha / ((p.values.length : ℚ) - j) := by
  unfold stepDown
  rw [mem_stepDownFrom, length_ranked]
  unfold order sorted
  constructor
  · intro h
    obtain ⟨k, x, hk, hall⟩ := h
    refine ⟨k, ?_, ?_⟩
    · rw [List.getElem?_map, hk]
      rfl
    · intro j y hj hy
      rw [List.getElem?_map, Option.map_eq_some_iff] at hy
      obtain ⟨t, ht, rfl⟩ := hy
      exact hall j t hj ht
  · intro h
    obtain ⟨k, hk, hall⟩ := h
    rw [List.getElem?_map, Option.map_eq_some_iff] at hk
    obtain ⟨t, ht, rfl⟩ := hk
    refine ⟨k, t.1, ht, ?_⟩
    intro j y hj hy
    apply hall j y.1 hj
    rw [List.getElem?_map, hy]
    rfl

theorem order_getElem?_inj {k l i : ℕ} (hk : (order p.values)[k]? = some i)
    (hl : (order p.values)[l]? = some i) : k = l := by
  have hnodup : (order p.values).Nodup := (order_perm p.values).nodup_iff.2 List.nodup_range
  obtain ⟨hkl, -⟩ := List.getElem?_eq_some_iff.1 hk
  exact (List.getElem?_inj hkl hnodup).1 (hk.trans hl.symm)

theorem order_getElem?_lt {k i : ℕ} (hk : (order p.values)[k]? = some i) : i < p.values.length :=
  List.mem_range.1 ((order_perm p.values).subset (List.mem_of_getElem? hk))

theorem holm_rejected_iff (h : alpha < 1) (i : ℕ) :
    (p.holm alpha).rejected[i]? = some true ↔ i ∈ stepDown p alpha := by
  unfold holm
  rw [rejected_iff, mem_stepDown]
  have hplace : ∀ (j : ℕ) (y : ℚ), (sorted p.values)[j]? = some y →
      (((p.values.length : ℚ) - j) * y ≤ alpha ↔ y ≤ alpha / ((p.values.length : ℚ) - j)) := by
    intro j y hy
    obtain ⟨hj, -⟩ := List.getElem?_eq_some_iff.1 hy
    rw [length_sorted] at hj
    have hpos : (0 : ℚ) < (p.values.length : ℚ) - j := by
      rw [sub_pos]
      exact_mod_cast hj
    rw [le_div_iff₀ hpos, mul_comm]
  constructor
  · intro hr
    obtain ⟨a, ha, hle⟩ := hr
    have hi : i < p.values.length := by
      rw [← consistent_holmAdjusted.length p]
      exact (List.getElem?_eq_some_iff.1 ha).1
    obtain ⟨x, hx⟩ := getElem?_exists p.values hi
    obtain ⟨k, hk, -, hiff⟩ := holmAdjusted_le hx ha
    rcases (hiff alpha).1 hle with hone | hall
    · exact absurd h (not_lt.2 hone)
    · refine ⟨k, hk, ?_⟩
      intro j y hj hy
      exact (hplace j y hy).1 (hall j y hj hy)
  · intro hr
    obtain ⟨k, hk, hall⟩ := hr
    have hi := order_getElem?_lt hk
    obtain ⟨x, hx⟩ := getElem?_exists p.values hi
    obtain ⟨a, ha⟩ := getElem?_exists p.holmAdjusted (i := i) (by
      rw [consistent_holmAdjusted.length p]
      exact hi)
    obtain ⟨l, hl, -, hiff⟩ := holmAdjusted_le hx ha
    obtain rfl := order_getElem?_inj hk hl
    refine ⟨a, ha, (hiff alpha).2 (.inr ?_)⟩
    intro j y hj hy
    exact (hplace j y hy).2 (hall j y hj hy)

theorem holm_rejected_of_one_le (h : 1 ≤ alpha) (hi : i < p.values.length) :
    (p.holm alpha).rejected[i]? = some true := by
  obtain ⟨x, hx⟩ := getElem?_exists p.values hi
  obtain ⟨a, ha⟩ := getElem?_exists p.holmAdjusted (i := i) (by
    rw [consistent_holmAdjusted.length p]
    exact hi)
  unfold holm
  rw [rejected_iff]
  exact ⟨a, ha, (holmAdjusted_bound hx ha alpha).2 (.inl h)⟩

theorem underLine_iff {k : ℕ} : underLine p alpha (k + 1) ↔
      ∃ y, (sorted p.values)[k]? = some y ∧ y * p.values.length / ((k : ℚ) + 1) ≤ alpha := by
  unfold underLine
  rw [Nat.add_sub_cancel]
  have hm : (0 : ℚ) < p.values.length := by linarith [p.one_le_length]
  have hk : (0 : ℚ) < (k : ℚ) + 1 := by positivity
  have hside : ∀ y : ℚ, y ≤ ((k + 1 : ℕ) : ℚ) * alpha / p.values.length ↔
      y * p.values.length / ((k : ℚ) + 1) ≤ alpha := by
    intro y
    rw [le_div_iff₀ hm, div_le_iff₀ hk, mul_comm alpha]
    push_cast
    rfl
  cases (sorted p.values)[k]? with
  | none => simp
  | some y => simp [← hside]

theorem underLine_last (h : 1 ≤ alpha) : underLine p alpha (p.values.length - 1 + 1) := by
  have hpos := p.length_pos
  have hlast : p.values.length - 1 < (sorted p.values).length := by
    rw [length_sorted]
    omega
  rw [underLine_iff]
  refine ⟨_, List.getElem?_eq_getElem hlast, ?_⟩
  have hmem := (sorted_perm p.values).subset (List.getElem_mem hlast)
  have hm : (0 : ℚ) < p.values.length := by linarith [p.one_le_length]
  have hcast : ((p.values.length - 1 : ℕ) : ℚ) + 1 = p.values.length := by
    rw [← Nat.cast_add_one, Nat.sub_add_cancel hpos]
  rw [hcast, mul_div_assoc, div_self hm.ne', mul_one]
  exact (p.unit _ hmem).2.trans h

theorem mem_stepUp : i ∈ stepUp p alpha ↔ ∃ k j : ℕ, (order p.values)[k]? = some i ∧ k ≤ j ∧
      underLine p alpha (j + 1) := by
  unfold stepUp
  generalize hlast : Nat.findGreatest (fun k => underLine p alpha k) p.values.length = last
  constructor
  · intro h
    obtain ⟨k, hk, hki⟩ := List.mem_take_iff_getElem.1 h
    have hkl : k < last := by omega
    refine ⟨k, last - 1, ?_, by omega, ?_⟩
    · rw [← hki]
      exact List.getElem?_eq_getElem (by omega)
    · rw [Nat.sub_add_cancel (by omega)]
      exact Nat.findGreatest_of_ne_zero hlast (by omega)
  · intro h
    obtain ⟨k, j, hk, hkj, hj⟩ := h
    obtain ⟨hkl, hki⟩ := List.getElem?_eq_some_iff.1 hk
    have hjl : j + 1 ≤ p.values.length := by
      obtain ⟨y, hy, -⟩ := underLine_iff.1 hj
      have := (List.getElem?_eq_some_iff.1 hy).1
      rw [length_sorted] at this
      omega
    have hle : j + 1 ≤ last := by
      rw [← hlast]
      exact Nat.le_findGreatest hjl hj
    rw [List.mem_take_iff_getElem]
    exact ⟨k, by omega, hki⟩

theorem benjaminiHochberg_rejected_iff (i : ℕ) :
    (p.benjaminiHochberg alpha).rejected[i]? = some true ↔ i ∈ stepUp p alpha := by
  unfold benjaminiHochberg
  rw [rejected_iff, mem_stepUp]
  constructor
  · intro hr
    obtain ⟨a, ha, hle⟩ := hr
    have hi : i < p.values.length := by
      rw [← consistent_benjaminiHochbergAdjusted.length p]
      exact (List.getElem?_eq_some_iff.1 ha).1
    obtain ⟨x, hx⟩ := getElem?_exists p.values hi
    obtain ⟨k, hk, hkx, hiff⟩ := benjaminiHochbergAdjusted_le hx ha
    rcases (hiff alpha).1 hle with hone | hex
    · obtain ⟨hkl, -⟩ := List.getElem?_eq_some_iff.1 hkx
      rw [length_sorted] at hkl
      exact ⟨k, p.values.length - 1, hk, by omega, underLine_last hone⟩
    · obtain ⟨j, y, hkj, hy, hle⟩ := hex
      exact ⟨k, j, hk, hkj, underLine_iff.2 ⟨y, hy, hle⟩⟩
  · intro hr
    obtain ⟨k, j, hk, hkj, hj⟩ := hr
    obtain ⟨y, hy, hle⟩ := underLine_iff.1 hj
    have hi := order_getElem?_lt hk
    obtain ⟨x, hx⟩ := getElem?_exists p.values hi
    obtain ⟨a, ha⟩ := getElem?_exists p.benjaminiHochbergAdjusted (i := i) (by
      rw [consistent_benjaminiHochbergAdjusted.length p]
      exact hi)
    obtain ⟨l, hl, -, hiff⟩ := benjaminiHochbergAdjusted_le hx ha
    obtain rfl := order_getElem?_inj hk hl
    exact ⟨a, ha, (hiff alpha).2 (.inr ⟨j, y, hkj, hy, hle⟩)⟩

theorem rejected_mono {method other : String} {adjusted adjusted' : List ℚ}
    (hlength : adjusted'.length = adjusted.length)
    (h : ∀ (i : ℕ) (a b : ℚ), adjusted[i]? = some a → adjusted'[i]? = some b → b ≤ a)
    (hr : (p.result method alpha adjusted).rejected[i]? = some true) :
    (p.result other alpha adjusted').rejected[i]? = some true := by
  rw [rejected_iff] at hr ⊢
  obtain ⟨a, ha, hle⟩ := hr
  obtain ⟨b, hb⟩ := getElem?_exists adjusted' (i := i) (by
    rw [hlength]
    exact (List.getElem?_eq_some_iff.1 ha).1)
  exact ⟨b, hb, (h i a b ha hb).trans hle⟩

theorem holmAdjusted_le_bonferroniAdjusted {a b : ℚ} (ha : p.bonferroniAdjusted[i]? = some a)
    (hb : p.holmAdjusted[i]? = some b) : b ≤ a := by
  obtain ⟨x, hx⟩ := getElem?_exists p.values (i := i) (by
    rw [← consistent_holmAdjusted.length p]
    exact (List.getElem?_eq_some_iff.1 hb).1)
  rw [holmAdjusted_bound hx hb]
  exact downBound_of_singleBound ((bonferroniAdjusted_bound hx ha a).1 le_rfl)

theorem benjaminiHochbergAdjusted_le_holmAdjusted {a b : ℚ} (ha : p.holmAdjusted[i]? = some a)
    (hb : p.benjaminiHochbergAdjusted[i]? = some b) : b ≤ a := by
  obtain ⟨x, hx⟩ := getElem?_exists p.values (i := i) (by
    rw [← consistent_holmAdjusted.length p]
    exact (List.getElem?_eq_some_iff.1 ha).1)
  rw [benjaminiHochbergAdjusted_bound hx hb]
  exact upBound_of_downBound (List.mem_of_getElem? hx) ((holmAdjusted_bound hx ha a).1 le_rfl)

end PValues

/-- The three corrections take every list of p-values, adjust them consistently, reject as the
step procedures do, and each rejects what the blunter one does.  Holm is the step-down procedure
below a level of one; adjusted p-values stop at one, so from there on it rejects every test. -/
theorem corrections_consistent (p : PValues) (alpha : ℚ) :
    (bonferroni (p.values.map .fin) alpha = .ok (p.bonferroni alpha) ∧
      holm (p.values.map .fin) alpha = .ok (p.holm alpha) ∧
      benjaminiHochberg (p.values.map .fin) alpha = .ok (p.benjaminiHochberg alpha)) ∧
    (PValues.Consistent (fun q => (q.bonferroni alpha).adjustedPvalues) ∧
      PValues.Consistent (fun q => (q.holm alpha).adjustedPvalues) ∧
      PValues.Consistent (fun q => (q.benjaminiHochberg alpha).adjustedPvalues)) ∧
    (alpha < 1 → ∀ i : ℕ, (p.holm alpha).rejected[i]? = some true ↔ i ∈ stepDown p alpha) ∧
    (1 ≤ alpha → ∀ i : ℕ, i < p.values.length → (p.holm alpha).rejected[i]? = some true) ∧
    (∀ i : ℕ, (p.benjaminiHochberg alpha).rejected[i]? = some true ↔ i ∈ stepUp p alpha) ∧
    (∀ i : ℕ, (p.bonferroni alpha).rejected[i]? = some true →
      (p.holm alpha).rejected[i]? = some true) ∧
    (∀ i : ℕ, (p.holm alpha).rejected[i]? = some true →
      (p.benjaminiHochberg alpha).rejected[i]? = some true) := by
  refine ⟨⟨?_, ?_, ?_⟩, ⟨PValues.consistent_bonferroniAdjusted, PValues.consistent_holmAdjusted,
    PValues.consistent_benjaminiHochbergAdjusted⟩, PValues.holm_rejected_iff, ?_,
    PValues.benjaminiHochberg_rejected_iff, ?_, ?_⟩
  · unfold bonferroni
    rw [asPvalues_fin]
    rfl
  · unfold holm
    rw [asPvalues_fin]
    rfl
  · unfold benjaminiHochberg
    rw [asPvalues_fin]
    rfl
  · intro halpha i hi
    exact PValues.holm_rejected_of_one_le halpha hi
  · intro i hr
    refine PValues.rejected_mono ?_ ?_ hr
    · rw [PValues.consistent_holmAdjusted.length, PValues.consistent_bonferroniAdjusted.length]
    · intro j a b ha hb
      exact PValues.holmAdjusted_le_bonferroniAdjusted ha hb
  · intro i hr
    refine PValues.rejected_mono ?_ ?_ hr
    · rw [PValues.consistent_holmAdjusted.length,
        PValues.consistent_benjaminiHochbergAdjusted.length]
    · intro j a b ha hb
      exact PValues.benjaminiHochbergAdjusted_le_holmAdjusted ha hb

def bothOne : PValues := ⟨[1, 1], by simp, by simp⟩

/-- At a level of one Holm rejects both tests, and the step-down procedure neither. -/
theorem holm_is_not_stepDown_at_one : holm [.fin 1, .fin 1] 1 = .ok (bothOne.holm 1) ∧
      (bothOne.holm 1).rejected = [true, true] ∧ stepDown bothOne 1 = [] := by
  decide +kernel

end Fiboki
