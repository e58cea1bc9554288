import Fiboki.Lifecycle.Drawdown

/-!
The CUSUM of a forward record: a sum of shortfalls that is reflected at zero, and the stopping
rule that reads its largest value.
-/

namespace Fiboki

open Floating

/-- `S_t` from `S_{t-1}`. -/
def cusumStep (mu s r : ℚ) : ℚ := max 0 (s + (mu - r))

def cusumFrom (mu s : ℚ) : List ℚ → List ℚ
  | [] => []
  | r :: rs => cusumStep mu s r :: cusumFrom mu (cusumStep mu s r) rs

def cusumPath (returns : List Number) (mu : ℚ) : List ℚ := cusumFrom mu 0 (clean returns)

structure CusumParameters where
  muExpected : ℚ
  h : ℚ
  minObservations : ℤ
  positive : 0 < h

/-- A verdict of the rule; the index is its `first_crossing_index`, and `-1` is for none. -/
structure CusumVerdict where
  status : RuleStatus
  statistic : Option ℚ
  threshold : Option ℚ
  comparison : String
  nObservations : ℕ
  firstCrossingIndex : Option ℤ
  finalS : Option ℚ

def CusumParameters.evaluate (params : CusumParameters) (returns : List Number) :
    Except String CusumVerdict :=
  let n := (clean returns).length
  if n < params.minObservations then .ok ⟨.notEvaluated, none, none, "", n, none, none⟩
  else
    let path := cusumPath returns params.muExpected
    match path.max? with
    | none => .error "zero-size array to reduction operation maximum which has no identity"
    | some peak =>
      let crossed := path.findIdx? (params.h < ·)
      .ok ⟨if crossed.isSome then .fired else .clear, some peak, some params.h, ">", n,
        some (crossed.elim (-1) fun i => (i : ℤ)), path.getLast?⟩

def shortfall (mu : ℚ) (arr : List ℚ) (i j : ℕ) : ℚ := (((arr.take j).drop i).map (mu - ·)).sum

def EndsAbove (mu c : ℚ) (arr : List ℚ) (e : ℕ) : Prop :=
  e < arr.length ∧ ∃ i ≤ e, c < shortfall mu arr i (e + 1)

def BlockTotals (mu : ℚ) (arr : List ℚ) : Set ℚ :=
  {d | ∃ i j, i < j ∧ j ≤ arr.length ∧ d = shortfall mu arr i j}

section Path

variable {mu : ℚ} {arr : List ℚ}

theorem length_cusumFrom (mu s : ℚ) (arr : List ℚ) : (cusumFrom mu s arr).length = arr.length := by
  induction arr generalizing s with
  | nil => rfl
  | cons r rs ih => rw [cusumFrom, List.length_cons, ih, List.length_cons]

variable {t : ℕ}

theorem getElem_cusumFrom {s : ℚ} (h : t < (cusumFrom mu s arr).length) :
    (cusumFrom mu s arr)[t] = (arr.take (t + 1)).foldl (cusumStep mu) s := by
  induction arr generalizing s t with
  | nil => exact absurd h (Nat.not_lt_zero t)
  | cons r rs ih =>
    cases t with
    | zero => rfl
    | succ t =>
      have hrs : t < (cusumFrom mu (cusumStep mu s r) rs).length := Nat.lt_of_succ_lt_succ h
      exact ih hrs

theorem foldl_cusumStep_mem (mu : ℚ) (arr : List ℚ) : arr.foldl (cusumStep mu) 0 = 0 ∨
      ∃ i < arr.length, arr.foldl (cusumStep mu) 0 = ((arr.drop i).map (mu - ·)).sum := by
  induction arr using List.reverseRecOn with
  | nil => exact .inl rfl
  | append_singleton arr r ih =>
    rw [List.foldl_concat, List.length_append, List.length_singleton]
    unfold cusumStep
    rcases max_choice 0 (arr.foldl (cusumStep mu) 0 + (mu - r)) with hzero | hsum
    · exact .inl hzero
    · refine .inr ?_
      unfold cusumStep at hsum
      rw [hsum]
      rcases ih with ih | ⟨i, hi, ih⟩
      · refine ⟨arr.length, Nat.lt_succ_self _, ?_⟩
        unfold cusumStep at ih
        rw [ih, List.drop_left, zero_add]
        exact (List.sum_singleton).symm
      · refine ⟨i, Nat.lt_succ_of_lt hi, ?_⟩
        unfold cusumStep at ih
        rw [ih, List.drop_append_of_le_length hi.le, List.map_append, List.sum_append,
          List.map_singleton, List.sum_singleton]

theorem le_foldl_cusumStep (mu : ℚ) (arr : List ℚ) : 0 ≤ arr.foldl (cusumStep mu) 0 ∧
      ∀ i < arr.length, ((arr.drop i).map (mu - ·)).sum ≤ arr.foldl (cusumStep mu) 0 := by
  induction arr using List.reverseRecOn with
  | nil => exact ⟨le_rfl, fun i hi => absurd hi (Nat.not_lt_zero i)⟩
  | append_singleton arr r ih =>
    rw [List.foldl_concat, List.length_append, List.length_singleton]
    refine ⟨le_max_left _ _, fun i hi => ?_⟩
    refine le_trans ?_ (le_max_right _ _)
    rcases Nat.lt_succ_iff_lt_or_eq.1 hi with hi | rfl
    · rw [List.drop_append_of_le_length hi.le, List.map_append, List.sum_append]
      have hle := ih.2 i hi
      simpa using hle
    · rw [List.drop_left]
      have hle := ih.1
      simpa using hle

theorem isGreatest_path (h : t < (cusumFrom mu 0 arr).length) :
    IsGreatest ({0} ∪ {d | ∃ i ≤ t, d = shortfall mu arr i (t + 1)}) (cusumFrom mu 0 arr)[t] := by
  have ht : t < arr.length := by rwa [length_cusumFrom] at h
  have hlength : (arr.take (t + 1)).length = t + 1 := by
    rw [List.length_take]
    omega
  rw [getElem_cusumFrom h]
  obtain ⟨hzero, hle⟩ := le_foldl_cusumStep mu (arr.take (t + 1))
  rw [hlength] at hle
  constructor
  · rcases foldl_cusumStep_mem mu (arr.take (t + 1)) with hs | ⟨i, hi, hs⟩
    · exact .inl hs
    · rw [hlength] at hi
      exact .inr ⟨i, Nat.le_of_lt_succ hi, hs⟩
  · rintro d (rfl | ⟨i, hi, rfl⟩)
    · exact hzero
    · exact hle i (Nat.lt_succ_of_le hi)

variable {c : ℚ}

theorem lt_path_iff (hc : 0 ≤ c) (h : t < (cusumFrom mu 0 arr).length) :
    c < (cusumFrom mu 0 arr)[t] ↔ EndsAbove mu c arr t := by
  have ht : t < arr.length := by rwa [length_cusumFrom] at h
  obtain ⟨hmem, hgreatest⟩ := isGreatest_path h
  constructor
  · intro hlt
    rcases hmem with hs | ⟨i, hi, hs⟩
    · rw [Set.mem_singleton_iff.1 hs] at hlt
      exact absurd hc (not_le.2 hlt)
    · exact ⟨ht, i, hi, hs ▸ hlt⟩
  · rintro ⟨-, i, hi, hlt⟩
    exact hlt.trans_le (hgreatest (.inr ⟨i, hi, rfl⟩))

theorem isGreatest_peak {peak : ℚ} (h : (cusumFrom mu 0 arr).max? = some peak) :
    IsGreatest ({0} ∪ BlockTotals mu arr) peak := by
  obtain ⟨hmem, hle⟩ := List.max?_eq_some_iff.1 h
  obtain ⟨t, ht, hpeak⟩ := List.getElem_of_mem hmem
  have hlength := length_cusumFrom mu 0 arr
  constructor
  · rcases (isGreatest_path ht).1 with hs | ⟨i, hi, hs⟩
    · exact .inl (hpeak ▸ hs)
    · exact .inr ⟨i, t + 1, by omega, by omega, hpeak ▸ hs⟩
  · rintro d (rfl | ⟨i, j, hij, hj, rfl⟩)
    · exact ((isGreatest_path ht).2 (.inl rfl)).trans (hpeak ▸ le_rfl)
    · obtain ⟨e, rfl⟩ := Nat.exists_eq_add_of_le' (Nat.one_le_of_lt hij)
      have he : e < (cusumFrom mu 0 arr).length := by omega
      have hblock := (isGreatest_path he).2 (.inr ⟨i, by omega, rfl⟩)
      exact hblock.trans (hle _ (List.getElem_mem he))

theorem crossed_none (hc : 0 ≤ c) :
    (cusumFrom mu 0 arr).findIdx? (c < ·) = none ↔ ¬∃ e, EndsAbove mu c arr e := by
  rw [List.findIdx?_eq_none_iff]
  constructor
  · rintro h ⟨e, hends⟩
    have he : e < (cusumFrom mu 0 arr).length := by
      rw [length_cusumFrom]
      exact hends.1
    have hnot := h _ (List.getElem_mem he)
    exact of_decide_eq_false hnot ((lt_path_iff hc he).2 hends)
  · intro h s hs
    obtain ⟨t, ht, rfl⟩ := List.getElem_of_mem hs
    exact decide_eq_false fun hlt => h ⟨t, (lt_path_iff hc ht).1 hlt⟩

theorem crossed_some (hc : 0 ≤ c) {first : ℕ}
    (h : (cusumFrom mu 0 arr).findIdx? (c < ·) = some first) :
    IsLeast {e | EndsAbove mu c arr e} first := by
  obtain ⟨hfirst, hlt, hnot⟩ := List.findIdx?_eq_some_iff_getElem.1 h
  constructor
  · exact (lt_path_iff hc hfirst).1 (of_decide_eq_true hlt)
  · intro e hends
    by_contra hearlier
    have he : e < (cusumFrom mu 0 arr).length := by omega
    exact hnot e (not_le.1 hearlier) (decide_eq_true ((lt_path_iff hc he).2 hends))

theorem EndsAbove.append {e : ℕ} (h : EndsAbove mu c arr e) (more : List ℚ) :
    EndsAbove mu c (arr ++ more) e := by
  obtain ⟨he, i, hi, hlt⟩ := h
  refine ⟨by rw [List.length_append]; omega, i, hi, ?_⟩
  unfold shortfall at hlt ⊢
  rwa [List.take_append_of_le_length he]

end Path

namespace CusumParameters

variable (params : CusumParameters) {returns : List Number}

structure Means (arr : List ℚ) (v : CusumVerdict) : Prop where
  fired : v.status = .fired ↔
    ∃ i j, i < j ∧ j ≤ arr.length ∧ params.h < shortfall params.muExpected arr i j
  statistic : ∃ s, v.statistic = some s ∧ IsGreatest ({0} ∪ BlockTotals params.muExpected arr) s
  first : ∃ e : ℤ, v.firstCrossingIndex = some e ∧
    (v.status = .fired → ∃ k : ℕ, e = k ∧ IsLeast
      {k | EndsAbove params.muExpected params.h arr k} k) ∧
    (v.status ≠ .fired → e = -1)

theorem exists_endsAbove_iff {mu c : ℚ} {arr : List ℚ} :
    (∃ e, EndsAbove mu c arr e) ↔ ∃ i j, i < j ∧ j ≤ arr.length ∧ c < shortfall mu arr i j := by
  constructor
  · rintro ⟨e, he, i, hi, hlt⟩
    exact ⟨i, e + 1, by omega, he, hlt⟩
  · rintro ⟨i, j, hij, hj, hlt⟩
    obtain ⟨e, rfl⟩ := Nat.exists_eq_add_of_le' (Nat.one_le_of_lt hij)
    exact ⟨e, hj, i, by omega, hlt⟩

theorem evaluate_means (hn : params.minObservations ≤ (clean returns).length)
    (hne : clean returns ≠ []) :
    ∃ v, params.evaluate returns = .ok v ∧ params.Means (clean returns) v := by
  unfold evaluate cusumPath
  dsimp only
  rw [if_neg (not_lt.2 hn)]
  cases hmax : (cusumFrom params.muExpected 0 (clean returns)).max? with
  | none =>
    rw [List.max?_eq_none_iff] at hmax
    have hlength := length_cusumFrom params.muExpected 0 (clean returns)
    rw [hmax] at hlength
    exact absurd (List.eq_nil_of_length_eq_zero hlength.symm) hne
  | some peak =>
    refine ⟨_, rfl, ?_, ⟨peak, rfl, isGreatest_peak hmax⟩, ?_⟩
    all_goals
      cases hcrossed : (cusumFrom params.muExpected 0 (clean returns)).findIdx? (params.h < ·)
    · rw [← exists_endsAbove_iff, ← not_iff_not, ← crossed_none params.positive.le]
      exact iff_of_true nofun hcrossed
    · rw [← exists_endsAbove_iff]
      exact iff_of_true rfl ⟨_, (crossed_some params.positive.le hcrossed).1⟩
    · exact ⟨-1, rfl, nofun, fun _ => rfl⟩
    · rename_i first
      exact ⟨first, rfl, fun _ => ⟨first, rfl, crossed_some params.positive.le hcrossed⟩,
        fun h => absurd rfl h⟩

theorem evaluate_fired {v : CusumVerdict} (h : params.evaluate returns = .ok v)
    (hfired : v.status = .fired) :
    params.minObservations ≤ (clean returns).length ∧ clean returns ≠ [] := by
  unfold evaluate at h
  dsimp only at h
  by_cases hn : ((clean returns).length : ℤ) < params.minObservations
  · rw [if_pos hn] at h
    cases h
    cases hfired
  · rw [if_neg hn] at h
    refine ⟨not_lt.1 hn, fun hnil => ?_⟩
    unfold cusumPath at h
    rw [hnil] at h
    cases h

/-- The rule gives no verdict on a record that is shorter than its minimum. On a longer one it
fires exactly where a contiguous block of returns falls short of the expectation by more than the
threshold; it reports the largest such total, or zero, and the end of the earliest such block; and
it fires on every extension. -/
theorem cusum_means (returns : List Number) : ((clean returns).length < params.minObservations →
      ∃ v, params.evaluate returns = .ok v ∧ v.status = .notEvaluated) ∧
    (params.minObservations ≤ (clean returns).length → clean returns ≠ [] →
      ∃ v, params.evaluate returns = .ok v ∧ params.Means (clean returns) v) ∧
    ∀ v, params.evaluate returns = .ok v → v.status = .fired → ∀ more : List Number,
      ∃ v', params.evaluate (returns ++ more) = .ok v' ∧ v'.status = .fired := by
  refine ⟨fun hn => ⟨_, if_pos hn, rfl⟩, params.evaluate_means, ?_⟩
  intro v h hfired more
  obtain ⟨hn, hne⟩ := params.evaluate_fired h hfired
  obtain ⟨w, hw, hmeans⟩ := params.evaluate_means hn hne
  rw [h] at hw
  cases hw
  obtain ⟨e, hends⟩ := exists_endsAbove_iff.2 (hmeans.fired.1 hfired)
  have hclean := clean_append returns more
  have hlonger : params.minObservations ≤ (clean (returns ++ more)).length := by
    rw [hclean, List.length_append]
    omega
  have hne' : clean (returns ++ more) ≠ [] := by
    rw [hclean]
    exact List.append_ne_nil_of_left_ne_nil hne _
  obtain ⟨v', hv', hmeans'⟩ := params.evaluate_means hlonger hne'
  refine ⟨v', hv', hmeans'.fired.2 (exists_endsAbove_iff.1 ⟨e, ?_⟩)⟩
  rw [hclean]
  exact hends.append _

/-- A record of one return, which is short of the expectation by the threshold and more, and of a
rule that asks for twenty. -/
theorem short_record_does_not_fire :
    ∃ v, (⟨0, 1, 20, one_pos⟩ : CusumParameters).evaluate [.fin (-2)] = .ok v ∧
      v.status ≠ .fired ∧ 1 < shortfall 0 (clean [.fin (-2)]) 0 1 :=
  ⟨_, rfl, nofun, by decide +kernel⟩

end CusumParameters

end Fiboki
