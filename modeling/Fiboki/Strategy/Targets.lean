import Fiboki.Strategy.Compiler
import Mathlib.Algebra.Order.BigOperators.Group.List

/-!
A signal is never refused by its own checks: the stop that the document gives is on its side
of the entry, and so is every target of the ladder, whose allocations add up to at most the
whole position.
-/

namespace Fiboki.Strategy

open Floating Number

theorem exists_pos {x : Number} (hfin : x.isfinite = true) (hpos : Number.le x (fin 0) = false) :
    ∃ q, x = fin q ∧ 0 < q := by
  cases x with
  | nan | inf s => cases hfin
  | fin q => exact ⟨q, rfl, by simpa using hpos⟩

namespace CompiledStrategy

variable {side : Direction}

variable {r : ℚ}

theorem stopAt_eq_some {distance stop : Number}
    (h : stopAt side (fin r) distance = some stop) :
    ∃ d, distance = fin d ∧ 0 < d ∧ 0 < r - side.sign * d ∧ stop = fin (r - side.sign * d) := by
  unfold stopAt at h
  split_ifs at h with hbad
  rw [Bool.or_eq_true, not_or, Bool.not_eq_true', Bool.not_eq_false, Bool.not_eq_true] at hbad
  obtain ⟨d, rfl, hd⟩ := exists_pos hbad.1 hbad.2
  unfold signOf at h
  simp only [fin_mul, fin_sub, lt_fin, decide_eq_true_eq] at h
  split_ifs at h with hpos
  exact ⟨d, rfl, hd, hpos, (Option.some.inj h).symm⟩

variable {inst : Instrument}

theorem exists_of_stopPrice {strategy : CompiledStrategy} {ctx : EvalContext}
    {reference stop : Number}
    (h : strategy.stopPrice ctx side reference inst = some stop) :
    ∃ distance, stopAt side reference distance = some stop := by
  unfold stopPrice at h
  dsimp only at h
  split at h
  · cases h
  · exact ⟨_, h⟩

theorem notBeyond_stop {r d : ℚ} (hd : 0 < d) :
    notBeyond side (fin r) (fin (r - side.sign * d)) = false := by
  cases side with
  | long =>
    change decide (r ≤ r - 1 * d) = false
    rw [decide_eq_false_iff_not]
    linarith
  | short =>
    change decide (r - -1 * d ≤ r) = false
    rw [decide_eq_false_iff_not]
    linarith

theorem notBeyond_target {price : Number}
    (h : Number.le (targetDistance (signOf side) (fin r) price) (fin 0) = false) :
    notBeyond side price (fin r) = false := by
  unfold targetDistance signOf at h
  cases price with
  | nan => cases side <;> rfl
  | inf s => cases side <;> cases s <;> first | rfl | cases h
  | fin q =>
    rw [fin_sub, fin_mul, le_fin, decide_eq_false_iff_not] at h
    cases side with
    | long =>
      change decide (q ≤ r) = false
      rw [decide_eq_false_iff_not]
      intro hle
      apply h
      change (q - r) * 1 ≤ 0
      linarith
    | short =>
      change decide (r ≤ q) = false
      rw [decide_eq_false_iff_not]
      intro hle
      apply h
      change (q - r) * -1 ≤ 0
      linarith

def Rung (p : Number → Prop) (leg : Number × ℚ) : Prop := p leg.1 ∧ 0 < leg.2 ∧ leg.2 ≤ 1

variable (strategy : CompiledStrategy) (ctx : EvalContext)

theorem targetLegs_rungs (sign reference risk : Number) (inst : Instrument) :
    ∀ leg ∈ strategy.targetLegs ctx sign reference risk inst,
      Rung (fun price => Number.le (targetDistance sign reference price) (fin 0) = false) leg := by
  intro leg hleg
  unfold targetLegs at hleg
  obtain ⟨declared, -, hsome⟩ := List.mem_filterMap.1 hleg
  split at hsome
  · cases hsome
  · split_ifs at hsome with hle
    rw [← Option.some.inj hsome]
    exact ⟨by simpa using hle, declared.allocation_ok⟩

variable {p : Number → Prop}

variable {legs : List (Number × ℚ)}

theorem mergeAfter_rungs {last : Number × ℚ} (hlast : Rung p last)
    (hlegs : ∀ leg ∈ legs, Rung p leg) : ∀ leg ∈ mergeAfter last legs, Rung p leg := by
  induction legs generalizing last with
  | nil =>
    intro leg hleg
    rw [mergeAfter, List.mem_singleton] at hleg
    rwa [hleg]
  | cons next rest ih =>
    have hnext : Rung p next := hlegs next List.mem_cons_self
    have hrest : ∀ leg ∈ rest, Rung p leg := fun leg hl => hlegs leg (List.mem_cons_of_mem _ hl)
    rw [mergeAfter]
    split_ifs with hsame
    · apply ih ?_ hrest
      refine ⟨hlast.1, ?_, min_le_left _ _⟩
      exact lt_min one_pos (add_pos hlast.2.1 hnext.2.1)
    · intro leg hleg
      rcases List.mem_cons.1 hleg with rfl | hleg
      · exact hlast
      · exact ih hnext hrest leg hleg

theorem mergeLegs_rungs (hlegs : ∀ leg ∈ legs, Rung p leg) :
    ∀ leg ∈ mergeLegs legs, Rung p leg := by
  cases legs with
  | nil => exact fun leg hleg => absurd hleg (by simp [mergeLegs])
  | cons first rest =>
    exact mergeAfter_rungs (hlegs first List.mem_cons_self)
      fun leg hl => hlegs leg (List.mem_cons_of_mem _ hl)

theorem trimLegs_spec (hlegs : ∀ leg ∈ legs, Rung p leg) : ∀ running : ℚ, running ≤ 1 →
      (∀ leg ∈ trimLegs running legs, p leg.1 ∧ 0 ≤ leg.2 ∧ leg.2 ≤ 1) ∧
        running + ((trimLegs running legs).map Prod.snd).sum ≤ 1 := by
  induction legs with
  | nil =>
    intro running hrun
    simpa [trimLegs] using hrun
  | cons leg rest ih =>
    intro running hrun
    obtain ⟨hprice, hpos, hle⟩ := hlegs leg List.mem_cons_self
    have hroom : max 0 (1 - running) = 1 - running := max_eq_right (by linarith)
    rw [trimLegs, hroom]
    have htake : min leg.2 (1 - running) ≤ 1 - running := min_le_right _ _
    have hnonneg : 0 ≤ min leg.2 (1 - running) := le_min hpos.le (by linarith)
    obtain ⟨hmem, hsum⟩ := ih (fun l hl => hlegs l (List.mem_cons_of_mem _ hl))
      (running + min leg.2 (1 - running)) (by linarith)
    constructor
    · intro l hl
      rcases List.mem_cons.1 hl with rfl | hl
      · exact ⟨hprice, hnonneg, (min_le_left _ _).trans hle⟩
      · exact hmem l hl
    · rw [List.map_cons, List.sum_cons]
      linarith

theorem takeProfits_spec (side : Direction) (r : ℚ) (stop : Number) (inst : Instrument) :
    (∀ leg ∈ strategy.takeProfits ctx side (fin r) stop inst,
      notBeyond side leg.1 (fin r) = false ∧ 0 < leg.2 ∧ leg.2 ≤ 1) ∧
      ((strategy.takeProfits ctx side (fin r) stop inst).map Prod.snd).sum ≤ 1 := by
  unfold takeProfits
  dsimp only
  generalize hlegs : strategy.targetLegs ctx (signOf side) (fin r) _ inst = legs
  have hrungs : ∀ leg ∈ legs, Rung (fun price =>
      Number.le (targetDistance (signOf side) (fin r) price) (fin 0) = false) leg := by
    rw [← hlegs]
    exact targetLegs_rungs strategy ctx _ _ _ inst
  generalize hsort : legs.insertionSort (fun a b =>
    Number.lt (targetDistance (signOf side) (fin r) b.1)
      (targetDistance (signOf side) (fin r) a.1) = false) = sorted
  have hsorted : ∀ leg ∈ sorted, Rung (fun price =>
      Number.le (targetDistance (signOf side) (fin r) price) (fin 0) = false) leg := by
    intro leg hleg
    rw [← hsort] at hleg
    exact hrungs leg ((List.perm_insertionSort _ legs).mem_iff.1 hleg)
  obtain ⟨hmem, hsum⟩ := trimLegs_spec (mergeLegs_rungs hsorted) 0 zero_le_one
  constructor
  · intro leg hleg
    obtain ⟨hin, hpos⟩ := List.mem_filter.1 hleg
    obtain ⟨hprice, -, hle⟩ := hmem leg hin
    exact ⟨notBeyond_target hprice, of_decide_eq_true hpos, hle⟩
  · rw [zero_add] at hsum
    apply le_trans ?_ hsum
    apply List.Sublist.sum_le_sum
    · exact (List.filter_sublist).map Prod.snd
    · intro a ha
      obtain ⟨leg, hleg, rfl⟩ := List.mem_map.1 ha
      exact (hmem leg hleg).2.1

theorem signalChecks {stop : Number} (hr : 0 < r)
    (hstop : strategy.stopPrice ctx side (fin r) inst = some stop) :
    SignalChecks side (fin r) stop
      ((strategy.takeProfits ctx side (fin r) stop inst).map Prod.fst)
      ((strategy.takeProfits ctx side (fin r) stop inst).map Prod.snd) := by
  obtain ⟨distance, hat⟩ := exists_of_stopPrice hstop
  obtain ⟨d, -, hd, hpos, rfl⟩ := stopAt_eq_some hat
  obtain ⟨hlegs, hsum⟩ := takeProfits_spec strategy ctx side r (fin (r - side.sign * d)) inst
  constructor
  · rw [le_fin, decide_eq_false_iff_not]
    exact not_le.2 hpos
  · rw [le_fin, decide_eq_false_iff_not]
    exact not_le.2 hr
  · exact notBeyond_stop hd
  · intro tp htp
    obtain ⟨leg, hleg, rfl⟩ := List.mem_map.1 htp
    exact (hlegs leg hleg).1
  · intro _
    rw [List.length_map, List.length_map]
  · intro a ha
    obtain ⟨leg, hleg, rfl⟩ := List.mem_map.1 ha
    exact (hlegs leg hleg).2
  · intro _
    exact hsum.trans (by norm_num)

def Priced (ctx : EvalContext) : Prop :=
  ctx.lastClose.isfinite = true ∧ Number.le ctx.lastClose (fin 0) = false

theorem signalOf_isSome (side : Direction) (inst : Instrument) (symbol timeframe : String) :
    (strategy.signalOf ctx side inst symbol timeframe).isSome = true ↔
      Priced ctx ∧ (strategy.stopPrice ctx side ctx.lastClose inst).isSome = true := by
  unfold signalOf Priced
  dsimp only
  by_cases hpriced : ctx.lastClose.isfinite = true ∧ Number.le ctx.lastClose (fin 0) = false
  · rw [if_neg (by simpa using hpriced)]
    obtain ⟨r, hr, hpos⟩ := exists_pos hpriced.1 hpriced.2
    cases hstop : strategy.stopPrice ctx side ctx.lastClose inst with
    | none => simp
    | some stop =>
      have hchecks := signalChecks strategy ctx hpos (hr ▸ hstop)
      rw [← hr] at hchecks
      simp [hchecks, hpriced]
  · rw [if_pos (by
      rw [Bool.or_eq_true, Bool.not_eq_true']
      by_contra hgood
      push Not at hgood
      exact hpriced ⟨by simpa using hgood.1, by simpa using hgood.2⟩)]
    exact iff_of_false Bool.false_ne_true fun h => hpriced h.1

end CompiledStrategy

end Fiboki.Strategy
