import Fiboki.Lib.Ladder
import Fiboki.Strategy.MissingData

/-!
Every emitted signal is well formed: its stop keeps the declared floor, and its targets are the
declared ladder in order, trimmed to one whole position.
-/

namespace Fiboki.Strategy

open Floating Number

def toRat : Number → ℚ
  | fin q => q
  | nan | inf _ => 0

def tolerance : Number := fin (1 / 10 ^ 12)

theorem isfinite_fin (q : ℚ) : (fin q).isfinite = true := rfl

def nearLevel (p q : Number) : Bool := Number.le (q - p).abs tolerance

def beyond (side : Direction) (reference price : Number) : ℚ :=
  (toRat price - toRat reference) * side.sign

namespace CompiledStrategy

def winningLegs (strategy : CompiledStrategy) (ctx : EvalContext) (side : Direction)
    (reference stop : Number) (inst : Instrument) : List (Number × ℚ) :=
  strategy.document.takeProfits.filterMap fun leg =>
    match legPrice ctx leg (signOf side) reference (reference - stop).abs inst with
    | none => none
    | some price =>
      if price.isfinite && Number.lt (fin 0) (targetDistance (signOf side) reference price) then
        some (price, leg.allocation)
      else none

def declaredAt (side : Direction) (reference price : Number) (legs : List (Number × ℚ)) : ℚ :=
  Ladder.standing nearLevel (beyond side reference) price legs

structure WellFormed (strategy : CompiledStrategy) (ctx : EvalContext) (inst : Instrument)
    (signal : Signal) : Prop where
  stop_pos : Number.lt (fin 0) signal.stopPrice = true
  stop_losing : Number.lt (fin 0)
    (targetDistance (signOf signal.direction) signal.stopPrice signal.referencePrice) = true
  stop_floor : (readOptional ctx strategy.document.stop.atr).isfinite = true →
    Number.le (strategy.document.stop.minDistanceAtr * readOptional ctx strategy.document.stop.atr)
      (signal.referencePrice - signal.stopPrice).abs = true
  targets_winning : ∀ tp ∈ signal.takeProfitPrices,
    Number.lt (fin 0) (targetDistance (signOf signal.direction) signal.referencePrice tp) = true
  targets_ordered : signal.takeProfitPrices.Pairwise fun tp tp' =>
    Number.lt (targetDistance (signOf signal.direction) signal.referencePrice tp)
      (targetDistance (signOf signal.direction) signal.referencePrice tp') = true
  allocations_pos : ∀ a ∈ signal.takeProfitAllocations, 0 < a
  aligned : signal.takeProfitAllocations.length = signal.takeProfitPrices.length
  allocations_total : signal.takeProfitAllocations.sum =
    min 1 (Ladder.total (strategy.winningLegs ctx signal.direction signal.referencePrice
      signal.stopPrice inst))
  /-- Each level has what is declared for it, or what the nearer ones left of the whole. -/
  allocations_kept : ∀ before price a rest,
    signal.takeProfitPrices.zip signal.takeProfitAllocations = before ++ (price, a) :: rest →
      a = min (declaredAt signal.direction signal.referencePrice price
        (strategy.winningLegs ctx signal.direction signal.referencePrice signal.stopPrice inst))
        (1 - Ladder.total before)

end CompiledStrategy

namespace TakeProfitLeg

def scaled (leg : TakeProfitLeg) (ctx : EvalContext) : Bool :=
  let atr := CompiledStrategy.readOptional ctx leg.atr
  leg.kind ≠ .atrMultiple || (atr.isfinite && !Number.le atr (fin 0))

def unbounded (leg : TakeProfitLeg) (ctx : EvalContext) : Bool :=
  leg.kind ≠ .indicatorLevel && leg.scaled ctx && !leg.value.isfinite

def wins (leg : TakeProfitLeg) (ctx : EvalContext) (side : Direction) : Bool :=
  if leg.kind = .indicatorLevel then
    let level := CompiledStrategy.readOptional ctx leg.level
    level.isfinite &&
      Number.lt (fin 0) (CompiledStrategy.targetDistance (CompiledStrategy.signOf side)
        ctx.lastClose level)
  else leg.scaled ctx && leg.value.isfinite

end TakeProfitLeg

namespace CompiledStrategy

structure Bounded (strategy : CompiledStrategy) (ctx : EvalContext) (side : Direction) :
    Prop where
  /-- No leg is unbounded, or the finite targets close the whole position before it. -/
  ladder : (∃ leg ∈ strategy.document.takeProfits, leg.unbounded ctx = true) →
    1 ≤ ((strategy.document.takeProfits.filter fun leg => leg.wins ctx side).map
      TakeProfitLeg.allocation).sum
  floor : strategy.document.stop.minDistanceAtr.isfinite = true ∨
    readOptional ctx strategy.document.stop.atr ≠ fin 0

theorem sign_mul_self (side : Direction) : side.sign * side.sign = 1 := by
  cases side <;> norm_num [Direction.sign]

def winningInf : Direction → Number
  | .long => inf false
  | .short => inf true

theorem targetDistance_winningInf (side : Direction) (r : ℚ) :
    targetDistance (signOf side) (fin r) (winningInf side) = inf false := by
  cases side with
  | long =>
    change scaled false 1 = inf false
    norm_num [scaled]
  | short =>
    change scaled true (-1) = inf false
    norm_num [scaled]

theorem targetDistance_fin (side : Direction) (r q : ℚ) :
    targetDistance (signOf side) (fin r) (fin q) = fin ((q - r) * side.sign) := by
  unfold targetDistance signOf
  rw [fin_sub, fin_mul]

theorem value_cases (leg : TakeProfitLeg) :
    (∃ v, leg.value = fin v ∧ 0 < v) ∨ leg.value = inf false := by
  have hpos := leg.value_pos
  cases hvalue : leg.value with
  | nan =>
    rw [hvalue] at hpos
    cases hpos
  | inf s =>
    rw [hvalue] at hpos
    cases s with
    | false => exact Or.inr rfl
    | true => cases hpos
  | fin v =>
    rw [hvalue] at hpos
    exact Or.inl ⟨v, rfl, by simpa using hpos⟩

theorem reach_fin (side : Direction) (v d : ℚ) :
    signOf side * fin v * fin d = fin (side.sign * v * d) := rfl

theorem reach_inf (side : Direction) {d : ℚ} (hd : 0 < d) :
    signOf side * inf false * fin d = winningInf side := by
  have hscaled : ∀ s, scaled s d = inf s := by
    intro s
    have hnot : ¬ d < 0 := not_lt.mpr hd.le
    simp [scaled, hd.ne', hnot]
  cases side with
  | long =>
    have hsign : signOf .long * inf false = inf false := by
      change scaled false 1 = inf false
      norm_num [scaled]
    rw [hsign]
    exact hscaled false
  | short =>
    have hsign : signOf .short * inf false = inf true := by
      change scaled false (-1) = inf true
      norm_num [scaled]
    rw [hsign]
    exact hscaled true

theorem legPrice_cases (ctx : EvalContext) (leg : TakeProfitLeg) (side : Direction) {r ρ : ℚ}
    {inst : Instrument} (hclose : ctx.lastClose = fin r) (hr : 0 < r) (hρ : 0 < ρ)
    (hpip : 0 < inst.pipSize) :
    (legPrice ctx leg (signOf side) (fin r) (fin ρ) inst = none ∧ leg.unbounded ctx = false ∧
      leg.wins ctx side = false) ∨
    (∃ q, legPrice ctx leg (signOf side) (fin r) (fin ρ) inst = some (fin q) ∧
      leg.unbounded ctx = false ∧ leg.wins ctx side = decide (0 < (q - r) * side.sign)) ∨
    (legPrice ctx leg (signOf side) (fin r) (fin ρ) inst = some (winningInf side) ∧
      leg.unbounded ctx = true ∧ leg.wins ctx side = false) := by
  -- a finite value away from the entry is a target, and an infinite one is unbounded
  have haway : ∀ d : ℚ, 0 < d → leg.kind ≠ .indicatorLevel → leg.scaled ctx = true →
      (∃ q, fin r + signOf side * leg.value * fin d = fin q ∧
        leg.unbounded ctx = false ∧ leg.wins ctx side = decide (0 < (q - r) * side.sign)) ∨
      (fin r + signOf side * leg.value * fin d = winningInf side ∧
        leg.unbounded ctx = true ∧ leg.wins ctx side = false) := by
    intro d hd hkind hscaled
    unfold TakeProfitLeg.unbounded TakeProfitLeg.wins
    rw [if_neg hkind, hscaled]
    rcases value_cases leg with ⟨v, hv, hpos⟩ | hv
    · left
      refine ⟨r + side.sign * v * d, by rw [hv, reach_fin, fin_add], by simp [hv, isfinite], ?_⟩
      have hwin : 0 < (r + side.sign * v * d - r) * side.sign := by
        have heq : (r + side.sign * v * d - r) * side.sign = side.sign * side.sign * (v * d) := by
          ring
        rw [heq, sign_mul_self, one_mul]
        exact mul_pos hpos hd
      rw [hv, decide_eq_true hwin]
      rfl
    · right
      rw [hv, reach_inf side hd]
      refine ⟨by cases side <;> rfl, by simp [hkind, isfinite], rfl⟩
  cases hkind : leg.kind with
  | rMultiple =>
    right
    have hscaled : leg.scaled ctx = true := by simp [TakeProfitLeg.scaled, hkind]
    unfold legPrice
    rw [hkind]
    rcases haway ρ hρ (by simp [hkind]) hscaled with ⟨q, hq, hrest⟩ | ⟨hq, hrest⟩
    · exact Or.inl ⟨q, congrArg some hq, hrest⟩
    · exact Or.inr ⟨congrArg some hq, hrest⟩
  | atrMultiple =>
    unfold legPrice
    rw [hkind]
    dsimp only
    by_cases hatr : (!(readOptional ctx leg.atr).isfinite ||
        Number.le (readOptional ctx leg.atr) (fin 0)) = true
    · left
      have hscaled : leg.scaled ctx = false := by
        simp only [TakeProfitLeg.scaled, hkind]
        cases hfin : (readOptional ctx leg.atr).isfinite with
        | false => rfl
        | true =>
          rw [hfin] at hatr
          simpa using hatr
      rw [if_pos hatr]
      simp [TakeProfitLeg.unbounded, TakeProfitLeg.wins, hkind, hscaled]
    · right
      rw [if_neg hatr]
      have hatr' : (readOptional ctx leg.atr).isfinite = true ∧
          Number.le (readOptional ctx leg.atr) (fin 0) = false := by simpa using hatr
      obtain ⟨d, hd, hpos⟩ := exists_pos hatr'.1 hatr'.2
      have hscaled : leg.scaled ctx = true := by simp [TakeProfitLeg.scaled, hatr']
      rw [hd]
      rcases haway d hpos (by simp [hkind]) hscaled with ⟨q, hq, hrest⟩ | ⟨hq, hrest⟩
      · exact Or.inl ⟨q, congrArg some hq, hrest⟩
      · exact Or.inr ⟨congrArg some hq, hrest⟩
  | fixedPips =>
    right
    have hscaled : leg.scaled ctx = true := by simp [TakeProfitLeg.scaled, hkind]
    unfold legPrice
    rw [hkind]
    rcases haway inst.pipSize hpip (by simp [hkind]) hscaled with ⟨q, hq, hrest⟩ | ⟨hq, hrest⟩
    · exact Or.inl ⟨q, congrArg some hq, hrest⟩
    · exact Or.inr ⟨congrArg some hq, hrest⟩
  | percent =>
    right
    have hscaled : leg.scaled ctx = true := by simp [TakeProfitLeg.scaled, hkind]
    have hsame : fin r * (fin 1 + signOf side * leg.value / fin 100) =
        fin r + signOf side * leg.value * fin (r / 100) := by
      rcases value_cases leg with ⟨v, hv, -⟩ | hv
      · rw [hv]
        change fin (r * (1 + side.sign * v / 100)) = fin (r + side.sign * v * (r / 100))
        congr 1
        ring
      · rw [hv, reach_inf side (by positivity)]
        have hnot : ¬ r < 0 := not_lt.mpr hr.le
        cases side with
        | long =>
          change scaled false r = inf false
          simp [scaled, hr.ne', hnot]
        | short =>
          change scaled true r = inf true
          simp [scaled, hr.ne', hnot]
    unfold legPrice
    rw [hkind]
    dsimp only
    rw [hsame]
    rcases haway (r / 100) (by positivity) (by simp [hkind]) hscaled with
      ⟨q, hq, hrest⟩ | ⟨hq, hrest⟩
    · exact Or.inl ⟨q, congrArg some hq, hrest⟩
    · exact Or.inr ⟨congrArg some hq, hrest⟩
  | indicatorLevel =>
    unfold legPrice TakeProfitLeg.unbounded TakeProfitLeg.wins
    rw [hkind, if_pos rfl]
    dsimp only
    rw [hclose]
    cases hlevel : readOptional ctx leg.level with
    | nan | inf s => exact Or.inl ⟨rfl, rfl, rfl⟩
    | fin q =>
      right
      left
      refine ⟨q, rfl, rfl, ?_⟩
      rw [targetDistance_fin]
      rfl

variable (strategy : CompiledStrategy) (ctx : EvalContext) (side : Direction) {r d : ℚ}
  {inst : Instrument}

theorem risk_eq (hd : 0 < d) : (fin r - fin (r - side.sign * d)).abs = fin d := by
  rw [fin_sub, fin_abs, sub_sub_cancel]
  congr 1
  cases side with
  | long => rw [Direction.sign, one_mul, abs_of_pos hd]
  | short => rw [Direction.sign, neg_one_mul, abs_neg, abs_of_pos hd]

theorem winningLegs_eq (hclose : ctx.lastClose = fin r) (hr : 0 < r) (hd : 0 < d)
    (hpip : 0 < inst.pipSize) :
    strategy.winningLegs ctx side (fin r) (fin (r - side.sign * d)) inst =
      (strategy.targetLegs ctx (signOf side) (fin r) (fin d) inst).filter
        fun leg => leg.1.isfinite := by
  unfold winningLegs targetLegs
  rw [risk_eq side hd, List.filter_filterMap]
  congr 1
  funext leg
  rcases legPrice_cases ctx leg side hclose hr hd hpip with
    ⟨hnone, -⟩ | ⟨q, hsome, -⟩ | ⟨hsome, -⟩
  · simp [hnone]
  · simp only [hsome, targetDistance_fin, lt_fin, le_fin]
    by_cases hwin : 0 < (q - r) * side.sign
    · simp [hwin, not_le.mpr hwin, Option.filter, isfinite_fin]
    · simp [hwin, not_lt.mp hwin]
  · simp only [hsome, targetDistance_winningInf]
    cases side <;> rfl

theorem total_winningLegs (hclose : ctx.lastClose = fin r) (hr : 0 < r) (hd : 0 < d)
    (hpip : 0 < inst.pipSize) :
    Ladder.total (strategy.winningLegs ctx side (fin r) (fin (r - side.sign * d)) inst) =
      ((strategy.document.takeProfits.filter fun leg => leg.wins ctx side).map
        TakeProfitLeg.allocation).sum := by
  unfold winningLegs
  rw [risk_eq side hd]
  induction strategy.document.takeProfits with
  | nil => rfl
  | cons leg legs ih =>
    rcases legPrice_cases ctx leg side hclose hr hd hpip with
      ⟨hnone, -, hwins⟩ | ⟨q, hsome, -, hwins⟩ | ⟨hsome, -, hwins⟩
    · rw [List.filterMap_cons_none (by simp [hnone]), List.filter_cons_of_neg (by simp [hwins]), ih]
    · by_cases hwin : 0 < (q - r) * side.sign
      · rw [List.filterMap_cons_some (b := (fin q, leg.allocation))
            (by simp [hsome, targetDistance_fin, hwin, isfinite]),
          List.filter_cons_of_pos (by simp [hwins, hwin]), Ladder.total_cons, List.map_cons,
          List.sum_cons, ih]
      · rw [List.filterMap_cons_none
          (by simp [hsome, targetDistance_fin, not_lt.mp hwin, isfinite]),
          List.filter_cons_of_neg (by simp [hwins, not_lt.mp hwin]), ih]
    · rw [List.filterMap_cons_none (by cases side <;> simp [hsome, winningInf, isfinite]),
        List.filter_cons_of_neg (by simp [hwins]), ih]

theorem mem_targetLegs (hclose : ctx.lastClose = fin r) (hr : 0 < r) (hd : 0 < d)
    (hpip : 0 < inst.pipSize) {leg : Number × ℚ}
    (hleg : leg ∈ strategy.targetLegs ctx (signOf side) (fin r) (fin d) inst) :
    (0 < leg.2 ∧ leg.2 ≤ 1) ∧ ((∃ q, leg.1 = fin q ∧ 0 < (q - r) * side.sign) ∨
      leg.1 = winningInf side ∧
        ∃ declared ∈ strategy.document.takeProfits, declared.unbounded ctx = true) := by
  unfold targetLegs at hleg
  obtain ⟨declared, hdeclared, hprice⟩ := List.mem_filterMap.1 hleg
  rcases legPrice_cases ctx declared side hclose hr hd hpip with
    ⟨hnone, -⟩ | ⟨q, hsome, -⟩ | ⟨hsome, hunbounded, -⟩
  · simp [hnone] at hprice
  · rw [hsome] at hprice
    dsimp only at hprice
    split_ifs at hprice with hle
    rw [← Option.some.inj hprice]
    rw [targetDistance_fin, le_fin, decide_eq_true_eq, not_le] at hle
    exact ⟨declared.allocation_ok, Or.inl ⟨q, rfl, hle⟩⟩
  · rw [hsome] at hprice
    dsimp only at hprice
    split_ifs at hprice with hle
    rw [← Option.some.inj hprice]
    exact ⟨declared.allocation_ok, Or.inr ⟨rfl, declared, hdeclared, hunbounded⟩⟩

theorem exists_unbounded_target (hclose : ctx.lastClose = fin r) (hr : 0 < r) (hd : 0 < d)
    (hpip : 0 < inst.pipSize) {declared : TakeProfitLeg}
    (hdeclared : declared ∈ strategy.document.takeProfits)
    (hunbounded : declared.unbounded ctx = true) :
    (winningInf side, declared.allocation) ∈
      strategy.targetLegs ctx (signOf side) (fin r) (fin d) inst := by
  unfold targetLegs
  refine List.mem_filterMap.2 ⟨declared, hdeclared, ?_⟩
  rcases legPrice_cases ctx declared side hclose hr hd hpip with
    ⟨-, hbounded, -⟩ | ⟨q, -, hbounded, -⟩ | ⟨hsome, -⟩
  · rw [hunbounded] at hbounded
    cases hbounded
  · rw [hunbounded] at hbounded
    cases hbounded
  · rw [hsome]
    dsimp only
    rw [targetDistance_winningInf]
    rfl

theorem mergeLegs_eq (legs : List (Number × ℚ)) :
    mergeLegs legs = Ladder.merge nearLevel 1 legs := by
  have hafter : ∀ (rest : List (Number × ℚ)) (last : Number × ℚ),
      mergeAfter last rest = Ladder.mergeAfter nearLevel 1 last rest := by
    intro rest
    induction rest with
    | nil => exact fun last => rfl
    | cons leg rest ih =>
      intro last
      rw [mergeAfter, Ladder.mergeAfter, ih, ih]
      rfl
  cases legs with
  | nil => rfl
  | cons leg rest => exact hafter rest leg

theorem trimLegs_eq (running : ℚ) (legs : List (Number × ℚ)) :
    trimLegs running legs = Ladder.trim 1 running legs := by
  induction legs generalizing running with
  | nil => rfl
  | cons leg rest ih =>
    rw [trimLegs, Ladder.trim, ih]

variable (p q : ℚ)

theorem nearLevel_fin : nearLevel (fin p) (fin q) = decide (|q - p| ≤ 1 / 10 ^ 12) := by
  unfold nearLevel tolerance
  rw [fin_sub, fin_abs, le_fin]

theorem nearLevel_winningInf (p : Number) : nearLevel p (winningInf side) = false := by
  cases side with
  | long | short =>
    cases p with
    | inf s => cases s <;> rfl
    | nan | fin q => rfl

theorem beyond_fin (r q : ℚ) : beyond side (fin r) (fin q) = (q - r) * side.sign := rfl

theorem abs_sub_eq : |q - p| = |(q - r) * side.sign - (p - r) * side.sign| := by
  rw [← sub_mul, sub_sub_sub_cancel_right, abs_mul]
  cases side <;> norm_num [Direction.sign]

variable {legs : List (Number × ℚ)}

theorem sorted_of_finite (hfin : ∀ leg ∈ legs, ∃ q, leg.1 = fin q)
    (hordered : legs.Pairwise fun a b => beyond side (fin r) a.1 ≤ beyond side (fin r) b.1) :
    Ladder.Sorted nearLevel (beyond side (fin r)) legs where
  ordered := hordered
  same a ha b hb heq := by
    obtain ⟨p, hp⟩ := hfin a ha
    obtain ⟨q, hq⟩ := hfin b hb
    rw [hp, hq, beyond_fin, beyond_fin] at heq
    rw [hp, hq, nearLevel_fin, abs_sub_eq side (r := r), heq, sub_self]
    norm_num
  convex a ha b hb c hc hab hbc hnear := by
    obtain ⟨p, hp⟩ := hfin a ha
    obtain ⟨q, hq⟩ := hfin b hb
    obtain ⟨z, hz⟩ := hfin c hc
    rw [hp, hq, beyond_fin, beyond_fin] at hab
    rw [hq, hz, beyond_fin, beyond_fin] at hbc
    rw [hp, hz, nearLevel_fin, abs_sub_eq side (r := r), decide_eq_true_eq,
      abs_of_nonneg (by linarith)] at hnear
    rw [hp, hq, nearLevel_fin, abs_sub_eq side (r := r), decide_eq_true_eq,
      abs_of_nonneg (by linarith)]
    linarith

def reach (side : Direction) (r : ℚ) : Number → WithTop ℚ
  | fin q => ((q - r) * side.sign : ℚ)
  | nan | inf _ => ⊤

theorem reach_finite (side : Direction) (r q : ℚ) :
    reach side r (fin q) = (((q - r) * side.sign : ℚ) : WithTop ℚ) := rfl

theorem reach_winningInf (side : Direction) (r : ℚ) : reach side r (winningInf side) = ⊤ := by
  cases side <;> rfl

theorem sorted_split (hlegs : ∀ leg ∈ legs, (∃ q, leg.1 = fin q) ∨ leg.1 = winningInf side) :
    ∃ front back, (legs.insertionSort fun a b =>
        Number.lt (targetDistance (signOf side) (fin r) b.1)
          (targetDistance (signOf side) (fin r) a.1) = false) = front ++ back ∧
      front.Perm (legs.filter fun leg => leg.1.isfinite) ∧
      Ladder.Sorted nearLevel (beyond side (fin r)) front ∧
      ∀ leg ∈ back, leg.1 = winningInf side := by
  have hsame : (legs.insertionSort fun a b =>
        Number.lt (targetDistance (signOf side) (fin r) b.1)
          (targetDistance (signOf side) (fin r) a.1) = false) =
      legs.insertionSort fun a b => reach side r a.1 ≤ reach side r b.1 := by
    have hmap := List.map_insertionSort (r := fun a b : Number × ℚ =>
        Number.lt (targetDistance (signOf side) (fin r) b.1)
          (targetDistance (signOf side) (fin r) a.1) = false)
      (s := fun a b : Number × ℚ => reach side r a.1 ≤ reach side r b.1) id legs ?_
    · simpa using hmap
    · intro a ha b hb
      rcases hlegs a ha with ⟨p, hp⟩ | hp
      · rcases hlegs b hb with ⟨q, hq⟩ | hq
        · rw [id, id, hp, hq, targetDistance_fin, targetDistance_fin, reach_finite,
            reach_finite, WithTop.coe_le_coe, lt_fin, decide_eq_false_iff_not, not_lt]
        · rw [id, id, hp, hq, targetDistance_winningInf, targetDistance_fin, reach_winningInf]
          exact iff_of_true rfl le_top
      · rcases hlegs b hb with ⟨q, hq⟩ | hq
        · rw [id, id, hp, hq, targetDistance_winningInf, targetDistance_fin, reach_winningInf,
            reach_finite]
          exact iff_of_false Bool.noConfusion (not_le.2 (WithTop.coe_lt_top _))
        · rw [id, id, hp, hq, targetDistance_winningInf, reach_winningInf]
          exact iff_of_true rfl le_rfl
  rw [hsame]
  generalize hsort : (legs.insertionSort fun a b : Number × ℚ =>
    reach side r a.1 ≤ reach side r b.1) = sorted
  have hperm : sorted.Perm legs := hsort ▸ List.perm_insertionSort _ legs
  have hmem : ∀ leg ∈ sorted, (∃ q, leg.1 = fin q) ∨ leg.1 = winningInf side :=
    fun leg hleg => hlegs leg (hperm.mem_iff.1 hleg)
  have hordered : sorted.Pairwise fun a b => reach side r a.1 ≤ reach side r b.1 := by
    have : IsTrans (Number × ℚ) fun a b => reach side r a.1 ≤ reach side r b.1 :=
      ⟨fun _ _ _ => le_trans⟩
    have : Std.Total fun a b : Number × ℚ => reach side r a.1 ≤ reach side r b.1 :=
      ⟨fun _ _ => le_total _ _⟩
    rw [← hsort]
    exact List.pairwise_insertionSort _ legs
  have hfirst : sorted.Pairwise fun a b => b.1.isfinite = true → a.1.isfinite = true := by
    apply hordered.imp_of_mem
    intro a b ha hb hle hfin
    rcases hmem a ha with ⟨p, hp⟩ | hp
    · rw [hp, isfinite_fin]
    · rcases hmem b hb with ⟨q, hq⟩ | hq
      · rw [hp, hq, reach_winningInf, reach_finite] at hle
        exact absurd hle (not_le.2 (WithTop.coe_lt_top _))
      · rw [hq] at hfin
        cases side <;> cases hfin
  refine ⟨sorted.filter fun leg => leg.1.isfinite, sorted.filter fun leg => !leg.1.isfinite,
    (Ladder.filter_append_filter_not hfirst).symm, hperm.filter _, ?_, ?_⟩
  · have hfin : ∀ leg ∈ sorted.filter fun leg => leg.1.isfinite, ∃ q, leg.1 = fin q := by
      intro leg hleg
      obtain ⟨hin, hfinite⟩ := List.mem_filter.1 hleg
      rcases hmem leg hin with hq | hinf
      · exact hq
      · rw [hinf] at hfinite
        cases side <;> cases hfinite
    apply sorted_of_finite side hfin
    apply (hordered.sublist List.filter_sublist).imp_of_mem
    intro a b ha hb hle
    obtain ⟨p, hp⟩ := hfin a ha
    obtain ⟨q, hq⟩ := hfin b hb
    rw [hp, hq] at hle ⊢
    exact WithTop.coe_le_coe.1 hle
  · intro leg hleg
    obtain ⟨hin, hinfinite⟩ := List.mem_filter.1 hleg
    rcases hmem leg hin with ⟨q, hq⟩ | hinf
    · rw [hq] at hinfinite
      cases hinfinite
    · exact hinf

theorem takeProfits_eq (hclose : ctx.lastClose = fin r) (hr : 0 < r) (hd : 0 < d)
    (hpip : 0 < inst.pipSize) :
    ∃ front back, strategy.takeProfits ctx side (fin r) (fin (r - side.sign * d)) inst =
        Ladder.settled nearLevel 1 (front ++ back) ∧
      Ladder.Shares 1 (front ++ back) ∧
      front.Perm
        (strategy.winningLegs ctx side (fin r) (fin (r - side.sign * d)) inst) ∧
      Ladder.Sorted nearLevel (beyond side (fin r)) front ∧
      (∀ leg ∈ front, ∃ q, leg.1 = fin q ∧ 0 < (q - r) * side.sign) ∧
      (∀ leg ∈ back, leg.1 = winningInf side) ∧
      (back ≠ [] ↔ ∃ leg ∈ strategy.document.takeProfits, leg.unbounded ctx = true) := by
  have htargets := fun leg
      (hleg : leg ∈ strategy.targetLegs ctx (signOf side) (fin r) (fin d) inst) =>
    strategy.mem_targetLegs ctx side hclose hr hd hpip hleg
  have hlegs : ∀ leg ∈ strategy.targetLegs ctx (signOf side) (fin r) (fin d) inst,
      (∃ q, leg.1 = fin q) ∨ leg.1 = winningInf side := by
    intro leg hleg
    rcases (htargets leg hleg).2 with ⟨q, hq, -⟩ | ⟨hinf, -⟩
    · exact Or.inl ⟨q, hq⟩
    · exact Or.inr hinf
  obtain ⟨front, back, hsplit, hfront, hsorted, hback⟩ := sorted_split side (r := r) hlegs
  have hperm : (front ++ back).Perm
      (strategy.targetLegs ctx (signOf side) (fin r) (fin d) inst) := by
    rw [← hsplit]
    exact List.perm_insertionSort _ _
  refine ⟨front, back, ?_, ?_, ?_, hsorted, ?_, hback, ?_, ?_⟩
  · unfold takeProfits
    dsimp only
    rw [risk_eq side hd, hsplit, mergeLegs_eq, trimLegs_eq]
    rfl
  · intro leg hleg
    exact (htargets leg (hperm.mem_iff.1 hleg)).1
  · rw [strategy.winningLegs_eq ctx side hclose hr hd hpip]
    exact hfront
  · intro leg hleg
    obtain ⟨hin, hfin⟩ := List.mem_filter.1 (hfront.mem_iff.1 hleg)
    rcases (htargets leg hin).2 with hwin | ⟨hinf, -⟩
    · exact hwin
    · rw [hinf] at hfin
      cases side <;> cases hfin
  · intro hne
    obtain ⟨leg, hleg⟩ := List.exists_mem_of_ne_nil back hne
    rcases (htargets leg (hperm.mem_iff.1 (List.mem_append_right _ hleg))).2 with
      ⟨q, hq, -⟩ | ⟨-, hunbounded⟩
    · rw [hback leg hleg] at hq
      cases side <;> cases hq
    · exact hunbounded
  · rintro ⟨declared, hdeclared, hunbounded⟩ hnil
    have hin := strategy.exists_unbounded_target ctx side hclose hr hd hpip hdeclared hunbounded
    rw [← hperm.mem_iff, hnil, List.append_nil] at hin
    have hfin := (List.mem_filter.1 (hfront.mem_iff.1 hin)).2
    cases side <;> cases hfin

theorem floor_iff {model : StopModel} {distance : Number}
    (hfloored : floored model ctx distance = fin d) (hd : 0 < d) :
    ((readOptional ctx model.atr).isfinite = true →
      Number.le (model.minDistanceAtr * readOptional ctx model.atr) (fin d) = true) ↔
    (model.minDistanceAtr.isfinite = true ∨ readOptional ctx model.atr ≠ fin 0) := by
  have hnonneg := model.minDistance_nonneg
  unfold floored at hfloored
  cases hatr : readOptional ctx model.atr with
  | nan | inf s => simp [isfinite]
  | fin a =>
    rw [hatr] at hfloored
    cases hmin : model.minDistanceAtr with
    | nan =>
      rw [hmin] at hnonneg
      cases hnonneg
    | fin m =>
      refine iff_of_true (fun _ => ?_) (Or.inl rfl)
      rw [hmin] at hfloored hnonneg
      rw [fin_mul, le_fin, decide_eq_true_eq]
      rw [le_fin, decide_eq_true_eq] at hnonneg
      rcases hnonneg.eq_or_lt with hzero | hpos
      · rw [← hzero, zero_mul]
        exact hd.le
      · rw [if_pos (by simp [hpos, isfinite]), fin_mul] at hfloored
        unfold pyMax at hfloored
        split_ifs at hfloored with hlt
        · exact (Number.fin.inj hfloored).le
        · rw [hfloored, lt_fin, decide_eq_true_eq, not_lt] at hlt
          exact hlt
    | inf s =>
      rw [hmin] at hfloored hnonneg
      cases s with
      | true => cases hnonneg
      | false =>
        rcases lt_trichotomy a 0 with hneg | rfl | hpos
        · refine iff_of_true (fun _ => ?_) (Or.inr ?_)
          · change Number.le (scaled false a) (fin d) = true
            rw [scaled, if_neg hneg.ne, decide_eq_true hneg]
            rfl
          · intro hzero
            exact hneg.ne (Number.fin.inj hzero)
        · refine iff_of_false (fun h => ?_) (by simp [isfinite])
          have hle := h rfl
          change Number.le (scaled false 0) (fin d) = true at hle
          rw [scaled, if_pos rfl] at hle
          cases hle
        · exfalso
          change pyMax distance (scaled false a) = fin d at hfloored
          rw [scaled, if_neg hpos.ne', decide_eq_false (not_lt.mpr hpos.le)] at hfloored
          unfold pyMax at hfloored
          split_ifs at hfloored with hlt
          cases hfloored
          exact hlt rfl

structure Emitted (instruments : Registry) (symbol : String) (signal : Signal) (r d : ℚ) :
    Prop where
  reference_pos : 0 < r
  distance_pos : 0 < d
  stop_pos : 0 < r - signal.direction.sign * d
  close : ctx.lastClose = fin r
  reference : signal.referencePrice = fin r
  stop : signal.stopPrice = fin (r - signal.direction.sign * d)
  floored : ∃ distance, floored strategy.document.stop ctx distance = fin d
  prices : signal.takeProfitPrices = (strategy.takeProfits ctx signal.direction (fin r)
    (fin (r - signal.direction.sign * d)) (instruments.get symbol)).map Prod.fst
  allocations : signal.takeProfitAllocations = (strategy.takeProfits ctx signal.direction (fin r)
    (fin (r - signal.direction.sign * d)) (instruments.get symbol)).map Prod.snd

theorem emitted {instruments : Registry} {symbol timeframe : String} {signal : Signal}
    (h : strategy.decide instruments ctx symbol timeframe = some signal) :
    ∃ r d, strategy.Emitted ctx instruments symbol signal r d := by
  unfold CompiledStrategy.decide at h
  split_ifs at h
  split at h
  · rename_i side _
    unfold signalOf at h
    dsimp only at h
    split_ifs at h with hpriced
    rw [Bool.or_eq_true, not_or, Bool.not_eq_true', Bool.not_eq_false, Bool.not_eq_true] at hpriced
    obtain ⟨r, hr, hpos⟩ := exists_pos hpriced.1 hpriced.2
    split at h
    · cases h
    · rename_i stop hstop
      split_ifs at h with hchecks
      rw [hr] at hstop
      unfold stopPrice at hstop
      dsimp only at hstop
      split at hstop
      · cases hstop
      · rename_i distance hdistance
        obtain ⟨d, hd, hdpos, hstoppos, rfl⟩ := stopAt_eq_some hstop
        refine ⟨r, d, ?_⟩
        rw [← Option.some.inj h]
        have hlegs := congrArg (fun reference => strategy.takeProfits ctx side reference
          (fin (r - side.sign * d)) (instruments.get symbol)) hr
        exact ⟨hpos, hdpos, hstoppos, hr, hr, rfl, ⟨distance, hd⟩,
          congrArg (List.map Prod.fst) hlegs, congrArg (List.map Prod.snd) hlegs⟩
  · cases h

/-- An emitted signal is well formed exactly when no leg is unbounded before the whole position
is closed, and no infinite floor meets an ATR of zero. -/
theorem wellFormed_iff (instruments : Registry) (symbol timeframe : String) (signal : Signal)
    (hpip : 0 < (instruments.get symbol).pipSize)
    (h : strategy.decide instruments ctx symbol timeframe = some signal) :
    strategy.WellFormed ctx (instruments.get symbol) signal ↔
      strategy.Bounded ctx signal.direction := by
  obtain ⟨r, d, he⟩ := strategy.emitted ctx h
  obtain ⟨distance, hfloored⟩ := he.floored
  obtain ⟨front, back, heq, hshares, hperm, hsorted, hfront, hback, hunbounded⟩ :=
    strategy.takeProfits_eq ctx signal.direction he.close he.reference_pos he.distance_pos hpip
  have hfloor := floor_iff ctx hfloored he.distance_pos
  have htotal := strategy.total_winningLegs ctx signal.direction he.close he.reference_pos
    he.distance_pos hpip
  have hsum : (signal.takeProfitAllocations).sum = min 1 (Ladder.total (front ++ back)) := by
    rw [he.allocations, heq]
    exact Ladder.total_settled zero_le_one hshares
  constructor
  · intro hwell
    constructor
    · intro hexists
      by_contra hshort
      rw [← htotal, ← Ladder.total_perm hperm, not_le] at hshort
      have hbackpos := (hshares.of_subset (List.subset_append_right front back)).total_pos
        (hunbounded.2 hexists)
      have hkept := hwell.allocations_total
      rw [hsum, he.reference, he.stop, ← Ladder.total_perm hperm, Ladder.total_append,
        min_eq_right hshort.le] at hkept
      rcases min_choice 1 (Ladder.total front + Ladder.total back) with hone | hall
      · rw [hone] at hkept
        exact hshort.ne hkept.symm
      · rw [hall] at hkept
        linarith
    · apply hfloor.1
      intro hfinite
      have hle := hwell.stop_floor hfinite
      rwa [he.reference, he.stop, risk_eq signal.direction he.distance_pos] at hle
  · intro hbounded
    have hfrontShares := hshares.of_subset (List.subset_append_left front back)
    have hsettled : Ladder.settled nearLevel 1 (front ++ back) =
        Ladder.settled nearLevel 1 front := by
      by_cases hnil : back = []
      · rw [hnil, List.append_nil]
      · apply Ladder.settled_append_full zero_le_one hshares
        · intro leg hleg l
          rw [hback leg hleg]
          exact nearLevel_winningInf signal.direction l
        · have hfull := hbounded.ladder (hunbounded.1 hnil)
          rwa [← htotal, ← Ladder.total_perm hperm] at hfull
    rw [hsettled] at heq
    have hlevel : ∀ tp ∈ signal.takeProfitPrices,
        ∃ q, tp = fin q ∧ 0 < (q - r) * signal.direction.sign := by
      intro tp htp
      rw [he.prices, heq] at htp
      obtain ⟨leg, hleg, rfl⟩ := List.mem_map.1 htp
      obtain ⟨-, declared, hdeclared, hsame⟩ := Ladder.mem_settled hleg
      rw [← hsame]
      exact hfront declared hdeclared
    constructor
    · rw [he.stop, lt_fin]
      exact decide_eq_true he.stop_pos
    · rw [he.stop, he.reference, targetDistance_fin, lt_fin, decide_eq_true_eq, sub_sub_cancel,
        mul_right_comm, sign_mul_self, one_mul]
      exact he.distance_pos
    · intro hfinite
      rw [he.reference, he.stop, risk_eq signal.direction he.distance_pos]
      exact hfloor.2 hbounded.floor hfinite
    · intro tp htp
      obtain ⟨q, rfl, hwin⟩ := hlevel tp htp
      rw [he.reference, targetDistance_fin, lt_fin]
      exact decide_eq_true hwin
    · have hpairs := hsorted.pairwise_settled hfrontShares
      rw [← heq, ← he.prices] at hpairs
      apply hpairs.imp_of_mem
      intro tp tp' htp htp' hlt
      obtain ⟨q, rfl, -⟩ := hlevel tp htp
      obtain ⟨q', rfl, -⟩ := hlevel tp' htp'
      rw [he.reference, targetDistance_fin, targetDistance_fin, lt_fin]
      exact decide_eq_true hlt
    · intro a ha
      rw [he.allocations, heq] at ha
      obtain ⟨leg, hleg, rfl⟩ := List.mem_map.1 ha
      exact (Ladder.mem_settled hleg).1
    · rw [he.allocations, he.prices, List.length_map, List.length_map]
    · rw [he.allocations, heq, he.reference, he.stop, ← Ladder.total_perm hperm]
      exact Ladder.total_settled zero_le_one hfrontShares
    · intro before price a rest hsplit
      rw [he.prices, he.allocations, heq, List.zip_map', List.map_id''] at hsplit
      · unfold declaredAt
        rw [he.reference, he.stop, ← Ladder.standing_perm hperm]
        exact hsorted.settled_split zero_le_one hfrontShares hsplit
      · exact fun leg => rfl

def rLeg (value : Number) (allocation : ℚ) (hvalue : Number.lt (fin 0) value)
    (hallocation : 0 < allocation ∧ allocation ≤ 1) : TakeProfitLeg where
  kind := .rMultiple
  value := value
  allocation := allocation
  atr := none
  level := none
  value_pos := hvalue
  allocation_ok := hallocation
  atr_source := fun h => nomatch h
  level_source := fun h => nomatch h

/-- Half the position at two risks, a quarter at `far` risks. -/
def twoLevels (far : Number) (hfar : Number.lt (fin 0) far) : CompiledStrategy where
  document := { unlessOversold.document with
    takeProfits := [rLeg far (1 / 4) hfar (by norm_num),
      rLeg (fin 2) (1 / 2) (by decide) (by norm_num)]
    allocations_ok := by norm_num [rLeg] }
  firstOutputs := ["rsi_14"]

def calmBar : EvalContext := { oversoldBar with indicator := fun _ _ => fin 50 }

def oneInstrument : Registry := ⟨fun _ => eurusd, fun _ => rfl⟩

/-- A leg an infinite number of risks away is emitted as a target, with its allocation. -/
theorem unbounded_leg_is_emitted : ∃ signal,
    (twoLevels (inf false) rfl).decide oneInstrument calmBar "EURUSD" "H1" = some signal ∧
      ¬ (twoLevels (inf false) rfl).WellFormed calmBar (oneInstrument.get "EURUSD") signal := by
  have hrun : (((twoLevels (inf false) rfl).decide oneInstrument calmBar "EURUSD" "H1").any
      fun signal => decide (signal.takeProfitAllocations.sum ≠
        min 1 (Ladder.total ((twoLevels (inf false) rfl).winningLegs calmBar signal.direction
          signal.referencePrice signal.stopPrice (oneInstrument.get "EURUSD"))))) = true := by
    decide +kernel
  cases hsignal : (twoLevels (inf false) rfl).decide oneInstrument calmBar "EURUSD" "H1" with
  | none =>
    rw [hsignal] at hrun
    cases hrun
  | some signal =>
    rw [hsignal] at hrun
    refine ⟨signal, rfl, fun hwell => ?_⟩
    exact of_decide_eq_true hrun hwell.allocations_total

theorem two_levels_well_formed : ∃ signal,
    (twoLevels (fin 3) rfl).decide oneInstrument calmBar "EURUSD" "H1" = some signal ∧
      (twoLevels (fin 3) rfl).WellFormed calmBar (oneInstrument.get "EURUSD") signal := by
  have hrun : ((twoLevels (fin 3) rfl).decide oneInstrument calmBar "EURUSD" "H1").isSome := by
    decide +kernel
  obtain ⟨signal, hsignal⟩ := Option.isSome_iff_exists.1 hrun
  refine ⟨signal, hsignal, ?_⟩
  refine ((twoLevels (fin 3) rfl).wellFormed_iff calmBar oneInstrument "EURUSD" "H1" signal
    (by norm_num [oneInstrument, eurusd]) hsignal).2 ⟨?_, Or.inl rfl⟩
  rintro ⟨leg, hleg, hunbounded⟩
  simp [twoLevels] at hleg
  rcases hleg with rfl | rfl
  · cases hunbounded
  · cases hunbounded

end CompiledStrategy

end Fiboki.Strategy
