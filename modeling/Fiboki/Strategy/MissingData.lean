import Fiboki.Strategy.Targets

/-!
Readings that turn unknown, and the decision on the bar.

Every rule that reads an unknown value is false, so what becomes of a side's opportunity is
the change of one formula; of the exits only the stop's distance and its floor matter.

When unknown readings make a trade: the opportunity that they open, and the stop whose floor
they drop.
-/

namespace Fiboki.Strategy

open Floating Number

abbrev Missing := String → ℕ → Bool

namespace EvalContext

variable (missing : Missing)

def blind (ctx : EvalContext) : EvalContext :=
  { ctx with
    indicator := fun column i => if missing column i then nan else ctx.indicator column i }

def lostIndicator (ctx : EvalContext) (operand : IndicatorOperand) : Bool :=
  !decide (ctx.pos < operand.offset) && missing operand.column (ctx.pos - operand.offset)

def lost (ctx : EvalContext) : Operand → Bool
  | .indicator operand => ctx.lostIndicator missing operand
  | .price _ | .constant _ => false

def lostOptional (ctx : EvalContext) : Option IndicatorOperand → Bool
  | none => false
  | some operand => ctx.lostIndicator missing operand

variable {missing}

variable (ctx : EvalContext)

theorem readIndicator_blind (operand : IndicatorOperand) :
    (ctx.blind missing).readIndicator operand =
      if ctx.lostIndicator missing operand then nan else ctx.readIndicator operand := by
  unfold readIndicator at_ lostIndicator blind
  by_cases hfirst : ctx.pos < operand.offset
  · simp [hfirst]
  · simp [hfirst]

theorem readPrice_blind (operand : PriceOperand) :
    (ctx.blind missing).readPrice operand = ctx.readPrice operand := rfl

theorem read_blind (operand : Operand) : (ctx.blind missing).read operand =
      if ctx.lost missing operand then nan else ctx.read operand := by
  cases operand with
  | indicator operand => exact readIndicator_blind ctx operand
  | price operand | constant value => rfl

theorem readOptional_blind (operand : Option IndicatorOperand) :
    CompiledStrategy.readOptional (ctx.blind missing) operand =
      if ctx.lostOptional missing operand then nan
      else CompiledStrategy.readOptional ctx operand := by
  cases operand with
  | none => rfl
  | some operand => exact readIndicator_blind ctx operand

theorem previous_blind : (ctx.blind missing).previous = ctx.previous.map (blind missing) := by
  unfold previous blind
  split_ifs <;> rfl

end EvalContext

def LeafRule.unknown (missing : Missing) (ctx : EvalContext) : LeafRule → Bool
  | threshold r => ctx.lost missing r.operand
  | indicatorVsIndicator r => ctx.lostIndicator missing r.left || ctx.lostIndicator missing r.right
  | indicatorVsPrice r => ctx.lostIndicator missing r.indicator
  | crossover r =>
    match ctx.previous with
    | none => false
    | some prev => ctx.lost missing r.fast || ctx.lost missing r.slow ||
        prev.lost missing r.fast || prev.lost missing r.slow
  | regimeGate r => ctx.lostIndicator missing r.metric
  | sessionWindow _ => false

theorem guarded_blind (f : Number → Bool) (x : Number) (lost : Bool) :
    (if (if lost then nan else x).isfinite then f (if lost then nan else x) else false) =
      ((if x.isfinite then f x else false) && !lost) := by
  cases lost with
  | true => simp [isfinite]
  | false => simp

theorem guarded_blind₂ (f : Number → Number → Bool) (x y : Number) (lost lost' : Bool) :
    (if (if lost then nan else x).isfinite && (if lost' then nan else y).isfinite then
        f (if lost then nan else x) (if lost' then nan else y) else false) =
      ((if x.isfinite && y.isfinite then f x y else false) && !(lost || lost')) := by
  cases lost <;> cases lost' <;> simp [isfinite]

section Leaf

variable {missing : Missing} {ctx : EvalContext}

theorem crossover_blind (r : CrossoverRule) : r.evaluate (ctx.blind missing) =
      (r.evaluate ctx && !(LeafRule.crossover r).unknown missing ctx) := by
  unfold CrossoverRule.evaluate LeafRule.unknown
  dsimp only
  rw [EvalContext.previous_blind]
  cases ctx.previous with
  | none => rfl
  | some prev =>
    simp only [Option.map_some, EvalContext.read_blind]
    cases ctx.lost missing r.fast <;> cases ctx.lost missing r.slow <;>
      cases prev.lost missing r.fast <;> cases prev.lost missing r.slow <;> simp [isfinite]

theorem LeafRule.evaluate_blind (l : LeafRule) :
    l.evaluate (ctx.blind missing) = (l.evaluate ctx && !l.unknown missing ctx) := by
  cases l with
  | threshold r =>
    change ThresholdRule.evaluate r _ = _
    unfold ThresholdRule.evaluate
    dsimp only
    rw [EvalContext.read_blind]
    exact guarded_blind (fun a => r.comparator.apply a r.value) _ _
  | indicatorVsIndicator r =>
    change IndicatorVsIndicatorRule.evaluate r _ = _
    unfold IndicatorVsIndicatorRule.evaluate
    dsimp only
    rw [EvalContext.readIndicator_blind, EvalContext.readIndicator_blind]
    exact guarded_blind₂ r.comparator.apply _ _ _ _
  | indicatorVsPrice r =>
    change IndicatorVsPriceRule.evaluate r _ = _
    unfold IndicatorVsPriceRule.evaluate
    dsimp only
    rw [EvalContext.readIndicator_blind, EvalContext.readPrice_blind]
    have h := guarded_blind₂ r.comparator.apply (ctx.readIndicator r.indicator)
      (ctx.readPrice r.price) (ctx.lostIndicator missing r.indicator) false
    rw [Bool.or_false] at h
    exact h
  | crossover r => exact crossover_blind r
  | regimeGate r =>
    change RegimeGateRule.evaluate r _ = _
    unfold RegimeGateRule.evaluate
    dsimp only
    rw [EvalContext.readIndicator_blind]
    exact guarded_blind (fun v => if r.invert then !r.inside v else r.inside v) _ _
  | sessionWindow r => exact (Bool.and_true _).symm

def change (missing : Missing) (ctx : EvalContext) (rule : Rule) : Formula.Change :=
  rule.change (LeafRule.evaluate ctx) (LeafRule.unknown missing ctx)

theorem evaluate_blind (rule : Rule) : evaluate (ctx.blind missing) rule = true ↔
    change missing ctx rule = .woken ∨
      evaluate ctx rule = true ∧ change missing ctx rule ≠ .silenced := by
  have hleaf : LeafRule.evaluate (ctx.blind missing) =
      Formula.without (LeafRule.evaluate ctx) (LeafRule.unknown missing ctx) :=
    funext fun l => l.evaluate_blind
  unfold evaluate
  rw [hleaf]
  exact Formula.holds_without rule

end Leaf

namespace StrategyDocument

def gateRule (doc : StrategyDocument) : Rule := .all (doc.regime ++ doc.filters)

def sideRule (doc : StrategyDocument) (side : Direction) : Rule :=
  .all (doc.setup.forDirection side ++ doc.entry.forDirection side ++
    doc.confirmation.forDirection side ++ [.not (.any (doc.invalidation.forDirection side))])

def opportunity (doc : StrategyDocument) (side : Direction) : Rule :=
  .all (doc.gateRule :: doc.sideRule side ::
    (doc.direction.sides.filter (· ≠ side)).map fun other => .not (doc.sideRule other))

end StrategyDocument

namespace CompiledStrategy

variable (strategy : CompiledStrategy)

variable (ctx : EvalContext)

theorem gatesPass_iff : strategy.gatesPass ctx = true ↔
    evaluate ctx strategy.document.gateRule = true ∧ strategy.sessionAllows ctx = true := by
  unfold gatesPass StrategyDocument.gateRule
  change (if !strategy.document.regime.all (Formula.holds (LeafRule.evaluate ctx)) then false
    else if !strategy.document.filters.all (Formula.holds (LeafRule.evaluate ctx)) then false
    else strategy.sessionAllows ctx) = true ↔ _
  unfold evaluate
  rw [Formula.holds_all, List.all_append]
  cases strategy.document.regime.all (Formula.holds (LeafRule.evaluate ctx)) <;>
    cases strategy.document.filters.all (Formula.holds (LeafRule.evaluate ctx)) <;> simp

theorem sideTriggers_eq {side : Direction} (hside : side ∈ strategy.document.direction.sides) :
    strategy.sideTriggers ctx side = evaluate ctx (strategy.document.sideRule side) := by
  have hentry : (strategy.document.entry.forDirection side).isEmpty = false := by
    have hne := (strategy.document.entry_iff side).2 hside
    cases hrules : strategy.document.entry.forDirection side with
    | nil => exact absurd hrules hne
    | cons => rfl
  unfold sideTriggers StrategyDocument.sideRule evaluate
  dsimp only
  rw [Formula.holds_all, List.all_append, List.all_append, List.all_append, hentry,
    List.all_cons, List.all_nil, Formula.holds_not, Formula.holds_any]
  cases (strategy.document.setup.forDirection side).all (Formula.holds (LeafRule.evaluate ctx)) <;>
    cases (strategy.document.entry.forDirection side).all
      (Formula.holds (LeafRule.evaluate ctx)) <;>
    cases (strategy.document.confirmation.forDirection side).all
      (Formula.holds (LeafRule.evaluate ctx)) <;> simp

theorem evaluate_opportunity (side : Direction) :
    evaluate ctx (strategy.document.opportunity side) = true ↔
      evaluate ctx strategy.document.gateRule = true ∧
      evaluate ctx (strategy.document.sideRule side) = true ∧
      ∀ other ∈ strategy.document.direction.sides, other ≠ side →
        evaluate ctx (strategy.document.sideRule other) = false := by
  unfold evaluate StrategyDocument.opportunity
  simp only [Formula.holds_all, List.all_cons, Bool.and_eq_true, List.all_map, List.all_eq_true,
    List.mem_filter, decide_eq_true_eq, Function.comp_apply, Formula.holds_not,
    Bool.not_eq_true', and_imp]

end CompiledStrategy

namespace CompiledStrategy

variable (strategy : CompiledStrategy) (instruments : Registry) (missing : Missing)
variable (ctx : EvalContext)

def distanceLost (model : StopModel) : Bool :=
  match model.kind with
  | .atrMultiple => ctx.lostOptional missing model.atr
  | .fixedPips | .percent => false
  | .swingStructure | .indicatorLevel =>
    ctx.lostOptional missing model.level ||
      (model.bufferAtr ≠ fin 0 && ctx.lostOptional missing model.atr)

def stopLeft (side : Direction) (reference : Number) (inst : Instrument) : Option Number :=
  let model := strategy.document.stop
  if distanceLost missing ctx model then none
  else
    match stopDistance model ctx side reference inst with
    | none => none
    | some distance =>
      stopAt side reference
        (if ctx.lostOptional missing model.atr then distance else floored model ctx distance)

variable (model : StopModel) (side : Direction) (reference : Number) (inst : Instrument)

theorem stopDistance_blind :
    stopDistance model (ctx.blind missing) side reference inst =
      if distanceLost missing ctx model then none
      else stopDistance model ctx side reference inst := by
  unfold stopDistance distanceLost
  rw [EvalContext.readOptional_blind, EvalContext.readOptional_blind]
  dsimp only
  cases model.kind with
  | atrMultiple => cases ctx.lostOptional missing model.atr <;> simp
  | fixedPips | percent => rfl
  | swingStructure | indicatorLevel =>
    by_cases hbuffer : model.bufferAtr = fin 0
    · cases ctx.lostOptional missing model.level <;> simp [hbuffer]
    · cases ctx.lostOptional missing model.level <;>
        cases ctx.lostOptional missing model.atr <;> simp [hbuffer]

theorem floored_blind (distance : Number) :
    floored model (ctx.blind missing) distance =
      if ctx.lostOptional missing model.atr then distance else floored model ctx distance := by
  unfold floored
  rw [EvalContext.readOptional_blind]
  cases ctx.lostOptional missing model.atr <;> simp

theorem stopPrice_blind :
    strategy.stopPrice (ctx.blind missing) side reference inst =
      strategy.stopLeft missing ctx side reference inst := by
  unfold stopPrice stopLeft
  dsimp only
  rw [stopDistance_blind]
  by_cases hlost : distanceLost missing ctx strategy.document.stop = true
  · rw [if_pos hlost, if_pos hlost]
  · rw [if_neg hlost, if_neg hlost]
    cases stopDistance strategy.document.stop ctx side reference inst with
    | none => rfl
    | some distance => exact congrArg (stopAt side reference) (floored_blind missing ctx _ _)

def Tradable : Prop := strategy.sessionAllows ctx = true ∧ Priced ctx

/-- A side of the document whose opportunity is there and which has a stop. -/
structure Trades (symbol : String) (side : Direction) : Prop where
  asked : side ∈ strategy.document.direction.sides
  tradable : strategy.Tradable ctx
  opportunity : evaluate ctx (strategy.document.opportunity side) = true
  stop : (strategy.stopPrice ctx side ctx.lastClose (instruments.get symbol)).isSome = true

theorem filter_sides_eq {sides : List Direction} (hsides : sides ≠ [] ∧ sides.Nodup)
    (triggers : Direction → Bool) (side : Direction) :
    sides.filter triggers = [side] ↔ side ∈ sides ∧ triggers side = true ∧
        ∀ other ∈ sides, other ≠ side → triggers other = false := by
  constructor
  · intro h
    have hmem : side ∈ sides.filter triggers := by simp [h]
    obtain ⟨hin, htrig⟩ := List.mem_filter.1 hmem
    refine ⟨hin, htrig, ?_⟩
    intro other hother hne
    by_contra htrue
    have hmem' : other ∈ sides.filter triggers := List.mem_filter.2 ⟨hother, by simpa using htrue⟩
    rw [h, List.mem_singleton] at hmem'
    exact hne hmem'
  · rintro ⟨hin, htrig, hothers⟩
    have hall : ∀ d ∈ sides.filter triggers, d = side := by
      intro d hd
      obtain ⟨hmem, hd'⟩ := List.mem_filter.1 hd
      by_contra hne
      rw [hothers d hmem hne] at hd'
      cases hd'
    have hnodup : (sides.filter triggers).Nodup := hsides.2.filter _
    have hmem : side ∈ sides.filter triggers := List.mem_filter.2 ⟨hin, htrig⟩
    cases hlist : sides.filter triggers with
    | nil =>
      rw [hlist] at hmem
      cases hmem
    | cons first rest =>
      rw [hlist] at hall hnodup
      have hfirst : first = side := hall first List.mem_cons_self
      cases rest with
      | nil => rw [hfirst]
      | cons second rest =>
        have hsecond : second = side := hall second (by simp)
        rw [hfirst, hsecond] at hnodup
        simp at hnodup

theorem nodup_sides (direction : TradeDirection) :
    direction.sides ≠ [] ∧ direction.sides.Nodup := by
  cases direction <;> decide

theorem filter_sides_iff :
    strategy.document.direction.sides.filter (strategy.sideTriggers ctx) = [side] ↔
      side ∈ strategy.document.direction.sides ∧
      evaluate ctx (strategy.document.sideRule side) = true ∧
      ∀ other ∈ strategy.document.direction.sides, other ≠ side →
        evaluate ctx (strategy.document.sideRule other) = false := by
  rw [filter_sides_eq (nodup_sides _)]
  apply and_congr_right
  intro hside
  rw [strategy.sideTriggers_eq ctx hside]
  apply and_congr_right
  intro _
  refine forall_congr' fun other => forall_congr' fun hother => ?_
  rw [strategy.sideTriggers_eq ctx hother]

theorem decide_isSome (symbol timeframe : String) :
    (strategy.decide instruments ctx symbol timeframe).isSome = true ↔
      ∃ side, strategy.Trades instruments ctx symbol side := by
  unfold CompiledStrategy.decide
  by_cases hgates : strategy.gatesPass ctx = true
  · rw [if_neg (by simpa using hgates)]
    have hopen := (strategy.gatesPass_iff ctx).1 hgates
    constructor
    · intro h
      split at h
      · rename_i side hside
        obtain ⟨hpriced, hstop⟩ := (strategy.signalOf_isSome ctx side _ symbol timeframe).1 h
        obtain ⟨hasked, hrule, hothers⟩ := (strategy.filter_sides_iff ctx side).1 hside
        exact ⟨side, hasked, ⟨hopen.2, hpriced⟩,
          (strategy.evaluate_opportunity ctx side).2 ⟨hopen.1, hrule, hothers⟩, hstop⟩
      · cases h
    · rintro ⟨side, htrades⟩
      obtain ⟨-, hrule, hothers⟩ := (strategy.evaluate_opportunity ctx side).1 htrades.opportunity
      rw [(strategy.filter_sides_iff ctx side).2 ⟨htrades.asked, hrule, hothers⟩]
      exact (strategy.signalOf_isSome ctx side _ symbol timeframe).2
        ⟨htrades.tradable.2, htrades.stop⟩
  · rw [if_pos (by simpa using hgates)]
    refine iff_of_false Bool.false_ne_true ?_
    rintro ⟨side, htrades⟩
    apply hgates
    exact (strategy.gatesPass_iff ctx).2
      ⟨((strategy.evaluate_opportunity ctx side).1 htrades.opportunity).1, htrades.tradable.1⟩

/-- The readings' absence opens the side's opportunity: it was not there, and what is left
gives the side a stop. -/
structure Opened (symbol : String) (side : Direction) : Prop where
  asked : side ∈ strategy.document.direction.sides
  tradable : strategy.Tradable ctx
  woken : change missing ctx (strategy.document.opportunity side) = .woken
  stop : (strategy.stopLeft missing ctx side ctx.lastClose (instruments.get symbol)).isSome = true

/-- The opportunity stays, and the absence drops the floor that alone refused the stop. -/
structure FloorDropped (symbol : String) (side : Direction) : Prop where
  asked : side ∈ strategy.document.direction.sides
  tradable : strategy.Tradable ctx
  opportunity : evaluate ctx (strategy.document.opportunity side) = true
  kept : change missing ctx (strategy.document.opportunity side) ≠ .silenced
  refused : strategy.stopPrice ctx side ctx.lastClose (instruments.get symbol) = none
  stop : (strategy.stopLeft missing ctx side ctx.lastClose (instruments.get symbol)).isSome = true

theorem opportunity_unique {side other : Direction}
    (hside : side ∈ strategy.document.direction.sides)
    (h : evaluate ctx (strategy.document.opportunity side) = true)
    (h' : evaluate ctx (strategy.document.opportunity other) = true) : side = other := by
  by_contra hne
  obtain ⟨-, hrule, -⟩ := (strategy.evaluate_opportunity ctx side).1 h
  obtain ⟨-, -, hothers⟩ := (strategy.evaluate_opportunity ctx other).1 h'
  rw [hothers side hside hne] at hrule
  cases hrule

theorem trades_blind (symbol : String) (side : Direction) :
    strategy.Trades instruments (ctx.blind missing) symbol side ↔
      side ∈ strategy.document.direction.sides ∧ strategy.Tradable ctx ∧
      (change missing ctx (strategy.document.opportunity side) = .woken ∨
        evaluate ctx (strategy.document.opportunity side) = true ∧
          change missing ctx (strategy.document.opportunity side) ≠ .silenced) ∧
      (strategy.stopLeft missing ctx side ctx.lastClose (instruments.get symbol)).isSome := by
  rw [← evaluate_blind, ← stopPrice_blind]
  exact ⟨fun h => ⟨h.asked, h.tradable, h.opportunity, h.stop⟩,
    fun ⟨h, h', h'', h3⟩ => ⟨h, h', h'', h3⟩⟩

/-- A bar without a signal has none when readings are missing exactly when their absence
neither opens an opportunity, while the other side does not trade, nor drops a floor that
refused the stop. -/
theorem missing_data_law (symbol timeframe : String) :
    (strategy.decide instruments ctx symbol timeframe = none →
      strategy.decide instruments (ctx.blind missing) symbol timeframe = none) ↔
    ∀ side, ¬ strategy.FloorDropped instruments missing ctx symbol side ∧
      (strategy.Opened instruments missing ctx symbol side →
        ∃ other, strategy.Trades instruments ctx symbol other) := by
  rw [← Option.not_isSome_iff_eq_none, ← Option.not_isSome_iff_eq_none, decide_isSome,
    decide_isSome]
  constructor
  · intro h side
    constructor
    · intro hfloor
      have hnone : ¬ ∃ other, strategy.Trades instruments ctx symbol other := by
        rintro ⟨other, htrades⟩
        have heq := strategy.opportunity_unique ctx hfloor.asked hfloor.opportunity
          htrades.opportunity
        have hstop := htrades.stop
        rw [← heq, hfloor.refused] at hstop
        cases hstop
      apply h hnone
      exact ⟨side, (strategy.trades_blind instruments missing ctx symbol side).2
        ⟨hfloor.asked, hfloor.tradable, .inr ⟨hfloor.opportunity, hfloor.kept⟩, hfloor.stop⟩⟩
    · intro hopened
      by_contra hnone
      apply h hnone
      exact ⟨side, (strategy.trades_blind instruments missing ctx symbol side).2
        ⟨hopened.asked, hopened.tradable, .inl hopened.woken, hopened.stop⟩⟩
  · rintro h hnone ⟨side, htrades⟩
    obtain ⟨hasked, htradable, hopp, hstop⟩ :=
      (strategy.trades_blind instruments missing ctx symbol side).1 htrades
    rcases hopp with hwoken | ⟨hopen, hkept⟩
    · exact hnone ((h side).2 ⟨hasked, htradable, hwoken, hstop⟩)
    · apply (h side).1
      refine ⟨hasked, htradable, hopen, hkept, ?_, hstop⟩
      by_contra hne
      exact hnone ⟨side, hasked, htradable, hopen, Option.ne_none_iff_isSome.1 hne⟩

def eurusd : Instrument where
  symbol := "EURUSD"
  assetClass := .fxMajor
  quote := "USD"
  pipSize := 1 / 10000
  contractSize := 100000
  minSize := 1 / 100
  sizeStep := 1 / 100
  typicalSpreadPips := 1
  typicalSpreadBps := none
  retailLeverage := 30
  tradingHours := "24x5"
  shortable := true

/-- Long unless `rsi < 30`, with a stop 20 pips away. -/
def unlessOversold : CompiledStrategy where
  document := {
    strategyId := "unless_oversold"
    direction := .long
    regime := []
    setup := ⟨[], []⟩
    entry := ⟨[.not (.atom (.threshold ⟨.indicator ⟨"rsi_14", 0⟩, .lt, fin 30⟩))], []⟩
    confirmation := ⟨[], []⟩
    filters := []
    invalidation := ⟨[], []⟩
    stop := {
      kind := .fixedPips
      value := fin 20
      atr := none
      level := none
      bufferAtr := fin 0
      minDistanceAtr := fin 0
      value_pos := rfl
      buffer_nonneg := rfl
      minDistance_nonneg := rfl
      atr_source := fun h => nomatch h
      level_source := fun h => by rcases h with h | h <;> cases h
      buffer_source := fun h => nomatch h
      floor_source := fun h => nomatch h }
    takeProfits := []
    sessions := none
    locksDeclared := false
    entry_iff := fun side => by cases side <;> simp [RuleSet.forDirection, TradeDirection.sides]
    allocations_ok := by norm_num
    rules_ok := rfl }
  firstOutputs := ["rsi_14"]

def oversoldBar : EvalContext where
  price _ _ := fin (11 / 10)
  indicator _ _ := fin 20
  pos := 100
  barTime := 0

/-- The oversold bar has no signal, and the same bar without its RSI has one. -/
theorem unknown_rsi_makes_a_trade :
    unlessOversold.decide ⟨fun _ => eurusd, fun _ => rfl⟩ oversoldBar "EURUSD" "H1" = none ∧
      (unlessOversold.decide ⟨fun _ => eurusd, fun _ => rfl⟩
        (oversoldBar.blind fun _ _ => true) "EURUSD" "H1").isSome = true := by
  constructor
  · rfl
  · decide +kernel

end CompiledStrategy

end Fiboki.Strategy
