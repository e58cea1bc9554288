import Fiboki.Strategy.MissingData

/-!
The warmup of a compiled strategy, and the rows that its decision reads.

The warmup covers every read of a rule; it counts no offset of an exit.
-/

namespace Fiboki.Strategy

open Floating Number

def Operand.offset : Operand → ℕ
  | .indicator operand => operand.offset
  | .price operand => operand.offset
  | .constant _ => 0

def LeafRule.maxLookback : LeafRule → ℕ
  | threshold r => r.operand.offset
  | indicatorVsIndicator r => max r.left.offset r.right.offset
  | indicatorVsPrice r => max r.indicator.offset r.price.offset
  | crossover r => max r.fast.offset r.slow.offset + 1
  | regimeGate r => r.metric.offset
  | sessionWindow _ => 0

mutual

def maxLookback : Rule → ℕ
  | .atom l => l.maxLookback
  | .all rules => maxLookbackOf rules
  | .any rules => maxLookbackOf rules
  | .not rule => maxLookback rule

def maxLookbackOf : List Rule → ℕ
  | [] => 0
  | rule :: rules => max (maxLookback rule) (maxLookbackOf rules)

end

variable {rules : List Rule} {rule : Rule}

theorem le_maxLookbackOf (h : rule ∈ rules) : maxLookback rule ≤ maxLookbackOf rules := by
  induction rules with
  | nil => cases h
  | cons r rules ih =>
    rw [maxLookbackOf]
    rcases List.mem_cons.1 h with rfl | h
    · exact le_max_left _ _
    · exact (ih h).trans (le_max_right _ _)

theorem maxLookbackOf_le {n : ℕ} (h : ∀ rule ∈ rules, maxLookback rule ≤ n) :
    maxLookbackOf rules ≤ n := by
  induction rules with
  | nil => exact Nat.zero_le n
  | cons r rules ih =>
    rw [maxLookbackOf]
    exact max_le (h r List.mem_cons_self) (ih fun rule hr => h rule (List.mem_cons_of_mem _ hr))

theorem maxLookbackOf_mono {rules others : List Rule} (h : rules ⊆ others) :
    maxLookbackOf rules ≤ maxLookbackOf others :=
  maxLookbackOf_le fun _ hr => le_maxLookbackOf (h hr)

variable {l : LeafRule}

theorem le_maxLookback (h : l ∈ rule.atoms) : l.maxLookback ≤ maxLookback rule := by
  induction rule using Formula.induct with
  | atom a =>
    rw [Formula.atoms, List.mem_singleton] at h
    rw [h, maxLookback]
  | all rules ih | any rules ih =>
    rw [Formula.atoms] at h
    obtain ⟨r, hr, hl⟩ := Formula.mem_atomsOf.1 h
    rw [maxLookback]
    exact (ih r hr hl).trans (le_maxLookbackOf hr)
  | not rule ih =>
    rw [Formula.atoms] at h
    rw [maxLookback]
    exact ih h

def IndicatorOperand.previous (operand : IndicatorOperand) : IndicatorOperand :=
  { operand with offset := operand.offset + 1 }

def Operand.reads : Operand → List IndicatorOperand
  | .indicator operand => [operand]
  | .price _ | .constant _ => []

def LeafRule.reads : LeafRule → List IndicatorOperand
  | threshold r => r.operand.reads
  | indicatorVsIndicator r => [r.left, r.right]
  | indicatorVsPrice r => [r.indicator]
  | crossover r =>
    let now := r.fast.reads ++ r.slow.reads
    now ++ now.map IndicatorOperand.previous
  | regimeGate r => [r.metric]
  | sessionWindow _ => []

variable {operand : IndicatorOperand} {source : Operand}

theorem Operand.offset_of_reads (h : operand ∈ source.reads) : operand.offset = source.offset := by
  cases source with
  | indicator i =>
    rw [List.mem_singleton.1 h]
    rfl
  | price _ | constant _ => cases h

theorem offset_le_of_reads (h : operand ∈ l.reads) : operand.offset ≤ l.maxLookback := by
  cases l with
  | threshold r => exact (Operand.offset_of_reads h).le
  | indicatorVsIndicator r =>
    rw [LeafRule.reads, List.mem_pair] at h
    rcases h with rfl | rfl
    · exact le_max_left _ _
    · exact le_max_right _ _
  | indicatorVsPrice r =>
    rw [List.mem_singleton.1 h]
    exact le_max_left _ _
  | crossover r =>
    have hnow : ∀ o ∈ r.fast.reads ++ r.slow.reads, o.offset ≤ max r.fast.offset r.slow.offset := by
      intro o ho
      rcases List.mem_append.1 ho with hfast | hslow
      · exact (Operand.offset_of_reads hfast).le.trans (le_max_left _ _)
      · exact (Operand.offset_of_reads hslow).le.trans (le_max_right _ _)
    rcases List.mem_append.1 h with hin | hprevious
    · exact (hnow operand hin).trans (Nat.le_succ _)
    · obtain ⟨o, ho, rfl⟩ := List.mem_map.1 hprevious
      exact Nat.succ_le_succ (hnow o ho)
  | regimeGate r =>
    rw [List.mem_singleton.1 h]
    exact le_refl _
  | sessionWindow _ => cases h

namespace CompiledStrategy

variable (strategy : CompiledStrategy) (ctx : EvalContext)

/-- What `all` over the rules reads, up to the first that is false. -/
def allReads (rules : List Rule) : List IndicatorOperand :=
  (Formula.visitedAll (LeafRule.evaluate ctx) rules).flatMap LeafRule.reads

/-- What `any` over the rules reads, up to the first that is true. -/
def anyReads (rules : List Rule) : List IndicatorOperand :=
  (Formula.visitedAny (LeafRule.evaluate ctx) rules).flatMap LeafRule.reads

def gateReads : List IndicatorOperand :=
  allReads ctx strategy.document.regime ++
    if !strategy.document.regime.all (evaluate ctx) then []
    else allReads ctx strategy.document.filters

def sideReads (side : Direction) : List IndicatorOperand :=
  let doc := strategy.document
  let setup := doc.setup.forDirection side
  let entry := doc.entry.forDirection side
  let confirmation := doc.confirmation.forDirection side
  allReads ctx setup ++
    if !setup.all (evaluate ctx) then []
    else allReads ctx entry ++
      if entry.isEmpty || !entry.all (evaluate ctx) then []
      else allReads ctx confirmation ++
        if !confirmation.all (evaluate ctx) then []
        else anyReads ctx (doc.invalidation.forDirection side)

def stopReads (model : StopModel) : List IndicatorOperand :=
  model.atr.toList ++
    match model.kind with
    | .swingStructure | .indicatorLevel => model.level.toList
    | .atrMultiple | .fixedPips | .percent => []

def legReads (leg : TakeProfitLeg) : List IndicatorOperand :=
  match leg.kind with
  | .atrMultiple => leg.atr.toList
  | .indicatorLevel => leg.level.toList
  | .rMultiple | .fixedPips | .percent => []

def sideExitReads (side : Direction) (inst : Instrument) : List IndicatorOperand :=
  let reference := ctx.lastClose
  if !reference.isfinite || Number.le reference (fin 0) then []
  else stopReads strategy.document.stop ++
    match strategy.stopPrice ctx side reference inst with
    | none => []
    | some _ => strategy.document.takeProfits.flatMap legReads

def ruleReads : List IndicatorOperand :=
  strategy.gateReads ctx ++
    if !strategy.gatesPass ctx then []
    else strategy.document.direction.sides.flatMap (strategy.sideReads ctx)

def exitReads (inst : Instrument) : List IndicatorOperand :=
  if !strategy.gatesPass ctx then []
  else
    match strategy.document.direction.sides.filter (strategy.sideTriggers ctx) with
    | [side] => strategy.sideExitReads ctx side inst
    | _ => []

def reads (inst : Instrument) : List IndicatorOperand :=
  strategy.ruleReads ctx ++ strategy.exitReads ctx inst

end CompiledStrategy

/-- Contexts with the same prices as far back as the rules look, at the same time. -/
structure Alike (depth : ℕ) (ctx ctx' : EvalContext) : Prop where
  barTime : ctx.barTime = ctx'.barTime
  price : ∀ field offset, offset ≤ depth →
    ctx.at_ (ctx.price field) offset = ctx'.at_ (ctx'.price field) offset
  started : 0 < ctx.pos
  started' : 0 < ctx'.pos

def Agree (ctx ctx' : EvalContext) (reads : List IndicatorOperand) : Prop :=
  ∀ operand ∈ reads, ctx.readIndicator operand = ctx'.readIndicator operand

variable {ctx ctx' : EvalContext} {depth : ℕ}

variable {reads rest : List IndicatorOperand}

theorem Agree.left (h : Agree ctx ctx' (reads ++ rest)) :
    Agree ctx ctx' reads := fun o ho => h o (List.mem_append_left _ ho)

theorem Agree.right (h : Agree ctx ctx' (reads ++ rest)) :
    Agree ctx ctx' rest := fun o ho => h o (List.mem_append_right _ ho)

theorem Alike.lastClose (h : Alike depth ctx ctx') : ctx.lastClose = ctx'.lastClose :=
  h.price .close 0 (Nat.zero_le _)

theorem at_previous (column : ℕ → Number) (offset : ℕ) (h : 0 < ctx.pos) :
    EvalContext.at_ { ctx with pos := ctx.pos - 1 } column offset =
      ctx.at_ column (offset + 1) := by
  unfold EvalContext.at_
  by_cases hfirst : ctx.pos < offset + 1
  · rw [if_pos hfirst, if_pos (show ctx.pos - 1 < offset by omega)]
  · rw [if_neg hfirst, if_neg (show ¬ ctx.pos - 1 < offset by omega), Nat.sub_sub, add_comm 1]

theorem Operand.read_congr (halike : Alike depth ctx ctx') (hdepth : source.offset ≤ depth)
    (h : Agree ctx ctx' source.reads) : ctx.read source = ctx'.read source := by
  cases source with
  | indicator operand => exact h operand List.mem_cons_self
  | price operand => exact halike.price operand.field operand.offset hdepth
  | constant value => rfl

theorem Operand.read_previous_congr (halike : Alike depth ctx ctx')
    (hdepth : source.offset + 1 ≤ depth)
    (h : Agree ctx ctx' (source.reads.map IndicatorOperand.previous)) :
    EvalContext.read { ctx with pos := ctx.pos - 1 } source =
      EvalContext.read { ctx' with pos := ctx'.pos - 1 } source := by
  cases source with
  | indicator operand =>
    have hcell := h operand.previous List.mem_cons_self
    unfold EvalContext.readIndicator IndicatorOperand.previous at hcell
    change EvalContext.at_ { ctx with pos := ctx.pos - 1 } (ctx.indicator operand.column) _ =
      EvalContext.at_ { ctx' with pos := ctx'.pos - 1 } (ctx'.indicator operand.column) _
    rw [at_previous _ _ halike.started, at_previous _ _ halike.started']
    exact hcell
  | price operand =>
    change EvalContext.at_ { ctx with pos := ctx.pos - 1 } (ctx.price operand.field) _ =
      EvalContext.at_ { ctx' with pos := ctx'.pos - 1 } (ctx'.price operand.field) _
    rw [at_previous _ _ halike.started, at_previous _ _ halike.started']
    exact halike.price operand.field (operand.offset + 1) hdepth
  | constant value => rfl

theorem LeafRule.evaluate_congr (halike : Alike depth ctx ctx') (hdepth : l.maxLookback ≤ depth)
    (h : Agree ctx ctx' l.reads) : l.evaluate ctx = l.evaluate ctx' := by
  cases l with
  | threshold r =>
    have hread := Operand.read_congr halike hdepth h
    simp only [LeafRule.evaluate, ThresholdRule.evaluate, hread]
  | indicatorVsIndicator r =>
    have hleft := h r.left List.mem_cons_self
    have hright := h r.right (List.mem_cons_of_mem _ List.mem_cons_self)
    simp only [LeafRule.evaluate, IndicatorVsIndicatorRule.evaluate, hleft, hright]
  | indicatorVsPrice r =>
    have hindicator := h r.indicator List.mem_cons_self
    have hprice : ctx.readPrice r.price = ctx'.readPrice r.price :=
      halike.price r.price.field r.price.offset ((le_max_right _ _).trans hdepth)
    simp only [LeafRule.evaluate, IndicatorVsPriceRule.evaluate, hindicator, hprice]
  | crossover r =>
    have hfast : r.fast.offset + 1 ≤ depth := (Nat.succ_le_succ (le_max_left _ _)).trans hdepth
    have hslow : r.slow.offset + 1 ≤ depth := (Nat.succ_le_succ (le_max_right _ _)).trans hdepth
    have hprevious := h.right
    rw [List.map_append] at hprevious
    have hnowF := Operand.read_congr halike (by omega) h.left.left
    have hnowS := Operand.read_congr halike (by omega) h.left.right
    have hprevF := Operand.read_previous_congr halike hfast hprevious.left
    have hprevS := Operand.read_previous_congr halike hslow hprevious.right
    have hstart := halike.started
    have hstart' := halike.started'
    simp only [LeafRule.evaluate, CrossoverRule.evaluate, EvalContext.previous,
      if_neg hstart.ne', if_neg hstart'.ne', hnowF, hnowS, hprevF, hprevS]
  | regimeGate r =>
    have hmetric := h r.metric List.mem_cons_self
    simp only [LeafRule.evaluate, RegimeGateRule.evaluate, hmetric]
  | sessionWindow r =>
    simp only [LeafRule.evaluate, SessionWindowRule.evaluate, halike.barTime]

namespace CompiledStrategy

variable {rules : List Rule}

theorem exists_of_allReads {operand : IndicatorOperand} (h : operand ∈ allReads ctx rules) :
    ∃ rule ∈ rules, ∃ l ∈ rule.atoms, operand ∈ l.reads := by
  obtain ⟨l, hl, hin⟩ := List.mem_flatMap.1 h
  obtain ⟨rule, hrule, hvisited⟩ := Formula.exists_of_visitedAll hl
  exact ⟨rule, hrule, l, Formula.visited_subset rule hvisited, hin⟩

theorem exists_of_anyReads {operand : IndicatorOperand} (h : operand ∈ anyReads ctx rules) :
    ∃ rule ∈ rules, ∃ l ∈ rule.atoms, operand ∈ l.reads := by
  obtain ⟨l, hl, hin⟩ := List.mem_flatMap.1 h
  obtain ⟨rule, hrule, hvisited⟩ := Formula.exists_of_visitedAny hl
  exact ⟨rule, hrule, l, Formula.visited_subset rule hvisited, hin⟩

theorem all_congr (halike : Alike depth ctx ctx') (hdepth : maxLookbackOf rules ≤ depth)
    (h : Agree ctx ctx' (allReads ctx rules)) :
    rules.all (evaluate ctx') = rules.all (evaluate ctx) ∧
      allReads ctx' rules = allReads ctx rules := by
  obtain ⟨hholds, hvisited⟩ :=
    Formula.visitedAll_congr (fun rule _ => Formula.settled _ _ rule) fun l hl => by
      obtain ⟨rule, hrule, hin⟩ := Formula.exists_of_visitedAll hl
      apply LeafRule.evaluate_congr halike
      · exact (le_maxLookback (Formula.visited_subset rule hin)).trans
          ((le_maxLookbackOf hrule).trans hdepth)
      · exact fun o ho => h o (List.mem_flatMap.2 ⟨l, hl, ho⟩)
  rw [Formula.holdsAll_eq, Formula.holdsAll_eq] at hholds
  unfold allReads
  rw [hvisited]
  exact ⟨hholds, rfl⟩

theorem any_congr (halike : Alike depth ctx ctx') (hdepth : maxLookbackOf rules ≤ depth)
    (h : Agree ctx ctx' (anyReads ctx rules)) :
    rules.any (evaluate ctx') = rules.any (evaluate ctx) ∧
      anyReads ctx' rules = anyReads ctx rules := by
  obtain ⟨hholds, hvisited⟩ :=
    Formula.visitedAny_congr (fun rule _ => Formula.settled _ _ rule) fun l hl => by
      obtain ⟨rule, hrule, hin⟩ := Formula.exists_of_visitedAny hl
      apply LeafRule.evaluate_congr halike
      · exact (le_maxLookback (Formula.visited_subset rule hin)).trans
          ((le_maxLookbackOf hrule).trans hdepth)
      · exact fun o ho => h o (List.mem_flatMap.2 ⟨l, hl, ho⟩)
  rw [Formula.holdsAny_eq, Formula.holdsAny_eq] at hholds
  unfold anyReads
  rw [hvisited]
  exact ⟨hholds, rfl⟩

end CompiledStrategy

def StrategyDocument.allRules (doc : StrategyDocument) : List Rule :=
  doc.regime ++ doc.setup.allRules ++ doc.entry.allRules ++ doc.confirmation.allRules ++
    doc.filters ++ doc.invalidation.allRules

theorem RuleSet.forDirection_subset (rules : RuleSet) (side : Direction) :
    rules.forDirection side ⊆ rules.allRules := by
  cases side with
  | long => exact List.subset_append_left _ _
  | short => exact List.subset_append_right _ _

structure StrategyDocument.Parts (doc : StrategyDocument) (side : Direction) : Prop where
  regime : doc.regime ⊆ doc.allRules
  setup : doc.setup.forDirection side ⊆ doc.allRules
  entry : doc.entry.forDirection side ⊆ doc.allRules
  confirmation : doc.confirmation.forDirection side ⊆ doc.allRules
  filters : doc.filters ⊆ doc.allRules
  invalidation : doc.invalidation.forDirection side ⊆ doc.allRules

theorem StrategyDocument.parts (doc : StrategyDocument) (side : Direction) : doc.Parts side := by
  have hsetup := doc.setup.forDirection_subset side
  have hentry := doc.entry.forDirection_subset side
  have hconfirmation := doc.confirmation.forDirection_subset side
  have hinvalidation := doc.invalidation.forDirection_subset side
  constructor
  all_goals
    intro rule hrule
    simp only [StrategyDocument.allRules, List.mem_append]
  · exact Or.inl (Or.inl (Or.inl (Or.inl (Or.inl hrule))))
  · exact Or.inl (Or.inl (Or.inl (Or.inl (Or.inr (hsetup hrule)))))
  · exact Or.inl (Or.inl (Or.inl (Or.inr (hentry hrule))))
  · exact Or.inl (Or.inl (Or.inr (hconfirmation hrule)))
  · exact Or.inl (Or.inr hrule)
  · exact Or.inr (hinvalidation hrule)

namespace CompiledStrategy

variable (strategy : CompiledStrategy)

theorem gates_congr (halike : Alike depth ctx ctx')
    (hdepth : maxLookbackOf strategy.document.allRules ≤ depth)
    (h : Agree ctx ctx' (strategy.gateReads ctx)) :
    strategy.gatesPass ctx' = strategy.gatesPass ctx ∧
      strategy.gateReads ctx' = strategy.gateReads ctx := by
  have hparts := strategy.document.parts .long
  obtain ⟨hregime, hregimeReads⟩ := all_congr halike
    ((maxLookbackOf_mono hparts.regime).trans hdepth) h.left
  have hsession : strategy.sessionAllows ctx' = strategy.sessionAllows ctx := by
    unfold sessionAllows
    rw [halike.barTime]
  have hrest := h.right
  unfold gatesPass gateReads
  rw [hregime, hregimeReads, hsession]
  split_ifs at hrest with hpass
  · exact ⟨by rw [if_pos hpass, if_pos hpass], by rw [if_pos hpass, if_pos hpass]⟩
  · obtain ⟨hfilters, hfilterReads⟩ := all_congr halike
      ((maxLookbackOf_mono hparts.filters).trans hdepth) hrest
    rw [hfilters, hfilterReads]
    exact ⟨rfl, rfl⟩

theorem side_congr (halike : Alike depth ctx ctx') (side : Direction)
    (hdepth : maxLookbackOf strategy.document.allRules ≤ depth)
    (h : Agree ctx ctx' (strategy.sideReads ctx side)) :
    strategy.sideTriggers ctx' side = strategy.sideTriggers ctx side ∧
      strategy.sideReads ctx' side = strategy.sideReads ctx side := by
  have hparts := strategy.document.parts side
  unfold sideReads at h
  dsimp only at h
  obtain ⟨hsetup, hsetupReads⟩ := all_congr halike
    ((maxLookbackOf_mono hparts.setup).trans hdepth) h.left
  have hrest := h.right
  unfold sideTriggers sideReads
  dsimp only
  rw [hsetup, hsetupReads]
  by_cases hset : (!(strategy.document.setup.forDirection side).all (evaluate ctx)) = true
  · simp only [if_pos hset, and_self]
  rw [if_neg hset] at hrest
  simp only [if_neg hset]
  obtain ⟨hentry, hentryReads⟩ := all_congr halike
    ((maxLookbackOf_mono hparts.entry).trans hdepth) hrest.left
  have hrest' := hrest.right
  rw [hentry, hentryReads]
  by_cases hent : ((strategy.document.entry.forDirection side).isEmpty ||
      !(strategy.document.entry.forDirection side).all (evaluate ctx)) = true
  · simp only [if_pos hent, and_self]
  rw [if_neg hent] at hrest'
  simp only [if_neg hent]
  obtain ⟨hconfirm, hconfirmReads⟩ := all_congr halike
    ((maxLookbackOf_mono hparts.confirmation).trans hdepth) hrest'.left
  have hlast := hrest'.right
  rw [hconfirm, hconfirmReads]
  by_cases hcon : (!(strategy.document.confirmation.forDirection side).all (evaluate ctx)) = true
  · simp only [if_pos hcon, and_self]
  rw [if_neg hcon] at hlast
  simp only [if_neg hcon]
  obtain ⟨hinvalid, hinvalidReads⟩ := any_congr halike
    ((maxLookbackOf_mono hparts.invalidation).trans hdepth) hlast
  rw [hinvalid, hinvalidReads]
  exact ⟨rfl, rfl⟩

theorem rules_congr (halike : Alike depth ctx ctx')
    (hdepth : maxLookbackOf strategy.document.allRules ≤ depth)
    (h : Agree ctx ctx' (strategy.ruleReads ctx)) :
    strategy.gatesPass ctx' = strategy.gatesPass ctx ∧ (strategy.gatesPass ctx = true →
        strategy.document.direction.sides.filter (strategy.sideTriggers ctx') =
          strategy.document.direction.sides.filter (strategy.sideTriggers ctx)) ∧
      strategy.ruleReads ctx' = strategy.ruleReads ctx := by
  obtain ⟨hgates, hgateReads⟩ := strategy.gates_congr halike hdepth h.left
  have hrest := h.right
  unfold ruleReads
  rw [hgates, hgateReads]
  split_ifs at hrest with hpass
  · refine ⟨rfl, fun htrue => ?_, by rw [if_pos hpass, if_pos hpass]⟩
    rw [htrue] at hpass
    cases hpass
  · have hsides : ∀ side ∈ strategy.document.direction.sides,
        strategy.sideTriggers ctx' side = strategy.sideTriggers ctx side ∧
          strategy.sideReads ctx' side = strategy.sideReads ctx side := fun side hside =>
      strategy.side_congr halike side hdepth fun o ho =>
        hrest o (List.mem_flatMap.2 ⟨side, hside, ho⟩)
    refine ⟨rfl, fun _ => List.filter_congr fun side hside => (hsides side hside).1, ?_⟩
    rw [if_neg hpass, if_neg hpass]
    congr 1
    exact List.flatMap_congr fun side hside => (hsides side hside).2

theorem readOptional_congr {operand : Option IndicatorOperand} (h : Agree ctx ctx' operand.toList) :
    readOptional ctx' operand = readOptional ctx operand := by
  cases operand with
  | none => rfl
  | some o => exact (h o (List.mem_singleton.2 rfl)).symm

variable (side : Direction)

theorem stopPrice_congr (reference : Number) (inst : Instrument)
    (h : Agree ctx ctx' (stopReads strategy.document.stop)) :
    strategy.stopPrice ctx' side reference inst = strategy.stopPrice ctx side reference inst := by
  have hatr := readOptional_congr h.left
  have hlevel := h.right
  unfold stopPrice stopDistance floored
  dsimp only
  rw [hatr]
  cases hkind : strategy.document.stop.kind with
  | atrMultiple | fixedPips | percent => rfl
  | swingStructure | indicatorLevel =>
    rw [hkind] at hlevel
    rw [readOptional_congr hlevel]

theorem legPrice_congr (leg : TakeProfitLeg) (sign reference risk : Number) (inst : Instrument)
    (h : Agree ctx ctx' (legReads leg)) :
    legPrice ctx' leg sign reference risk inst = legPrice ctx leg sign reference risk inst := by
  unfold legReads at h
  unfold legPrice
  cases hkind : leg.kind with
  | rMultiple => rfl
  | atrMultiple | indicatorLevel =>
    rw [hkind] at h
    simp only [readOptional_congr h]
  | fixedPips | percent => rfl

theorem takeProfits_congr (reference stop : Number) (inst : Instrument)
    (h : Agree ctx ctx' (strategy.document.takeProfits.flatMap legReads)) :
    strategy.takeProfits ctx' side reference stop inst =
      strategy.takeProfits ctx side reference stop inst := by
  have hlegs : ∀ sign risk, strategy.targetLegs ctx' sign reference risk inst =
      strategy.targetLegs ctx sign reference risk inst := by
    intro sign risk
    unfold targetLegs
    apply List.filterMap_congr
    intro leg hleg
    rw [legPrice_congr leg sign reference risk inst fun o ho =>
      h o (List.mem_flatMap.2 ⟨leg, hleg, ho⟩)]
  unfold takeProfits
  dsimp only
  rw [hlegs]

theorem sideExit_congr (halike : Alike depth ctx ctx') (side : Direction) (inst : Instrument)
    (h : Agree ctx ctx' (strategy.sideExitReads ctx side inst)) :
    strategy.sideExitReads ctx' side inst = strategy.sideExitReads ctx side inst := by
  unfold sideExitReads at h ⊢
  dsimp only at h ⊢
  rw [← halike.lastClose]
  split_ifs at h with hpriced
  · rw [if_pos hpriced, if_pos hpriced]
  · rw [if_neg hpriced, if_neg hpriced, strategy.stopPrice_congr side ctx.lastClose inst h.left]

theorem reads_congr (halike : Alike depth ctx ctx')
    (hdepth : maxLookbackOf strategy.document.allRules ≤ depth) (inst : Instrument)
    (h : Agree ctx ctx' (strategy.reads ctx inst)) :
    strategy.ruleReads ctx' = strategy.ruleReads ctx ∧
      strategy.exitReads ctx' inst = strategy.exitReads ctx inst := by
  obtain ⟨hgates, hsides, hrules⟩ := strategy.rules_congr halike hdepth h.left
  refine ⟨hrules, ?_⟩
  have hexits := h.right
  unfold exitReads at hexits ⊢
  rw [hgates]
  split_ifs at hexits with hpass
  · rw [if_pos hpass, if_pos hpass]
  · rw [if_neg hpass, if_neg hpass, hsides (by simpa using hpass)]
    split at hexits
    · rename_i side hside
      exact strategy.sideExit_congr halike side inst hexits
    · rfl

/-- A decision depends on no other indicator cell than those it reads, and those of the
features, which are the bar's own. -/
theorem decide_congr (halike : Alike depth ctx ctx')
    (hdepth : maxLookbackOf strategy.document.allRules ≤ depth) (instruments : Registry)
    (symbol timeframe : String)
    (h : Agree ctx ctx' (strategy.reads ctx (instruments.get symbol)))
    (hfeatures : strategy.features ctx' = strategy.features ctx) :
    strategy.decide instruments ctx' symbol timeframe =
      strategy.decide instruments ctx symbol timeframe := by
  obtain ⟨hgates, hsides, -⟩ := strategy.rules_congr halike hdepth h.left
  have hexits := h.right
  unfold exitReads at hexits
  unfold CompiledStrategy.decide
  rw [hgates]
  split_ifs at hexits with hpass
  · rw [if_pos hpass, if_pos hpass]
  · rw [if_neg hpass, if_neg hpass, hsides (by simpa using hpass)]
    cases htriggered : strategy.document.direction.sides.filter (strategy.sideTriggers ctx) with
    | nil => rfl
    | cons side others =>
      cases others with
      | cons other others => rfl
      | nil =>
        rw [htriggered] at hexits
        dsimp only at hexits ⊢
        unfold sideExitReads at hexits
        dsimp only at hexits
        unfold signalOf
        dsimp only
        rw [← halike.lastClose]
        split_ifs at hexits with hpriced
        · rw [if_pos hpriced, if_pos hpriced]
        · rw [if_neg hpriced, if_neg hpriced,
            strategy.stopPrice_congr side ctx.lastClose _ hexits.left]
          cases hstop : strategy.stopPrice ctx side ctx.lastClose (instruments.get symbol) with
          | none => rfl
          | some stop =>
            have htargets := hexits.right
            rw [hstop] at htargets
            have hlegs := strategy.takeProfits_congr side ctx.lastClose stop
              (instruments.get symbol) htargets
            simp only [hlegs, hfeatures, halike.barTime]

end CompiledStrategy

structure Indicator where
  key : String
  warmupPeriod : ℕ
  outputColumns : List String
  warm : 0 < warmupPeriod

def LeafRule.operands : LeafRule → List IndicatorOperand
  | threshold r => r.operand.reads
  | indicatorVsIndicator r => [r.left, r.right]
  | indicatorVsPrice r => [r.indicator]
  | crossover r => r.fast.reads ++ r.slow.reads
  | regimeGate r => [r.metric]
  | sessionWindow _ => []

theorem LeafRule.column_of_reads
    (h : operand ∈ l.reads) : ∃ declared ∈ l.operands, declared.column = operand.column := by
  cases l with
  | crossover r =>
    rcases List.mem_append.1 h with hnow | hprevious
    · exact ⟨operand, hnow, rfl⟩
    · obtain ⟨declared, hdeclared, rfl⟩ := List.mem_map.1 hprevious
      exact ⟨declared, hdeclared, rfl⟩
  | threshold r | indicatorVsIndicator r | indicatorVsPrice r | regimeGate r =>
    exact ⟨operand, h, rfl⟩
  | sessionWindow r => exact ⟨operand, h, rfl⟩

/-- `max(xs, default=d)`. -/
def maxOr (d : ℕ) : List ℕ → ℕ
  | [] => d
  | x :: xs => xs.foldr max x

theorem le_maxOr {d x : ℕ} {xs : List ℕ} (h : x ∈ xs) : x ≤ maxOr d xs := by
  cases xs with
  | nil => cases h
  | cons y ys =>
    rw [maxOr]
    have hfold : ∀ zs : List ℕ, y ≤ zs.foldr max y ∧ ∀ z ∈ zs, z ≤ zs.foldr max y := by
      intro zs
      induction zs with
      | nil => exact ⟨le_refl y, fun z hz => by cases hz⟩
      | cons z zs ih =>
        refine ⟨ih.1.trans (le_max_right _ _), fun w hw => ?_⟩
        rcases List.mem_cons.1 hw with rfl | hw
        · exact le_max_left _ _
        · exact (ih.2 w hw).trans (le_max_right _ _)
    rcases List.mem_cons.1 h with rfl | h
    · exact (hfold ys).1
    · exact (hfold ys).2 x h

/-- A compiled document, with the operands of its trailing model and, for each column, the one
indicator that writes it. -/
structure Compilation extends CompiledStrategy where
  trailing : List IndicatorOperand
  indicatorOf : String → Indicator
  written : ∀ column, column ∈ (indicatorOf column).outputColumns
  owner : ∀ column, ∀ other ∈ (indicatorOf column).outputColumns,
    indicatorOf other = indicatorOf column

namespace Compilation

variable (c : Compilation)

def ruleOperands : List IndicatorOperand :=
  c.document.allRules.flatMap fun rule => rule.atoms.flatMap LeafRule.operands

def exitOperands : List IndicatorOperand :=
  c.document.stop.atr.toList ++ c.document.stop.level.toList ++ c.trailing ++
    c.document.takeProfits.flatMap fun leg => leg.atr.toList ++ leg.level.toList

def indicators : List Indicator :=
  (c.ruleOperands ++ c.exitOperands).map fun operand => c.indicatorOf operand.column

def indicatorWarmup : ℕ := maxOr 1 (c.indicators.map Indicator.warmupPeriod)

def ruleLookback : ℕ := maxLookbackOf c.document.allRules

def warmupPeriod : ℕ := c.indicatorWarmup + c.ruleLookback + 1

def warmupOf (operand : IndicatorOperand) : ℕ := (c.indicatorOf operand.column).warmupPeriod

variable {c} {inst : Instrument}

theorem warmupOf_le {operand : IndicatorOperand} (h : operand ∈ c.ruleOperands ++ c.exitOperands) :
    c.warmupOf operand ≤ c.indicatorWarmup := by
  apply le_maxOr
  unfold indicators
  rw [List.map_map]
  exact List.mem_map.2 ⟨operand, h, rfl⟩

theorem ruleReads_spec {operand : IndicatorOperand} (h : operand ∈ c.ruleReads ctx) :
    (∃ declared ∈ c.ruleOperands, declared.column = operand.column) ∧
      operand.offset ≤ c.ruleLookback := by
  have hrule : ∃ rule ∈ c.document.allRules, ∃ l ∈ rule.atoms, operand ∈ l.reads := by
    have hsub : ∀ {rules : List Rule}, rules ⊆ c.document.allRules →
        (∃ rule ∈ rules, ∃ l ∈ rule.atoms, operand ∈ l.reads) →
        ∃ rule ∈ c.document.allRules, ∃ l ∈ rule.atoms, operand ∈ l.reads :=
      fun hrules ⟨rule, hrule, hrest⟩ => ⟨rule, hrules hrule, hrest⟩
    have hparts := c.document.parts
    rcases List.mem_append.1 h with hgate | hside
    · rcases List.mem_append.1 hgate with hregime | hfilters
      · exact hsub (hparts .long).regime (CompiledStrategy.exists_of_allReads hregime)
      · split_ifs at hfilters
        · cases hfilters
        · exact hsub (hparts .long).filters (CompiledStrategy.exists_of_allReads hfilters)
    · split_ifs at hside
      · cases hside
      obtain ⟨side, -, hin⟩ := List.mem_flatMap.1 hside
      unfold CompiledStrategy.sideReads at hin
      rcases List.mem_append.1 hin with hsetup | hin
      · exact hsub (hparts side).setup (CompiledStrategy.exists_of_allReads hsetup)
      split at hin
      · cases hin
      rcases List.mem_append.1 hin with hentry | hin
      · exact hsub (hparts side).entry (CompiledStrategy.exists_of_allReads hentry)
      split at hin
      · cases hin
      rcases List.mem_append.1 hin with hconfirm | hin
      · exact hsub (hparts side).confirmation (CompiledStrategy.exists_of_allReads hconfirm)
      split at hin
      · cases hin
      · exact hsub (hparts side).invalidation (CompiledStrategy.exists_of_anyReads hin)
  obtain ⟨rule, hrule, l, hl, hin⟩ := hrule
  constructor
  · obtain ⟨declared, hdeclared, hcolumn⟩ := LeafRule.column_of_reads hin
    exact ⟨declared, List.mem_flatMap.2 ⟨rule, hrule, List.mem_flatMap.2 ⟨l, hl, hdeclared⟩⟩,
      hcolumn⟩
  · exact (offset_le_of_reads hin).trans ((le_maxLookback hl).trans (le_maxLookbackOf hrule))

end Compilation

/-- The context with its bar at row `pos`: what lies before the old history is no number. -/
def EvalContext.shifted (ctx : EvalContext) (pos : ℕ) : EvalContext where
  price field i := if i + ctx.pos < pos then nan else ctx.price field (i + ctx.pos - pos)
  indicator column i := if i + ctx.pos < pos then nan else ctx.indicator column (i + ctx.pos - pos)
  pos := pos
  barTime := ctx.barTime

theorem at_shifted (column : ℕ → Number) {pos offset : ℕ} (h : offset ≤ pos) : (ctx.shifted pos).at_
      (fun i => if i + ctx.pos < pos then nan else column (i + ctx.pos - pos)) offset =
        ctx.at_ column offset := by
  unfold EvalContext.at_ EvalContext.shifted
  dsimp only
  rw [if_neg (not_lt.2 h)]
  by_cases hfirst : ctx.pos < offset
  · rw [if_pos hfirst, if_pos (by omega)]
  · rw [if_neg hfirst, if_neg (by omega), show pos - offset + ctx.pos - pos =
      ctx.pos - offset by omega]

variable {pos : ℕ}

theorem alike_shifted (hdepth : depth ≤ pos) (hstarted : 0 < ctx.pos) (hpos : 0 < pos) :
    Alike depth ctx (ctx.shifted pos) where
  barTime := rfl
  price field _ hoffset := (at_shifted (ctx.price field) (hoffset.trans hdepth)).symm
  started := hstarted
  started' := hpos

theorem agree_shifted {reads : List IndicatorOperand}
    (h : ∀ operand ∈ reads, operand.offset ≤ pos) : Agree ctx (ctx.shifted pos) reads :=
  fun operand hin => (at_shifted (ctx.indicator operand.column) (h operand hin)).symm

namespace Compilation

variable (c : Compilation) (inst : Instrument)

/-- The two histories differ at most in values of indicators that are not warm there. -/
structure SameWarm (ctx ctx' : EvalContext) : Prop where
  price : ctx.price = ctx'.price
  pos : ctx.pos = ctx'.pos
  barTime : ctx.barTime = ctx'.barTime
  indicator : ∀ column i, (c.indicatorOf column).warmupPeriod ≤ i →
    ctx.indicator column i = ctx'.indicator column i

def Covered : Prop :=
  ∀ ctx : EvalContext, c.warmupPeriod ≤ ctx.pos → ∀ operand ∈ c.reads ctx inst,
    operand.offset ≤ ctx.pos → c.warmupOf operand ≤ ctx.pos - operand.offset

def ExitsCovered : Prop :=
  ∀ ctx : EvalContext, c.warmupPeriod ≤ ctx.pos → ∀ operand ∈ c.exitReads ctx inst,
    c.warmupOf operand + operand.offset ≤ c.warmupPeriod

variable {c inst}

theorem ruleRead_covered {operand : IndicatorOperand} (h : operand ∈ c.ruleReads ctx) :
    c.warmupOf operand + operand.offset ≤ c.warmupPeriod := by
  obtain ⟨⟨declared, hdeclared, hcolumn⟩, hoffset⟩ := ruleReads_spec h
  have hwarm : c.warmupOf operand ≤ c.indicatorWarmup := by
    have := warmupOf_le (List.mem_append_left c.exitOperands hdeclared)
    unfold warmupOf at this ⊢
    rwa [hcolumn] at this
  unfold warmupPeriod
  omega

theorem exists_furthest {reads : List IndicatorOperand} (hne : reads ≠ []) :
    ∃ furthest ∈ reads, ∀ operand ∈ reads, operand.offset ≤ furthest.offset := by
  induction reads with
  | nil => exact absurd rfl hne
  | cons first rest ih =>
    by_cases hrest : rest = []
    · subst hrest
      refine ⟨first, List.mem_cons_self, fun operand h => ?_⟩
      rw [List.mem_singleton.1 h]
    · obtain ⟨furthest, hin, hmax⟩ := ih hrest
      rcases le_total first.offset furthest.offset with hle | hle
      · refine ⟨furthest, List.mem_cons_of_mem _ hin, fun operand h => ?_⟩
        rcases List.mem_cons.1 h with rfl | h
        · exact hle
        · exact hmax operand h
      · refine ⟨first, List.mem_cons_self, fun operand h => ?_⟩
        rcases List.mem_cons.1 h with rfl | h
        · exact le_refl _
        · exact (hmax operand h).trans hle

/-- The warmup covers every read exactly when it covers the exit operands that are read: no
rule reads a cold row, and an exit operand further back than the warmup allows reads one on
some bar. -/
theorem covered_iff : c.Covered inst ↔ c.ExitsCovered inst := by
  constructor
  · intro hcovered ctx hpos operand hin
    by_contra hbad
    rw [not_le] at hbad
    -- a bar late enough for every read, and too early for one of them
    have hcold : ∃ pos, c.warmupPeriod ≤ pos ∧ (∀ o ∈ c.exitReads ctx inst, o.offset ≤ pos) ∧
        ∃ o ∈ c.exitReads ctx inst, pos - o.offset < c.warmupOf o := by
      obtain ⟨furthest, hfurthest, hmax⟩ := exists_furthest (List.ne_nil_of_mem hin)
      have hone : 0 < c.warmupOf operand := (c.indicatorOf operand.column).warm
      by_cases hnear : furthest.offset < c.warmupOf operand + operand.offset
      · refine ⟨c.warmupOf operand + operand.offset - 1, by omega, fun o ho => ?_,
          operand, hin, by omega⟩
        have := hmax o ho
        omega
      · refine ⟨furthest.offset, by omega, hmax, furthest, hfurthest, ?_⟩
        rw [Nat.sub_self]
        exact (c.indicatorOf furthest.column).warm
    obtain ⟨pos, hwarm, hlate, cold, hcold, hrow⟩ := hcold
    have hlookback : c.ruleLookback < c.warmupPeriod := by
      unfold warmupPeriod
      omega
    have halike : Alike c.ruleLookback ctx (ctx.shifted pos) :=
      alike_shifted (by omega) (by omega) (by omega)
    have hagree : Agree ctx (ctx.shifted pos) (c.reads ctx inst) := by
      apply agree_shifted
      intro o ho
      rcases List.mem_append.1 ho with hrule | hexit
      · have := (ruleReads_spec hrule).2
        omega
      · exact hlate o hexit
    obtain ⟨-, hexits⟩ := c.reads_congr halike (le_refl _) inst hagree
    have hread : cold ∈ c.reads (ctx.shifted pos) inst := by
      apply List.mem_append_right
      rw [hexits]
      exact hcold
    have hwarmRow := hcovered (ctx.shifted pos) hwarm cold hread (hlate cold hcold)
    exact absurd hwarmRow (not_le.2 hrow)
  · intro hexits ctx hpos operand hin hoffset
    have hsum : c.warmupOf operand + operand.offset ≤ c.warmupPeriod := by
      rcases List.mem_append.1 hin with hrule | hexit
      · exact ruleRead_covered hrule
      · exact hexits ctx hpos operand hexit
    omega

/-- Long unless `rsi < 30`, with a stop of two ATRs as they were 40 bars ago. -/
def farAtr : Compilation where
  document := { CompiledStrategy.unlessOversold.document with
    stop := {
      kind := .atrMultiple
      value := fin 2
      atr := some ⟨"atr_14", 40⟩
      level := none
      bufferAtr := fin 0
      minDistanceAtr := fin 0
      value_pos := rfl
      buffer_nonneg := CompiledStrategy.unlessOversold.document.stop.buffer_nonneg
      minDistance_nonneg := CompiledStrategy.unlessOversold.document.stop.minDistance_nonneg
      atr_source := fun _ => rfl
      level_source := fun h => by rcases h with h | h <;> cases h
      buffer_source := fun h => nomatch h
      floor_source := fun h => nomatch h } }
  firstOutputs := ["atr_14", "rsi_14"]
  trailing := []
  indicatorOf column := ⟨column, 15, [column], Nat.succ_pos 14⟩
  written _ := List.mem_singleton.2 rfl
  owner _ other h := by rw [List.mem_singleton.1 h]

def bar50 : EvalContext where
  price _ _ := fin (11 / 10)
  indicator column _ := if column = "rsi_14" then fin 50 else fin (1 / 1000)
  pos := 50
  barTime := 0

/-- The warmup is 16 bars; on bar 50 the stop is computed from row 10 of an ATR that is warm from
row 15 on. -/
theorem cold_atr_sets_the_stop : farAtr.warmupPeriod ≤ bar50.pos ∧
    (farAtr.decide ⟨fun _ => CompiledStrategy.eurusd, fun _ => rfl⟩ bar50 "EURUSD" "H1").isSome ∧
      ¬ farAtr.Covered CompiledStrategy.eurusd := by
  have hwarm : farAtr.warmupPeriod ≤ bar50.pos := by decide
  refine ⟨hwarm, by decide +kernel, fun hcovered => ?_⟩
  have hread : (⟨"atr_14", 40⟩ : IndicatorOperand) ∈
      farAtr.reads bar50 CompiledStrategy.eurusd := by decide +kernel
  have hrow := hcovered bar50 hwarm _ hread (by decide)
  exact absurd hrow (by decide)

/-- Under a covering warmup no decision depends on the value of an indicator that is not warm. -/
theorem decide_of_covered (hcovered : c.Covered inst) {ctx ctx' : EvalContext}
    (hpos : c.warmupPeriod ≤ ctx.pos) (hsame : c.SameWarm ctx ctx')
    (houtputs : ∀ column ∈ c.firstOutputs, column ∈ c.indicators.flatMap Indicator.outputColumns)
    (instruments : Registry) (symbol timeframe : String) (hinst : instruments.get symbol = inst) :
    c.decide instruments ctx' symbol timeframe = c.decide instruments ctx symbol timeframe := by
  have hstarted : 0 < ctx.pos := by
    unfold warmupPeriod at hpos
    omega
  have halike : Alike c.ruleLookback ctx ctx' := by
    refine ⟨hsame.barTime, fun field offset _ => ?_, hstarted, hsame.pos ▸ hstarted⟩
    unfold EvalContext.at_
    rw [hsame.pos, hsame.price]
  apply c.decide_congr halike (le_refl _)
  · intro operand hin
    rw [hinst] at hin
    unfold EvalContext.readIndicator EvalContext.at_
    rw [← hsame.pos]
    split_ifs with hfirst
    · rfl
    · exact hsame.indicator operand.column _
        (hcovered ctx hpos operand hin (not_lt.1 hfirst))
  · unfold CompiledStrategy.features
    have hcells : ∀ column ∈ c.firstOutputs,
        ctx'.indicator column ctx'.pos = ctx.indicator column ctx.pos := by
      intro column hcolumn
      obtain ⟨indicator, hindicator, hwritten⟩ := List.mem_flatMap.1 (houtputs column hcolumn)
      obtain ⟨operand, hoperand, rfl⟩ := List.mem_map.1 hindicator
      rw [← hsame.pos]
      refine (hsame.indicator column ctx.pos ?_).symm
      rw [c.owner operand.column column hwritten]
      have := warmupOf_le hoperand
      unfold warmupPeriod at hpos
      unfold warmupOf at this
      omega
    have hfold : ∀ (columns : List String) (out : Dict String Number),
        (∀ column ∈ columns, ctx'.indicator column ctx'.pos = ctx.indicator column ctx.pos) →
        columns.foldl (fun out column =>
            let value := ctx'.indicator column ctx'.pos
            if value.isfinite then out.set column value else out) out =
          columns.foldl (fun out column =>
            let value := ctx.indicator column ctx.pos
            if value.isfinite then out.set column value else out) out := by
      intro columns
      induction columns with
      | nil => exact fun out _ => rfl
      | cons column columns ih =>
        intro out hcolumns
        rw [List.foldl_cons, List.foldl_cons, hcolumns column List.mem_cons_self]
        exact ih _ fun other hother => hcolumns other (List.mem_cons_of_mem _ hother)
    rw [hfold c.firstOutputs Dict.empty hcells]

def fixedStop : Compilation := { farAtr with toCompiledStrategy := CompiledStrategy.unlessOversold }

/-- Bar 50 with and without the RSI of its first 15 bars. -/
theorem cold_rsi_ignored :
    let cold : EvalContext := { bar50 with
      indicator column i := if i < 15 then nan else bar50.indicator column i }
    fixedStop.decide ⟨fun _ => CompiledStrategy.eurusd, fun _ => rfl⟩ cold "EURUSD" "H1" =
      fixedStop.decide ⟨fun _ => CompiledStrategy.eurusd, fun _ => rfl⟩ bar50 "EURUSD" "H1" := by
  intro cold
  have hcovered : fixedStop.Covered CompiledStrategy.eurusd := by
    intro ctx hpos operand hin hoffset
    rcases List.mem_append.1 hin with hrule | hexit
    · have := ruleRead_covered hrule
      omega
    · have hnone : ∀ side, fixedStop.sideExitReads ctx side CompiledStrategy.eurusd = [] := by
        intro side
        simp only [CompiledStrategy.sideExitReads]
        split_ifs
        · rfl
        · cases fixedStop.stopPrice ctx side ctx.lastClose CompiledStrategy.eurusd <;> rfl
      simp only [CompiledStrategy.exitReads, hnone] at hexit
      split_ifs at hexit
      · cases hexit
      · split at hexit <;> cases hexit
  have hsame : fixedStop.SameWarm bar50 cold :=
    ⟨rfl, rfl, rfl, fun column i hi => (if_neg (not_lt.2 hi)).symm⟩
  exact decide_of_covered hcovered (by decide) hsame (by decide) _ _ _ rfl

end Compilation

end Fiboki.Strategy
