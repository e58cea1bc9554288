import Fiboki.Lib.Dict
import Fiboki.Strategy.Primitives
import Mathlib.Data.List.Sort
import Mathlib.Data.String.Basic

/-!
The bound strategy document, as far as the decision on a bar reads it, and the decision:
the gates, the side that triggers, its stop, its targets and the signal.
-/

namespace Fiboki.Strategy

open Floating Number

inductive TradeDirection where
  | long
  | short
  | both

def TradeDirection.sides : TradeDirection → List Direction
  | long => [.long]
  | short => [.short]
  | both => [.long, .short]

structure RuleSet where
  long : List Rule
  short : List Rule

namespace RuleSet

def forDirection (rules : RuleSet) : Direction → List Rule
  | .long => rules.long
  | .short => rules.short

def allRules (rules : RuleSet) : List Rule := rules.long ++ rules.short

end RuleSet

inductive StopKind where
  | atrMultiple
  | fixedPips
  | percent
  | swingStructure
  | indicatorLevel

structure StopModel where
  kind : StopKind
  value : Number
  atr : Option IndicatorOperand
  level : Option IndicatorOperand
  bufferAtr : Number
  minDistanceAtr : Number
  value_pos : Number.lt (fin 0) value
  buffer_nonneg : Number.le (fin 0) bufferAtr
  minDistance_nonneg : Number.le (fin 0) minDistanceAtr
  atr_source : kind = .atrMultiple → atr.isSome
  level_source : kind = .indicatorLevel ∨ kind = .swingStructure → level.isSome
  buffer_source : Number.lt (fin 0) bufferAtr → atr.isSome
  floor_source : Number.lt (fin 0) minDistanceAtr → kind ≠ .atrMultiple → atr.isSome

inductive TakeProfitKind where
  | rMultiple
  | atrMultiple
  | fixedPips
  | percent
  | indicatorLevel
  deriving DecidableEq

structure TakeProfitLeg where
  kind : TakeProfitKind
  value : Number
  allocation : ℚ
  atr : Option IndicatorOperand
  level : Option IndicatorOperand
  value_pos : Number.lt (fin 0) value
  allocation_ok : 0 < allocation ∧ allocation ≤ 1
  atr_source : kind = .atrMultiple → atr.isSome
  level_source : kind = .indicatorLevel → level.isSome

structure SessionRestriction where
  windows : List (ℕ × ℕ)
  weekdays : List ℕ
  hours : ∀ w ∈ windows, w.1 ≤ 23 ∧ w.2 ≤ 23
  weekdays_ok : ∀ d ∈ weekdays, d ≤ 6

structure StrategyDocument where
  strategyId : String
  direction : TradeDirection
  regime : List Rule
  setup : RuleSet
  entry : RuleSet
  confirmation : RuleSet
  filters : List Rule
  invalidation : RuleSet
  stop : StopModel
  takeProfits : List TakeProfitLeg
  sessions : Option SessionRestriction
  /-- `locks is not None`. -/
  locksDeclared : Bool
  entry_iff : ∀ side, entry.forDirection side ≠ [] ↔ side ∈ direction.sides
  allocations_ok : (takeProfits.map TakeProfitLeg.allocation).sum ≤ 1 + 1 / 10 ^ 9
  rules_ok : nonemptyAll (regime ++ setup.allRules ++ entry.allRules ++ confirmation.allRules ++
    filters ++ invalidation.allRules)

/-- `a <= b` for a long position, `a >= b` for a short one. -/
def notBeyond : Direction → Number → Number → Bool
  | .long, a, b => Number.le a b
  | .short, a, b => Number.le b a

/-- What `Signal.__post_init__` asks of a signal. -/
structure SignalChecks (direction : Direction) (reference stop : Number) (targets : List Number)
    (allocations : List ℚ) : Prop where
  stop_pos : Number.le stop (fin 0) = false
  reference_pos : Number.le reference (fin 0) = false
  stop_side : notBeyond direction reference stop = false
  target_side : ∀ tp ∈ targets, notBeyond direction tp reference = false
  aligned : allocations ≠ [] → allocations.length = targets.length
  each : ∀ a ∈ allocations, 0 < a ∧ a ≤ 1
  total : allocations ≠ [] → allocations.sum ≤ 1 + 1 / 10 ^ 9

instance (direction : Direction) (reference stop : Number) (targets : List Number)
    (allocations : List ℚ) :
    Decidable (SignalChecks direction reference stop targets allocations) :=
  decidable_of_iff (Number.le stop (fin 0) = false ∧ Number.le reference (fin 0) = false ∧
      notBeyond direction reference stop = false ∧
      (∀ tp ∈ targets, notBeyond direction tp reference = false) ∧
      (allocations ≠ [] → allocations.length = targets.length) ∧
      (∀ a ∈ allocations, 0 < a ∧ a ≤ 1) ∧
      (allocations ≠ [] → allocations.sum ≤ 1 + 1 / 10 ^ 9))
    ⟨fun ⟨h, h', h'', h3, h4, h5, h6⟩ => ⟨h, h', h'', h3, h4, h5, h6⟩,
      fun ⟨h, h', h'', h3, h4, h5, h6⟩ => ⟨h, h', h'', h3, h4, h5, h6⟩⟩

/-- A strategy's opinion at a closed bar, less its random identifier. -/
structure Signal where
  strategyId : String
  instrument : String
  timeframe : String
  direction : Direction
  barTime : Timestamp
  referencePrice : Number
  stopPrice : Number
  takeProfitPrices : List Number
  takeProfitAllocations : List ℚ
  confidence : ℚ
  rationale : String
  features : Dict String Number
  checks : SignalChecks direction referencePrice stopPrice takeProfitPrices takeProfitAllocations

/-- A document and, for each indicator built for it, its first output column. -/
structure CompiledStrategy where
  document : StrategyDocument
  firstOutputs : List String

namespace CompiledStrategy

def sessionAllows (strategy : CompiledStrategy) (ctx : EvalContext) : Bool :=
  match strategy.document.sessions with
  | none => true
  | some sessions =>
    if ctx.barTime.dayofweek ∉ sessions.weekdays then false
    else if sessions.windows.isEmpty then true
    else sessions.windows.any fun w => inWindow w.1 w.2 ctx.barTime.hour

def gatesPass (strategy : CompiledStrategy) (ctx : EvalContext) : Bool :=
  if !strategy.document.regime.all (evaluate ctx) then false
  else if !strategy.document.filters.all (evaluate ctx) then false
  else strategy.sessionAllows ctx

def sideTriggers (strategy : CompiledStrategy) (ctx : EvalContext) (side : Direction) : Bool :=
  let doc := strategy.document
  let entry := doc.entry.forDirection side
  if !(doc.setup.forDirection side).all (evaluate ctx) then false
  else if entry.isEmpty || !entry.all (evaluate ctx) then false
  else if !(doc.confirmation.forDirection side).all (evaluate ctx) then false
  else !(doc.invalidation.forDirection side).any (evaluate ctx)

/-- `_atr`, and the level of a stop or a leg. -/
def readOptional (ctx : EvalContext) : Option IndicatorOperand → Number
  | none => nan
  | some operand => ctx.readIndicator operand

/-- `1.0` for a long side, `-1.0` for a short one. -/
def signOf (side : Direction) : Number := fin side.sign

def stopDistance (model : StopModel) (ctx : EvalContext) (side : Direction) (reference : Number)
    (inst : Instrument) : Option Number :=
  let atr := readOptional ctx model.atr
  match model.kind with
  | .atrMultiple =>
    if !atr.isfinite || Number.le atr (fin 0) then none else some (model.value * atr)
  | .fixedPips => some (model.value * fin inst.pipSize)
  | .percent => some (reference * model.value / fin 100)
  | .swingStructure | .indicatorLevel =>
    let level := readOptional ctx model.level
    if !level.isfinite then none
    else
      let buffer := if model.bufferAtr = fin 0 then fin 0 else model.bufferAtr * atr
      if model.bufferAtr ≠ fin 0 && !buffer.isfinite then none
      else some ((reference - level) * signOf side + buffer)

def floored (model : StopModel) (ctx : EvalContext) (distance : Number) : Number :=
  let atr := readOptional ctx model.atr
  if atr.isfinite && Number.lt (fin 0) model.minDistanceAtr then
    pyMax distance (model.minDistanceAtr * atr)
  else distance

def stopAt (side : Direction) (reference distance : Number) : Option Number :=
  if !distance.isfinite || Number.le distance (fin 0) then none
  else
    let stop := reference - signOf side * distance
    if Number.lt (fin 0) stop then some stop else none

def stopPrice (strategy : CompiledStrategy) (ctx : EvalContext) (side : Direction)
    (reference : Number) (inst : Instrument) : Option Number :=
  let model := strategy.document.stop
  match stopDistance model ctx side reference inst with
  | none => none
  | some distance => stopAt side reference (floored model ctx distance)

def legPrice (ctx : EvalContext) (leg : TakeProfitLeg) (sign reference risk : Number)
    (inst : Instrument) : Option Number :=
  match leg.kind with
  | .rMultiple => some (reference + sign * leg.value * risk)
  | .atrMultiple =>
    let atr := readOptional ctx leg.atr
    if !atr.isfinite || Number.le atr (fin 0) then none
    else some (reference + sign * leg.value * atr)
  | .fixedPips => some (reference + sign * leg.value * fin inst.pipSize)
  | .percent => some (reference * (fin 1 + sign * leg.value / fin 100))
  | .indicatorLevel =>
    let level := readOptional ctx leg.level
    if level.isfinite then some level else none

def targetDistance (sign reference price : Number) : Number := (price - reference) * sign

def targetLegs (strategy : CompiledStrategy) (ctx : EvalContext) (sign reference risk : Number)
    (inst : Instrument) : List (Number × ℚ) :=
  strategy.document.takeProfits.filterMap fun leg =>
    match legPrice ctx leg sign reference risk inst with
    | none => none
    | some price =>
      if Number.le (targetDistance sign reference price) (fin 0) then none
      else some (price, leg.allocation)

/-- Legs of one price after `last`, merged into it and capped at the whole position. -/
def mergeAfter (last : Number × ℚ) : List (Number × ℚ) → List (Number × ℚ)
  | [] => [last]
  | leg :: rest =>
    if Number.le (leg.1 - last.1).abs (fin (1 / 10 ^ 12)) then
      mergeAfter (last.1, min 1 (last.2 + leg.2)) rest
    else last :: mergeAfter leg rest

def mergeLegs : List (Number × ℚ) → List (Number × ℚ)
  | [] => []
  | leg :: rest => mergeAfter leg rest

def trimLegs (running : ℚ) : List (Number × ℚ) → List (Number × ℚ)
  | [] => []
  | leg :: rest =>
    let take := min leg.2 (max 0 (1 - running))
    (leg.1, take) :: trimLegs (running + take) rest

def takeProfits (strategy : CompiledStrategy) (ctx : EvalContext) (side : Direction)
    (reference stop : Number) (inst : Instrument) : List (Number × ℚ) :=
  let sign := signOf side
  let risk := (reference - stop).abs
  let legs := strategy.targetLegs ctx sign reference risk inst
  let sorted := legs.insertionSort fun a b =>
    Number.lt (targetDistance sign reference b.1) (targetDistance sign reference a.1) = false
  (trimLegs 0 (mergeLegs sorted)).filter fun leg => 0 < leg.2

def lockDeclaredFeature : String := "locks_declared"

/-- `_features`: the finite first outputs on the bar, and the mark of declared locks. -/
def features (strategy : CompiledStrategy) (ctx : EvalContext) : Dict String Number :=
  let out := strategy.firstOutputs.foldl (fun out column =>
    let value := ctx.indicator column ctx.pos
    if value.isfinite then out.set column value else out) Dict.empty
  if strategy.document.locksDeclared then out.set lockDeclaredFeature (fin 1) else out

/-- The signal of the one side that triggered, or `none`. -/
def signalOf (strategy : CompiledStrategy) (ctx : EvalContext) (side : Direction)
    (inst : Instrument) (symbol timeframe : String) : Option Signal :=
  let reference := ctx.lastClose
  if !reference.isfinite || Number.le reference (fin 0) then none
  else
    match strategy.stopPrice ctx side reference inst with
    | none => none
    | some stop =>
      let legs := strategy.takeProfits ctx side reference stop inst
      let targets := legs.map Prod.fst
      let allocations := legs.map Prod.snd
      if checks : SignalChecks side reference stop targets allocations then
        some {
          strategyId := strategy.document.strategyId
          instrument := symbol
          timeframe
          direction := side
          barTime := ctx.barTime
          referencePrice := reference
          stopPrice := stop
          takeProfitPrices := targets
          takeProfitAllocations := allocations
          confidence := 1
          rationale := strategy.document.strategyId ++ ":" ++ side.value
          features := strategy.features ctx
          checks }
      else none

/-- The signal on the context's bar, or `none`. -/
protected def decide (strategy : CompiledStrategy) (instruments : Registry) (ctx : EvalContext)
    (symbol timeframe : String) : Option Signal :=
  if !strategy.gatesPass ctx then none
  else
    match strategy.document.direction.sides.filter (strategy.sideTriggers ctx) with
    | [side] => strategy.signalOf ctx side (instruments.get symbol) symbol timeframe
    | _ => none

end CompiledStrategy

end Fiboki.Strategy
