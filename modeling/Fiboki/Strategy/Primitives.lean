import Fiboki.Core.Instruments
import Fiboki.Lib.Floating
import Fiboki.Lib.Formula

/-!
The rule vocabulary of a strategy document, bound: where a field may hold a parameter
reference, it holds its number here.
-/

namespace Fiboki.Strategy

open Floating Number

inductive Comparator where
  | gt
  | ge
  | lt
  | le
  | eq
  | ne

def Comparator.apply : Comparator → Number → Number → Bool
  | gt, a, b => Number.lt b a
  | ge, a, b => Number.le b a
  | lt, a, b => Number.lt a b
  | le, a, b => Number.le a b
  | eq, a, b => Number.eq a b
  | ne, a, b => !Number.eq a b

inductive PriceField where
  | open_
  | high
  | low
  | close

/-- An indicator's output column, as its spec resolves it, so many bars back. -/
structure IndicatorOperand where
  column : String
  offset : ℕ
  deriving DecidableEq

structure PriceOperand where
  field : PriceField
  offset : ℕ

inductive Operand where
  | indicator (operand : IndicatorOperand)
  | price (operand : PriceOperand)
  | constant (value : Number)

/-- A prepared frame, the row of the evaluation bar and the bar's time.  The frame has every
column that the compiler asked for. -/
structure EvalContext where
  price : PriceField → ℕ → Number
  indicator : String → ℕ → Number
  pos : ℕ
  barTime : Timestamp

namespace EvalContext

def at_ (ctx : EvalContext) (column : ℕ → Number) (offset : ℕ) : Number :=
  if ctx.pos < offset then nan else column (ctx.pos - offset)

def readIndicator (ctx : EvalContext) (operand : IndicatorOperand) : Number :=
  ctx.at_ (ctx.indicator operand.column) operand.offset

def readPrice (ctx : EvalContext) (operand : PriceOperand) : Number :=
  ctx.at_ (ctx.price operand.field) operand.offset

def read (ctx : EvalContext) : Operand → Number
  | .indicator operand => ctx.readIndicator operand
  | .price operand => ctx.readPrice operand
  | .constant value => value

/-- The same context one bar earlier, or `none` before the first bar. -/
def previous (ctx : EvalContext) : Option EvalContext :=
  if ctx.pos = 0 then none else some { ctx with pos := ctx.pos - 1 }

def lastClose (ctx : EvalContext) : Number := ctx.price .close ctx.pos

end EvalContext

structure ThresholdRule where
  operand : Operand
  comparator : Comparator
  value : Number

def ThresholdRule.evaluate (r : ThresholdRule) (ctx : EvalContext) : Bool :=
  let a := ctx.read r.operand
  if a.isfinite then r.comparator.apply a r.value else false

structure IndicatorVsIndicatorRule where
  left : IndicatorOperand
  right : IndicatorOperand
  comparator : Comparator

def IndicatorVsIndicatorRule.evaluate (r : IndicatorVsIndicatorRule) (ctx : EvalContext) : Bool :=
  let a := ctx.readIndicator r.left
  let b := ctx.readIndicator r.right
  if a.isfinite && b.isfinite then r.comparator.apply a b else false

structure IndicatorVsPriceRule where
  indicator : IndicatorOperand
  price : PriceOperand
  comparator : Comparator

def IndicatorVsPriceRule.evaluate (r : IndicatorVsPriceRule) (ctx : EvalContext) : Bool :=
  let a := ctx.readIndicator r.indicator
  let b := ctx.readPrice r.price
  if a.isfinite && b.isfinite then r.comparator.apply a b else false

inductive CrossDirection where
  | above
  | below

structure CrossoverRule where
  fast : Operand
  slow : Operand
  direction : CrossDirection

def CrossoverRule.evaluate (r : CrossoverRule) (ctx : EvalContext) : Bool :=
  let nowF := ctx.read r.fast
  let nowS := ctx.read r.slow
  match ctx.previous with
  | none => false
  | some prev =>
    let prevF := prev.read r.fast
    let prevS := prev.read r.slow
    if nowF.isfinite && nowS.isfinite && prevF.isfinite && prevS.isfinite then
      match r.direction with
      | .above => Number.le prevF prevS && Number.lt nowS nowF
      | .below => Number.le prevS prevF && Number.lt nowF nowS
    else false

structure RegimeGateRule where
  metric : IndicatorOperand
  minValue : Option Number
  maxValue : Option Number
  invert : Bool
  bounded : minValue.isSome ∨ maxValue.isSome
  ordered : ∀ lo hi, minValue = some lo → maxValue = some hi → Number.lt hi lo = false

def RegimeGateRule.inside (r : RegimeGateRule) (v : Number) : Bool :=
  (match r.minValue with
    | none => true
    | some lo => Number.le lo v) &&
  match r.maxValue with
  | none => true
  | some hi => Number.le v hi

def RegimeGateRule.evaluate (r : RegimeGateRule) (ctx : EvalContext) : Bool :=
  let v := ctx.readIndicator r.metric
  if v.isfinite then if r.invert then !r.inside v else r.inside v else false

structure SessionWindowRule where
  startHourUtc : ℕ
  endHourUtc : ℕ
  weekdays : List ℕ
  hours : startHourUtc ≤ 23 ∧ endHourUtc ≤ 23
  weekdays_ok : weekdays ≠ [] ∧ ∀ d ∈ weekdays, d ≤ 6

/-- The hours from `start` to `stop`, which may wrap midnight. -/
def inWindow (start stop hour : ℕ) : Bool :=
  if start ≤ stop then start ≤ hour && hour ≤ stop else start ≤ hour || hour ≤ stop

def SessionWindowRule.evaluate (r : SessionWindowRule) (ctx : EvalContext) : Bool :=
  if ctx.barTime.dayofweek ∈ r.weekdays then
    inWindow r.startHourUtc r.endHourUtc ctx.barTime.hour
  else false

inductive LeafRule where
  | threshold (r : ThresholdRule)
  | indicatorVsIndicator (r : IndicatorVsIndicatorRule)
  | indicatorVsPrice (r : IndicatorVsPriceRule)
  | crossover (r : CrossoverRule)
  | regimeGate (r : RegimeGateRule)
  | sessionWindow (r : SessionWindowRule)

def LeafRule.evaluate (ctx : EvalContext) : LeafRule → Bool
  | threshold r => r.evaluate ctx
  | indicatorVsIndicator r => r.evaluate ctx
  | indicatorVsPrice r => r.evaluate ctx
  | crossover r => r.evaluate ctx
  | regimeGate r => r.evaluate ctx
  | sessionWindow r => r.evaluate ctx

/-- A rule: `all_of`, `any_of` and `not` over the rules that read the bar. -/
abbrev Rule := Formula LeafRule

/-- `AllOfRule`, `AnyOfRule` and `NotRule` evaluate their parts as a formula does. -/
def evaluate (ctx : EvalContext) (rule : Rule) : Bool := rule.holds (LeafRule.evaluate ctx)

mutual

/-- `_nonempty`: every `all_of` and every `any_of` has a rule. -/
def nonempty : Rule → Bool
  | .atom _ => true
  | .all rules => !rules.isEmpty && nonemptyAll rules
  | .any rules => !rules.isEmpty && nonemptyAll rules
  | .not rule => nonempty rule

def nonemptyAll : List Rule → Bool
  | [] => true
  | rule :: rules => nonempty rule && nonemptyAll rules

end

end Fiboki.Strategy
