import Fiboki.Validation.Data
import Fiboki.Validation.Gates
import Mathlib.Algebra.BigOperators.Ring.List

/-!
The evaluation surface of the validation ladder: windows, parameter grids, what one
parameterisation did over one window, and the statistics computed from it.
-/

namespace Fiboki

open Wire
open Floating (Number)

structure DateWindow where
  name : String
  start : Timestamp
  stop : Timestamp
  ordered : start < stop

namespace DateWindow

def make (name : String) (start stop : Timestamp) : Except String DateWindow :=
  if h : start < stop then .ok ⟨name, start, stop, h⟩
  else .error ("window '" ++ name ++ "': end must be after start")

def days (w : DateWindow) : Number := .fin ((w.stop - w.start : ℤ) / 86400000000000)

/-- `slices(n, prefix=name)`: `edge i` is the instant a fraction `i / n` into the window. -/
def slices (edge : DateWindow → ℕ → ℕ → Timestamp) (w : DateWindow) (n : ℕ) (name : String) :
    Except String (List DateWindow) :=
  if n < 1 then .error "n must be >= 1"
  else
    let at_ (i : ℕ) : Timestamp := if i < n then edge w i n else w.stop
    (List.range n).mapM fun i =>
      make (name ++ "_" ++ String.ofList (Json.natText i)) (at_ i) (at_ (i + 1))

variable (text : Numerals)

def toDict (w : DateWindow) : Data :=
  .mapping [("name", .str w.name), ("start", .str (text.isoformat w.start)),
    ("end", .str (text.isoformat w.stop))]

end DateWindow

/-- A parameter value; one that is not of these kinds has a text. -/
inductive ParamValue where
  | none
  | bool (b : Bool)
  | int (z : ℤ)
  | float (x : Number)
  | str (s : String)
  | other (text : String)
  deriving DecidableEq

namespace ParamValue

/-- One value of `canonical_params`. -/
def canonical : ParamValue → ParamValue
  | other text => .str text
  | v => v

def value : ParamValue → Value
  | none => .null
  | bool b => .bool b
  | int z => .int z
  | float x => numberValue x
  | str s => .str s
  | other text => .str text

def data : ParamValue → Data
  | none => .none
  | bool b => .bool b
  | int z => .int z
  | float x => .float x
  | str s => .str s
  | other text => .other text

/-- `isinstance(v, int | float) and not isinstance(v, bool)`. -/
def numeric : ParamValue → Bool
  | int _ | float _ => true
  | _ => false

theorem canonical_canonical (v : ParamValue) : v.canonical.canonical = v.canonical := by
  cases v <;> rfl

end ParamValue

abbrev Params := Dict String ParamValue

def canonicalParams (params : Params) : Params := params.map ParamValue.canonical

theorem canonicalParams_canonicalParams (params : Params) :
    canonicalParams (canonicalParams params) = canonicalParams params := by
  refine Dict.ext_get ?_
  intro k
  unfold canonicalParams
  rw [Dict.get_map, Dict.get_map, Option.map_map]
  refine congrArg (Option.map · _) ?_
  funext v
  exact v.canonical_canonical

def Params.data (params : Params) : Data :=
  .mapping (params.entries.map fun e => (e.1, ParamValue.data e.2))

structure ParameterGrid where
  axes : List (String × List ParamValue)
  truncatedFrom : ℕ
  nodup : (axes.map Prod.fst).Nodup
  nonempty : ∀ axis ∈ axes, axis.2 ≠ []

namespace ParameterGrid

variable (grid : ParameterGrid)

def names : List String := grid.axes.map Prod.fst

def numericNames : List String :=
  (grid.axes.filter fun axis => axis.2.all ParamValue.numeric).map Prod.fst

def fullSize : ℕ := (grid.axes.map fun axis => axis.2.length).prod

def product : List (String × List ParamValue) → List (List (String × ParamValue))
  | [] => [[]]
  | (name, values) :: axes =>
    values.flatMap fun v => (product axes).map fun point => (name, v) :: point

def points : List Params := (product grid.axes).map Dict.ofList

def toDict : Data :=
  .mapping
    [("axes", .seq (grid.axes.map fun axis => .mapping
        [("name", .str axis.1), ("values", .seq (axis.2.map fun v => v.canonical.data))])),
      ("full_size", .int grid.fullSize),
      ("truncated_from", .int grid.truncatedFrom)]

theorem length_product (axes : List (String × List ParamValue)) :
    (product axes).length = (axes.map fun axis => axis.2.length).prod := by
  induction axes with
  | nil => rfl
  | cons axis axes ih =>
    obtain ⟨name, values⟩ := axis
    simp only [product, List.length_flatMap, List.length_map, List.map_const', ih,
      List.sum_replicate_nat, List.map_cons, List.prod_cons]

theorem length_points : grid.points.length = grid.fullSize := by
  unfold points fullSize
  rw [List.length_map, length_product]

theorem points_ne_nil : grid.points ≠ [] := by
  intro h
  have hlength := grid.length_points
  rw [h, List.length_nil] at hlength
  unfold fullSize at hlength
  have hzero := List.prod_eq_zero_iff.1 hlength.symm
  obtain ⟨axis, haxis, hlen⟩ := List.mem_map.1 hzero
  exact grid.nonempty axis haxis (List.eq_nil_of_length_eq_zero hlen)

end ParameterGrid

inductive ReturnsBasis where
  | trade
  | period
  deriving DecidableEq

def ReturnsBasis.value : ReturnsBasis → String
  | .trade => "trade"
  | .period => "period"

/-- What one parameterisation did over one window; its parameters are JSON-safe. -/
structure WindowEvaluation (T : Type) where
  window : DateWindow
  params : Params
  nTrades : ℤ
  netProfit : Number
  returns : List Number
  returnsBasis : ReturnsBasis
  trades : List T
  metadata : Dict String Value
  canonical : canonicalParams params = params

structure SharpeMoments where
  srHat : Number
  nObs : ℕ
  skew : Number
  kurtosis : Number

structure StressCurve where
  levels : List Number
  median : List Number
  retention : List Number
  breakingLevel : Option Number

structure Neighbourhood where
  plateauMean : Number
  plateauMeanExcluding : Number
  plateauStd : Number
  pointPlateauRatio : Number
  pointPlateauRatioInclusive : Number
  plateauQuality : Number
  plateauMedianExcluding : Number
  plateauMinExcluding : Number
  isIsolatedPeak : Bool

structure EffectiveTrials where
  nEffective : ℤ
  nTrials : ℤ
  redundancy : Number
  meanAbsCorrelation : Number

structure CombinatorialSplit where
  train : List ℕ
  nPurged : ℕ
  nEmbargoed : ℕ

/-- A purged cross-validation: its splits, its backtest paths as pairs of a split and a
group, and the rows of each group. -/
structure PurgedSplits where
  splits : List CombinatorialSplit
  pathMap : List (List (ℕ × ℕ))
  groupIndices : ℕ → List ℕ

structure OverfittingProbability where
  pbo : Number
  nCombinations : ℕ
  degradationSlope : Number
  probabilityOfLoss : Number

structure PredictiveAbility where
  pConsistent : Number
  pLower : Number
  pUpper : Number
  bestIndex : ℕ
  nStrategies : ℕ

/-- Labels of the rows of a cross-validation: one for each trade, or unit periods. -/
inductive SpanSource (T : Type) where
  | trades (trades : List T)
  | periods (n : ℕ)

/-- The numerical library: reductions over columns of numbers, and the statistics the rungs
call. A matrix is the list of its columns; a generator of random numbers has a state. -/
structure Statistics (T : Type) where
  netPnl : T → Number
  sum : List Number → Number
  mean : List Number → Number
  std : List Number → Number
  variance : List Number → Number
  log : Number → Number
  edge : DateWindow → ℕ → ℕ → Timestamp
  sharpeMoments : List Number → Except String SharpeMoments
  minimumTrackRecordLength : Number → Number → Number → Number → Number → Except String Number
  wilsonLowerBound : ℕ → ℕ → Number → Except String (Option Number)
  Rng : Type
  defaultRng : ℤ → Rng
  spreadMultiplierStress : List T → List Number → Rng → Except String (StressCurve × Rng)
  slippageStress : List T → Rng → Except String (StressCurve × Rng)
  executionDelayStress : List T → String → Rng → Except String (StressCurve × Rng)
  randomDeletionStress : List T → ℤ → Rng → Except String (StressCurve × Rng)
  startDateStress : List T → Except String StressCurve
  endDateStress : List T → Except String StressCurve
  netProfit : List T → Number
  stabilityGrid : List Params → List Number → ℤ → Except String Unit
  neighbourhood : List Params → List Number → ℤ → ℕ → Neighbourhood
  neighbourhoodMedianRatio : Number → Number → Number
  effectiveTrials : List (List Number) → Number → Except String EffectiveTrials
  deflatedSharpeRatio : Number → ℕ → ℤ → Number → Number → Number → Except String Number
  combinatorialPurgedCv : SpanSource T → ℤ → ℤ → Number → Except String PurgedSplits
  symmetricCv : List (List Number) → ℤ → Except String OverfittingProbability
  superiorPredictiveAbility : List (List Number) → ℤ → ℤ → Except String PredictiveAbility
  stepM : List (List Number) → ℤ → ℤ → Except String (List ℕ)

namespace WindowEvaluation

variable {T : Type} (text : Numerals) (stats : Statistics T) (e : WindowEvaluation T)

def isPooled : Bool := (e.metadata.get "n_trades_effective").isSome

def nTradesEffective : Except String Number :=
  match e.metadata.get "n_trades_effective" with
  | none | some .null => .ok (.fin e.nTrades)
  | some raw => do
    let value ← text.float raw
    if !value.isfinite || Number.lt value (.fin 0) then
      .error "n_trades_effective is not a non-negative number"
    else .ok (if Number.lt (.fin e.nTrades) value then .fin e.nTrades else value)

def expectancy : Number :=
  if e.nTrades ≤ 0 then .fin 0 else e.netProfit / .fin e.nTrades

def sharpe : Except String Number :=
  if e.returns.length < 2 then .ok (.fin 0)
  else
    let sd := stats.std e.returns
    if !sd.isfinite || Number.le sd (.fin 0) then .ok (.fin 0)
    else do
      let moments ← stats.sharpeMoments e.returns
      .ok moments.srHat

def profitPerDay : Number := e.netProfit / e.window.days

def metric (name : String) : Except String Number := do
  let sharpe ← e.sharpe stats
  if name = "sharpe" then .ok sharpe
  else if name = "net_profit" then .ok e.netProfit
  else if name = "expectancy" then .ok e.expectancy
  else if name = "profit_per_day" then .ok e.profitPerDay
  else if name = "n_trades" then .ok (.fin e.nTrades)
  else .error ("unknown selection metric '" ++ name ++ "'")

def degeneracies : List String :=
  (if e.nTrades ≤ 0 then ["no_trades"] else []) ++
  (if e.returns.all Number.isfinite then [] else ["non_finite_returns"]) ++
  (if 2 ≤ e.returns.length ∧ Number.le (stats.std e.returns) (.fin 0) = true then
    ["zero_variance_returns"] else []) ++
  (if e.returns ≠ [] ∧ ∀ x ∈ e.returns, x = .fin 0 then ["all_zero_returns"] else []) ++
  (if e.netProfit.isfinite then [] else ["non_finite_net_profit"])

/-- `meta.get(key, "")`. -/
def source (key : String) : Data :=
  match e.metadata.get key with
  | some v => .ofValue v
  | none => .str ""

def summary : Except String Data := do
  let sharpe ← e.sharpe stats
  .ok <| .mapping
    [("window", e.window.toDict text),
      ("params", e.params.data),
      ("n_trades", .int e.nTrades),
      ("net_profit", .float e.netProfit),
      ("expectancy", .float e.expectancy),
      ("sharpe", .float sharpe),
      ("profit_per_day", .float e.profitPerDay),
      ("returns_basis", .str e.returnsBasis.value),
      ("n_returns", .int e.returns.length),
      ("degeneracies", .seq ((e.degeneracies stats).map Data.str)),
      ("dataset_version_id", e.source "dataset_version_id"),
      ("engine_config_hash", e.source "engine_config_hash"),
      ("strategy_content_hash", e.source "strategy_content_hash")]

end WindowEvaluation

structure Candidate where
  strategyId : String
  contentHash : String
  defaultParams : Params
  grid : ParameterGrid
  named : strategyId ≠ ""
  hashed : contentHash ≠ ""
  canonical : canonicalParams defaultParams = defaultParams

end Fiboki
