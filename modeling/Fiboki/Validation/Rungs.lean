import Fiboki.Validation.Evaluation
import Fiboki.Validation.Report

/-!
The rungs of the validation ladder: what each one evaluates, the gate values it writes, and
what it concludes.
-/

namespace Fiboki

open Wire
open Floating (Number)

/-- Formats of numbers in reasons: `f"{x:.{digits}f}"`, `f"{x:.0%}"` and `repr` of a
parameter. -/
structure LadderText extends Numerals where
  fixed : ℕ → Number → String
  percent : Number → String
  reprParam : ParamValue → String

def intString (z : ℤ) : String := String.ofList (Json.intText z)

def natString (n : ℕ) : String := String.ofList (Json.natText n)

/-- `repr` of a list of texts. -/
def LadderText.reprNames (text : LadderText) (names : List String) : String :=
  "[" ++ ", ".intercalate (names.map fun s => text.reprParam (.str s)) ++ "]"

def numberData : Option Number → Data
  | some x => .float x
  | none => .none

def finiteOrNone : Option Number → Option Number
  | some x => if x.isfinite then some x else none
  | none => none

inductive WalkForwardScheme where
  | anchored
  | rolling

def WalkForwardScheme.value : WalkForwardScheme → String
  | .anchored => "anchored"
  | .rolling => "rolling"

structure LadderConfig where
  minTrades : Option ℤ
  selectionMetric : String
  walkForwardScheme : WalkForwardScheme
  walkForwardFolds : ℕ
  cvGroups : ℤ
  cvK : ℤ
  embargoPct : Number
  minPathPositiveFraction : Number
  stressSamples : ℤ
  stabilityRadius : ℤ
  cscvSplits : ℤ
  spaBootstraps : ℤ
  corrThreshold : Number
  externalTrialCount : ℤ
  holdoutMinTrades : ℤ
  seed : ℤ
  folds_le : 2 ≤ walkForwardFolds
  minTrades_le : ∀ m ∈ minTrades, 1 ≤ m
  cscv_even : cscvSplits % 2 = 0 ∧ 2 ≤ cscvSplits

namespace LadderConfig

variable (config : LadderConfig)

theorem le_of_mem_some {m : ℤ} (h : 1 ≤ m) : ∀ x ∈ some m, 1 ≤ x := by
  intro x hx
  rwa [← Option.mem_some.1 hx]

/-- `dataclasses.replace(config, min_trades=m)`. -/
def withMinTrades (m : ℤ) : Except String LadderConfig :=
  if h : 1 ≤ m then
    .ok { config with minTrades := some m, minTrades_le := le_of_mem_some h }
  else .error "min_trades must be >= 1"

def toDict : List (String × Data) :=
  [("min_trades", match config.minTrades with | some m => .int m | none => .none),
    ("selection_metric", .str config.selectionMetric),
    ("walk_forward_scheme", .str config.walkForwardScheme.value),
    ("walk_forward_folds", .int config.walkForwardFolds),
    ("cv_groups", .int config.cvGroups),
    ("cv_k", .int config.cvK),
    ("embargo_pct", .float config.embargoPct),
    ("min_path_positive_fraction", .float config.minPathPositiveFraction),
    ("stress_samples", .int config.stressSamples),
    ("stability_radius", .int config.stabilityRadius),
    ("cscv_splits", .int config.cscvSplits),
    ("spa_bootstraps", .int config.spaBootstraps),
    ("corr_threshold", .float config.corrThreshold),
    ("external_trial_count", .int config.externalTrialCount),
    ("holdout_min_trades", .int config.holdoutMinTrades),
    ("seed", .int config.seed)]

end LadderConfig

structure HoldoutSegment where
  datasetVersionId : String
  researchWindow : DateWindow
  window : DateWindow
  holdoutFraction : Number

inductive ClaimRefusal where
  | alreadyConsumed (message : String) (consumption : Data)
  | keyVersionMismatch (message expected : String) (found : List Data)
  | raised (message : String)

/-- A registry in a state: a claim names the dataset version and the content hash it is for,
and its labels. -/
structure HoldoutLedger (ρ : Type) where
  dbPath : Option String
  segment : ρ → String → Except String HoldoutSegment
  assertUntouched : ρ → String → DateWindow → Except String Unit
  claim : ρ → String → String → List (String × String) → ρ × Except ClaimRefusal String
  recordOutcome : ρ → String → Data → ρ × Except String Unit

structure WalkForwardFold (T : Type) where
  fold : ℕ
  train : DateWindow
  test : DateWindow
  trained : WindowEvaluation T
  oos : WindowEvaluation T
  fixed : WindowEvaluation T
  isRate : Number
  oosRate : Number
  fixedRate : Number
  rateBasis : String
  logRates : Option (Number × Number)
  oosSampleSize : Number

namespace WalkForwardFold

variable {T : Type}

def selectedParams (f : WalkForwardFold T) : Params := f.trained.params

end WalkForwardFold

structure LadderScratch (T : Type) where
  sweep : List (WindowEvaluation T)
  isBestIndex : Option ℕ
  trialSharpes : List Number
  crossTrialSharpeVariance : Number
  trialsMatrix : Option (List (List Number))
  trialsMatrixNote : Option String
  selectedParams : Option Params
  walkForwardFolds : List (WalkForwardFold T)
  selectedFull : Option (WindowEvaluation T)
  cvNSplits : ℕ
  pathSharpeVariance : Number
  nTrialsForDeflation : ℤ
  dsrVarianceSource : String

def LadderScratch.empty {T : Type} : LadderScratch T :=
  ⟨[], none, [], .fin 0, none, none, none, [], none, 0, .fin 0, 0, ""⟩

structure LadderContext (T ρ : Type) where
  candidate : Candidate
  evaluator : Params → DateWindow → WindowEvaluation T
  segment : HoldoutSegment
  config : LadderConfig
  ledger : HoldoutLedger ρ
  experimentId : String
  actor : String

structure LadderState (T ρ : Type) where
  gateValues : Dict String (Option Number)
  notApplicable : List String
  provenanceLabels : Dict String String
  scratch : LadderScratch T
  nEvaluations : ℕ
  registry : ρ

namespace LadderState

variable {T ρ : Type} (st : LadderState T ρ)

def start (registry : ρ) : LadderState T ρ := ⟨.empty, [], .empty, .empty, 0, registry⟩

def evaluated (n : ℕ) : LadderState T ρ := { st with nEvaluations := st.nEvaluations + n }

def setGate (metric : String) (value : Option Number) : LadderState T ρ :=
  { st with gateValues := st.gateValues.set metric value }

def label (metric : String) (provenance : Provenance) : LadderState T ρ :=
  { st with provenanceLabels := st.provenanceLabels.set metric provenance.value }

def measured (provenance : Provenance) (metric : String) (value : Option Number) :
    LadderState T ρ :=
  (st.setGate metric value).label metric provenance

def mark (names : List String) : LadderState T ρ :=
  { st with notApplicable := st.notApplicable ++ names }

def write (f : LadderScratch T → LadderScratch T) : LadderState T ρ :=
  { st with scratch := f st.scratch }

def setRegistry (registry : ρ) : LadderState T ρ := { st with registry }

end LadderState

/-- The first of the greatest, as `max` over the indices with ties to the first. -/
def firstMax (scores : List Number) : ℕ :=
  match scores with
  | [] => 0
  | s :: rest =>
    (rest.zipIdx 1).foldl
      (fun best e => if Number.lt best.1 e.1 then e else best) (s, 0) |>.2

namespace LadderContext

variable {T ρ : Type} (stats : Statistics T) (ctx : LadderContext T ρ)

def researchWindow : DateWindow := ctx.segment.researchWindow

def sweep (window : DateWindow) : List (WindowEvaluation T) :=
  ctx.candidate.grid.points.map fun p => ctx.evaluator p window

def select (evaluations : List (WindowEvaluation T)) : Except String ℕ := do
  let scores ← evaluations.mapM fun e => e.metric stats ctx.config.selectionMetric
  if scores = [] then .error "max() arg is an empty sequence" else .ok (firstMax scores)

end LadderContext

structure RungHead where
  index : ℤ
  name : String
  provenance : Provenance
  isEvidence : Bool

namespace RungHead

variable (head : RungHead)

def pass (metrics : List (String × Data)) : RungResult :=
  ⟨head.index, head.name, .pass, "", .mapping metrics, head.provenance, head.isEvidence, nofun⟩

def notReached : RungResult :=
  ⟨head.index, head.name, .notReached, "", .mapping [], head.provenance, head.isEvidence, nofun⟩

def rejected (outcome : RungOutcome) (reason : String) (metrics : List (String × Data)) :
    Except String RungResult :=
  if h : reason = "" then .error "a rung that rejects must record a reason"
  else .ok ⟨head.index, head.name, outcome, reason, .mapping metrics, head.provenance,
    head.isEvidence, fun _ => h⟩

def fail (reason : String) (metrics : List (String × Data)) : Except String RungResult :=
  head.rejected .fail reason metrics

def error_ (reason : String) (metrics : List (String × Data)) : Except String RungResult :=
  head.rejected .error reason metrics

end RungHead

structure Rung (T ρ : Type) where
  head : RungHead
  run : LadderContext T ρ → LadderState T ρ → Except String (RungResult × LadderState T ρ)

variable {T ρ : Type} (text : LadderText) (stats : Statistics T)

def minTrl95 (e : WindowEvaluation T) : Option Number × List (String × Data) :=
  let basis : List (String × Data) :=
    [("formula", .str "1 + [1 - g3*SR + (g4-1)/4*SR^2] * (Z/SR)^2, SR* = 0"),
      ("confidence", .float (.fin (19 / 20))),
      ("floor_trades", .int GateSet.minTrlFloorTrades)]
  let series : Option (List Number × String) :=
    if e.trades ≠ [] then some (e.trades.map stats.netPnl, "Trade.net_pnl")
    else if e.returnsBasis = .trade then some (e.returns, "returns (trade basis)")
    else none
  match series with
  | none => (none, basis ++ [("series", .str "none: period returns without Trade objects")])
  | some (series, name) =>
    let basis := basis ++ [("series", .str name)]
    if series.length < 2 then
      (none, basis ++ [("undefined", .str (natString series.length ++ " trades"))])
    else
      match stats.sharpeMoments series with
      | .error exc => (none, basis ++ [("undefined", .str exc)])
      | .ok moments =>
        let basis := basis ++ [("per_trade_sharpe", .float moments.srHat),
            ("skew", .float moments.skew),
            ("kurtosis", .float moments.kurtosis),
            ("n_trades", .int moments.nObs)]
        if Number.le moments.srHat (.fin 0) then
          (none, basis ++ [("undefined", .str "per-trade Sharpe <= 0")])
        else
          match stats.minimumTrackRecordLength moments.srHat (.fin 0) moments.skew
            moments.kurtosis (.fin (19 / 20)) with
          | .error exc => (none, basis ++ [("undefined", .str exc)])
          | .ok trl => (finiteOrNone (some trl), basis)

/-- `float(n_sample) / max(min_trl, floor)`. -/
def overMinTrl (nSample : Number) (minTrl : Option Number) : Option Number :=
  minTrl.map fun trl =>
    let floor : Number := .fin GateSet.minTrlFloorTrades
    nSample / (if Number.lt trl floor then floor else trl)

namespace SanityRung

def head : RungHead := ⟨0, "SANITY", .backtest, true⟩

def counted (baseline : WindowEvaluation T) (nSample : Number) : String :=
  if baseline.isPooled then
    text.fixed 1 nSample ++ " effective trades (" ++ intString baseline.nTrades ++ " pooled)"
  else intString baseline.nTrades ++ " trades"

def conclude (config : LadderConfig) (baseline : WindowEvaluation T) (nSample : Number)
    (metrics : List (String × Data)) : Except String RungResult :=
  let degeneracies := baseline.degeneracies stats
  if degeneracies ≠ [] then
    head.fail ("degenerate metrics at defaults: " ++ ", ".intercalate degeneracies ++
      ". A statistic computed from these numbers would be decoration.") metrics
  else
    match config.minTrades with
    | none =>
      head.error_ ("LadderConfig.min_trades is unresolved (None): run the rung through " ++
        "ValidationLadder, which sets it from the gate set in force") metrics
    | some floor =>
      if Number.lt nSample (.fin floor) then
        head.fail (counted text baseline nSample ++ " at declared defaults, below the " ++
          intString floor ++ " minimum. V1 promoted on 80 trades; at " ++
          "this search scale that cannot separate an edge from the best of " ++
          "many coin flips.") metrics
      else if Number.le baseline.expectancy (.fin 0) then
        head.fail ("expectancy " ++ text.general 6 baseline.expectancy ++
          " at declared defaults is not positive; there is no edge to validate.") metrics
      else .ok (head.pass metrics)

def metrics (config : LadderConfig) (baseline : WindowEvaluation T) (nSample : Number)
    (summary : Data) : List (String × Data) :=
  let (minTrl, minTrlBasis) := minTrl95 stats baseline
  [("baseline", summary),
    ("n_trades", .int baseline.nTrades),
    ("expectancy", .float baseline.expectancy),
    ("net_profit", .float baseline.netProfit),
    ("min_trades_required", match config.minTrades with | some m => .int m | none => .none),
    ("min_trl_95", numberData minTrl),
    ("n_trades_over_min_trl", numberData (overMinTrl nSample minTrl)),
    ("min_trl_basis", .mapping minTrlBasis)] ++
  if baseline.isPooled then
    [("n_trades_effective", .float nSample),
      ("design_effect", match baseline.metadata.get "design_effect" with
        | some v => .ofValue v
        | none => .none)]
  else []

def run (ctx : LadderContext T ρ) (st : LadderState T ρ) :
    Except String (RungResult × LadderState T ρ) := do
  let baseline := ctx.evaluator ctx.candidate.defaultParams ctx.researchWindow
  let nSample ← baseline.nTradesEffective text.toNumerals
  let minTrl := (minTrl95 stats baseline).1
  let st := (((st.evaluated 1).measured .backtest "n_trades" (some nSample)).measured .backtest
    "min_trl_95" minTrl).measured .backtest "n_trades_over_min_trl" (overMinTrl nSample minTrl)
  let summary ← baseline.summary text.toNumerals stats
  let result ← conclude text stats ctx.config baseline nSample
    (metrics stats ctx.config baseline nSample summary)
  .ok (result, st)

end SanityRung

/-- `_trials_matrix`: the columns of the trials, or why there is no matrix. -/
def trialsMatrix (text : LadderText) (sweep : List (WindowEvaluation T)) :
    Option (List (List Number)) × String :=
  match sweep with
  | [] => (none, "the sweep was empty")
  | e :: rest =>
    let bases := (sweep.map fun e => e.returnsBasis.value).eraseDups
    if bases ≠ ["period"] then
      (none, "returns_basis is " ++ text.reprNames (bases.insertionSort fun a b => a ≤ b) ++
        "; only 'period' returns share a calendar across parameterisations")
    else
      let lengths := (sweep.map fun e => e.returns.length).eraseDups
      if lengths.length ≠ 1 then
        (none, "period returns have differing lengths [" ++
          ", ".intercalate ((lengths.insertionSort fun a b => a ≤ b).map natString) ++ "]")
      else if lengths = [0] then (none, "period returns are empty")
      else
        (some (sweep.map WindowEvaluation.returns),
          if rest = [] then "single-column (no search)"
          else natString e.returns.length ++ " periods x " ++ natString sweep.length ++ " trials")

namespace InSampleScreenRung

def head : RungHead := ⟨1, "IN_SAMPLE_SCREEN", .backtest, false⟩

def conclude (config : LadderConfig) (best : WindowEvaluation T)
    (metrics : List (String × Data)) : Except String RungResult := do
  let score ← best.metric stats config.selectionMetric
  if Number.le score (.fin 0) then
    head.fail ("no parameterisation inside the domains the document declares is " ++
      "positive in sample on " ++ config.selectionMetric ++ "; there is " ++
      "nothing for the later rungs to test.") metrics
  else .ok (head.pass metrics)

def run (ctx : LadderContext T ρ) (st : LadderState T ρ) :
    Except String (RungResult × LadderState T ρ) := do
  let sweep := ctx.sweep ctx.researchWindow
  let best ← ctx.select stats sweep
  let sharpes ← sweep.mapM fun e => e.sharpe stats
  let variance := if 1 < sharpes.length then stats.variance sharpes else .fin 0
  let (matrix, matrixNote) := trialsMatrix text sweep
  let st := (st.evaluated sweep.length).write fun scratch =>
    { scratch with
      sweep := sweep
      isBestIndex := some best
      trialSharpes := sharpes
      crossTrialSharpeVariance := variance
      trialsMatrix := matrix
      trialsMatrixNote := some matrixNote }
  match sweep[best]? with
  | none => .error "list index out of range"
  | some winner => do
    let summary ← winner.summary text.toNumerals stats
    let metrics : List (String × Data) :=
      [("SCREEN_NOT_EVIDENCE", .str ("In-sample results select; they do not demonstrate. " ++
          "Nothing on this rung may be quoted as performance.")),
        ("n_trials", .int sweep.length),
        ("grid", ctx.candidate.grid.toDict),
        ("best_index", .int best),
        ("best_params", winner.params.data),
        ("best_in_sample", summary),
        ("cross_trial_sharpe_variance", .float variance),
        ("trials_matrix", .str matrixNote)]
    let result ← conclude stats ctx.config winner metrics
    .ok (result, st)

end InSampleScreenRung

/-- `_opening_equity`: the equity an evaluation recorded that it started from. -/
def openingEquity (text : LadderText) (e : WindowEvaluation T) : Option Number :=
  match e.metadata.get "opening_equity" with
  | none | some .null => none
  | some raw =>
    match text.float raw with
    | .error _ => none
    | .ok value => if value.isfinite && Number.lt (.fin 0) value then some value else none

/-- `_growth_rate`: log growth per day, or profit per day without an opening equity. -/
def growthRate (e : WindowEvaluation T) : Number :=
  match openingEquity text e with
  | none => e.profitPerDay
  | some opening =>
    let closing := opening + e.netProfit
    if Number.le closing (.fin 0) then .inf true
    else stats.log (closing / opening) / e.window.days

/-- `_fold_rates`: in sample, out of sample and contrast, on one basis. -/
def foldRates (isEv oosEv fixedEv : WindowEvaluation T) : Number × Number × Number × String :=
  if (openingEquity text isEv).isSome && (openingEquity text oosEv).isSome &&
      (openingEquity text fixedEv).isSome then
    (growthRate text stats isEv, growthRate text stats oosEv, growthRate text stats fixedEv,
      "log_growth_per_day")
  else (isEv.profitPerDay, oosEv.profitPerDay, fixedEv.profitPerDay, "profit_per_day")

def logGrowthRates (isEv oosEv : WindowEvaluation T) : Option (Number × Number) :=
  if (openingEquity text isEv).isNone || (openingEquity text oosEv).isNone then none
  else some (growthRate text stats isEv, growthRate text stats oosEv)

/-- `_efficiency`: mean out-of-sample rate over mean in-sample rate, in percent. -/
def efficiency (isRates oosRates : List Number) : Number :=
  let meanIs := stats.mean isRates
  let meanOos := stats.mean oosRates
  if !meanIs.isfinite || Number.le meanIs (.fin 0) then .nan
  else if !meanOos.isfinite then .nan
  else .fin 100 * meanOos / meanIs

def paramsKey (text : LadderText) (params : Params) : String :=
  "|".intercalate (params.entries.map fun e => e.1 ++ "=" ++ text.reprParam e.2.canonical)

/-- `_modal_params`: chosen most often, ties to the earliest fold. -/
def modalParams (text : LadderText) (perFold : List Params) : Params :=
  let keys := perFold.map (paramsKey text)
  (perFold[firstMax (keys.map fun k => .fin (keys.count k))]?).getD .empty

def paramAgreement (text : LadderText) (perFold : List Params) : Data :=
  let keys := perFold.map (paramsKey text)
  .mapping
    [("n_folds", .int perFold.length),
      ("n_distinct_selections", .int keys.eraseDups.length),
      ("modal_share", .float (.fin (if keys = [] then 0
        else (keys.count (paramsKey text (modalParams text perFold)) : ℚ) / keys.length))),
      ("note", .str ("n_distinct_selections equal to n_folds means every fold chose " ++
        "differently: the surface has no stable optimum and the selection " ++
        "step is fitting noise."))]

def fraction {α : Type} (p : α → Bool) (xs : List α) : Number :=
  .fin ((xs.countP p : ℚ) / xs.length)

/-- `min(xs)`. -/
def leastOf (xs : List Number) : Option Number :=
  match xs with
  | [] => none
  | x :: rest => some (rest.foldl (fun least y => if Number.lt y least then y else least) x)

namespace WalkForwardRung

def head : RungHead := ⟨2, "WALK_FORWARD", .walkforward, true⟩

def fold (ctx : LadderContext T ρ) (slices : List DateWindow) (i : ℕ) :
    Except String (WalkForwardFold T) :=
  match slices.head?, slices[i]?, slices[i + 1]? with
  | some first, some last, some next => do
    let opening := match ctx.config.walkForwardScheme with
      | .anchored => first
      | .rolling => last
    let train ← DateWindow.make ("wf_train_" ++ natString i) opening.start last.stop
    let test ← DateWindow.make ("wf_test_" ++ natString i) next.start next.stop
    let sweep := ctx.sweep train
    let chosen ← ctx.select stats sweep
    match sweep[chosen]? with
    | none => .error "list index out of range"
    | some trained => do
      let oos := ctx.evaluator trained.params test
      let fixed := ctx.evaluator ctx.candidate.defaultParams test
      let (isRate, oosRate, fixedRate, basis) := foldRates text stats trained oos fixed
      let sampleSize ← oos.nTradesEffective text.toNumerals
      .ok ⟨i, train, test, trained, oos, fixed, isRate, oosRate, fixedRate, basis,
        logGrowthRates text stats trained oos, sampleSize⟩
  | _, _, _ => .error "list index out of range"

def foldRow (f : WalkForwardFold T) : Except String Data := do
  let oosSharpe ← f.oos.sharpe stats
  .ok <| .mapping <| [("fold", .int f.fold),
      ("train", f.train.toDict text.toNumerals),
      ("test", f.test.toDict text.toNumerals),
      ("selected_params", f.selectedParams.data),
      ("rate_basis", .str f.rateBasis),
      ("is_rate", .float f.isRate),
      ("is_profit_per_day", .float f.trained.profitPerDay),
      ("is_net_profit", .float f.trained.netProfit),
      ("oos_rate", .float f.oosRate),
      ("oos_profit_per_day", .float f.oos.profitPerDay),
      ("oos_net_profit", .float f.oos.netProfit),
      ("oos_trades", .int f.oos.nTrades),
      ("oos_sharpe", .float oosSharpe),
      ("fixed_param_oos_rate", .float f.fixedRate),
      ("fixed_param_oos_net_profit", .float f.fixed.netProfit)] ++
    if f.oos.isPooled then [("oos_trades_effective", .float f.oosSampleSize)] else []

def positive (x : Number) : Bool := Number.lt (.fin 0) x

def logEfficiency (folds : List (WalkForwardFold T)) : Option Number :=
  let complete := folds.filterMap WalkForwardFold.logRates
  finiteOrNone <| some <|
    if complete ≠ [] ∧ complete.length = folds.length then
      efficiency stats (complete.map Prod.fst) (complete.map Prod.snd)
    else .nan

def conclude (wfe : Number) (metrics : List (String × Data)) : Except String RungResult :=
  if wfe.isfinite then .ok (head.pass metrics)
  else head.error_ ("walk-forward efficiency is not finite; the in-sample profit rate " ++
    "was zero or non-finite, so the ratio has no meaning.") metrics

def run (ctx : LadderContext T ρ) (st : LadderState T ρ) :
    Except String (RungResult × LadderState T ρ) := do
  let cfg := ctx.config
  let slices ← ctx.researchWindow.slices stats.edge (cfg.walkForwardFolds + 1) "wf"
  let folds ← (List.range cfg.walkForwardFolds).mapM (fold text stats ctx slices)
  let rows ← folds.mapM (foldRow text stats)
  let wfe := efficiency stats (folds.map WalkForwardFold.isRate) (folds.map WalkForwardFold.oosRate)
  let hit := fraction (fun f => positive f.oos.netProfit) folds
  let fixedHit := fraction (fun f => positive f.fixed.netProfit) folds
  let wfeLog := logEfficiency stats folds
  let minOosTrades := leastOf (folds.map WalkForwardFold.oosSampleSize)
  let nProfitable := folds.countP fun f => positive f.oos.netProfit
  let hitWilson ← stats.wilsonLowerBound nProfitable folds.length (.fin (19 / 20))
  let perFold := folds.map WalkForwardFold.selectedParams
  let selected := modalParams text perFold
  let st := (st.evaluated (cfg.walkForwardFolds * (ctx.candidate.grid.fullSize + 2))).write
    fun scratch => { scratch with selectedParams := some selected, walkForwardFolds := folds }
  let st := ((((st.measured .walkforward "walk_forward_efficiency" (some wfe)).measured
    .walkforward "oos_profitable_fraction" (some hit)).measured
    .walkforward "walk_forward_efficiency_log_growth" wfeLog).measured
    .walkforward "walk_forward_min_oos_trades" minOosTrades).measured
    .walkforward "oos_profitable_fraction_wilson_lower" hitWilson
  let metrics : List (String × Data) :=
    [("scheme", .str cfg.walkForwardScheme.value),
      ("n_folds", .int cfg.walkForwardFolds),
      ("folds", .seq rows),
      ("walk_forward_efficiency", .float wfe),
      ("walk_forward_efficiency_basis", .seq
        (((folds.map WalkForwardFold.rateBasis).eraseDups.insertionSort fun a b => a ≤ b).map
          Data.str)),
      ("oos_profitable_fraction", .float hit),
      ("walk_forward_efficiency_log_growth", numberData wfeLog),
      ("walk_forward_min_oos_trades", numberData minOosTrades),
      ("oos_profitable_windows", .int nProfitable),
      ("oos_profitable_fraction_wilson_lower", numberData hitWilson),
      ("mean_is_rate", .float (stats.mean (folds.map WalkForwardFold.isRate))),
      ("mean_oos_rate", .float (stats.mean (folds.map WalkForwardFold.oosRate))),
      ("selected_params", selected.data),
      ("parameter_stability_across_folds", paramAgreement text perFold),
      ("CONTRAST_fixed_parameter_oos_rate",
        .float (stats.mean (folds.map WalkForwardFold.fixedRate))),
      ("CONTRAST_fixed_parameter_hit_rate", .float fixedHit),
      ("CONTRAST_note", .str ("The CONTRAST_* figures re-run the DEFAULT parameters on the same " ++
        "test windows -- what V1 called walk-forward. They are diagnostics " ++
        "only: a candidate whose contrast figures are healthy while its " ++
        "true walk-forward figures are not was being selected on noise."))]
  let result ← conclude wfe metrics
  .ok (result, st)

end WalkForwardRung

def sharpeOrNan (returns : List Number) : Number :=
  match stats.sharpeMoments returns with
  | .ok moments => moments.srHat
  | .error _ => .nan

def rowsOf (column : List Number) (rows : List ℕ) : List Number :=
  rows.filterMap fun i => column[i]?

/-- `_select_column`: the best column of a block, ties to the lowest index. -/
def selectColumn (block : List (List Number)) (metric : String) : ℕ :=
  let nRows := (block.head?.getD []).length
  if nRows = 0 then 0
  else
    let scores := block.map fun column =>
      if metric = "net_profit" then stats.sum column
      else if metric = "expectancy" ∨ metric = "profit_per_day" then stats.mean column
      else if 1 < nRows then sharpeOrNan stats column
      else .fin 0
    firstMax (scores.map fun score => if score.isfinite then score else .inf true)

def spansFor (e : WindowEvaluation T) (nRows : ℕ) : SpanSource T × String :=
  if e.trades ≠ [] ∧ e.trades.length = nRows then
    (.trades e.trades, "trade spans (entry -> exit), one trade per row")
  else (.periods nRows, "unit-length period spans")

namespace PurgedCVRung

def head : RungHead := ⟨3, "PURGED_CV", .outOfSample, true⟩

def pathSharpe (joined : List Number) : Number × Bool :=
  let sharpe := if 1 < joined.length then sharpeOrNan stats joined else .fin 0
  if sharpe = .nan then (.fin 0, true) else (sharpe, false)

def joined (matrix : List (List Number)) (cv : PurgedSplits) (chosen : List ℕ)
    (path : List (ℕ × ℕ)) : List Number :=
  path.flatMap fun e =>
    rowsOf ((matrix[(chosen[e.1]?).getD 0]?).getD []) (cv.groupIndices e.2)

def intSeq (xs : List ℕ) : Data := .seq (xs.map fun n => .int n)

def conclude (cfg : LadderConfig) (positive : Number) (nPaths : ℕ)
    (metrics : List (String × Data)) : Except String RungResult :=
  if Number.lt positive cfg.minPathPositiveFraction then
    head.fail ("only " ++ text.percent positive ++ " of " ++
      natString nPaths ++ " backtest paths had a positive " ++
      "Sharpe, below the " ++ text.percent cfg.minPathPositiveFraction ++ " the ladder " ++
      "requires. The result depends on which path the sample happened to be.") metrics
  else .ok (head.pass metrics)

def validate (cfg : LadderConfig) (st : LadderState T ρ) (full : WindowEvaluation T)
    (matrix : List (List Number)) (basis : String) (selectionRepeated : Bool) :
    Except String (RungResult × LadderState T ρ) :=
  let nRows := (matrix.head?.getD []).length
  if (nRows : ℤ) < cfg.cvGroups * 2 then do
    let result ← head.error_ (natString nRows ++ " samples cannot be split into " ++
      intString cfg.cvGroups ++ " purged " ++
      "groups with anything left to estimate a Sharpe from.")
      [("n_samples", .int nRows), ("cv_groups", .int cfg.cvGroups)]
    .ok (result, st)
  else do
    let (spans, spanBasis) := spansFor full nRows
    let cv ← stats.combinatorialPurgedCv spans cfg.cvGroups cfg.cvK cfg.embargoPct
    let chosen := cv.splits.map fun s =>
      selectColumn stats (matrix.map fun column => rowsOf column s.train) cfg.selectionMetric
    let paths := cv.pathMap.map fun path => pathSharpe stats (joined matrix cv chosen path)
    let sharpes := paths.map Prod.fst
    let positive := if sharpes = [] then .fin 0 else fraction WalkForwardRung.positive sharpes
    let variance := if 1 < sharpes.length then stats.variance sharpes else .fin 0
    let st := st.write fun scratch =>
      { scratch with cvNSplits := cv.splits.length, pathSharpeVariance := variance }
    let metrics : List (String × Data) :=
      [("basis", .str basis),
        ("span_basis", .str spanBasis),
        ("selection_repeated_per_split", .bool selectionRepeated),
        ("n_paths", .int sharpes.length),
        ("n_samples", .int nRows),
        ("n_groups", .int cfg.cvGroups),
        ("k", .int cfg.cvK),
        ("embargo_pct", .float cfg.embargoPct),
        ("n_purged", intSeq (cv.splits.map CombinatorialSplit.nPurged)),
        ("n_embargoed", intSeq (cv.splits.map CombinatorialSplit.nEmbargoed)),
        ("columns_selected_per_split", intSeq chosen),
        ("n_distinct_column_selections", .int chosen.eraseDups.length),
        ("path_columns", .seq (cv.pathMap.map fun path =>
          intSeq (path.map fun e => (chosen[e.1]?).getD 0))),
        ("path_sharpes", .seq (sharpes.map Data.float)),
        ("n_undefined_path_sharpes", .int (paths.countP Prod.snd)),
        ("mean_path_sharpe", .float (if sharpes = [] then .fin 0 else stats.mean sharpes)),
        ("min_path_sharpe", .float ((leastOf sharpes).getD (.fin 0))),
        ("path_sharpe_variance", .float variance),
        ("positive_path_fraction", .float positive),
        ("min_positive_path_fraction_required", .float cfg.minPathPositiveFraction),
        ("NOTE", .str ("min_positive_path_fraction is a LADDER CONFIG check, not one of " ++
          "the versioned promotion gates."))]
    let result ← conclude text cfg positive sharpes.length metrics
    .ok (result, st)

def run (ctx : LadderContext T ρ) (st : LadderState T ρ) :
    Except String (RungResult × LadderState T ρ) :=
  let selected := st.scratch.selectedParams.getD ctx.candidate.defaultParams
  let full := ctx.evaluator selected ctx.researchWindow
  let st := (st.evaluated 1).write fun scratch => { scratch with selectedFull := some full }
  match st.scratch.trialsMatrix with
  | none =>
    if full.returns = [] then do
      let result ← head.error_ ("the selected parameterisation produced no returns over the " ++
        "research window; there is nothing to cross-validate.")
        [("selected_params", selected.data)]
      .ok (result, st)
    else
      validate text stats ctx.config st full [full.returns]
        ("single column: " ++ st.scratch.trialsMatrixNote.getD "no aligned trials" ++
          " -- paths differ only in purging, not in selection") false
  | some matrix =>
    validate text stats ctx.config st full matrix
      (natString (matrix.head?.getD []).length ++ " periods x " ++ natString matrix.length ++
        " trials, re-selected per split") (decide (1 < matrix.length))

end PurgedCVRung

def spreadMultipliers : List Number := [.fin 1, .fin (3 / 2), .fin 2, .fin 3]

def plateauGateNames : List String :=
  ["parameter_plateau", "plateau_neighbourhood_median", "plateau_neighbourhood_min"]

structure ParameterPoint extends Neighbourhood where
  params : Dict String Number
  score : Number

/-- `{k: float(v) for k, v in params.items()}`. -/
def floatParams (text : LadderText) (params : Params) : Except String (Dict String Number) := do
  let entries ← params.entries.mapM fun e => do
    let x ← text.float e.2.value
    .ok (e.1, x)
  .ok (Dict.ofList entries)

/-- `analyse_parameter_stability`: the points in the order of the grid. -/
def analyseParameterStability (points : List Params) (scores : List Number) (radius : ℤ) :
    Except String (List ParameterPoint) := do
  stats.stabilityGrid points scores radius
  (points.zip scores).zipIdx.mapM fun e => do
    let params ← floatParams text e.1.1
    .ok ⟨stats.neighbourhood points scores radius e.2, params, e.1.2⟩

def firstMaxBy (first second : ParameterPoint → Number) (p : ParameterPoint)
    (rest : List ParameterPoint) : ParameterPoint :=
  rest.foldl
    (fun best q =>
      if first q = first best then
        (if Number.lt (second best) (second q) then q else best)
      else if Number.lt (first best) (first q) then q
      else best) p

/-- What rung 4 says of the plateau of the selected parameters. -/
inductive Plateau where
  | notApplicable (reason : String)
  | point (chosen : ParameterPoint) (medianRatio : Number) (nIsolatedPeaks : ℕ)
      (bestByPlateau : ParameterPoint)

namespace Plateau

def params (d : Dict String Number) : Data :=
  .mapping (d.entries.map fun e => (e.1, Data.float e.2))

def toDict : Plateau → Data
  | notApplicable reason =>
    .mapping
      [("not_applicable", .bool true),
        ("reason", .str reason),
        ("point_plateau_ratio", .none),
        ("plateau_neighbourhood_median_ratio", .none),
        ("plateau_neighbourhood_min", .none)]
  | point chosen medianRatio nIsolatedPeaks bestByPlateau =>
    .mapping
      [("not_applicable", .bool false),
        ("params", params chosen.params),
        ("score", .float chosen.score),
        ("plateau_mean", .float chosen.plateauMean),
        ("plateau_mean_excluding", .float chosen.plateauMeanExcluding),
        ("plateau_std", .float chosen.plateauStd),
        ("point_plateau_ratio", .float chosen.pointPlateauRatio),
        ("point_plateau_ratio_definition", .str "excluding_point_additive_floor_v2"),
        ("point_plateau_ratio_inclusive", .float chosen.pointPlateauRatioInclusive),
        ("plateau_quality", .float chosen.plateauQuality),
        ("is_isolated_peak", .bool chosen.isIsolatedPeak),
        ("plateau_median_excluding", .float chosen.plateauMedianExcluding),
        ("plateau_neighbourhood_median_ratio", .float medianRatio),
        ("plateau_neighbourhood_min", .float chosen.plateauMinExcluding),
        ("n_isolated_peaks_in_grid", .int nIsolatedPeaks),
        ("best_by_plateau_params", params bestByPlateau.params)]

def pointPlateauRatio : Plateau → Option Number
  | notApplicable _ => none
  | point chosen _ _ _ => some chosen.toNeighbourhood.pointPlateauRatio

def neighbourhoodMedianRatio : Plateau → Option Number
  | notApplicable _ => none
  | point _ medianRatio _ _ => some medianRatio

def neighbourhoodMin : Plateau → Option Number
  | notApplicable _ => none
  | point chosen _ _ _ => some chosen.plateauMinExcluding

def marks : Plateau → List String
  | notApplicable _ => plateauGateNames
  | point _ _ _ _ => []

end Plateau

namespace RobustnessRung

def head : RungHead := ⟨4, "ROBUSTNESS", .backtest, true⟩

def noPlateau (text : LadderText) (grid : ParameterGrid) (swept : Bool) : Option String :=
  let numeric := grid.numericNames
  if swept = false ∨ numeric = [] ∨ numeric ≠ grid.names then
    some ("parameter plateau needs a fully numeric declared grid; this " ++
      "candidate declares axes " ++ text.reprNames grid.names ++ " of which " ++
      text.reprNames numeric ++ " are numeric.")
  else if grid.fullSize < 3 then
    some ("a " ++ natString grid.fullSize ++ "-point grid has no neighbourhood to be a " ++
      "plateau in.")
  else none

def plateau (ctx : LadderContext T ρ) (scratch : LadderScratch T) : Except String Plateau :=
  match noPlateau text ctx.candidate.grid (!scratch.sweep.isEmpty) with
  | some reason => .ok (.notApplicable reason)
  | none => do
    let scores ← scratch.sweep.mapM fun e => e.metric stats ctx.config.selectionMetric
    let points ← analyseParameterStability text stats (scratch.sweep.map WindowEvaluation.params)
      scores ctx.config.stabilityRadius
    match points with
    | [] => .error "parameter grid is empty"
    | p :: rest => do
      let selected := match scratch.selectedParams with
        | some params => if params.entries = [] then ((scratch.sweep.map
            WindowEvaluation.params)[scratch.isBestIndex.getD 0]?).getD .empty else params
        | none => ((scratch.sweep.map
            WindowEvaluation.params)[scratch.isBestIndex.getD 0]?).getD .empty
      let target ← floatParams text selected
      let byScore := firstMaxBy ParameterPoint.score (fun q => -q.plateauStd) p rest
      let byPlateau := firstMaxBy (fun q => q.plateauQuality) ParameterPoint.score p rest
      let chosen := (points.find? fun q => decide (q.params = target)).getD byScore
      .ok (.point chosen
        (stats.neighbourhoodMedianRatio chosen.score chosen.plateauMedianExcluding)
        (points.countP fun q => q.isIsolatedPeak) byPlateau)

def curveData (c : StressCurve) : Data :=
  .mapping
    [("levels", .seq (c.levels.map Data.float)),
      ("median", .seq (c.median.map Data.float)),
      ("retention", .seq (c.retention.map Data.float)),
      ("breaking_level", numberData c.breakingLevel)]

def stresses (cfg : LadderConfig) (trades : List T) :
    Except String (Number × List (String × StressCurve)) := do
  let rng := stats.defaultRng cfg.seed
  let (spread, rng) ← stats.spreadMultiplierStress trades spreadMultipliers rng
  let (slippage, rng) ← stats.slippageStress trades rng
  let (capture, rng) ← stats.executionDelayStress trades "capture" rng
  let (adverse, rng) ← stats.executionDelayStress trades "adverse" rng
  let (deletion, _) ← stats.randomDeletionStress trades cfg.stressSamples rng
  let startDate ← stats.startDateStress trades
  let endDate ← stats.endDateStress trades
  match spread.median[2]? with
  | none => .error "index out of range"
  | some twoX =>
    .ok (twoX, [("spread_multiplier", spread),
        ("slippage", slippage),
        ("execution_delay_capture", capture),
        ("execution_delay_adverse", adverse),
        ("random_deletion", deletion),
        ("start_date", startDate),
        ("end_date", endDate)])

def conclude (plateau : Plateau) (metrics : List (String × Data)) : Except String RungResult :=
  match plateau with
  | .notApplicable _ => .ok (head.pass metrics)
  | .point chosen _ _ _ =>
    if chosen.isIsolatedPeak then
      head.fail ("the selected parameterisation is an ISOLATED PEAK: its " ++
        "neighbourhood averages " ++ text.general 4 chosen.plateauMeanExcluding ++ " " ++
        "against its own " ++ text.general 4 chosen.score ++ ". A point that good only " ++
        "at itself is a fit to this sample.") metrics
    else .ok (head.pass metrics)

def run (ctx : LadderContext T ρ) (st : LadderState T ρ) :
    Except String (RungResult × LadderState T ρ) :=
  let trades := (st.scratch.selectedFull.map WindowEvaluation.trades).getD []
  if trades = [] then do
    let st := st.setGate "net_profit_at_2x_spread" none
    let result ← head.error_ ("the evaluator returned no Trade objects, so cost, delay and " ++
      "deletion stresses cannot be applied. The 2x-spread gate fails " ++
      "CLOSED rather than being assumed.")
      [("note", .str "supply trades in WindowEvaluation.trades to run rung 4")]
    .ok (result, st)
  else do
    let (twoX, curves) ← stresses stats ctx.config trades
    let plateau ← plateau text stats ctx st.scratch
    let st := (((st.measured .backtest "net_profit_at_2x_spread" (some twoX)).measured
      .backtest "point_plateau_ratio" plateau.pointPlateauRatio).measured
      .backtest "plateau_neighbourhood_median_ratio"
        (finiteOrNone plateau.neighbourhoodMedianRatio)).measured
      .backtest "plateau_neighbourhood_min" (finiteOrNone plateau.neighbourhoodMin)
    let st := st.mark plateau.marks
    let metrics : List (String × Data) :=
      [("baseline_net_profit", .float (stats.netProfit trades)),
        ("stress", .mapping (curves.map fun c => (c.1, curveData c.2))),
        ("net_profit_at_2x_spread", .float twoX),
        ("plateau", plateau.toDict)]
    let result ← conclude text plateau metrics
    .ok (result, st)

end RobustnessRung

def familyGateNames : List String := ["pbo", "spa_consistent_p", "stepm_survivor"]

namespace DeflationRung

def head : RungHead := ⟨5, "DEFLATION", .outOfSample, true⟩

def closed (st : LadderState T ρ) : LadderState T ρ :=
  ["deflated_sharpe_ratio", "pbo", "spa_p_consistent", "stepm_member",
    "deflated_sharpe_ratio_family_n"].foldl (fun st name => st.setGate name none) st

def clustering (cfg : LadderConfig) (matrix : List (List Number)) : Except String (ℤ × Data) :=
  if 2 ≤ matrix.length then do
    let eff ← stats.effectiveTrials matrix cfg.corrThreshold
    .ok (eff.nEffective, .mapping
      [("n_trials", .int eff.nTrials),
        ("n_effective", .int eff.nEffective),
        ("redundancy", .float eff.redundancy),
        ("mean_abs_correlation", .float eff.meanAbsCorrelation)])
  else
    .ok (1, .mapping [("note",
      .str "a single-point grid is not a search; N comes from the campaign")])

def varianceTerm (pathVar crossVar : Number) : Number × String :=
  let srVariance := if Number.lt pathVar crossVar then crossVar else pathVar
  (srVariance,
    if Number.le srVariance (.fin 0) then "degenerate_zero_variance"
    else if Number.le crossVar pathVar then
      "max(cpcv_path_sharpes, cross_trial_sharpes) -> cpcv_path_sharpes"
    else "max(cpcv_path_sharpes, cross_trial_sharpes) -> cross_trial_sharpes")

/-- `_own_family_trials`: the trials this ladder performed. -/
def ownFamilyTrials (scratch : LadderScratch T) : ℤ × List (String × Data) :=
  let gridPoints := scratch.sweep.length
  let wfFits := scratch.walkForwardFolds.length
  let cvFits := scratch.cvNSplits
  (max 2 (gridPoints + wfFits + cvFits : ℕ), [("grid_points", .int gridPoints),
      ("walk_forward_fits", .int wfFits),
      ("purged_cv_fits", .int cvFits),
      ("note", .str ("the candidate's own family only; understates N (no campaign trials, " ++
        "correlated re-fits). A measurement for E-2, not a gate input of " ++
        "the audited set."))])

def family (cfg : LadderConfig) (st : LadderState T ρ) (matrix : List (List Number)) (best : ℕ)
    (metrics : List (String × Data)) : Except String (RungResult × LadderState T ρ) :=
  let nObs := (matrix.head?.getD []).length
  let splits := min cfg.cscvSplits ((nObs / 4 * 2 : ℕ) : ℤ)
  if splits < 2 then do
    let result ← head.error_ (natString nObs ++ " observations cannot support a CSCV with at " ++
      "least two even splits; PBO fails CLOSED.") metrics
    .ok (result, st.setGate "pbo" none)
  else do
    let pbo ← stats.symmetricCv matrix splits
    let spa ← stats.superiorPredictiveAbility matrix cfg.spaBootstraps cfg.seed
    let rejected ← stats.stepM matrix cfg.spaBootstraps cfg.seed
    let member := decide (best ∈ rejected)
    let st := ((st.measured .outOfSample "pbo" (some pbo.pbo)).measured
      .outOfSample "spa_p_consistent" (some spa.pConsistent)).measured
      .outOfSample "stepm_member" (some (.fin (if member then 1 else 0)))
    let metrics := metrics ++ [("pbo", .mapping
          [("pbo", .float pbo.pbo),
            ("n_splits", .int splits),
            ("n_combinations", .int pbo.nCombinations),
            ("degradation_slope", .float pbo.degradationSlope),
            ("probability_of_loss", .float pbo.probabilityOfLoss)]),
        ("spa", .mapping
          [("p_consistent", .float spa.pConsistent),
            ("p_lower", .float spa.pLower),
            ("p_upper", .float spa.pUpper),
            ("best_index", .int spa.bestIndex),
            ("n_strategies", .int spa.nStrategies)]),
        ("stepm", .mapping
          [("selected_index", .int best),
            ("n_rejected", .int rejected.length),
            ("rejected", PurgedCVRung.intSeq rejected),
            ("selected_is_survivor", .bool member)])]
    .ok (head.pass metrics, st)

def deflate (ctx : LadderContext T ρ) (st : LadderState T ρ) (matrix : List (List Number))
    (metrics : List (String × Data)) : Except String (RungResult × LadderState T ρ) := do
  let cfg := ctx.config
  let best := st.scratch.isBestIndex.getD (firstMax st.scratch.trialSharpes)
  let (nEffective, clusters) ← clustering stats cfg matrix
  let nForDeflation := max 2 (nEffective + cfg.externalTrialCount)
  let pathVar := st.scratch.pathSharpeVariance
  let crossVar := st.scratch.crossTrialSharpeVariance
  let (srVariance, source) := varianceTerm pathVar crossVar
  let st := st.write fun scratch =>
    { scratch with nTrialsForDeflation := nForDeflation, dsrVarianceSource := source }
  let metrics := metrics ++ [("clustering", clusters),
      ("n_effective_trials", .int nEffective),
      ("n_trials_used_for_deflation", .int nForDeflation),
      ("sr_variance", .float srVariance),
      ("sr_variance_source", .str source),
      ("sr_variance_cpcv_paths", .float pathVar),
      ("sr_variance_cross_trial", .float crossVar)]
  match stats.sharpeMoments ((matrix[best]?).getD []) with
  | .error exc => do
    let result ← head.error_ ("the selected trial's returns cannot be deflated (" ++ exc ++
      "); a trial that did not move has no Sharpe to deflate") metrics
    .ok (result, closed st)
  | .ok moments => do
    let dsr ← stats.deflatedSharpeRatio moments.srHat moments.nObs nForDeflation srVariance
      moments.skew moments.kurtosis
    let (nFamily, familyParts) := ownFamilyTrials st.scratch
    let dsrFamily ← stats.deflatedSharpeRatio moments.srHat moments.nObs nFamily srVariance
      moments.skew moments.kurtosis
    let st := (st.measured .outOfSample "deflated_sharpe_ratio" (some dsr)).measured
      .outOfSample "deflated_sharpe_ratio_family_n" (some dsrFamily)
    let metrics := metrics ++ [("selected_sharpe", .float moments.srHat),
        ("deflated_sharpe_ratio", .float dsr),
        ("deflated_sharpe_ratio_family_n", .float dsrFamily),
        ("n_trials_family", .mapping (("n_used", .int nFamily) :: familyParts))]
    if matrix.length < 2 then
      let st := ((st.setGate "pbo" none).setGate "spa_p_consistent" none).setGate
        "stepm_member" none
      .ok (head.pass (metrics ++ [("family_tests", .str
        ("not applicable: the document declares a single parameterisation, " ++
          "so no selection took place. The CAMPAIGN-level multiple-testing " ++
          "correction still applies and must come from external_trial_count."))]),
        st.mark familyGateNames)
    else family stats cfg st matrix best metrics

def run (ctx : LadderContext T ρ) (st : LadderState T ρ) :
    Except String (RungResult × LadderState T ρ) :=
  let metrics : List (String × Data) :=
    [("n_trials_swept", .int st.scratch.sweep.length),
      ("external_trial_count", .int ctx.config.externalTrialCount)]
  match st.scratch.trialsMatrix with
  | none => do
    let result ← head.error_ ("no aligned trials matrix: " ++
      st.scratch.trialsMatrixNote.getD "unavailable" ++
      ". PBO, SPA and StepM all require one column per trial on a " ++
      "shared calendar, so deflation fails CLOSED. Supply period-basis " ++
      "returns from the evaluator.") metrics
    .ok (result, closed st)
  | some matrix => deflate stats ctx st matrix metrics

end DeflationRung

namespace HoldoutRung

def head : RungHead := ⟨6, "HOLDOUT", .holdout, true⟩

def counted (result : WindowEvaluation T) (effective : Number) : String :=
  if result.isPooled then
    text.fixed 1 effective ++ " effective holdout trades " ++
      "(" ++ intString result.nTrades ++ " pooled)"
  else intString result.nTrades ++ " holdout trades"

def conclude (cfg : LadderConfig) (result : WindowEvaluation T)
    (metrics : List (String × Data)) : Except String RungResult := do
  let effective ← result.nTradesEffective text.toNumerals
  if Number.lt effective (.fin cfg.holdoutMinTrades) then
    head.fail (counted text result effective ++ ", below the " ++
      intString cfg.holdoutMinTrades ++ " the ladder requires for the " ++
      "result to mean anything. The look is spent regardless.") metrics
  else if Number.le result.netProfit (.fin 0) then
    head.fail ("holdout net profit " ++ text.general 6 result.netProfit ++ " is not positive. " ++
      "This is the only untouched evidence there is, and it says no.") metrics
  else .ok (head.pass metrics)

def run (ctx : LadderContext T ρ) (st : LadderState T ρ) :
    Except String (RungResult × LadderState T ρ) :=
  let selected := st.scratch.selectedParams.getD ctx.candidate.defaultParams
  let metrics : List (String × Data) :=
    [("window", ctx.segment.window.toDict text.toNumerals), ("params_evaluated", selected.data)]
  let labels : List (String × String) :=
    [("strategy_id", ctx.candidate.strategyId), ("experiment_id", ctx.experimentId),
      ("actor", ctx.actor), ("note", "ladder rung 6")]
  match ctx.ledger.claim st.registry ctx.segment.datasetVersionId ctx.candidate.contentHash
    labels with
  | (registry, .error (.alreadyConsumed message consumption)) => do
    let result ← head.error_ message (metrics ++ [("previous_consumption", consumption)])
    .ok (result, st.setRegistry registry)
  | (registry, .error (.keyVersionMismatch message expected found)) => do
    let result ← head.error_ message (metrics ++
      [("incomparable_consumptions", .seq found), ("expected_key_version", .str expected)])
    .ok (result, st.setRegistry registry)
  | (_, .error (.raised message)) => .error message
  | (registry, .ok token) => do
    let evaluation := ctx.evaluator selected ctx.segment.window
    let summary ← evaluation.summary text.toNumerals stats
    match ctx.ledger.recordOutcome registry token summary with
    | (_, .error message) => .error message
    | (registry, .ok ()) => do
      let st := ((st.setRegistry registry).evaluated 1).label "holdout_net_profit" .holdout
      let result ← conclude text ctx.config evaluation
        (metrics ++ [("holdout", summary), ("token", .str token)])
      .ok (result, st)

end HoldoutRung

def defaultRungs : List (Rung T ρ) :=
  [⟨SanityRung.head, SanityRung.run text stats⟩,
    ⟨InSampleScreenRung.head, InSampleScreenRung.run text stats⟩,
    ⟨WalkForwardRung.head, WalkForwardRung.run text stats⟩,
    ⟨PurgedCVRung.head, PurgedCVRung.run text stats⟩,
    ⟨RobustnessRung.head, RobustnessRung.run text stats⟩,
    ⟨DeflationRung.head, DeflationRung.run stats⟩,
    ⟨HoldoutRung.head, HoldoutRung.run text stats⟩]

end Fiboki
