import Fiboki.Validation.Rungs

/-!
The validation ladder: its rungs in order, fail-fast, and the measuring mode of the
calibration study, which judges one measurement under several gate sets.

What each rung writes: the gate values of the metrics it produces, and the marks of gates
that do not apply to the candidate's grid.
-/

namespace Fiboki

open Wire
open Floating (Number)

section

variable {T ρ : Type} (text : LadderText) (stats : Statistics T)

namespace GateSet

/-- `_blocking_gate_for`: the first gate at a rung that does not pass. -/
def blockingGateFor (gateSet : GateSet) (st : LadderState T ρ) (rung : ℤ) : Option GateResult :=
  (gateSet.gates.filter fun gate => decide (gate.rung = rung)).findSome? fun gate =>
    let result := gate.evaluate ((st.gateValues.get gate.metric).join)
      (decide (gate.name ∉ st.notApplicable))
    if result.status.blocksPromotion then some result else none

theorem gateReason_ne (describe : String) : "promotion gate not met -- " ++ describe ≠ "" := by
  intro h
  have := congrArg String.length h
  rw [String.length_append] at this
  simp at this

/-- `_with_gate_block`: a result marked as failed when a gate of its rung blocks. -/
def withGateBlock (gateSet : GateSet) (st : LadderState T ρ) (result : RungResult) : RungResult :=
  match gateSet.blockingGateFor st result.index with
  | none => result
  | some blocking =>
    { result with
      outcome := .fail
      reason := "promotion gate not met -- " ++ blocking.describe text.toNumerals
      reasoned := fun _ => gateReason_ne _ }

end GateSet

/-- A ladder whose trade floor is the one its gate set implies. -/
structure ValidationLadder where
  config : LadderConfig
  gateSet : GateSet
  floor : ℤ
  resolved : config.minTrades = some floor

/-- What a call of the ladder names besides the candidate and its evaluator. -/
structure LadderRequest where
  datasetVersionId : String
  engineConfig : List (String × Data)
  brokerProfile : List (String × Data)
  experimentId : String
  actor : String
  notes : String

structure ReportStamp where
  codeVersion : String
  createdAt : String

namespace ValidationLadder

/-- `ValidationLadder(config=config, gate_set=gate_set)`. -/
def make (config : LadderConfig) (gateSet : GateSet) : Except String ValidationLadder := do
  let floor ← match config.minTrades with
    | some m => .ok m
    | none => gateSet.sanityTradeFloor
  if h : 1 ≤ floor then
    let ladder : ValidationLadder :=
      ⟨{ config with
          minTrades := some floor
          minTrades_le := LadderConfig.le_of_mem_some h }, gateSet, floor, rfl⟩
    if gateSet.usesMinTrlGate then
      if floor = GateSet.minTrlFloorTrades then .ok ladder
      else .error (gateSet.version ++ " gates n_trades_over_min_trl, whose floor " ++
        "is " ++ intString GateSet.minTrlFloorTrades ++ " trades; LadderConfig.min_trades " ++
        "(" ++ intString floor ++ ") must equal it " ++ "(use sanity_trade_floor(gate_set)).")
    else do
      let gate ← gateSet.byName "min_trades"
      if Number.fin floor = gate.threshold then .ok ladder
      else .error ("LadderConfig.min_trades (" ++ intString floor ++ ") disagrees with " ++
        "the " ++ gateSet.version ++ " min_trades gate (" ++ text.general 6 gate.threshold ++
        "). One of " ++ "them would then be decorative. Change the gate set with " ++
        "GateSet.with_overrides(version=..., min_trades=...) so the report " ++
        "records which bar was actually in force.")
  else .error "min_trades must be >= 1"

def climb (gateSet : GateSet) (ctx : LadderContext T ρ) :
    List (Rung T ρ) → LadderState T ρ → Except String (List RungResult × LadderState T ρ)
  | [], st => .ok ([], st)
  | rung :: rest, st => do
    let (result, st) ← rung.run ctx st
    let result := if result.passed then gateSet.withGateBlock text st result else result
    if result.passed then do
      let (results, st) ← climb gateSet ctx rest st
      .ok (result :: results, st)
    else .ok (result :: rest.map fun r => r.head.notReached, st)

def measure (ctx : LadderContext T ρ) :
    List (Rung T ρ) → LadderState T ρ → Except String (List RungResult × LadderState T ρ)
  | [], st => .ok ([], st)
  | rung :: rest, st => do
    let (result, st) ← rung.run ctx st
    if result.passed then do
      let (results, st) ← measure ctx rest st
      .ok (result :: results, st)
    else .ok (result :: rest.map fun r => r.head.notReached, st)

def judged (gateSet : GateSet) (st : LadderState T ρ) : List RungResult → List RungResult
  | [] => []
  | result :: rest =>
    if result.passed then
      let result := gateSet.withGateBlock text st result
      if result.passed then result :: judged gateSet st rest else result :: rest
    else result :: judged gateSet st rest

def report (request : LadderRequest) (stamp : ReportStamp) (ctx : LadderContext T ρ)
    (st : LadderState T ρ)
    (gateSet : GateSet) (results : List RungResult) : ValidationReport :=
  .build text.toNumerals
    { strategyId := ctx.candidate.strategyId
      strategyContentHash := ctx.candidate.contentHash
      datasetVersionId := request.datasetVersionId
      gateSet
      gateResults := gateSet.evaluate st.gateValues st.notApplicable
      rungs := results
      engineConfig := request.engineConfig
      brokerProfile := request.brokerProfile
      ladderConfig := ctx.config.toDict
      windows :=
        [("research", ctx.segment.researchWindow.toDict text.toNumerals),
          ("holdout", ctx.segment.window.toDict text.toNumerals),
          ("holdout_fraction", .float ctx.segment.holdoutFraction),
          ("n_evaluations", .int st.nEvaluations)]
      trialCountN := st.scratch.nTrialsForDeflation
      rawTrialCount := st.scratch.sweep.length
      crossTrialSharpeVariance := st.scratch.crossTrialSharpeVariance
      dsrVarianceSource := st.scratch.dsrVarianceSource
      provenanceLabels := st.provenanceLabels
      experimentId := request.experimentId
      actor := request.actor
      notes := request.notes
      codeVersion := stamp.codeVersion
      createdAt := stamp.createdAt }

variable (ladder : ValidationLadder) (candidate : Candidate)
  (evaluator : Params → DateWindow → WindowEvaluation T) (ledger : HoldoutLedger ρ) (registry : ρ)
  (request : LadderRequest) (stamp : ReportStamp)

def context (segment : HoldoutSegment) : LadderContext T ρ :=
  ⟨candidate, evaluator, segment, ladder.config, ledger, request.experimentId, request.actor⟩

/-- `run`: the report, and the state it was written in. -/
def run : Except String ValidationReport := do
  let segment ← ledger.segment registry request.datasetVersionId
  ledger.assertUntouched registry request.datasetVersionId segment.researchWindow
  let ctx := ladder.context candidate evaluator ledger request segment
  let (results, st) ← climb text ladder.gateSet ctx (defaultRungs text stats) (.start registry)
  .ok (report text request stamp ctx st ladder.gateSet results)

def judgedSets (gateSets : Dict String GateSet) : Dict String GateSet :=
  gateSets.entries.foldl (fun sets e => sets.set e.1 e.2)
    (Dict.empty.set ladder.gateSet.version ladder.gateSet)

def checkFloor (name : String) (gateSet : GateSet) : Except String Unit := do
  let floor ← gateSet.sanityTradeFloor
  if floor < ladder.floor then
    .error ("the rung-0 floor in force (" ++ intString ladder.floor ++ " trades) is above " ++
      "the " ++ intString floor ++ "-trade floor of gate set " ++ text.reprParam (.str name) ++
      " (" ++ gateSet.version ++ "); " ++
      "the measurement would reject at rung 0 what that set admits")
  else .ok ()

/-- `run_measuring`: one report for each judged gate set. -/
def runMeasuring (gateSets : Dict String GateSet) :
    Except String (List (String × ValidationReport)) := do
  if ledger.dbPath.isSome then
    .error ("run_measuring consumes the holdout of every candidate it measures; " ++
      "it accepts only HoldoutRegistry.in_memory(), never a persistent registry")
  else do
    (ladder.judgedSets gateSets).entries.forM fun e => ladder.checkFloor text e.1 e.2
    let segment ← ledger.segment registry request.datasetVersionId
    ledger.assertUntouched registry request.datasetVersionId segment.researchWindow
    let ctx := ladder.context candidate evaluator ledger request segment
    let (measured, st) ← measure ctx (defaultRungs text stats) (.start registry)
    .ok ((ladder.judgedSets gateSets).entries.map fun e =>
      (e.1, report text request stamp ctx st e.2 (judged text e.2 st measured)))

end ValidationLadder

end

variable {T ρ : Type} {text : LadderText} {stats : Statistics T}

def producer (metric : String) : Option ℤ :=
  if metric ∈ ["n_trades", "min_trl_95", "n_trades_over_min_trl"] then some 0
  else if metric ∈ ["walk_forward_efficiency", "oos_profitable_fraction",
      "walk_forward_efficiency_log_growth", "walk_forward_min_oos_trades",
      "oos_profitable_fraction_wilson_lower"] then some 2
  else if metric ∈ ["net_profit_at_2x_spread", "point_plateau_ratio",
      "plateau_neighbourhood_median_ratio", "plateau_neighbourhood_min"] then some 4
  else if metric ∈ ["deflated_sharpe_ratio", "deflated_sharpe_ratio_family_n", "pbo",
      "spa_p_consistent", "stepm_member"] then some 5
  else none

def marker (grid : ParameterGrid) (name : String) : Option ℤ :=
  if name ∈ plateauGateNames ∧
      (grid.numericNames = [] ∨ grid.numericNames ≠ grid.names ∨ grid.fullSize < 3) then some 4
  else if name ∈ familyGateNames ∧ grid.fullSize < 2 then some 5
  else none

/-- A rung that leaves the metrics and the marks of the other rungs as they are. -/
structure Writes (grid : ParameterGrid) (k : ℤ) (st st' : LadderState T ρ) : Prop where
  gates : ∀ m, producer m ≠ some k → st'.gateValues.get m = st.gateValues.get m
  marks : ∃ names, st'.notApplicable = st.notApplicable ++ names ∧
    ∀ n ∈ names, marker grid n = some k

section Writes

variable {grid : ParameterGrid} {k : ℤ} {st st' st'' : LadderState T ρ}

theorem Writes.refl : Writes grid k st st where
  gates _ _ := rfl
  marks := ⟨[], (List.append_nil _).symm, nofun⟩

theorem Writes.trans (h : Writes grid k st st') (h' : Writes grid k st' st'') :
    Writes grid k st st'' := by
  obtain ⟨names, hnames, hall⟩ := h.marks
  obtain ⟨names', hnames', hall'⟩ := h'.marks
  refine ⟨?_, names ++ names', ?_, ?_⟩
  · intro m hm
    rw [h'.gates m hm, h.gates m hm]
  · rw [hnames', hnames, List.append_assoc]
  · intro n hn
    rcases List.mem_append.1 hn with hn | hn
    · exact hall n hn
    · exact hall' n hn

variable {m : String}

theorem writes_setGate (v : Option Number) (hm : producer m = some k)
    (h : Writes grid k st st') : Writes grid k st (st'.setGate m v) := by
  refine h.trans ⟨?_, [], (List.append_nil _).symm, nofun⟩
  intro m' hm'
  refine Dict.get_set_of_ne _ _ ?_
  rintro rfl
  exact hm' hm

theorem writes_measured (p : Provenance) (v : Option Number) (hm : producer m = some k)
    (h : Writes grid k st st') : Writes grid k st (st'.measured p m v) := by
  have := writes_setGate v hm h
  exact ⟨this.gates, this.marks⟩

theorem writes_mark {names : List String} (hnames : ∀ n ∈ names, marker grid n = some k)
    (h : Writes grid k st st') : Writes grid k st (st'.mark names) :=
  h.trans ⟨fun _ _ => rfl, names, rfl, hnames⟩

theorem writes_write (f : LadderScratch T → LadderScratch T) (h : Writes grid k st st') :
    Writes grid k st (st'.write f) := ⟨h.gates, h.marks⟩

theorem writes_evaluated (n : ℕ) (h : Writes grid k st st') :
    Writes grid k st (st'.evaluated n) := ⟨h.gates, h.marks⟩

theorem writes_setRegistry (registry : ρ) (h : Writes grid k st st') :
    Writes grid k st (st'.setRegistry registry) := ⟨h.gates, h.marks⟩

theorem writes_label (m : String) (p : Provenance) (h : Writes grid k st st') :
    Writes grid k st (st'.label m p) := ⟨h.gates, h.marks⟩

end Writes

structure Concluded (head : RungHead) (r : RungResult) : Prop where
  index : r.index = head.index
  name : r.name = head.name
  reached : r.outcome ≠ .notReached

namespace RungHead

variable {head : RungHead} {metrics : List (String × Data)} {r : RungResult}

theorem concluded_pass : Concluded head (head.pass metrics) := ⟨rfl, rfl, nofun⟩

variable {reason : String}

theorem concluded_rejected {outcome : RungOutcome} (houtcome : outcome ≠ .notReached)
    (h : head.rejected outcome reason metrics = .ok r) : Concluded head r := by
  unfold rejected at h
  split at h
  · cases h
  · cases h
    exact ⟨rfl, rfl, houtcome⟩

theorem concluded_fail (h : head.fail reason metrics = .ok r) : Concluded head r := by
  refine concluded_rejected ?_ h
  decide

theorem concluded_error (h : head.error_ reason metrics = .ok r) : Concluded head r := by
  refine concluded_rejected ?_ h
  decide

end RungHead

open RungHead

variable {ctx : LadderContext T ρ} {st st' : LadderState T ρ} {r : RungResult}

namespace SanityRung

theorem concluded {config : LadderConfig} {baseline : WindowEvaluation T} {nSample : Number}
    {metrics : List (String × Data)}
    (h : conclude text stats config baseline nSample metrics = .ok r) : Concluded head r := by
  unfold conclude at h
  dsimp only at h
  split at h
  · exact concluded_fail h
  · split at h
    · exact concluded_error h
    · split at h
      · exact concluded_fail h
      · split at h
        · exact concluded_fail h
        · cases h
          exact concluded_pass

def after (stats : Statistics T) (ctx : LadderContext T ρ)
    (st : LadderState T ρ) (nSample : Number) : LadderState T ρ :=
  let minTrl := (minTrl95 stats (ctx.evaluator ctx.candidate.defaultParams ctx.researchWindow)).1
  (((st.evaluated 1).measured .backtest "n_trades" (some nSample)).measured .backtest
    "min_trl_95" minTrl).measured .backtest "n_trades_over_min_trl" (overMinTrl nSample minTrl)

theorem run_ok (h : run text stats ctx st = .ok (r, st')) : ∃ nSample metrics,
      (ctx.evaluator ctx.candidate.defaultParams ctx.researchWindow).nTradesEffective
        text.toNumerals = .ok nSample ∧
      conclude text stats ctx.config
        (ctx.evaluator ctx.candidate.defaultParams ctx.researchWindow) nSample metrics = .ok r ∧
      st' = after stats ctx st nSample := by
  unfold run at h
  obtain ⟨nSample, hn, h⟩ := bind_ok h
  dsimp only at h
  obtain ⟨summary, -, h⟩ := bind_ok h
  obtain ⟨result, hresult, h⟩ := bind_ok h
  cases h
  exact ⟨nSample, _, hn, hresult, rfl⟩

theorem writes_after (nSample : Number) :
    Writes ctx.candidate.grid 0 st (after stats ctx st nSample) := by
  refine writes_measured _ _ (by decide) ?_
  refine writes_measured _ _ (by decide) ?_
  refine writes_measured _ _ (by decide) ?_
  exact writes_evaluated _ .refl

end SanityRung

namespace InSampleScreenRung

theorem concluded {config : LadderConfig} {best : WindowEvaluation T}
    {metrics : List (String × Data)} (h : conclude stats config best metrics = .ok r) :
    Concluded head r := by
  unfold conclude at h
  obtain ⟨score, -, h⟩ := bind_ok h
  split at h
  · exact concluded_fail h
  · cases h
    exact concluded_pass

theorem run_ok (h : run text stats ctx st = .ok (r, st')) :
    Concluded head r ∧ Writes ctx.candidate.grid 1 st st' ∧
      st'.scratch.sweep = ctx.sweep ctx.researchWindow ∧
      st'.scratch.trialsMatrix = (trialsMatrix text (ctx.sweep ctx.researchWindow)).1 := by
  unfold run at h
  dsimp only at h
  obtain ⟨best, -, h⟩ := bind_ok h
  obtain ⟨sharpes, -, h⟩ := bind_ok h
  split at h
  next => cases h
  next winner _ =>
    obtain ⟨summary, -, h⟩ := bind_ok h
    obtain ⟨result, hresult, h⟩ := bind_ok h
    cases h
    exact ⟨concluded hresult, writes_write _ (writes_evaluated _ .refl), rfl, rfl⟩

end InSampleScreenRung

namespace WalkForwardRung

theorem concluded {wfe : Number} {metrics : List (String × Data)}
    (h : conclude wfe metrics = .ok r) : Concluded head r := by
  unfold conclude at h
  split at h
  · cases h
    exact concluded_pass
  · exact concluded_error h

theorem run_ok (h : run text stats ctx st = .ok (r, st')) :
    Concluded head r ∧ Writes ctx.candidate.grid 2 st st' ∧ st'.scratch.sweep = st.scratch.sweep ∧
      st'.scratch.trialsMatrix = st.scratch.trialsMatrix := by
  unfold run at h
  dsimp only at h
  obtain ⟨slices, -, h⟩ := bind_ok h
  obtain ⟨folds, -, h⟩ := bind_ok h
  obtain ⟨rows, -, h⟩ := bind_ok h
  obtain ⟨hitWilson, -, h⟩ := bind_ok h
  obtain ⟨result, hresult, h⟩ := bind_ok h
  cases h
  refine ⟨concluded hresult, ?_, rfl, rfl⟩
  refine writes_measured _ _ (by decide) ?_
  refine writes_measured _ _ (by decide) ?_
  refine writes_measured _ _ (by decide) ?_
  refine writes_measured _ _ (by decide) ?_
  refine writes_measured _ _ (by decide) ?_
  exact writes_write _ (writes_evaluated _ .refl)

end WalkForwardRung

namespace PurgedCVRung

variable {cfg : LadderConfig}

theorem concluded {positive : Number} {n : ℕ} {metrics : List (String × Data)}
    (h : conclude text cfg positive n metrics = .ok r) : Concluded head r := by
  unfold conclude at h
  split at h
  · exact concluded_fail h
  · cases h
    exact concluded_pass

theorem validate_ok {full : WindowEvaluation T} {matrix : List (List Number)}
    {basis : String} {repeated : Bool} {grid : ParameterGrid}
    (h : validate text stats cfg st full matrix basis repeated = .ok (r, st')) :
    Concluded head r ∧ Writes grid 3 st st' ∧ st'.scratch.sweep = st.scratch.sweep ∧
      st'.scratch.trialsMatrix = st.scratch.trialsMatrix := by
  unfold validate at h
  dsimp only at h
  split at h
  · obtain ⟨result, hresult, h⟩ := bind_ok h
    cases h
    exact ⟨concluded_error hresult, .refl, rfl, rfl⟩
  · obtain ⟨cv, -, h⟩ := bind_ok h
    obtain ⟨result, hresult, h⟩ := bind_ok h
    cases h
    exact ⟨concluded hresult, writes_write _ .refl, rfl, rfl⟩

theorem run_ok (h : run text stats ctx st = .ok (r, st')) :
    Concluded head r ∧ Writes ctx.candidate.grid 3 st st' ∧ st'.scratch.sweep = st.scratch.sweep ∧
      st'.scratch.trialsMatrix = st.scratch.trialsMatrix := by
  unfold run at h
  dsimp only at h
  have hwrites : ∀ full, Writes ctx.candidate.grid 3 st
      ((st.evaluated 1).write fun scratch => { scratch with selectedFull := some full }) :=
    fun _ => writes_write _ (writes_evaluated _ .refl)
  split at h
  · split at h
    · obtain ⟨result, hresult, h⟩ := bind_ok h
      cases h
      exact ⟨concluded_error hresult, hwrites _, rfl, rfl⟩
    · obtain ⟨hr, hst, hsweep, hmatrix⟩ := validate_ok h
      exact ⟨hr, (hwrites _).trans hst, hsweep, hmatrix⟩
  · obtain ⟨hr, hst, hsweep, hmatrix⟩ := validate_ok h
    exact ⟨hr, (hwrites _).trans hst, hsweep, hmatrix⟩

end PurgedCVRung

namespace RobustnessRung

theorem concluded {plateau : Plateau} {metrics : List (String × Data)}
    (h : conclude text plateau metrics = .ok r) : Concluded head r := by
  unfold conclude at h
  split at h
  · cases h
    exact concluded_pass
  · split at h
    · exact concluded_fail h
    · cases h
      exact concluded_pass

theorem marks_plateau {scratch : LadderScratch T} {p : Plateau} (hsweep : scratch.sweep ≠ [])
    (h : plateau text stats ctx scratch = .ok p) :
    ∀ n ∈ p.marks, marker ctx.candidate.grid n = some 4 := by
  have hswept : (!scratch.sweep.isEmpty) = true := by
    cases hs : scratch.sweep with
    | nil => exact absurd hs hsweep
    | cons e es => rfl
  unfold plateau at h
  rw [hswept] at h
  cases hno : noPlateau text ctx.candidate.grid true with
  | some reason =>
    rw [hno] at h
    cases h
    intro n hn
    unfold marker
    rw [if_pos]
    refine ⟨hn, ?_⟩
    unfold noPlateau at hno
    dsimp only at hno
    split at hno
    next hgrid =>
      rcases hgrid with hgrid | hgrid | hgrid
      · cases hgrid
      · exact .inl hgrid
      · exact .inr (.inl hgrid)
    next =>
      split at hno
      next hsize => exact .inr (.inr hsize)
      next => cases hno
  | none =>
    rw [hno] at h
    obtain ⟨scores, -, h⟩ := bind_ok h
    obtain ⟨points, -, h⟩ := bind_ok h
    split at h
    · cases h
    · obtain ⟨target, -, h⟩ := bind_ok h
      cases h
      intro n hn
      cases hn

theorem run_ok (hsweep : st.scratch.sweep ≠ []) (h : run text stats ctx st = .ok (r, st')) :
    Concluded head r ∧ Writes ctx.candidate.grid 4 st st' ∧ st'.scratch = st.scratch := by
  unfold run at h
  dsimp only at h
  split at h
  · obtain ⟨result, hresult, h⟩ := bind_ok h
    cases h
    exact ⟨concluded_error hresult, writes_setGate _ (by decide) .refl, rfl⟩
  · obtain ⟨⟨twoX, curves⟩, -, h⟩ := bind_ok h
    obtain ⟨p, hp, h⟩ := bind_ok h
    obtain ⟨result, hresult, h⟩ := bind_ok h
    cases h
    refine ⟨concluded hresult, ?_, rfl⟩
    refine writes_mark (marks_plateau hsweep hp) ?_
    refine writes_measured _ _ (by decide) ?_
    refine writes_measured _ _ (by decide) ?_
    refine writes_measured _ _ (by decide) ?_
    exact writes_measured _ _ (by decide) .refl

end RobustnessRung

namespace DeflationRung

variable {grid : ParameterGrid}

theorem writes_closed : Writes grid 5 st (closed st) := by
  unfold closed
  simp only [List.foldl_cons, List.foldl_nil]
  refine writes_setGate _ (by decide) ?_
  refine writes_setGate _ (by decide) ?_
  refine writes_setGate _ (by decide) ?_
  refine writes_setGate _ (by decide) ?_
  exact writes_setGate _ (by decide) .refl

theorem family_ok {cfg : LadderConfig} {matrix : List (List Number)} {best : ℕ}
    {metrics : List (String × Data)}
    (h : family stats cfg st matrix best metrics = .ok (r, st')) :
    Concluded head r ∧ Writes grid 5 st st' := by
  unfold family at h
  dsimp only at h
  split at h
  · obtain ⟨result, hresult, h⟩ := bind_ok h
    cases h
    exact ⟨concluded_error hresult, writes_setGate _ (by decide) .refl⟩
  · obtain ⟨pbo, -, h⟩ := bind_ok h
    obtain ⟨spa, -, h⟩ := bind_ok h
    obtain ⟨rejected, -, h⟩ := bind_ok h
    cases h
    refine ⟨concluded_pass, ?_⟩
    refine writes_measured _ _ (by decide) ?_
    refine writes_measured _ _ (by decide) ?_
    exact writes_measured _ _ (by decide) .refl

theorem marks_family (hgrid : grid.fullSize < 2) :
    ∀ n ∈ familyGateNames, marker grid n = some 5 := by
  intro n hn
  have hplateau : n ∉ plateauGateNames := by
    unfold familyGateNames at hn
    simp only [List.mem_cons, List.not_mem_nil, or_false] at hn
    rcases hn with rfl | rfl | rfl <;> decide
  unfold marker
  rw [if_neg fun h => hplateau h.1, if_pos ⟨hn, hgrid⟩]

theorem run_ok
    (hmatrix : ∀ matrix ∈ st.scratch.trialsMatrix, matrix.length = ctx.candidate.grid.fullSize)
    (h : run stats ctx st = .ok (r, st')) :
    Concluded head r ∧ Writes ctx.candidate.grid 5 st st' := by
  unfold run at h
  dsimp only at h
  split at h
  · obtain ⟨result, hresult, h⟩ := bind_ok h
    cases h
    exact ⟨concluded_error hresult, writes_closed⟩
  next matrix hsome =>
    unfold deflate at h
    dsimp only at h
    obtain ⟨⟨nEffective, clusters⟩, -, h⟩ := bind_ok h
    dsimp only at h
    split at h
    · obtain ⟨result, hresult, h⟩ := bind_ok h
      cases h
      exact ⟨concluded_error hresult, (writes_write _ .refl).trans writes_closed⟩
    · obtain ⟨dsr, -, h⟩ := bind_ok h
      obtain ⟨dsrFamily, -, h⟩ := bind_ok h
      have hdsr : ∀ (f : LadderScratch T → LadderScratch T), Writes ctx.candidate.grid 5 st
          (((st.write f).measured .outOfSample "deflated_sharpe_ratio" (some dsr)).measured
            .outOfSample "deflated_sharpe_ratio_family_n" (some dsrFamily)) := by
        intro f
        refine writes_measured _ _ (by decide) ?_
        refine writes_measured _ _ (by decide) ?_
        exact writes_write _ .refl
      split at h
      next hone =>
        cases h
        refine ⟨concluded_pass, writes_mark (marks_family ?_) ?_⟩
        · rw [← hmatrix matrix hsome]
          exact hone
        · refine writes_setGate _ (by decide) ?_
          refine writes_setGate _ (by decide) ?_
          exact writes_setGate _ (by decide) (hdsr _)
      next =>
        obtain ⟨hr, hst⟩ := family_ok h
        exact ⟨hr, (hdsr _).trans hst⟩

end DeflationRung

namespace HoldoutRung

theorem concluded {cfg : LadderConfig} {result : WindowEvaluation T}
    {metrics : List (String × Data)} (h : conclude text cfg result metrics = .ok r) :
    Concluded head r := by
  unfold conclude at h
  obtain ⟨effective, -, h⟩ := bind_ok h
  split at h
  · exact concluded_fail h
  · split at h
    · exact concluded_fail h
    · cases h
      exact concluded_pass

theorem run_ok (h : run text stats ctx st = .ok (r, st')) :
    Concluded head r ∧ Writes ctx.candidate.grid 6 st st' := by
  unfold run at h
  dsimp only at h
  split at h
  · obtain ⟨result, hresult, h⟩ := bind_ok h
    cases h
    exact ⟨concluded_error hresult, writes_setRegistry _ .refl⟩
  · obtain ⟨result, hresult, h⟩ := bind_ok h
    cases h
    exact ⟨concluded_error hresult, writes_setRegistry _ .refl⟩
  · cases h
  · obtain ⟨summary, -, h⟩ := bind_ok h
    split at h
    · cases h
    · obtain ⟨result, hresult, h⟩ := bind_ok h
      cases h
      exact ⟨concluded hresult, writes_label _ _ (writes_evaluated _ (writes_setRegistry _ .refl))⟩

end HoldoutRung

end Fiboki
