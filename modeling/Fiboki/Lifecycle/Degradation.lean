import Fiboki.Lifecycle.State

/-!
The degradation score of a strategy, and the band a tracker keeps for it.

A fired stopping rule, or a halt that is still latched, forces the quarantine band
whatever the score; every other move of the band waits out its dwell time.
-/

namespace Fiboki

open Text

inductive DegradationBand where
  | healthy
  | watch
  | degraded
  | quarantined
  deriving DecidableEq

namespace DegradationBand

def value : DegradationBand → String
  | healthy => "healthy"
  | watch => "watch"
  | degraded => "degraded"
  | quarantined => "quarantined"

def depth : DegradationBand → ℕ
  | healthy => 0
  | watch => 1
  | degraded => 2
  | quarantined => 3

def lifecycleState : DegradationBand → Option StrategyLifecycle
  | healthy => none
  | watch => some .watch
  | degraded => some .degraded
  | quarantined => some .quarantined

def fromLifecycle : StrategyLifecycle → DegradationBand
  | .watch => watch
  | .degraded => degraded
  | .quarantined => quarantined
  | _ => healthy

def shallower : DegradationBand → DegradationBand
  | healthy => healthy
  | watch => healthy
  | degraded => watch
  | quarantined => degraded

theorem depth_le (b : DegradationBand) : b.depth ≤ 3 := by cases b <;> decide

theorem depth_lt_quarantined {b : DegradationBand} : b.depth < quarantined.depth ↔ b ≠
    quarantined := by
  cases b <;> decide

end DegradationBand

inductive DivergenceDimension where
  | return
  | sharpe
  | winRate
  | tradeFrequency
  | returnDistribution
  | spread
  | slippage
  | latency
  | drawdown
  | rejectedOrders
  | regime
  deriving DecidableEq

inductive DivergenceStatus where
  | agrees
  | diverged
  | notEvaluated
  deriving DecidableEq

structure Divergence where
  dimension : DivergenceDimension
  status : DivergenceStatus
  severity : ℚ

/-- Every dimension's verdict, and the evidence the report is cited as. -/
structure DivergenceReport where
  divergences : List Divergence
  evidence : Evidence

def DivergenceReport.dimension (r : DivergenceReport) (dim : DivergenceDimension) :
    Option Divergence :=
  r.divergences.find? fun d => d.dimension = dim

inductive StoppingRuleKind where
  | psrFloor
  | bootstrapDrawdown
  | cusumExcessReturn
  deriving DecidableEq

def StoppingRuleKind.value : StoppingRuleKind → String
  | psrFloor => "psr_floor"
  | bootstrapDrawdown => "bootstrap_drawdown"
  | cusumExcessReturn => "cusum_excess_return"

inductive RuleStatus where
  | clear
  | fired
  | notEvaluated
  deriving DecidableEq

/-- One rule's verdict on the strategy under evaluation, its description, and the
evidence it is cited as. -/
structure RuleEvaluation where
  kind : StoppingRuleKind
  status : RuleStatus
  description : String
  evidence : Evidence

def RuleEvaluation.fired (e : RuleEvaluation) : Bool := e.status = .fired

structure DegradationConfig where
  weights : Dict String ℚ
  watchEnter : ℚ
  watchExit : ℚ
  degradedEnter : ℚ
  degradedExit : ℚ
  quarantineEnter : ℚ
  quarantineExit : ℚ
  consecutiveToWorsen : ℕ
  consecutiveToRecover : ℕ
  allowAutomaticRecovery : Bool
  minConfidence : ℚ
  watchGap : 0 < watchExit ∧ watchExit < watchEnter ∧ watchEnter < 10001 / 10000
  degradedGap : 0 < degradedExit ∧ degradedExit < degradedEnter ∧ degradedEnter < 10001 / 10000
  quarantineGap : 0 < quarantineExit ∧ quarantineExit < quarantineEnter ∧
    quarantineEnter < 10001 / 10000
  deeperEnters : watchEnter < degradedEnter ∧ degradedEnter < quarantineEnter
  dwells : 1 ≤ consecutiveToWorsen ∧ 1 ≤ consecutiveToRecover
  weighted : |(weights.entries.map Prod.snd).sum - 1| ≤ 1 / 10 ^ 9

namespace DegradationConfig

def v1 : DegradationConfig where
  weights := .ofList [("return", 32 / 100), ("cost", 26 / 100), ("risk", 20 / 100),
    ("regime", 10 / 100), ("rules", 12 / 100)]
  watchEnter := 20 / 100
  watchExit := 12 / 100
  degradedEnter := 40 / 100
  degradedExit := 28 / 100
  quarantineEnter := 65 / 100
  quarantineExit := 50 / 100
  consecutiveToWorsen := 2
  consecutiveToRecover := 3
  allowAutomaticRecovery := false
  minConfidence := 30 / 100
  watchGap := by decide +kernel
  degradedGap := by decide +kernel
  quarantineGap := by decide +kernel
  deeperEnters := by decide +kernel
  dwells := by decide
  weighted := by decide +kernel

variable (config : DegradationConfig)

def enterThreshold : DegradationBand → Option ℚ
  | .healthy => none
  | .watch => some config.watchEnter
  | .degraded => some config.degradedEnter
  | .quarantined => some config.quarantineEnter

def exitThreshold : DegradationBand → Option ℚ
  | .healthy => none
  | .watch => some config.watchExit
  | .degraded => some config.degradedExit
  | .quarantined => some config.quarantineExit

/-- `config.weights.get(key, 0.0)`. -/
def weight (key : String) : ℚ := (config.weights.get key).getD 0

def totalWeight : ℚ := (config.weights.entries.map Prod.snd).sum

theorem enterThreshold_pos {b : DegradationBand} {q : ℚ} (h : config.enterThreshold b = some q) :
    0 < q := by
  cases b with
  | healthy => cases h
  | watch =>
    obtain rfl := Option.some.inj h
    exact lt_trans config.watchGap.1 config.watchGap.2.1
  | degraded =>
    obtain rfl := Option.some.inj h
    exact lt_trans config.degradedGap.1 config.degradedGap.2.1
  | quarantined =>
    obtain rfl := Option.some.inj h
    exact lt_trans config.quarantineGap.1 config.quarantineGap.2.1

end DegradationConfig

/-- `_COMPONENTS`: which dimensions make up which component. -/
def componentDimensions : List (String × List DivergenceDimension) :=
  [("return", [.return, .sharpe, .winRate, .returnDistribution]),
    ("cost", [.spread, .slippage, .latency, .rejectedOrders]),
    ("risk", [.drawdown, .tradeFrequency]),
    ("regime", [.regime])]

def componentScore (report : Option DivergenceReport) (dimensions : List DivergenceDimension) :
    Option ℚ :=
  match report with
  | none => none
  | some report =>
    let severities := dimensions.filterMap fun dim =>
      (report.dimension dim).bind fun d =>
        if d.status = .notEvaluated then none else some d.severity
    if severities = [] then none else some (severities.sum / severities.length)

structure DegradationScore where
  score : ℚ
  confidence : ℚ
  components : List (String × Option ℚ)
  forcedBand : Option DegradationBand

section Score

variable (report : Option DivergenceReport) (rules : List RuleEvaluation)
    (config : DegradationConfig)
  (latchedHalts : ℕ)

/-- The `rules` component: all or nothing, and none where no rule could be evaluated. -/
def rulesScore : Option ℚ :=
  if (rules.filter (·.status ≠ .notEvaluated)) ≠ [] ∨ latchedHalts ≠ 0 then
    if rules.any RuleEvaluation.fired ∨ latchedHalts ≠ 0 then some 1 else some 0
  else none

def components : List (String × Option ℚ) :=
  componentDimensions.map (fun c => (c.1, componentScore report c.2)) ++
    [("rules", rulesScore rules latchedHalts)]

def observedWeight : ℚ :=
  ((components report rules latchedHalts).map fun c =>
    match c.2 with
    | some _ => config.weight c.1
    | none => 0).sum

def weightedScore : ℚ :=
  ((components report rules latchedHalts).map fun c =>
    match c.2 with
    | some v => config.weight c.1 * v
    | none => 0).sum

def scoreDegradation : DegradationScore :=
  let observed := observedWeight report rules config latchedHalts
  if observed ≤ 0 then ⟨0, 0, components report rules latchedHalts, none⟩
  else
    { score := min 1 (max 0 (weightedScore report rules config latchedHalts / observed))
      confidence := observed / config.totalWeight
      components := components report rules latchedHalts
      forcedBand :=
        if rules.any RuleEvaluation.fired ∨ latchedHalts ≠ 0 then some .quarantined else none }

theorem forcedBand_of_halted (h : rules.any RuleEvaluation.fired = true ∨ latchedHalts ≠ 0) :
    (scoreDegradation report rules config latchedHalts).forcedBand =
      if 0 < observedWeight report rules config latchedHalts then some .quarantined else none := by
  unfold scoreDegradation
  by_cases hpos : 0 < observedWeight report rules config latchedHalts
  · simp only [if_neg (not_le.2 hpos), if_pos hpos, if_pos h]
  · simp only [if_pos (not_lt.1 hpos), if_neg hpos]

theorem score_of_unweighted (h : ¬ 0 < observedWeight report rules config latchedHalts) :
    (scoreDegradation report rules config latchedHalts).score = 0 := by
  unfold scoreDegradation
  simp only [if_pos (not_lt.1 h)]

end Score

structure DegradationVerdict where
  band : DegradationBand
  previousBand : DegradationBand
  score : DegradationScore
  changed : Bool
  pendingBand : Option DegradationBand
  consecutive : ℕ
  reason : String
  recommendedBand : Option DegradationBand

namespace DegradationVerdict

def worsened (v : DegradationVerdict) : Bool := decide (v.previousBand.depth < v.band.depth)

def targetState (v : DegradationVerdict) : Option StrategyLifecycle := v.band.lifecycleState

end DegradationVerdict

structure DegradationTracker where
  band : DegradationBand
  pendingBand : Option DegradationBand
  consecutive : ℕ
  history : List ℚ

namespace DegradationTracker

variable (config : DegradationConfig)

/-- `_target`: the band that a score supports, given where the tracker is. -/
def target (current : DegradationBand) (score : ℚ) : DegradationBand :=
  let deeper := [DegradationBand.quarantined, .degraded, .watch].filter fun b =>
    current.depth < b.depth ∧ (config.enterThreshold b).any (· ≤ score)
  match deeper with
  | b :: _ => b
  | [] => if (config.exitThreshold current).any (score ≤ ·) then current.shallower else current

def forcedReason : String :=
  "a pre-registered stopping rule fired; quarantine is immediate and does not wait for dwell time"

def observe (t : DegradationTracker) (score : DegradationScore) :
    DegradationVerdict × DegradationTracker :=
  let previous := t.band
  let history := t.history ++ [score.score]
  let stays (pending : Option DegradationBand) (consecutive : ℕ) (reason : String)
      (recommended : Option DegradationBand) : DegradationVerdict × DegradationTracker :=
    (⟨previous, previous, score, false, pending, consecutive, reason, recommended⟩,
      ⟨previous, pending, consecutive, history⟩)
  let moves (band : DegradationBand) (reason : String) : DegradationVerdict × DegradationTracker :=
    (⟨band, previous, score, true, none, 0, reason, none⟩, ⟨band, none, 0, history⟩)
  match score.forcedBand.filter (previous.depth < ·.depth) with
  | some forced => moves forced forcedReason
  | none =>
    if score.confidence < config.minConfidence then
      stays none 0 ("confidence " ++ percent score.confidence ++ " below the " ++
        percent config.minConfidence ++ " floor: not enough evidence " ++
        "to move a band in either direction") none
    else
      let goal := target config previous score.score
      if goal = previous then
        stays none 0 ("score " ++ fixed3 score.score ++ " sits inside the " ++ previous.value ++
          " band's hysteresis gap") none
      else
        let worsening := previous.depth < goal.depth
        let needed := if worsening then config.consecutiveToWorsen else config.consecutiveToRecover
        let consecutive := if t.pendingBand = some goal then t.consecutive + 1 else 1
        if consecutive < needed then
          stays (some goal) consecutive (goal.value ++ " pending: " ++ natText consecutive ++
            " of " ++ natText needed ++ " consecutive evaluations. A single reading is noise") none
        else if ¬ worsening ∧ ¬ config.allowAutomaticRecovery then
          stays (some goal) consecutive ("the score has supported " ++ goal.value ++ " for " ++
            natText consecutive ++ " consecutive evaluations, but recovery " ++
            "requires an explicit operator action") (some goal)
        else
          moves goal ("score " ++ fixed3 score.score ++ " held " ++
            (if worsening then "above" else "below") ++ " the " ++ goal.value ++
            " threshold for " ++ natText needed ++ " consecutive evaluations")

variable {config} {t : DegradationTracker} {score : DegradationScore}

theorem observe_forced {forced : DegradationBand} (h : score.forcedBand = some forced)
    (hdeeper : t.band.depth < forced.depth) :
    t.observe config score = (⟨forced, t.band, score, true, none, 0, forcedReason, none⟩,
        ⟨forced, none, 0, t.history ++ [score.score]⟩) := by
  unfold observe
  rw [h]
  simp only [Option.filter_some, hdeeper, decide_true, if_true]

theorem target_deeper {current : DegradationBand} {q : ℚ}
    (h : current.depth < (target config current q).depth) :
    ∃ b p, config.enterThreshold b = some p ∧ p ≤ q := by
  unfold target at h
  dsimp only at h
  cases hdeeper : [DegradationBand.quarantined, .degraded, .watch].filter fun b =>
      decide (current.depth < b.depth ∧ (config.enterThreshold b).any (· ≤ q) = true) with
  | nil =>
    rw [hdeeper] at h
    dsimp only at h
    split_ifs at h
    · exact absurd h (by cases current <;> decide)
    · exact absurd h (lt_irrefl _)
  | cons b rest =>
    have hmem : b ∈ [DegradationBand.quarantined, .degraded, .watch].filter fun b =>
        decide (current.depth < b.depth ∧ (config.enterThreshold b).any (· ≤ q) = true) := by
      rw [hdeeper]
      exact List.mem_cons_self
    obtain ⟨-, hb⟩ := List.mem_filter.1 hmem
    obtain ⟨-, hany⟩ := of_decide_eq_true hb
    cases hp : config.enterThreshold b with
    | none =>
      rw [hp] at hany
      cases hany
    | some p =>
      rw [hp] at hany
      exact ⟨b, p, hp, of_decide_eq_true hany⟩

theorem not_worsened_of_unforced (hforced : score.forcedBand = none) (hscore : score.score ≤ 0) :
    (t.observe config score).1.worsened = false := by
  have hgoal : ¬ t.band.depth < (target config t.band score.score).depth := by
    intro h
    obtain ⟨b, p, hp, hle⟩ := target_deeper h
    have hpos := config.enterThreshold_pos hp
    linarith
  unfold observe
  rw [hforced]
  simp only [Option.filter_none]
  split_ifs <;> first
    | exact decide_eq_false (lt_irrefl _)
    | exact decide_eq_false hgoal

theorem not_worsened_of_quarantined (h : t.band = .quarantined) :
    (t.observe config score).1.worsened = false := by
  have hprevious : (t.observe config score).1.previousBand = t.band := by
    unfold observe
    dsimp only
    split
    · rfl
    · split_ifs <;> rfl
  have hle := (t.observe config score).1.band.depth_le
  unfold DegradationVerdict.worsened
  rw [hprevious, h]
  exact decide_eq_false (not_lt.2 hle)

end DegradationTracker

end Fiboki
