import Fiboki.Lifecycle.Degradation
import Fiboki.Lifecycle.Ladder

/-!
The service that watches the running strategies: the halts that stopping rules latch,
the tracker it keeps for each strategy, and the demotion that follows a verdict.

When a fired rule, or a halt that is still latched, takes a running strategy out of the
running states.
-/

namespace Fiboki

open Wire Text StrategyLifecycle

inductive HaltAction where
  | halt
  | release

structure HaltEvent where
  action : HaltAction
  strategyContentHash : String
  kind : StoppingRuleKind
  recordedAt : Timestamp
  operator : String
  reason : String

def haltState (events : List HaltEvent) : List (String × StoppingRuleKind) :=
  events.foldl
    (fun latched event =>
      let key := (event.strategyContentHash, event.kind)
      match event.action with
      | .halt => if key ∈ latched then latched else latched ++ [key]
      | .release => latched.filter (· ≠ key))
    []

def latched (events : List HaltEvent) (hash : String) : List StoppingRuleKind :=
  [StoppingRuleKind.bootstrapDrawdown, .cusumExcessReturn, .psrFloor].filter fun kind =>
    (hash, kind) ∈ haltState events

/-- `record_firing`: a fired rule is latched, unless it already is. -/
def recordFiring (hash : String) (now : Timestamp) (events : List HaltEvent) (e : RuleEvaluation) :
    List HaltEvent :=
  if ¬ e.fired then events
  else if (hash, e.kind) ∈ haltState events then events
  else events ++ [⟨.halt, hash, e.kind, now, "", e.description⟩]

/-- `HaltRegistry.release`. -/
def releaseHalt (events : List HaltEvent) (hash : String) (kind : StoppingRuleKind)
    (operator reason : String) (now : Timestamp) : Except String (List HaltEvent) :=
  if isBlank operator ∨ isBlank reason then
    .error ("releasing a halt requires a named operator and a written reason; " ++
      "a halt that anybody can clear silently is not a halt")
  else if (hash, kind) ∈ haltState events then
    .ok (events ++ [⟨.release, hash, kind, now, operator, reason⟩])
  else .error (kind.value ++ " is not latched for " ++ short hash ++
    "; there is nothing to release")

structure LifecycleService (L : Type) where
  machine : LifecycleStateMachine L
  halts : List HaltEvent
  trackers : Dict String DegradationTracker

/-- What one evaluation is given: the comparison with the expectation, if there was one,
and the verdicts of the registered rules. -/
structure EvaluationInput where
  report : Option DivergenceReport
  rules : List RuleEvaluation
  now : Timestamp

structure LifecycleEvaluation where
  stateBefore : StrategyLifecycle
  stateAfter : StrategyLifecycle
  degradation : DegradationScore
  verdict : DegradationVerdict
  transitions : List TransitionRecord
  latchedHalts : List StoppingRuleKind

theorem isBlank_degradation : isBlank "lifecycle:degradation" = false := by decide

theorem colon_degradation : ':' ∈ "lifecycle:degradation".toList := by decide

def degradationActor : Actor :=
  ⟨.automatedRule, "lifecycle:degradation", isBlank_degradation, fun _ => colon_degradation⟩

def ruleActor (kind : StoppingRuleKind) : Actor where
  kind := .automatedRule
  name := "stopping_rule:" ++ kind.value
  named := isBlank_append_left _ (by decide)
  ruleNamed _ := by
    rw [String.toList_append]
    exact List.mem_append_left _ (by decide)

theorem named_degradation (hash at_ : String) :
    isBlank ("degradation:" ++ short hash ++ "@" ++ at_) = false :=
  isBlank_append_left _ (isBlank_append_left _ (isBlank_append_left _ (by decide)))

namespace LifecycleService

variable {L : Type} (std : Stdlib) (store : TransitionLog L) (config : DegradationConfig)
  (verdictDict : DegradationVerdict → Dict String Value)

/-- `_tracker`: the tracker kept for a strategy, or a new one at its state's band. -/
def tracker (s : LifecycleService L) (hash : String) (record : StrategyRecord) :
    DegradationTracker :=
  match s.trackers.get hash with
  | some t => t
  | none => ⟨.fromLifecycle record.state, none, 0, []⟩

def verdictEvidence (hash : String) (verdict : DegradationVerdict) (now : Timestamp) :
    Evidence where
  kind := .monitorResult
  id := "degradation:" ++ short hash ++ "@" ++ std.isoformat now
  summary := verdict.reason
  detail := verdictDict verdict
  named := named_degradation hash _

def demotionEvidence (hash : String) (verdict : DegradationVerdict) (input : EvaluationInput) :
    List Evidence :=
  verdictEvidence std verdictDict hash verdict input.now ::
    (input.report.map DivergenceReport.evidence).toList ++
    (input.rules.filter RuleEvaluation.fired).map RuleEvaluation.evidence

def demotionActor (input : EvaluationInput) : Actor :=
  match input.rules.filter RuleEvaluation.fired with
  | e :: _ => ruleActor e.kind
  | [] => degradationActor

/-- `_demote`: no move where the table has no edge. -/
def demote (m : LifecycleStateMachine L) (hash : String) (state target : StrategyLifecycle)
    (verdict : DegradationVerdict) (input : EvaluationInput) :
    LifecycleStateMachine L × Except LifecycleError (Option TransitionRecord) :=
  match edge state target with
  | none => (m, .ok none)
  | some _ =>
    let r := m.transition std store hash target (demotionActor input) verdict.reason
      (demotionEvidence std verdictDict hash verdict input) input.now
    (r.1, r.2.map fun updated => updated.history.getLast?)

def haltsAfter (s : LifecycleService L) (hash : String) (input : EvaluationInput) :
    List HaltEvent :=
  input.rules.foldl (recordFiring hash input.now) s.halts

def score (s : LifecycleService L) (hash : String) (input : EvaluationInput) : DegradationScore :=
  scoreDegradation input.report input.rules config (latched (s.haltsAfter hash input) hash).length

def evaluate (s : LifecycleService L) (hash : String) (input : EvaluationInput) :
    LifecycleService L × Except LifecycleError LifecycleEvaluation :=
  match s.machine.records.get hash with
  | none => (s, .error (.unknownStrategy hash))
  | some record =>
    let halts := s.haltsAfter hash input
    let score := s.score config hash input
    let observed := (s.tracker hash record).observe config score
    let verdict := observed.1
    let trackers := s.trackers.set hash observed.2
    let evaluation (stateAfter : StrategyLifecycle) (transitions : List TransitionRecord) :
        LifecycleEvaluation :=
      ⟨record.state, stateAfter, score, verdict, transitions, latched halts hash⟩
    let target := if verdict.changed ∧ verdict.worsened then verdict.targetState else none
    match target with
    | none => (⟨s.machine, halts, trackers⟩, .ok (evaluation record.state []))
    | some target =>
      match demote std store verdictDict s.machine hash record.state target verdict input with
      | (machine, .error e) => (⟨machine, halts, trackers⟩, .error e)
      | (machine, .ok none) => (⟨machine, halts, trackers⟩, .ok (evaluation record.state []))
      | (machine, .ok (some transition)) =>
        (⟨machine, halts, trackers⟩, .ok (evaluation target [transition]))

def running (s : LifecycleService L) : List String :=
  (s.machine.records.entries.filter fun e => e.2.state ∈ runningStates).map Prod.fst

/-- The ticks of `evaluate_all`, up to the first that raises. -/
def evaluateEach (inputs : String → EvaluationInput) :
    LifecycleService L → List String → LifecycleService L
  | s, [] => s
  | s, hash :: rest =>
    match s.evaluate std store config verdictDict hash (inputs hash) with
    | (s, .error _) => s
    | (s, .ok _) => evaluateEach inputs s rest

inductive Call where
  | lifecycle (call : LifecycleCall)
  | releaseHalt (hash : String) (kind : StoppingRuleKind) (operator reason : String)
      (now : Timestamp)
  | evaluate (hash : String) (input : EvaluationInput)
  | evaluateAll (inputs : String → EvaluationInput)

def step (s : LifecycleService L) : Call → LifecycleService L
  | .lifecycle call => { s with machine := s.machine.step std store call }
  | .releaseHalt hash kind operator reason now =>
    match Fiboki.releaseHalt s.halts hash kind operator reason now with
    | .ok halts => { s with halts := halts }
    | .error _ => s
  | .evaluate hash input => (s.evaluate std store config verdictDict hash input).1
  | .evaluateAll inputs => s.evaluateEach std store config verdictDict inputs s.running

/-- A tick: the service before it, the strategy and what it is given. -/
structure Tick (L : Type) where
  service : LifecycleService L
  hash : String
  input : EvaluationInput

/-- The ticks of `evaluate_all`. -/
def ticksEach (inputs : String → EvaluationInput) : LifecycleService L → List String → List (Tick L)
  | _, [] => []
  | s, hash :: rest =>
    ⟨s, hash, inputs hash⟩ ::
      match s.evaluate std store config verdictDict hash (inputs hash) with
      | (_, .error _) => []
      | (s, .ok _) => ticksEach inputs s rest

def ticks (s : LifecycleService L) : Call → List (Tick L)
  | .evaluate hash input => [⟨s, hash, input⟩]
  | .evaluateAll inputs => ticksEach std store config verdictDict inputs s s.running
  | _ => []

end LifecycleService

open Runs

section Halts

variable {events : List HaltEvent} {hash : String} {now : Timestamp} {e : RuleEvaluation}
  {key : String × StoppingRuleKind}

theorem mem_latched {kind : StoppingRuleKind} :
    kind ∈ latched events hash ↔ (hash, kind) ∈ haltState events := by
  unfold latched
  rw [List.mem_filter, decide_eq_true_eq]
  constructor
  · exact And.right
  · intro h
    exact ⟨by cases kind <;> decide, h⟩

theorem haltState_snoc_halt {event : HaltEvent} (h : event.action = .halt) :
    key ∈ haltState (events ++ [event]) ↔
      key ∈ haltState events ∨ key = (event.strategyContentHash, event.kind) := by
  unfold haltState
  rw [List.foldl_append, List.foldl_cons, List.foldl_nil, h]
  dsimp only
  split_ifs with hmem
  · constructor
    · exact .inl
    · rintro (hkey | rfl)
      · exact hkey
      · exact hmem
  · rw [List.mem_append, List.mem_singleton]

theorem recordFiring_keeps (h : key ∈ haltState events) :
    key ∈ haltState (recordFiring hash now events e) := by
  unfold recordFiring
  by_cases hfired : e.fired = true
  · rw [if_neg (not_not.2 hfired)]
    split_ifs
    · exact h
    · exact (haltState_snoc_halt rfl).2 (.inl h)
  · rw [if_pos hfired]
    exact h

theorem recordFiring_latches (h : e.fired = true) :
    (hash, e.kind) ∈ haltState (recordFiring hash now events e) := by
  unfold recordFiring
  rw [if_neg (not_not.2 h)]
  split_ifs with hmem
  · exact hmem
  · exact (haltState_snoc_halt rfl).2 (.inr rfl)

theorem recordFirings_keep (rules : List RuleEvaluation) (h : key ∈ haltState events) :
    key ∈ haltState (rules.foldl (recordFiring hash now) events) := by
  induction rules generalizing events with
  | nil => exact h
  | cons e rules ih => exact ih (recordFiring_keeps h)

theorem recordFirings_latch {rules : List RuleEvaluation} (he : e ∈ rules) (h : e.fired = true) :
    (hash, e.kind) ∈ haltState (rules.foldl (recordFiring hash now) events) := by
  induction rules generalizing events with
  | nil => cases he
  | cons a rules ih =>
    rcases List.mem_cons.1 he with rfl | he
    · exact recordFirings_keep rules (recordFiring_latches h)
    · exact ih he

end Halts

/-- The weight of the evidence that a firing or a latched halt is scored with: the
`rules` component and the components that the report evaluates. -/
def evidenceWeight (config : DegradationConfig) (report : Option DivergenceReport) : ℚ :=
  (componentDimensions.map fun c =>
    match componentScore report c.2 with
    | some _ => config.weight c.1
    | none => 0).sum + config.weight "rules"

theorem observedWeight_of_latched (config : DegradationConfig) (report : Option DivergenceReport)
    (rules : List RuleEvaluation) {n : ℕ} (h : n ≠ 0) :
    observedWeight report rules config n = evidenceWeight config report := by
  have hrules : rulesScore rules n = some 1 := by
    unfold rulesScore
    rw [if_pos (.inr h), if_pos (.inr h)]
  unfold observedWeight components evidenceWeight
  rw [hrules, List.map_append, List.sum_append, List.map_map, List.map_singleton,
    List.sum_singleton]
  rfl

section Tick

variable {L : Type} (std : Stdlib) (store : TransitionLog L) (config : DegradationConfig)
  (verdictDict : DegradationVerdict → Dict String Value)

namespace LifecycleService.Tick

def Halted (t : Tick L) : Prop :=
  (∃ e ∈ t.input.rules, e.fired = true) ∨ latched t.service.halts t.hash ≠ []

def Running (t : Tick L) : Prop :=
  ∃ record, t.service.machine.records.get t.hash = some record ∧ record.state ∈ runningStates

def after (t : Tick L) : LifecycleService L :=
  (t.service.evaluate std store config verdictDict t.hash t.input).1

def Stops (t : Tick L) : Prop :=
  t.Running → t.Halted → ∀ record, (t.after std store config verdictDict).machine.records.get
    t.hash =
    some record → record.state ∉ runningStates

/-- What stopping a halted strategy takes: evidence that has weight, a tracker that is
not in quarantine already, and a log that can be read. -/
def CanStop (t : Tick L) : Prop :=
  t.Running → t.Halted → 0 < evidenceWeight config t.input.report ∧
    (∀ tracker, t.service.trackers.get t.hash = some tracker → tracker.band ≠ .quarantined) ∧
    ∃ rows, store.records t.service.machine.log = .ok rows

end LifecycleService.Tick

open LifecycleService LifecycleStateMachine

variable {std store config verdictDict} {t : Tick L} {record : StrategyRecord}

theorem latched_after (h : t.Halted) :
    (latched (t.service.haltsAfter t.hash t.input) t.hash).length ≠ 0 := by
  have hsome : ∃ kind, kind ∈ latched (t.service.haltsAfter t.hash t.input) t.hash := by
    rcases h with ⟨e, he, hfired⟩ | hlatched
    · exact ⟨e.kind, mem_latched.2 (recordFirings_latch he hfired)⟩
    · obtain ⟨kind, hkind⟩ := List.exists_mem_of_ne_nil _ hlatched
      exact ⟨kind, mem_latched.2 (recordFirings_keep _ (mem_latched.1 hkind))⟩
  obtain ⟨kind, hkind⟩ := hsome
  exact (List.length_pos_of_mem hkind).ne'

variable (config) in
theorem forcedBand_score (h : t.Halted) : (t.service.score config t.hash t.input).forcedBand =
      if 0 < evidenceWeight config t.input.report then some .quarantined else none := by
  have hn := latched_after h
  have hweight := observedWeight_of_latched config t.input.report t.input.rules hn
  unfold LifecycleService.score
  rw [forcedBand_of_halted _ _ _ _ (.inr hn), hweight]

theorem score_unweighted (h : t.Halted) (hweight : ¬ 0 < evidenceWeight config t.input.report) :
    (t.service.score config t.hash t.input).score = 0 := by
  rw [← observedWeight_of_latched config t.input.report t.input.rules (latched_after h)] at hweight
  exact score_of_unweighted _ _ _ _ hweight

theorem machine_of_not_worsened (hget : t.service.machine.records.get t.hash = some record)
    (h : ((t.service.tracker t.hash record).observe config
      (t.service.score config t.hash t.input)).1.worsened = false) :
    (t.after std store config verdictDict).machine = t.service.machine := by
  unfold LifecycleService.Tick.after LifecycleService.evaluate
  rw [hget]
  simp only [h, Bool.false_eq_true, and_false, if_false]

theorem edge_quarantined : ∀ f ∈ runningStates,
    edge f quarantined = some ⟨f, quarantined, .healthEscalation, false, false⟩ := by
  decide

variable (std) in
theorem checkTransition_quarantined (hrunning : record.state ∈ runningStates) (hash : String)
    (actor : Actor) (item : Evidence) (rest : List Evidence) :
    checkTransition std record hash quarantined actor (item :: rest) =
      .ok ⟨record.state, quarantined, .healthEscalation, false, false⟩ := by
  unfold checkTransition
  rw [edge_quarantined _ hrunning]
  unfold checkEdge checkCeiling
  cases record.preHealthState <;> simp

def verdictOf (config : DegradationConfig) (t : Tick L) (record : StrategyRecord) :
    DegradationVerdict :=
  ((t.service.tracker t.hash record).observe config (t.service.score config t.hash t.input)).1

theorem machine_of_worsened {target : StrategyLifecycle}
    (hget : t.service.machine.records.get t.hash = some record)
    (hchanged : (verdictOf config t record).changed = true)
    (hworsened : (verdictOf config t record).worsened = true)
    (htarget : (verdictOf config t record).targetState = some target) :
    (t.after std store config verdictDict).machine =
      (demote std store verdictDict t.service.machine t.hash record.state target
        (verdictOf config t record) t.input).1 := by
  unfold verdictOf at hchanged hworsened htarget ⊢
  unfold LifecycleService.Tick.after LifecycleService.evaluate
  rw [hget]
  simp only [hchanged, hworsened, and_self, if_true, htarget]
  split <;> simp_all

theorem demote_quarantined (hget : t.service.machine.records.get t.hash = some record)
    (hrunning : record.state ∈ runningStates) (verdict : DegradationVerdict) :
    (demote std store verdictDict t.service.machine t.hash record.state quarantined verdict
        t.input).1 =
      (t.service.machine.write store
        (moveRecord std record t.hash quarantined .healthEscalation (demotionActor t.input)
          verdict.reason (demotionEvidence std verdictDict t.hash verdict t.input) t.input.now)
        record.applied).1 := by
  unfold demote
  rw [edge_quarantined _ hrunning]
  dsimp only
  unfold LifecycleStateMachine.transition
  rw [hget]
  dsimp only
  have hcheck := checkTransition_quarantined std hrunning t.hash (demotionActor t.input)
    (verdictEvidence std verdictDict t.hash verdict t.input.now)
    ((t.input.report.map DivergenceReport.evidence).toList ++
      (t.input.rules.filter RuleEvaluation.fired).map RuleEvaluation.evidence)
  unfold demotionEvidence
  rw [List.cons_append, hcheck]

theorem tracker_not_quarantined (hrunning : record.state ∈ runningStates)
    (h : ∀ tracker, t.service.trackers.get t.hash = some tracker → tracker.band ≠ .quarantined) :
    (t.service.tracker t.hash record).band ≠ .quarantined := by
  have hband : ∀ s ∈ runningStates, DegradationBand.fromLifecycle s ≠ .quarantined := by decide
  unfold LifecycleService.tracker
  cases hkept : t.service.trackers.get t.hash with
  | none => exact hband _ hrunning
  | some tracker => exact h tracker hkept

theorem verdict_forced (h : t.Halted) (hweight : 0 < evidenceWeight config t.input.report)
    (hband : (t.service.tracker t.hash record).band ≠ .quarantined) :
    (verdictOf config t record).changed = true ∧ (verdictOf config t record).worsened = true ∧
      (verdictOf config t record).targetState = some quarantined := by
  have hforced := forcedBand_score config h
  rw [if_pos hweight] at hforced
  have hdeeper := DegradationBand.depth_lt_quarantined.2 hband
  unfold verdictOf
  rw [DegradationTracker.observe_forced hforced hdeeper]
  exact ⟨rfl, decide_eq_true hdeeper, rfl⟩

theorem stops_of_canStop (h : t.CanStop store config) : t.Stops std store config verdictDict := by
  intro hrun hhalted after hafter hstill
  obtain ⟨hweight, htracker, rows, hread⟩ := h hrun hhalted
  obtain ⟨record, hget, hrunning⟩ := hrun
  obtain ⟨hchanged, hworsened, htarget⟩ := verdict_forced hhalted hweight
    (tracker_not_quarantined hrunning htracker)
  rw [machine_of_worsened hget hchanged hworsened htarget,
    demote_quarantined hget hrunning] at hafter
  unfold LifecycleStateMachine.write at hafter
  rw [hread] at hafter
  have hset := Option.some.inj ((Dict.get_set_self _ _ _).symm.trans hafter)
  have hstate : after.state = quarantined := by
    have hkind : TransitionKind.healthEscalation ≠ .registration := by decide
    rw [← hset, applied_eq _ _ hkind]
    rfl
  rw [hstate] at hstill
  exact absurd hstill (by decide)

theorem canStop_of_stops (h : t.Stops std store config verdictDict) : t.CanStop store config := by
  intro hrun hhalted
  have hleft : (t.after std store config verdictDict).machine ≠ t.service.machine := by
    intro hsame
    obtain ⟨record, hget, hrunning⟩ := hrun
    have hafter := hget
    rw [← hsame] at hafter
    exact h ⟨record, hget, hrunning⟩ hhalted record hafter hrunning
  obtain ⟨record, hget, hrunning⟩ := hrun
  have hweight : 0 < evidenceWeight config t.input.report := by
    by_contra hnot
    have hforced := forcedBand_score config hhalted
    rw [if_neg hnot] at hforced
    have hscore := score_unweighted hhalted hnot
    exact hleft (machine_of_not_worsened hget
      (DegradationTracker.not_worsened_of_unforced hforced hscore.le))
  have htracker : ∀ tracker, t.service.trackers.get t.hash = some tracker →
      tracker.band ≠ .quarantined := by
    intro tracker hkept hband
    refine hleft (machine_of_not_worsened hget (DegradationTracker.not_worsened_of_quarantined ?_))
    unfold LifecycleService.tracker
    rw [hkept]
    exact hband
  refine ⟨hweight, htracker, ?_⟩
  cases hread : store.records t.service.machine.log with
  | ok rows => exact ⟨rows, rfl⟩
  | error e =>
    obtain ⟨hchanged, hworsened, htarget⟩ := verdict_forced hhalted hweight
      (tracker_not_quarantined hrunning htracker)
    refine absurd ?_ hleft
    rw [machine_of_worsened hget hchanged hworsened htarget, demote_quarantined hget hrunning]
    unfold LifecycleStateMachine.write
    rw [hread]

end Tick

namespace Stopping

open LifecycleService

/-- In every run of the service, from whatever state, every tick stops a halted strategy
exactly when every tick that sees one can stop it. -/
theorem halted_stops_iff {L : Type} (std : Stdlib) (store : TransitionLog L)
    (config : DegradationConfig) (verdictDict : DegradationVerdict → Dict String Value)
    (s : LifecycleService L) (calls : List LifecycleService.Call) :
    Along (fun s c => ∀ t ∈ s.ticks std store config verdictDict c,
        t.Stops std store config verdictDict)
      (step std store config verdictDict) s calls ↔
    Along (fun s c => ∀ t ∈ s.ticks std store config verdictDict c, t.CanStop store config)
      (step std store config verdictDict) s calls := by
  apply along_iff_of_invariant (I := fun _ => True) (fun _ _ _ _ => trivial) _ trivial
  intro s c _
  constructor
  · intro h t ht
    exact canStop_of_stops (h t ht)
  · intro h t ht
    exact stops_of_canStop (h t ht)

def firedFloor : RuleEvaluation := ⟨.psrFloor, .fired, "psr_floor: FIRED", LadderRuns.note⟩

def firing : EvaluationInput := ⟨none, [firedFloor], 0⟩

def recovered : List LifecycleService.Call :=
  [.lifecycle (.register "trend" "a1" LadderRuns.operator "new" [] 0),
    .lifecycle (LadderRuns.promoteTo research), .lifecycle (LadderRuns.promoteTo validating),
    .lifecycle (LadderRuns.promoteTo candidate), .lifecycle (LadderRuns.promoteTo paper),
    .evaluate "a1" firing, .releaseHalt "a1" .psrFloor "operator" "reviewed" 0,
    .lifecycle (LadderRuns.promoteTo paper)]

abbrev paperStep : LifecycleService (List TransitionRecord) → LifecycleService.Call →
    LifecycleService (List TransitionRecord) :=
  step epochStdlib inMemoryTransitionLog .v1 fun _ => .empty

def freshService : LifecycleService (List TransitionRecord) := ⟨⟨[], .empty⟩, [], .empty⟩

/-- The rule fires again, and the strategy stays on PAPER. -/
theorem second_firing_ignored : ¬ ∀ calls : List LifecycleService.Call,
      Along (fun s c => ∀ t ∈ s.ticks epochStdlib inMemoryTransitionLog .v1 (fun _ => .empty) c,
          t.Stops epochStdlib inMemoryTransitionLog .v1 fun _ => .empty)
        paperStep freshService calls := by
  intro h
  have hlast := (h (recovered ++ [.evaluate "a1" firing])).at_last
  have hbefore : (((exec paperStep freshService recovered).machine.records.get "a1").map
      StrategyRecord.state) = some paper := by
    decide +kernel
  have hafter : (((exec paperStep freshService
      (recovered ++ [.evaluate "a1" firing])).machine.records.get "a1").map
      StrategyRecord.state) = some paper := by
    decide +kernel
  obtain ⟨before, hget, hstate⟩ := Option.map_eq_some_iff.1 hbefore
  obtain ⟨after, hget', hstate'⟩ := Option.map_eq_some_iff.1 hafter
  rw [exec_append] at hget'
  have hstops := hlast _ (List.mem_singleton_self _) ⟨before, hget, by rw [hstate]; decide⟩
    (.inl ⟨firedFloor, List.mem_singleton_self _, rfl⟩) after hget'
  rw [hstate'] at hstops
  exact hstops (by decide)

end Stopping

end Fiboki
