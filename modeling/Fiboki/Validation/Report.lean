import Fiboki.Validation.Data
import Fiboki.Validation.Gates

/-!
The validation report: the verdict derived from the rungs and the gates, and the
JSON text a report is stored as.
-/

namespace Fiboki

open Wire
open Floating (Number)

inductive RungOutcome where
  | pass
  | fail
  | notReached
  | error
  deriving DecidableEq

namespace RungOutcome

def value : RungOutcome → String
  | pass => "pass"
  | fail => "fail"
  | notReached => "not_reached"
  | error => "error"

def members : List RungOutcome := [pass, fail, notReached, error]

def rejects : RungOutcome → Bool
  | fail | error => true
  | pass | notReached => false

end RungOutcome

structure RungResult where
  index : ℤ
  name : String
  outcome : RungOutcome
  reason : String
  metrics : Data
  provenance : Provenance
  isEvidence : Bool
  reasoned : outcome.rejects = true → reason ≠ ""

namespace RungResult

def passed (r : RungResult) : Bool := decide (r.outcome = .pass)

def label (r : RungResult) : String :=
  "RUNG " ++ String.ofList (Json.intText r.index) ++ " " ++ r.name

/-- The entries of `toDict`. -/
def entries (r : RungResult) : List (String × Value) :=
  [("index", .int r.index),
    ("name", .str r.name),
    ("label", .str r.label),
    ("outcome", .str r.outcome.value),
    ("reason", .str r.reason),
    ("metrics", r.metrics.canonicalise),
    ("provenance", .str r.provenance.value),
    ("is_evidence", .bool r.isEvidence)]

def toDict (r : RungResult) : Value := .dict r.entries

end RungResult

inductive Verdict where
  | promote
  | reject
  | incomplete
  deriving DecidableEq

namespace Verdict

def value : Verdict → String
  | promote => "promote"
  | reject => "reject"
  | incomplete => "incomplete"

def members : List Verdict := [promote, reject, incomplete]

def promotable (v : Verdict) : Bool := decide (v = promote)

end Verdict

structure BindingConstraint where
  kind : String
  name : String
  rungIndex : ℤ
  reason : String
  observed : Option Number
  required : Option Number
  comparison : String
  shortfall : Option Number

namespace BindingConstraint

def none : BindingConstraint := ⟨"none", "", -1, "no gate or rung blocked", .none, .none, "", .none⟩

variable (text : Numerals)

/-- `from_gate(result, reason=reason)`; an empty reason is the description of the result. -/
def fromGate (result : GateResult) (reason : String) : BindingConstraint where
  kind := "gate"
  name := result.gate.name
  rungIndex := result.gate.rung
  reason := if reason = "" then result.describe text else reason
  observed := result.value
  required := some result.gate.threshold
  comparison := result.gate.comparison.value
  shortfall := result.shortfall

def fromRung (rung : RungResult) : BindingConstraint where
  kind := "rung"
  name := rung.label
  rungIndex := rung.index
  reason := rung.reason
  observed := .none
  required := .none
  comparison := ""
  shortfall := .none

def describe (b : BindingConstraint) : String :=
  if b.kind = "none" then "none"
  else
    match b.observed, b.required with
    | some observed, some required =>
      b.name ++ ": observed " ++ text.general 4 observed ++ ", required " ++ b.comparison ++ " " ++
        text.general 6 required ++
        match b.shortfall with
        | .none => ""
        | some short => ", short by " ++ text.general 4 short
    | _, _ => b.name ++ ": " ++ b.reason

/-- The entries of `toDict`. -/
def entries (b : BindingConstraint) : List (String × Value) :=
  [("kind", .str b.kind),
    ("name", .str b.name),
    ("rung_index", .int b.rungIndex),
    ("reason", .str b.reason),
    ("observed", writeOption numberValue b.observed),
    ("required", writeOption numberValue b.required),
    ("comparison", .str b.comparison),
    ("shortfall", writeOption numberValue b.shortfall),
    ("description", .str (b.describe text))]

def toDict (b : BindingConstraint) : Value := .dict (b.entries text)

end BindingConstraint

structure ValidationReport where
  strategyId : String
  strategyContentHash : String
  datasetVersionId : String
  codeVersion : String
  engineConfig : Data
  brokerProfile : Data
  ladderConfig : Data
  windows : Data
  gateSetVersion : String
  gateSetFingerprint : String
  gateResults : List GateResult
  rungs : List RungResult
  trialCountN : ℤ
  rawTrialCount : ℤ
  crossTrialSharpeVariance : Number
  dsrVarianceSource : String
  provenanceLabels : Dict String String
  verdict : Verdict
  bindingConstraint : BindingConstraint
  lifecycleRecommendation : StrategyLifecycle
  notes : String
  reportVersion : String
  createdAt : String
  experimentId : String
  actor : String

def reportVersion : String := "2.0.0"

/-- What a report is built from. The code version and the time of creation are those of
the process that builds it. -/
structure ReportParts where
  strategyId : String
  strategyContentHash : String
  datasetVersionId : String
  gateSet : GateSet
  gateResults : List GateResult
  rungs : List RungResult
  engineConfig : List (String × Data)
  brokerProfile : List (String × Data)
  ladderConfig : List (String × Data)
  windows : List (String × Data)
  trialCountN : ℤ
  rawTrialCount : ℤ
  crossTrialSharpeVariance : Number
  dsrVarianceSource : String
  provenanceLabels : Dict String String
  experimentId : String
  actor : String
  notes : String
  codeVersion : String
  createdAt : String

namespace ValidationReport

variable (text : Numerals)

def failingRung (rungs : List RungResult) : Option RungResult :=
  (rungs.insertionSort fun a b => a.index ≤ b.index).find? fun r => r.outcome.rejects

def judge (rungs : List RungResult) (gates : List GateResult) : Verdict × BindingConstraint :=
  match failingRung rungs with
  | some rung =>
    let gate := gates.find? fun g => decide (g.gate.rung = rung.index) && g.status.blocksPromotion
    (.reject,
      match gate with
      | some g => .fromGate text g rung.reason
      | none => .fromRung rung)
  | none =>
    match GateSet.bindingConstraint gates with
    | some g =>
      (if g.status = .notEvaluated then .incomplete else .reject, .fromGate text g "")
    | none =>
      match minBy RungResult.index (rungs.filter fun r => decide (r.outcome = .notReached)) with
      | some r =>
        (.incomplete,
          { BindingConstraint.fromRung r with
            reason := "the ladder did not run every rung" })
      | none => (.promote, .none)

def build (parts : ReportParts) : ValidationReport :=
  let (verdict, binding) := judge text parts.rungs parts.gateResults
  { strategyId := parts.strategyId
    strategyContentHash := parts.strategyContentHash
    datasetVersionId := parts.datasetVersionId
    codeVersion := parts.codeVersion
    engineConfig := .mapping parts.engineConfig
    brokerProfile := .mapping parts.brokerProfile
    ladderConfig := .mapping parts.ladderConfig
    windows := .mapping parts.windows
    gateSetVersion := parts.gateSet.version
    gateSetFingerprint := parts.gateSet.fingerprint text
    gateResults := parts.gateResults
    rungs := parts.rungs
    trialCountN := parts.trialCountN
    rawTrialCount := parts.rawTrialCount
    crossTrialSharpeVariance := parts.crossTrialSharpeVariance
    dsrVarianceSource := parts.dsrVarianceSource
    provenanceLabels := parts.provenanceLabels
    verdict := verdict
    bindingConstraint := binding
    lifecycleRecommendation := if verdict.promotable then .candidate else .research
    notes := parts.notes
    reportVersion := Fiboki.reportVersion
    createdAt := parts.createdAt
    experimentId := parts.experimentId
    actor := parts.actor }

/-- The entries of `toDict`. -/
def entries (r : ValidationReport) : List (String × Value) :=
  [("report_version", .str r.reportVersion),
    ("created_at", .str r.createdAt),
    ("experiment_id", .str r.experimentId),
    ("actor", .str r.actor),
    ("strategy_id", .str r.strategyId),
    ("strategy_content_hash", .str r.strategyContentHash),
    ("dataset_version_id", .str r.datasetVersionId),
    ("code_version", .str r.codeVersion),
    ("engine_config", r.engineConfig.canonicalise),
    ("broker_profile", r.brokerProfile.canonicalise),
    ("ladder_config", r.ladderConfig.canonicalise),
    ("windows", r.windows.canonicalise),
    ("gate_set_version", .str r.gateSetVersion),
    ("gate_set_fingerprint", .str r.gateSetFingerprint),
    ("gate_results", .list (r.gateResults.map (GateResult.toDict text))),
    ("rungs", .list (r.rungs.map RungResult.toDict)),
    ("trial_count_n", .int r.trialCountN),
    ("raw_trial_count", .int r.rawTrialCount),
    ("cross_trial_sharpe_variance", (Data.float r.crossTrialSharpeVariance).canonicalise),
    ("dsr_variance_source", .str r.dsrVarianceSource),
    ("provenance_labels", .dict (r.provenanceLabels.map Value.str).entries),
    ("verdict", .str r.verdict.value),
    ("binding_constraint", r.bindingConstraint.toDict text),
    ("lifecycle_recommendation", .str r.lifecycleRecommendation.value),
    ("notes", .str r.notes)]

def toDict (r : ValidationReport) : Value := .dict (r.entries text)

end ValidationReport

/-- `indent=2, separators=(",", ": ")`. -/
def indented : Json.Style where
  escape := .plain
  newline d := '\n' :: List.replicate (2 * d) ' '
  gap := [' ']
  newline_blank := by
    intro d c hc
    rcases List.mem_cons.1 hc with rfl | hc
    · rfl
    · rw [List.eq_of_mem_replicate hc]
      rfl
  gap_blank := by
    intro c hc
    rw [List.mem_singleton.1 hc]
    rfl

/-- `dumps(payload)` in a style; a canonical view has its keys in order and nothing that JSON
cannot represent. -/
def dumps (text : Numerals) (style : Json.Style) (payload : Value) : List Char :=
  Json.write text.floats style 0 (canonicalise payload)

theorem loads_dumps (text : Numerals) (style : Json.Style) (payload : Value) :
    Json.loads text.floats (dumps text style payload) = some (canonicalise payload) :=
  Json.loads_write text.floats style (sorted_of_canonical (canonical_canonicalise payload))

namespace ValidationReport

variable (text : Numerals)

def toJson (r : ValidationReport) : List Char := dumps text indented (r.toDict text)

/-- The texts of a report are without lone surrogates, which `encode` refuses here and in `save`. -/
def contentHash (r : ValidationReport) : String :=
  Sha256.hexdigest (Utf8.encode (dumps text (Json.compact .plain) (r.toDict text)))

def save (r : ValidationReport) : List UInt8 := Utf8.encode (r.toJson text)

end ValidationReport

end Fiboki
