import Fiboki.Core.Stdlib
import Fiboki.Lib.Digests
import Fiboki.Validation.Canonical

/-!
The lifecycle state machine: actors and evidence, the table of legal moves, the
hash-chained records, the log they are appended to, and the machine that checks
and writes a move.
-/

namespace Fiboki

open Wire Text

inductive LifecycleError where
  | lifecycleError (message : String)
  | illegalTransition (fromState toState : StrategyLifecycle) (detail : String)
  | humanAuthorisationRequired (message : String)
  | unknownStrategy (strategyContentHash : String)
  | tamperedLog (message : String)
  | valueError (message : String)

def LifecycleError.message : LifecycleError → String
  | lifecycleError message => message
  | illegalTransition f t detail =>
    "illegal lifecycle transition " ++ f.value ++ " -> " ++ t.value ++
      if detail = "" then "" else ": " ++ detail
  | humanAuthorisationRequired message => message
  | unknownStrategy hash =>
    "no lifecycle record for strategy content hash " ++ pyRepr (short hash) ++
      "; register it before asking for its state"
  | tamperedLog message => message
  | valueError message => message

inductive ActorKind where
  | human
  | automatedRule
  | system
  deriving DecidableEq

namespace ActorKind

def value : ActorKind → String
  | human => "human"
  | automatedRule => "automated_rule"
  | system => "system"

def members : List ActorKind := [human, automatedRule, system]

def isAutomatic (k : ActorKind) : Bool := k ≠ human

end ActorKind

structure Actor where
  kind : ActorKind
  name : String
  named : isBlank name = false
  ruleNamed : kind = .automatedRule → ':' ∈ name.toList

namespace Actor

def make (kind : ActorKind) (name : String) : Except String Actor :=
  if hname : isBlank name = false then
    if hrule : kind = .automatedRule → ':' ∈ name.toList then .ok ⟨kind, name, hname, hrule⟩
    else .error ("an automated rule must name itself as '<family>:<rule>' (got " ++ pyRepr name ++
      "), so the history says WHICH rule fired")
  else .error ("actor name is mandatory: a transition nobody is named for " ++
    "cannot be followed up")

def isAutomatic (a : Actor) : Bool := a.kind.isAutomatic

def toDict (a : Actor) : Value := .dict [("kind", .str a.kind.value), ("name", .str a.name)]

end Actor

inductive EvidenceKind where
  | validationReport
  | monitorResult
  | stoppingRule
  | promotionEvaluation
  | preRegistration
  | humanAuthorisation
  | operatorNote
  deriving DecidableEq

namespace EvidenceKind

def value : EvidenceKind → String
  | validationReport => "validation_report"
  | monitorResult => "monitor_result"
  | stoppingRule => "stopping_rule"
  | promotionEvaluation => "promotion_evaluation"
  | preRegistration => "pre_registration"
  | humanAuthorisation => "human_authorisation"
  | operatorNote => "operator_note"

def members : List EvidenceKind :=
  [validationReport, monitorResult, stoppingRule, promotionEvaluation, preRegistration,
    humanAuthorisation, operatorNote]

end EvidenceKind

structure Evidence where
  kind : EvidenceKind
  id : String
  summary : String
  detail : Dict String Value
  named : isBlank id = false

namespace Evidence

def make (kind : EvidenceKind) (id summary : String) (detail : Dict String Value) :
    Except String Evidence :=
  if hid : isBlank id = false then .ok ⟨kind, id, summary, detail, hid⟩
  else .error (kind.value ++ " evidence needs an id to point at")

def toDict (e : Evidence) : Value := .dict
  [("kind", .str e.kind.value),
    ("id", .str e.id),
    ("summary", .str e.summary),
    ("detail", canonicalise (.dict e.detail.entries))]

end Evidence

/-- A named human's written authorisation for one strategy into one state. -/
structure HumanAuthorisation where
  authorisedBy : String
  strategyContentHash : String
  toState : StrategyLifecycle
  statement : String
  authorisedAt : Timestamp
  reviewedReportHash : String
  ticket : String
  byNamed : isBlank authorisedBy = false
  hashNamed : isBlank strategyContentHash = false
  stated : 24 ≤ (strip statement).length

variable (std : Stdlib)

/-- `str(raw[key])`. -/
def strField (raw : Dict String Value) (key : String) : Except String String :=
  match raw.get key with
  | some v => .ok (std.str v)
  | none => .error key

/-- `str(raw.get(key, default))`. -/
def strFieldOr (raw : Dict String Value) (key default : String) : String :=
  match raw.get key with
  | some v => std.str v
  | none => default

/-- `Cls(raw[key])`. -/
def memberField {α : Type} (cls : String) (members : List α) (value : α → String)
    (raw : Dict String Value) (key : String) : Except String α :=
  match raw.get key with
  | some v => memberValue std cls members value v
  | none => .error key

namespace HumanAuthorisation

def fits (a : HumanAuthorisation) (strategyContentHash : String) (toState : StrategyLifecycle) :
    Bool :=
  a.strategyContentHash = strategyContentHash ∧ a.toState = toState

def fromDict (raw : Dict String Value) : Except String HumanAuthorisation := do
  let authorisedBy ← strField std raw "authorised_by"
  let strategyContentHash ← strField std raw "strategy_content_hash"
  let toState ← memberField std "StrategyLifecycle" StrategyLifecycle.members
    StrategyLifecycle.value raw "to_state"
  let statement ← strField std raw "statement"
  let authorisedAt ← std.fromisoformat (← strField std raw "authorised_at")
  let reviewedReportHash := strFieldOr std raw "reviewed_report_hash" ""
  let ticket := strFieldOr std raw "ticket" ""
  if hby : isBlank authorisedBy = false then
    if hhash : isBlank strategyContentHash = false then
      if hstated : 24 ≤ (strip statement).length then
        return ⟨authorisedBy, strategyContentHash, toState, statement, authorisedAt,
          reviewedReportHash, ticket, hby, hhash, hstated⟩
      else throw ("a human authorisation must state WHY in at least 24 characters; got " ++
        natText (strip statement).length)
    else throw "a human authorisation must name the strategy content hash"
  else throw "a human authorisation must name the human"

end HumanAuthorisation

/-- `_authorisation_in`: the first authorisation that can be read. -/
def authorisationIn : List Evidence → Option HumanAuthorisation
  | [] => none
  | item :: rest =>
    if item.kind ≠ .humanAuthorisation then authorisationIn rest
    else
      match HumanAuthorisation.fromDict std item.detail with
      | .ok auth => some auth
      | .error _ => authorisationIn rest

open StrategyLifecycle

def ladder : List StrategyLifecycle :=
  [discovery, research, validating, candidate, paper, shadow, demo, approved, live]

def runningStates : List StrategyLifecycle := [paper, shadow, demo, approved, live]

def healthStates : List StrategyLifecycle := [watch, degraded, quarantined]

def preRunning : List StrategyLifecycle := [discovery, research, validating, candidate]

/-- The position on the ladder, or `-1` off it. -/
def ladderIndex (s : StrategyLifecycle) : ℤ := if s ∈ ladder then ladder.idxOf s else -1

inductive TransitionKind where
  | registration
  | promotion
  | demotion
  | healthEscalation
  | recovery
  | retirement
  deriving DecidableEq

namespace TransitionKind

def value : TransitionKind → String
  | registration => "registration"
  | promotion => "promotion"
  | demotion => "demotion"
  | healthEscalation => "health_escalation"
  | recovery => "recovery"
  | retirement => "retirement"

def members : List TransitionKind :=
  [registration, promotion, demotion, healthEscalation, recovery, retirement]

end TransitionKind

structure LifecycleTransition where
  fromState : StrategyLifecycle
  toState : StrategyLifecycle
  kind : TransitionKind
  requiresHumanActor : Bool
  requiresHumanAuthorisation : Bool
  deriving DecidableEq

/-- `_build_transitions`, in the order it appends. -/
def legalTransitions : List LifecycleTransition :=
  [⟨discovery, discovery, .registration, false, false⟩] ++
  ((ladder.zip ladder.tail).map fun (lower, upper) =>
    ⟨lower, upper, .promotion, decide (upper ∈ runningStates), decide (upper = live)⟩) ++
  (ladder.zipIdx.flatMap fun (higher, i) =>
    (ladder.take i).map fun lower => ⟨higher, lower, .demotion, false, false⟩) ++
  (runningStates.flatMap fun running =>
    healthStates.map fun health => ⟨running, health, .healthEscalation, false, false⟩) ++
  ([(watch, degraded), (watch, quarantined), (degraded, quarantined)].map fun (higher, lower) =>
    ⟨higher, lower, .healthEscalation, false, false⟩) ++
  (healthStates.flatMap fun health =>
    runningStates.map fun running => ⟨health, running, .recovery, true, decide (running = live)⟩) ++
  ([(degraded, watch), (quarantined, watch), (quarantined, degraded)].map fun (deeper, shallower) =>
    ⟨deeper, shallower, .recovery, true, false⟩) ++
  (healthStates.flatMap fun health =>
    preRunning.map fun lab => ⟨health, lab, .demotion, false, false⟩) ++
  ((members.filter (· ≠ retired)).map fun state => ⟨state, retired, .retirement, true, false⟩)

/-- `_BY_KEY.get((from, to))`; the registration edge is never requested. -/
def edge (fromState toState : StrategyLifecycle) : Option LifecycleTransition :=
  if fromState = toState then none
  else legalTransitions.find? fun t => t.fromState = fromState ∧ t.toState = toState

structure TransitionRecord where
  sequence : ℤ
  recordedAt : Timestamp
  strategyId : String
  strategyContentHash : String
  fromState : StrategyLifecycle
  toState : StrategyLifecycle
  kind : TransitionKind
  actor : Actor
  automatic : Bool
  reason : String
  evidence : List Evidence
  previousHash : String
  recordHash : String

def genesisHash : String := String.ofList (List.replicate 64 '0')

namespace TransitionRecord

/-- The entries of `payload`: everything the hash commits to. -/
def payload (r : TransitionRecord) : List (String × Value) :=
  [("sequence", .int r.sequence),
    ("at", .str (std.isoformat r.recordedAt)),
    ("strategy_id", .str r.strategyId),
    ("strategy_content_hash", .str r.strategyContentHash),
    ("from_state", .str r.fromState.value),
    ("to_state", .str r.toState.value),
    ("kind", .str r.kind.value),
    ("actor", r.actor.toDict),
    ("automatic", .bool r.automatic),
    ("reason", .str r.reason),
    ("evidence", .list (r.evidence.map Evidence.toDict)),
    ("previous_hash", .str r.previousHash)]

def digest (payload : List (String × Value)) : String :=
  Sha256.hexdigest ((canonicalText std.floats (.dict payload)).flatMap String.utf8EncodeChar)

def recomputeHash (r : TransitionRecord) : String := digest std (r.payload std)

/-- A record with its hash computed; `automatic` is derived from the actor. -/
def sealRecord (sequence : ℤ) (recordedAt : Timestamp) (strategyId strategyContentHash : String)
    (fromState toState : StrategyLifecycle) (kind : TransitionKind) (actor : Actor)
    (reason : String) (evidence : List Evidence) (previousHash : String) : TransitionRecord :=
  let draft : TransitionRecord := ⟨sequence, recordedAt, strategyId, strategyContentHash, fromState,
    toState, kind, actor, actor.isAutomatic, reason, evidence, previousHash, ""⟩
  { draft with recordHash := digest std (draft.payload std) }

def toDict (r : TransitionRecord) : Value :=
  .dict (r.payload std ++ [("record_hash", .str r.recordHash)])

def toJson (r : TransitionRecord) : List Char := canonicalText std.floats (r.toDict std)

end TransitionRecord

structure ChainVerification where
  ok : Bool
  nRecords : ℕ
  brokenAt : Option ℕ
  reason : String

/-- A log: what can be read from it, and a record appended to it.  An append that raises is no call
here. -/
structure TransitionLog (L : Type) where
  records : L → Except LifecycleError (List TransitionRecord)
  append : L → TransitionRecord → L

def inMemoryTransitionLog : TransitionLog (List TransitionRecord) where
  records := .ok
  append rows record := rows ++ [record]

/-- The `record_hash` of the last record. -/
def headHash (rows : List TransitionRecord) : String :=
  match rows.getLast? with
  | some row => row.recordHash
  | none => genesisHash

/-- The first break among the rows from position `i` on. -/
def firstBreak : ℕ → String → List TransitionRecord → Option (ℕ × String)
  | _, _, [] => none
  | i, previous, row :: rest =>
    if row.sequence ≠ i then
      some (i, "sequence " ++ toString row.sequence ++ " at position " ++ natText i)
    else if row.previousHash ≠ previous then
      some (i, "previous_hash " ++ short row.previousHash ++ " does not match predecessor " ++
        short previous)
    else if row.recomputeHash std ≠ row.recordHash then
      some (i, "record_hash " ++ short row.recordHash ++
        " does not match the payload, which hashes to " ++ short (row.recomputeHash std))
    else firstBreak (i + 1) row.recordHash rest

def verifyRows (rows : List TransitionRecord) : ChainVerification :=
  match firstBreak std 0 genesisHash rows with
  | some (i, reason) => ⟨false, rows.length, some i, reason⟩
  | none => ⟨true, rows.length, none, ""⟩

def ChainVerification.describe (v : ChainVerification) : String :=
  if v.ok then "chain intact over " ++ natText v.nRecords ++ " record(s)"
  else "chain BROKEN at record " ++
    (match v.brokenAt with
    | some i => natText i
    | none => "None") ++ ": " ++ v.reason

structure StrategyRecord where
  strategyId : String
  strategyContentHash : String
  state : StrategyLifecycle
  createdAt : Timestamp
  history : List TransitionRecord
  preHealthState : Option StrategyLifecycle

namespace StrategyRecord

/-- The record after `record`; it validates nothing. -/
def applied (s : StrategyRecord) (record : TransitionRecord) : StrategyRecord :=
  if record.kind = .registration then { s with history := s.history ++ [record] }
  else
    let leavingLadder := s.state ∈ ladder ∧ record.toState ∈ healthStates
    let returning := record.toState ∈ ladder
    { s with
      state := record.toState
      history := s.history ++ [record]
      preHealthState :=
        if leavingLadder then some s.state else if returning then none else s.preHealthState }

def opened (record : TransitionRecord) : StrategyRecord where
  strategyId := record.strategyId
  strategyContentHash := record.strategyContentHash
  state := discovery
  createdAt := record.recordedAt
  history := [record]
  preHealthState := none

end StrategyRecord

structure LifecycleStateMachine (L : Type) where
  log : L
  records : Dict String StrategyRecord

namespace LifecycleStateMachine

variable {L : Type} (store : TransitionLog L)

def replayRow (records : Dict String StrategyRecord) (row : TransitionRecord) :
    Except LifecycleError (Dict String StrategyRecord) :=
  if row.kind = .registration then
    .ok (records.set row.strategyContentHash (.opened row))
  else
    match records.get row.strategyContentHash with
    | none => .error (.tamperedLog ("transition for unregistered strategy " ++
        short row.strategyContentHash ++ " at sequence " ++ toString row.sequence))
    | some current => .ok (records.set row.strategyContentHash (current.applied row))

/-- A machine on an existing log: `_replay`. -/
def load (log : L) : Except LifecycleError (LifecycleStateMachine L) := do
  let rows ← store.records log
  let verification := verifyRows std rows
  if ¬ verification.ok then
    throw (.tamperedLog ("refusing to load lifecycle state: " ++ verification.describe))
  let records ← rows.foldlM replayRow Dict.empty
  return ⟨log, records⟩

def write (m : LifecycleStateMachine L) (draft : List TransitionRecord → TransitionRecord)
    (apply : TransitionRecord → StrategyRecord) :
    LifecycleStateMachine L × Except LifecycleError StrategyRecord :=
  match store.records m.log with
  | .error e => (m, .error e)
  | .ok rows =>
    let record := draft rows
    let updated := apply record
    (⟨store.append m.log record, m.records.set record.strategyContentHash updated⟩, .ok updated)

theorem named_registration (hash : String) : isBlank ("registration:" ++ short hash) = false :=
  isBlank_append_left _ (by decide)

/-- `Evidence.note` of a registration that cites nothing. -/
def registrationNote (hash reason : String) : Evidence where
  kind := .operatorNote
  id := "registration:" ++ short hash
  summary := reason
  detail := .empty
  named := named_registration hash

def registrationRecord (strategyId strategyContentHash : String) (actor : Actor) (reason : String)
    (evidence : List Evidence) (now : Timestamp) (rows : List TransitionRecord) :
    TransitionRecord :=
  let item := if evidence = [] then [registrationNote strategyContentHash reason] else evidence
  .sealRecord std rows.length now strategyId strategyContentHash discovery discovery .registration
    actor reason item (headHash rows)

def register (m : LifecycleStateMachine L) (strategyId strategyContentHash : String)
    (actor : Actor) (reason : String) (evidence : List Evidence) (now : Timestamp) :
    LifecycleStateMachine L × Except LifecycleError StrategyRecord :=
  match m.records.get strategyContentHash with
  | some current =>
    (m, .error (.lifecycleError ("strategy " ++ short strategyContentHash ++
      " is already registered in state " ++ current.state.value)))
  | none =>
    if isBlank strategyContentHash then
      (m, .error (.valueError "strategy_content_hash is mandatory"))
    else
      m.write store
        (registrationRecord std strategyId strategyContentHash actor reason evidence now) .opened

def illegalHint (fromState toState : StrategyLifecycle) : String :=
  if fromState ∈ ladder ∧ toState ∈ ladder ∧ ladderIndex fromState + 1 < ladderIndex toState then
    "promotion moves exactly one stage; the intermediate stages " ++
      "gather the evidence this one would be promoting without"
  else if fromState = retired then "RETIRED is terminal; a revived idea is a new content hash"
  else ""

def checkLive (strategyContentHash : String) (actor : Actor) (evidence : List Evidence) :
    Except LifecycleError Unit := do
  if actor.kind ≠ .human then
    throw (.humanAuthorisationRequired (actor.kind.value ++ " " ++ pyRepr actor.name ++
      " may not move a strategy to LIVE. Reaching LIVE requires a named human and a written " ++
      "authorisation; no automated rule has, or can be given, that authority."))
  match authorisationIn std evidence with
  | none => throw (.humanAuthorisationRequired ("a transition to LIVE requires a " ++
      "HumanAuthorisation among its evidence; none was supplied"))
  | some auth =>
    if ¬ auth.fits strategyContentHash live then
      throw (.humanAuthorisationRequired ("the supplied HumanAuthorisation names strategy " ++
        short auth.strategyContentHash ++ " -> " ++ auth.toState.value ++ ", not " ++
        short strategyContentHash ++ " -> live. An authorisation is bound to one strategy " ++
        "and one target state."))

def checkEdge (edge : LifecycleTransition) (strategyContentHash : String) (actor : Actor)
    (evidence : List Evidence) : Except LifecycleError Unit := do
  let move := edge.fromState.value ++ " -> " ++ edge.toState.value
  if edge.requiresHumanActor ∧ actor.kind ≠ .human then
    throw (.humanAuthorisationRequired (move ++ " is a " ++ edge.kind.value ++
      " and adds risk or ends the record; it requires a named human, not " ++ actor.kind.value ++
      " " ++ pyRepr actor.name))
  if edge.requiresHumanAuthorisation then
    if ¬ (authorisationIn std evidence).any (·.fits strategyContentHash edge.toState) then
      throw (.humanAuthorisationRequired
        (move ++ " requires a matching HumanAuthorisation among its evidence"))

def checkCeiling (current : StrategyRecord) (edge : LifecycleTransition) :
    Except LifecycleError Unit :=
  match current.preHealthState with
  | none => .ok ()
  | some ceiling =>
    if edge.kind = .recovery ∧ edge.toState ∈ ladder ∧
        ladderIndex ceiling < ladderIndex edge.toState then
      .error (.illegalTransition edge.fromState edge.toState
        ("this strategy left the ladder from " ++
        ceiling.value ++ "; a recovery may not return it higher than it was"))
    else .ok ()

def checkTransition (current : StrategyRecord) (strategyContentHash : String)
    (toState : StrategyLifecycle) (actor : Actor) (evidence : List Evidence) :
    Except LifecycleError LifecycleTransition := do
  match edge current.state toState with
  | none =>
    throw (.illegalTransition current.state toState (illegalHint current.state toState))
  | some edge =>
    if evidence = [] then
      throw (.lifecycleError (current.state.value ++ " -> " ++ toState.value ++
        " needs evidence: a ValidationReport id, a monitor result, a fired rule, or an " ++
        "operator note. A transition nobody can justify is not a decision."))
    if toState = live then
      checkLive std strategyContentHash actor evidence
    checkEdge std edge strategyContentHash actor evidence
    checkCeiling current edge
    return edge

def moveRecord (current : StrategyRecord) (strategyContentHash : String)
    (toState : StrategyLifecycle) (kind : TransitionKind) (actor : Actor) (reason : String)
    (evidence : List Evidence) (now : Timestamp) (rows : List TransitionRecord) :
    TransitionRecord :=
  .sealRecord std rows.length now current.strategyId strategyContentHash current.state toState kind
    actor reason evidence (headHash rows)

def transition (m : LifecycleStateMachine L) (strategyContentHash : String)
    (toState : StrategyLifecycle) (actor : Actor) (reason : String) (evidence : List Evidence)
    (now : Timestamp) : LifecycleStateMachine L × Except LifecycleError StrategyRecord :=
  match m.records.get strategyContentHash with
  | none => (m, .error (.unknownStrategy strategyContentHash))
  | some current =>
    match checkTransition std current strategyContentHash toState actor evidence with
    | .error e => (m, .error e)
    | .ok edge =>
      m.write store
        (moveRecord std current strategyContentHash toState edge.kind actor reason evidence now)
        current.applied

end LifecycleStateMachine

end Fiboki
