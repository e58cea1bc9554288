import Fiboki.Lib.Digests
import Fiboki.Lib.Utf8
import Fiboki.Lib.Wire
import Fiboki.Core.Text
import Mathlib.Data.List.Sort

/-!
The holdout registry: the tables it keeps in one database, and the processes that claim a
look, state key versions and record outcomes on it.

Every read and every commit is one transaction. Between two of them any other process may
take a step, and any process may stop.
-/

namespace Fiboki

open Wire Text

/-- A look that is spent. An empty key version is that of a row written before versions
were; such a row may carry its outcome itself. -/
structure HoldoutConsumptionRow where
  token : String
  datasetVersionId : String
  strategyContentHash : String
  keyVersion : String
  outcome : Option Value

/-- The tables, in the order of their ids. Spent looks and outcomes are never updated or
deleted. -/
structure HoldoutDb where
  segments : List String
  consumptions : List HoldoutConsumptionRow
  outcomes : List (String × Value)
  restatements : List (String × String)

inductive HoldoutError where
  | unknownHoldout (datasetVersionId : String)
  | keyVersionMismatch (datasetVersionId expected : String) (found : List HoldoutConsumptionRow)
  | alreadyConsumed (consumption : HoldoutConsumptionRow)
  | holdoutError (token : String)
  | valueError (message : String)
  | database

def resolveKeyVersion (stored restated : String) : String :=
  if stored ≠ "" then stored else restated

namespace HoldoutConsumptionRow

def resolved (known : Dict String String) (row : HoldoutConsumptionRow) : String :=
  resolveKeyVersion row.keyVersion ((known.get row.token).getD "")

end HoldoutConsumptionRow

namespace HoldoutDb

variable (db : HoldoutDb)

/-- `_restatements`: the version last stated for each token. -/
def restated : Dict String String := .ofList (db.restatements.filter fun r => decide (r.2 ≠ ""))

def consumption (datasetVersionId hash : String) : Option HoldoutConsumptionRow :=
  db.consumptions.find? fun r =>
    decide (r.datasetVersionId = datasetVersionId ∧ r.strategyContentHash = hash)

def incomparable (known : Dict String String) (datasetVersionId expected : String) :
    List HoldoutConsumptionRow :=
  db.consumptions.filter fun r =>
    decide (r.datasetVersionId = datasetVersionId ∧ r.resolved known ≠ expected)

def accepts (row : HoldoutConsumptionRow) : Bool :=
  db.consumptions.all fun r =>
    decide (r.token ≠ row.token ∧ ¬ (r.datasetVersionId = row.datasetVersionId ∧
        r.strategyContentHash = row.strategyContentHash))

end HoldoutDb

variable {S : Type} (key : String → S → String)

/-- A claim of a strategy whose content hash is computed under the key version. -/
structure HoldoutClaim (S : Type) where
  datasetVersionId : String
  strategy : S
  keyVersion : String

inductive ClaimPhase where
  | segment
  | keys
  | rows (known : Dict String String)
  | lookup
  | insert
  | committed (token : String)
  | raced

inductive ClaimProgress where
  | going (phase : ClaimPhase)
  | refused (e : HoldoutError)
  | granted (token : String)

namespace HoldoutClaim

variable (call : HoldoutClaim S)

def row (token : String) : HoldoutConsumptionRow :=
  ⟨token, call.datasetVersionId, key call.keyVersion call.strategy, call.keyVersion, none⟩

/-- One transaction of `claim`, with the token it draws. -/
def step (db : HoldoutDb) (token : String) : ClaimPhase → HoldoutDb × ClaimProgress
  | .segment =>
    if call.datasetVersionId ∈ db.segments then (db, .going .keys)
    else (db, .refused (.unknownHoldout call.datasetVersionId))
  | .keys => (db, .going (.rows db.restated))
  | .rows known =>
    match db.incomparable known call.datasetVersionId call.keyVersion with
    | [] => (db, .going .lookup)
    | found => (db, .refused (.keyVersionMismatch call.datasetVersionId call.keyVersion found))
  | .lookup =>
    match db.consumption call.datasetVersionId (key call.keyVersion call.strategy) with
    | some existing => (db, .refused (.alreadyConsumed existing))
    | none => (db, .going .insert)
  | .insert =>
    if db.accepts (call.row key token) then
      ({ db with consumptions := db.consumptions ++ [call.row key token] },
        .going (.committed token))
    else (db, .going .raced)
  | .committed token => (db, .granted token)
  | .raced =>
    match db.consumption call.datasetVersionId (key call.keyVersion call.strategy) with
    | some existing => (db, .refused (.alreadyConsumed existing))
    | none => (db, .refused .database)

end HoldoutClaim

/-- A claim on a pool: every constituent is checked before any is claimed. -/
structure PooledClaim (S : Type) where
  constituents : List String
  strategy : S
  keyVersion : String

def PooledClaim.on (call : PooledClaim S) (constituent : String) : HoldoutClaim S :=
  ⟨constituent, call.strategy, call.keyVersion⟩

inductive CheckPhase where
  | keys
  | rows (known : Dict String String)
  | lookup

/-- One transaction of the checks of a constituent; `none` once it has passed. -/
def PooledClaim.check (call : PooledClaim S) (db : HoldoutDb) (constituent : String) :
    CheckPhase → Except HoldoutError (Option CheckPhase)
  | .keys => .ok (some (.rows db.restated))
  | .rows known =>
    match db.incomparable known constituent call.keyVersion with
    | [] => .ok (some .lookup)
    | found => .error (.keyVersionMismatch constituent call.keyVersion found)
  | .lookup =>
    match db.consumption constituent (key call.keyVersion call.strategy) with
    | some existing => .error (.alreadyConsumed existing)
    | none => .ok none

def compositeToken (tokens : List String) : String :=
  "pooled_" ++ String.ofList
    ((Sha256.hexdigest (Utf8.encode ("|".intercalate tokens).toList)).toList.take 32)

inductive RecordPhase where
  | row
  | outcome
  | insert

/-- One transaction of `record_outcome`; `none` once the outcome is committed. -/
def recordStep (db : HoldoutDb) (token : String) (outcome : Value) :
    RecordPhase → HoldoutDb × Except HoldoutError (Option RecordPhase)
  | .row =>
    match db.consumptions.find? fun r => decide (r.token = token) with
    | none => (db, .error (.holdoutError token))
    | some r =>
      if r.outcome.isSome then (db, .error (.holdoutError token))
      else (db, .ok (some .outcome))
  | .outcome =>
    if db.outcomes.any fun o => decide (o.1 = token) then (db, .error (.holdoutError token))
    else (db, .ok (some .insert))
  | .insert =>
    if db.outcomes.any fun o => decide (o.1 = token) then (db, .error (.holdoutError token))
    else ({ db with outcomes := db.outcomes ++ [(token, outcome)] }, .ok none)

structure RestateCall where
  keyVersion : String
  statedBy : String
  reason : String
  datasetVersionId : Option String

inductive RestatePhase where
  | known
  | rows (known : Dict String String)
  | commit (tokens : List String)

namespace RestateCall

variable (call : RestateCall)

/-- `str(key_version).strip()`. -/
def version : String := String.ofList (strip call.keyVersion)

/-- One transaction of `restate_key_versions`; `none` once the statements are committed. -/
def step (db : HoldoutDb) : RestatePhase → HoldoutDb × Except HoldoutError (Option RestatePhase)
  | .known =>
    if call.version = "" then (db, .error (.valueError "key_version is mandatory"))
    else if isBlank call.statedBy || isBlank call.reason then
      (db, .error (.valueError "stated_by and reason are mandatory"))
    else (db, .ok (some (.rows db.restated)))
  | .rows known =>
    let rows := db.consumptions.filter fun r =>
      decide ((∀ d ∈ call.datasetVersionId, r.datasetVersionId = d) ∧ r.keyVersion = "" ∧
        known.get r.token = none)
    (db, .ok (some (.commit (rows.map HoldoutConsumptionRow.token))))
  | .commit tokens =>
    ({ db with restatements := db.restatements ++ tokens.map fun t => (t, call.version) }, .ok none)

end RestateCall

inductive HoldoutTask (S : Type) where
  | idle
  | claim (call : HoldoutClaim S) (phase : ClaimPhase)
  | checking (call : PooledClaim S) (constituent : String) (rest : List String) (phase : CheckPhase)
  | claiming (call : PooledClaim S) (tokens : List String) (constituent : String)
      (rest : List String) (phase : ClaimPhase)
  | record (token : String) (outcome : Value) (rest : List String) (phase : RecordPhase)
  | restate (call : RestateCall) (phase : RestatePhase)

/-- A process: what it is doing, the tokens of the pooled claims it was granted, and how its
last call ended. -/
structure HoldoutProcess (S : Type) where
  task : HoldoutTask S
  pools : Dict String (List String)
  answer : Except HoldoutError String

inductive HoldoutCall (S : Type) where
  | claim (call : HoldoutClaim S)
  | pooledClaim (call : PooledClaim S)
  | recordOutcome (token : String) (outcome : Value)
  | recordPooled (composite : String) (outcome : Value)
  | restate (call : RestateCall)

inductive HoldoutMove (S : Type) where
  | call (call : HoldoutCall S)
  | proceed (token : String)
  | crash

structure HoldoutGrant (S : Type) where
  datasetVersionId : String
  strategy : S
  token : String

structure HoldoutSystem (S : Type) where
  db : HoldoutDb
  processes : ℕ → HoldoutProcess S
  granted : List (HoldoutGrant S)

namespace HoldoutProcess

def fresh : HoldoutProcess S := ⟨.idle, .empty, .ok ""⟩

def finish (p : HoldoutProcess S) (answer : Except HoldoutError String) : HoldoutProcess S :=
  { p with task := .idle, answer }

def become (p : HoldoutProcess S) (task : HoldoutTask S) : HoldoutProcess S := { p with task }

def begin_ (p : HoldoutProcess S) : HoldoutCall S → HoldoutProcess S
  | .claim call => p.become (.claim call .segment)
  | .pooledClaim call =>
    let call := { call with constituents := call.constituents.insertionSort fun a b => a ≤ b }
    match call.constituents with
    | c :: c' :: rest => p.become (.checking call c (c' :: rest) .keys)
    | _ => p.finish (.error (.valueError "a pooled holdout needs at least two constituents"))
  | .recordOutcome token outcome => p.become (.record token outcome [] .row)
  | .recordPooled composite outcome =>
    match p.pools.get composite with
    | some (t :: rest) => p.become (.record t outcome rest .row)
    | _ => p.finish (.error (.unknownHoldout composite))
  | .restate call => p.become (.restate call .known)

def claimedOne (p : HoldoutProcess S) (call : PooledClaim S) (tokens : List String) :
    List String → HoldoutProcess S
  | c :: rest => p.become (.claiming call tokens c rest .segment)
  | [] =>
    { p.finish (.ok (compositeToken tokens)) with
      pools := p.pools.set (compositeToken tokens) tokens }

end HoldoutProcess

namespace HoldoutSystem

variable (s : HoldoutSystem S)

def start (db : HoldoutDb) : HoldoutSystem S := ⟨db, fun _ => .fresh, []⟩

def setProcess (i : ℕ) (p : HoldoutProcess S) : HoldoutSystem S :=
  { s with processes := fun j => if j = i then p else s.processes j }

def grant (g : HoldoutGrant S) : HoldoutSystem S := { s with granted := s.granted ++ [g] }

def proceed (i : ℕ) (token : String) : HoldoutSystem S :=
  let p := s.processes i
  match p.task with
  | .idle => s
  | .claim call phase =>
    match call.step key s.db token phase with
    | (db, .going next) => { s with db }.setProcess i (p.become (.claim call next))
    | (db, .refused e) => { s with db }.setProcess i (p.finish (.error e))
    | (db, .granted t) =>
      ({ s with db }.grant ⟨call.datasetVersionId, call.strategy, t⟩).setProcess i
        (p.finish (.ok t))
  | .checking call c rest phase =>
    match call.check key s.db c phase with
    | .error e => s.setProcess i (p.finish (.error e))
    | .ok (some next) => s.setProcess i (p.become (.checking call c rest next))
    | .ok none =>
      match rest with
      | c' :: rest => s.setProcess i (p.become (.checking call c' rest .keys))
      | [] => s.setProcess i (p.claimedOne call [] call.constituents)
  | .claiming call tokens c rest phase =>
    match (call.on c).step key s.db token phase with
    | (db, .going next) =>
      { s with db }.setProcess i (p.become (.claiming call tokens c rest next))
    | (db, .refused e) => { s with db }.setProcess i (p.finish (.error e))
    | (db, .granted t) =>
      ({ s with db }.grant ⟨c, call.strategy, t⟩).setProcess i
        (p.claimedOne call (tokens ++ [t]) rest)
  | .record t outcome rest phase =>
    match recordStep s.db t outcome phase with
    | (db, .error e) => { s with db }.setProcess i (p.finish (.error e))
    | (db, .ok (some next)) => { s with db }.setProcess i (p.become (.record t outcome rest next))
    | (db, .ok none) =>
      match rest with
      | t' :: rest => { s with db }.setProcess i (p.become (.record t' outcome rest .row))
      | [] => { s with db }.setProcess i (p.finish (.ok t))
  | .restate call phase =>
    match call.step s.db phase with
    | (db, .error e) => { s with db }.setProcess i (p.finish (.error e))
    | (db, .ok (some next)) => { s with db }.setProcess i (p.become (.restate call next))
    | (db, .ok none) => { s with db }.setProcess i (p.finish (.ok ""))

def step (s : HoldoutSystem S) : ℕ × HoldoutMove S → HoldoutSystem S
  | (i, .call call) =>
    match (s.processes i).task with
    | .idle => s.setProcess i ((s.processes i).begin_ call)
    | _ => s
  | (i, .proceed token) => s.proceed key i token
  | (i, .crash) => s.setProcess i .fresh

end HoldoutSystem

end Fiboki
