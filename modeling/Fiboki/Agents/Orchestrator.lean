import Fiboki.Core.Enums
import Fiboki.Core.Text
import Fiboki.Lib.StableSort

/-!
The orchestrator's durable job ledger: the rows, and each transaction that an
`Orchestrator` object runs on them.

A spec is what `spec_json` records of it; the columns `queue`, `job_type` and
`idempotency_key` repeat it. A payload and a result are their JSON texts: a payload that
has none is refused before anything is written.
-/

namespace Fiboki

inductive JobType where
  | backtest
  | validation
  | walkforward
  | ablation
  | sensitivity
  | dataQualityScan
  | regimeScan
  | librarianFiling
  deriving DecidableEq

inductive JobStatus where
  | pending
  | running
  | succeeded
  | failed
  | deadLetter
  deriving DecidableEq

structure JobSpec where
  jobType : JobType
  queue : String
  payload : String
  idempotencyKey : String
  maxAttempts : ℕ
  backoffSeconds : ℚ
  backoffFactor : ℚ
  maxBackoffSeconds : ℚ
  scheduledFor : Option Timestamp
  createdAt : Option Timestamp
  queue_named : queue ≠ ""
  maxAttempts_pos : 1 ≤ maxAttempts
  backoff_nonneg : 0 ≤ backoffSeconds
  factor_ge_one : 1 ≤ backoffFactor

def JobSpec.backoffFor (spec : JobSpec) (attempt : ℕ) : ℚ :=
  min (spec.backoffSeconds * spec.backoffFactor ^ (attempt - 1)) spec.maxBackoffSeconds

/-- `timedelta(seconds=s)`, which keeps microseconds. -/
def secondsDelta (s : ℚ) : Timedelta := Text.roundHalfEven (s * 10 ^ 6) * 1000

structure Attempt where
  number : ℕ
  startedAt : Timestamp
  finishedAt : Timestamp
  status : JobStatus
  error : String

structure JobRecord where
  jobId : String
  spec : JobSpec
  status : JobStatus
  attempts : List Attempt
  result : Option String
  error : String
  submittedAt : Timestamp
  nextAttemptAt : Option Timestamp
  deduplicated : Bool

/-- A row of the table `job`. -/
structure Job where
  jobId : String
  spec : JobSpec
  status : JobStatus
  attempts : List Attempt
  result : Option String
  error : String
  submittedAt : Timestamp
  nextAttemptAt : Option Timestamp
  queueSeq : ℕ
  claimedBy : String
  claimFence : Option ℤ
  claimedAt : Option Timestamp

def JobStatus.terminal : JobStatus → Bool
  | succeeded | deadLetter => true
  | pending | running | failed => false

def JobStatus.runnable : JobStatus → Bool
  | pending | failed => true
  | running | succeeded | deadLetter => false

def recordFromRow (row : Job) (deduplicated : Bool) : JobRecord :=
  ⟨row.jobId, row.spec, row.status, row.attempts, row.result, row.error, row.submittedAt,
    row.nextAttemptAt, deduplicated⟩

/-- The lease an orchestrator is bound to: who holds it, and the token of the acquisition. -/
structure Binding where
  holder : String
  fence : ℤ

inductive OrchestratorError where
  | fencedOut (holder : String) (fence mark : ℤ)
  | claimLost (jobId holder : String) (fence : Option ℤ) (status : JobStatus)
  | unknownJobType (jobType : JobType)
  | integrityError

/-- The tables: the jobs as they were inserted, the last queue number and the highest fence
seen, both 0 where `ledger_meta` has no row. -/
structure JobLedger where
  jobs : List Job
  queueSeq : ℕ
  fenceHwm : ℤ

namespace JobLedger

def empty : JobLedger := ⟨[], 0, 0⟩

def nextSeq (l : JobLedger) : JobLedger := { l with queueSeq := l.queueSeq + 1 }

/-- `UPDATE job SET ... WHERE` a test holds. -/
def update (l : JobLedger) (hit : Job → Bool) (set : Job → Job) : JobLedger :=
  { l with jobs := l.jobs.map fun row => if hit row then set row else row }

def byKey (l : JobLedger) (key : String) : Option Job :=
  l.jobs.find? fun row => row.spec.idempotencyKey == key

def checkFence (l : JobLedger) (binding : Option Binding) (advance : Bool) :
    Except OrchestratorError (JobLedger × Option ℤ) :=
  match binding with
  | none => .ok (l, none)
  | some b =>
    if b.fence < l.fenceHwm then .error (.fencedOut b.holder b.fence l.fenceHwm)
    else .ok
      (if advance && decide (l.fenceHwm < b.fence) then { l with fenceHwm := b.fence } else l,
      some b.fence)

/-- `self._holder`. -/
def holderOf (binding : Option Binding) : String := (binding.map Binding.holder).getD ""

def newRow (spec : JobSpec) (jobId : String) (now : Timestamp) (seq : ℕ) : Job where
  jobId := jobId
  spec := { spec with createdAt := some (spec.createdAt.getD now) }
  status := .pending
  attempts := []
  result := none
  error := ""
  submittedAt := now
  nextAttemptAt := some (spec.scheduledFor.getD now)
  queueSeq := seq
  claimedBy := ""
  claimFence := none
  claimedAt := none

/-- The first half of `submit`: a record that exists already, or the leave to insert. -/
def submitRead (l : JobLedger) (handles : JobType → Bool) (spec : JobSpec) :
    Except OrchestratorError (Option JobRecord) :=
  match l.byKey spec.idempotencyKey with
  | some row => .ok (some (recordFromRow row true))
  | none => if handles spec.jobType then .ok none else .error (.unknownJobType spec.jobType)

/-- The insert of `submit`; the primary key and the idempotency key are unique. -/
def insert (l : JobLedger) (spec : JobSpec) (jobId : String) (now : Timestamp) :
    Except OrchestratorError JobLedger :=
  let next := l.nextSeq
  if l.jobs.any fun row => row.jobId == jobId || row.spec.idempotencyKey == spec.idempotencyKey then
    .error .integrityError
  else .ok { next with jobs := next.jobs ++ [newRow spec jobId now next.queueSeq] }

def due (row : Job) (now : Timestamp) : Bool :=
  match row.nextAttemptAt with
  | none => true
  | some t => decide (t ≤ now)

def queued (l : JobLedger) (queue : String) : List Job :=
  StableSort.sortBy Job.queueSeq
    (l.jobs.filter fun row => row.spec.queue == queue && row.status.runnable)

def claimedRow (row : Job) (holder : String) (fence : Option ℤ) (now : Timestamp) : Job :=
  { row with status := .running, claimedBy := holder, claimFence := fence, claimedAt := some now }

/-- The claim of `run_next`: the record as it stood before, and the fence it was taken with. -/
def claimNext (l : JobLedger) (binding : Option Binding) (handles : JobType → Bool)
    (queue : String) (now : Timestamp) :
    Except OrchestratorError (JobLedger × Option (JobRecord × Option ℤ)) :=
  match l.checkFence binding true with
  | .error e => .error e
  | .ok (l, fence) =>
    match (l.queued queue).find? fun row => due row now && handles row.spec.jobType with
    | none => .ok (l, none)
    | some row =>
      .ok (l.update (fun r => r.jobId == row.jobId)
          fun r => claimedRow r (holderOf binding) fence now,
        some (recordFromRow row false, fence))

end JobLedger

/-- What a handler did, when it came back to `_execute`. -/
inductive HandlerOutcome where
  | returned (resultJson : String)
  | raised (error : String)

/-- The record that `_execute` hands to `_finish`. -/
def JobRecord.concluded (record : JobRecord) (started finished : Timestamp) :
    HandlerOutcome → JobRecord
  | .returned resultJson =>
    { record with
      status := .succeeded
      attempts := record.attempts ++
        [⟨record.attempts.length + 1, started, finished, .succeeded, ""⟩]
      result := some resultJson
      error := ""
      nextAttemptAt := none }
  | .raised error =>
    let number := record.attempts.length + 1
    let attempts := record.attempts ++ [⟨number, started, finished, .failed, error⟩]
    if record.spec.maxAttempts ≤ number then
      { record with status := .deadLetter, attempts, error, nextAttemptAt := none }
    else
      { record with
        status := .failed
        attempts
        error
        nextAttemptAt := some (finished + secondsDelta (record.spec.backoffFor number)) }

def HandlerOutcome.resultJson : HandlerOutcome → Option String
  | returned resultJson => some resultJson
  | raised _ => none

namespace JobLedger

/-- The claim that `_finish` writes over. -/
def isClaim (jobId holder : String) (fence : Option ℤ) (row : Job) : Bool :=
  row.jobId == jobId && row.status == .running && row.claimedBy == holder && row.claimFence == fence

def finishedRow (updated : JobRecord) (resultJson : Option String) (seq : ℕ) (row : Job) : Job :=
  { row with
    status := updated.status
    attempts := updated.attempts
    result := resultJson
    error := updated.error
    nextAttemptAt := updated.nextAttemptAt
    claimedBy := ""
    claimFence := none
    claimedAt := none
    queueSeq := if updated.status = .failed then seq else row.queueSeq }

def finish (l : JobLedger) (binding : Option Binding) (updated : JobRecord) (fence : Option ℤ)
    (resultJson : Option String) : Except OrchestratorError JobLedger :=
  match l.checkFence binding false with
  | .error e => .error e
  | .ok (l, _) =>
    let next := if updated.status = .failed then l.nextSeq else l
    let hit := isClaim updated.jobId (holderOf binding) fence
    if next.jobs.any hit then .ok (next.update hit (finishedRow updated resultJson next.queueSeq))
    else .error (.claimLost updated.jobId (holderOf binding) fence updated.status)

def abandonedRows (l : JobLedger) (binding : Option Binding) (fence : Option ℤ) : List Job :=
  (StableSort.sortBy Job.queueSeq (l.jobs.filter fun row => row.status == .running)).filter
    fun row =>
    !(row.claimedBy == holderOf binding && fence.isSome && row.claimFence == fence)

def orUnknown (s : String) : String := if s = "" then "?" else s

def fenceText (fence : Option ℤ) : String := (fence.map toString).getD "None"

def abandonedError (reason : String) (row : Job) : String :=
  "abandoned: " ++ reason ++ " (claimed by " ++ orUnknown row.claimedBy ++ " with fence " ++
    fenceText row.claimFence ++ ")"

def abandonedRecord (reason : String) (now : Timestamp) (row : Job) : JobRecord :=
  let number := row.attempts.length + 1
  let error := abandonedError reason row
  let attempts := row.attempts ++ [⟨number, row.claimedAt.getD now, now, .failed, error⟩]
  if row.spec.maxAttempts ≤ number then
    { recordFromRow row false with status := .deadLetter, attempts, error, nextAttemptAt := none }
  else
    { recordFromRow row false with
      status := .failed
      attempts
      error
      nextAttemptAt := some (now + secondsDelta (row.spec.backoffFor number)) }

def recoveredRow (record : JobRecord) (seq : ℕ) (row : Job) : Job :=
  { row with
    status := record.status
    attempts := record.attempts
    error := record.error
    nextAttemptAt := record.nextAttemptAt
    claimedBy := ""
    claimFence := none
    claimedAt := none
    queueSeq := seq }

def abandon (reason : String) (now : Timestamp) (l : JobLedger) (row : Job) : JobLedger :=
  let next := l.nextSeq
  next.update (fun r => r.jobId == row.jobId)
    (recoveredRow (abandonedRecord reason now row) next.queueSeq)

/-- `recover_abandoned`: the ledger after it, and the rows it recovered as they stood. -/
def recoverAbandoned (l : JobLedger) (binding : Option Binding) (reason : String)
    (now : Timestamp) :
    Except OrchestratorError (JobLedger × List Job) :=
  match l.checkFence binding true with
  | .error e => .error e
  | .ok (l, fence) =>
    let rows := l.abandonedRows binding fence
    .ok (rows.foldl (abandon reason now) l, rows)

end JobLedger

end Fiboki
