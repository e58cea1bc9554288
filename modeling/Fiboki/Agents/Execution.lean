import Fiboki.Agents.JobRuns
import Fiboki.Lib.LiveJson
import Fiboki.Obs.Outbox

/-!
What one call of `run_next` does with the job it claims, from the claim to the write of the
outcome, and what can be raised on the way.

The settings of a spec are finite: one with a NaN or an infinity is refused at submission. They are
kept there as the numbers they were given as, and read back as floats.

When a process that claimed a job also ends its claim: exactly which results, errors and retry
times stop it after the handler is done.
-/

namespace Fiboki

open Alerts LiveJson

def floatLimit : ℚ := 2 ^ 1024 - 2 ^ 970

/-- `float(q)` of a number that may be an int, which is not rounded here. -/
def floatOf (q : ℚ) : Except Failure ℚ := if |q| < floatLimit then .ok q else .error .overflowError

/-- The settings that `_spec_from_json` reads.  The payload beside them is a text that was written
at submission, and is not read again here. -/
def JobSpec.readBack (spec : JobSpec) : Except Failure Unit := do
  let _ ← floatOf spec.backoffSeconds
  let _ ← floatOf spec.backoffFactor
  let _ ← floatOf spec.maxBackoffSeconds
  return ()

/-- `backoff_for`: the power is raised on, where a product past the floats is an infinity, which the
cap takes away. -/
def JobSpec.backoffDelay (spec : JobSpec) (attempt : ℕ) : Except Failure ℚ :=
  if floatLimit ≤ spec.backoffFactor ^ (attempt - 1) then .error .overflowError
  else .ok (spec.backoffFor attempt)

namespace Execution

/-- An exception that a handler raised: the name of its class, and what `str` does to it. -/
structure Raised where
  typeName : PyText
  text : Except Failure PyText

inductive HandlerReturn where
  | returned (output : Returned)
  | raised (exc : Raised)

/-- What is raised out of `run_next`: `FencedOut`, or anything else. -/
inductive RunError where
  | fencedOut (e : OrchestratorError)
  | failed (f : Failure)

def dayNs : ℤ := 86400 * 10 ^ 9

/-- `timedelta(seconds=s)`. -/
def timedeltaOf (s : ℚ) : Except Failure Timedelta :=
  let d : ℤ := secondsDelta s
  if -(999999999 * dayNs) ≤ d ∧ d < 10 ^ 9 * dayNs then .ok d else .error .overflowError

def IsDate (t : ℤ) : Prop := minInstant * 1000 ≤ t ∧ t < maxInstant * 1000

instance (t : ℤ) : Decidable (IsDate t) := inferInstanceAs (Decidable (_ ∧ _))

/-- `t + d`. -/
def addDelta (t : Timestamp) (d : Timedelta) : Except Failure Timestamp :=
  if IsDate (t + d) then .ok (t + d) else .error .overflowError

/-- The outcome as `_execute` hands it to `_finish`. -/
inductive Prepared where
  | returned (resultJson : String)
  | raised (error : PyText)

/-- `f"{type(exc).__name__}: {exc}"`. -/
def errorText (typeName text : PyText) : PyText := typeName ++ [58, 32] ++ text

def retryTime (spec : JobSpec) (number : ℕ) (finished : Timestamp) : Except Failure Timestamp := do
  let delay ← spec.backoffDelay number
  let delta ← timedeltaOf delay
  addDelta finished delta

/-- What follows the handler in `_execute`, up to the call of `_finish`. -/
def prepare (py : Interpreter) (record : JobRecord) (finished : Timestamp) :
    HandlerReturn → Except Failure Prepared
  | .returned output => (dumpsLoads py output).map .returned
  | .raised exc => do
    let text ← exc.text
    let number := record.attempts.length + 1
    if record.spec.maxAttempts ≤ number then return .raised (errorText exc.typeName text)
    else do
      let _ ← retryTime record.spec number finished
      return .raised (errorText exc.typeName text)

def Prepared.bound : Prepared → Except Failure HandlerOutcome
  | returned resultJson => .ok (.returned resultJson)
  | raised error =>
    if encodable error then .ok (.raised (String.ofList (error.map Char.ofNat)))
    else .error .unicodeEncodeError

/-- `_finish`. -/
def writeOutcome (l : JobLedger) (binding : Option Binding) (record : JobRecord) (fence : Option ℤ)
    (started finished : Timestamp) (prepared : Prepared) :
      Except RunError (JobRecord × JobLedger) :=
  match l.checkFence binding false with
  | .error e => .error (.fencedOut e)
  | .ok _ =>
    match prepared.bound with
    | .error f => .error (.failed f)
    | .ok outcome =>
      let updated := record.concluded started finished outcome
      match l.finish binding updated fence outcome.resultJson with
      | .error e => .error (.fencedOut e)
      | .ok l' => .ok (updated, l')

/-- What the world does during one call: the clock, the handler, the transactions of others between
the claim and the end, and the fence the lease has by then. -/
structure Outside where
  now : Timestamp
  started : Timestamp
  finished : Timestamp
  handled : HandlerReturn
  others : JobLedger → JobLedger
  fence : ℤ
  finished_date : IsDate finished

def Outside.lease (o : Outside) (binding : Option Binding) : Option Binding :=
  binding.map fun b => { b with fence := o.fence }

def execute (py : Interpreter) (l : JobLedger) (binding : Option Binding) (record : JobRecord)
    (fence : Option ℤ) (o : Outside) : Except RunError (JobRecord × JobLedger) :=
  match record.spec.readBack with
  | .error f => .error (.failed f)
  | .ok () =>
    match prepare py record o.finished o.handled with
    | .error f => .error (.failed f)
    | .ok prepared =>
      writeOutcome l (o.lease binding) record fence o.started o.finished prepared

/-- `run_next`: what it returns or raises, and the ledger it leaves. -/
def runNext (py : Interpreter) (l : JobLedger) (binding : Option Binding) (handles : JobType → Bool)
    (queue : String) (o : Outside) : Except RunError (Option JobRecord) × JobLedger :=
  match l.claimNext binding handles queue o.now with
  | .error e => (.error (.fencedOut e), l)
  | .ok (l, none) => (.ok none, l)
  | .ok (l, some (record, fence)) =>
    match execute py (o.others l) binding record fence o with
    | .error e => (.error e, o.others l)
    | .ok (updated, l') => (.ok (some updated), l')

end Execution

open JobLedger

/-- `get`: the row of a job id. -/
def JobLedger.get (l : JobLedger) (jobId : String) : Option Job :=
  l.jobs.find? fun row => row.jobId == jobId

theorem JobLedger.get_update (l : JobLedger) (jobId : String) {hit : Job → Bool} {set : Job → Job}
    (hid : ∀ row, (set row).jobId = row.jobId) :
    (l.update hit set).get jobId = (l.get jobId).map fun row =>
      if hit row then set row else row := by
  unfold JobLedger.get JobLedger.update
  rw [List.find?_map]
  congr 2
  funext row
  simp only [Function.comp_apply]
  split_ifs
  · rw [hid]
  · rfl

namespace Execution

def Held (l : JobLedger) (binding : Option Binding) (record : JobRecord)
    (fence : Option ℤ) : Prop :=
  ∃ row, l.get record.jobId = some row ∧ isClaim record.jobId (holderOf binding) fence row = true

/-- A job that is at the end of an attempt: one more than it was claimed with. -/
structure Settled (record : JobRecord) (row : Job) : Prop where
  ended : row.status = .succeeded ∨ (row.status = .failed ∧ row.nextAttemptAt ≠ none) ∨
    row.status = .deadLetter
  attempts : ∃ a, a.number = record.attempts.length + 1 ∧ row.attempts = record.attempts ++ [a]

theorem settled_concluded (record : JobRecord) (started finished : Timestamp)
    (outcome : HandlerOutcome) (resultJson : Option String) (seq : ℕ) (row : Job) :
    Settled record
      (finishedRow (record.concluded started finished outcome) resultJson seq row) := by
  cases outcome with
  | returned resultJson => exact ⟨Or.inl rfl, _, rfl, rfl⟩
  | raised error =>
    unfold JobRecord.concluded
    dsimp only
    split_ifs
    · exact ⟨Or.inr (Or.inr rfl), _, rfl, rfl⟩
    · exact ⟨Or.inr (Or.inl ⟨rfl, Option.some_ne_none _⟩), _, rfl, rfl⟩

theorem Settled.not_claim {record : JobRecord} {row : Job} (h : Settled record row)
    (jobId holder : String) (fence : Option ℤ) : isClaim jobId holder fence row = false := by
  have hstatus : row.status ≠ .running := by
    rcases h.ended with hended | ⟨hended, -⟩ | hended
    · rw [hended]
      decide
    · rw [hended]
      decide
    · rw [hended]
      decide
  simp [isClaim, hstatus]

section Steps

variable {py : Interpreter} {spec : JobSpec} {record : JobRecord} {finished : Timestamp}

structure Readable (spec : JobSpec) : Prop where
  seconds : |spec.backoffSeconds| < floatLimit
  factor : |spec.backoffFactor| < floatLimit
  cap : |spec.maxBackoffSeconds| < floatLimit

theorem readBack_isOk : spec.readBack = .ok () ↔ Readable spec := by
  unfold JobSpec.readBack floatOf
  by_cases hseconds : |spec.backoffSeconds| < floatLimit
  · by_cases hfactor : |spec.backoffFactor| < floatLimit
    · by_cases hcap : |spec.maxBackoffSeconds| < floatLimit
      · rw [if_pos hseconds, if_pos hfactor, if_pos hcap]
        exact iff_of_true rfl ⟨hseconds, hfactor, hcap⟩
      · rw [if_pos hseconds, if_pos hfactor, if_neg hcap]
        exact iff_of_false (fun h => by cases h) fun h => hcap h.cap
    · rw [if_pos hseconds, if_neg hfactor]
      exact iff_of_false (fun h => by cases h) fun h => hfactor h.factor
  · rw [if_neg hseconds]
    exact iff_of_false (fun h => by cases h) fun h => hseconds h.seconds

/-- A retry has a date: the growth of the delay is a float, and the capped delay does not lead out
of the years that there are. -/
structure Retriable (spec : JobSpec) (number : ℕ) (finished : Timestamp) : Prop where
  growth : spec.backoffFactor ^ (number - 1) < floatLimit
  date : IsDate (finished + secondsDelta (spec.backoffFor number))

theorem delta_between {t d : ℤ} (h : IsDate t) (h' : IsDate (t + d)) :
    -(999999999 * dayNs) ≤ d ∧ d < 10 ^ 9 * dayNs := by
  unfold IsDate minInstant maxInstant at h h'
  unfold dayNs
  omega

theorem retryTime_isOk (hfinished : IsDate finished) {number : ℕ} :
    (∃ t, retryTime spec number finished = .ok t) ↔ Retriable spec number finished := by
  unfold retryTime JobSpec.backoffDelay
  by_cases hgrowth : floatLimit ≤ spec.backoffFactor ^ (number - 1)
  · rw [if_pos hgrowth]
    refine iff_of_false ?_ fun h => absurd h.growth (not_lt.2 hgrowth)
    rintro ⟨t, h⟩
    cases h
  rw [if_neg hgrowth, Wire.ok_bind]
  by_cases hdate : IsDate (finished + secondsDelta (spec.backoffFor number))
  · unfold timedeltaOf addDelta
    dsimp only
    rw [if_pos (delta_between hfinished hdate), Wire.ok_bind, if_pos hdate]
    exact iff_of_true ⟨_, rfl⟩ ⟨not_le.1 hgrowth, hdate⟩
  · refine iff_of_false ?_ fun h => hdate h.date
    rintro ⟨t, h⟩
    obtain ⟨d, hd, h⟩ := Wire.bind_ok h
    unfold timedeltaOf at hd
    dsimp only at hd
    split_ifs at hd
    cases hd
    unfold addDelta at h
    rw [if_neg hdate] at h
    cases h

def Preparable (py : Interpreter) (record : JobRecord) (finished : Timestamp) : HandlerReturn → Prop
  | .returned output => Recordable py output
  | .raised exc => (∃ text, exc.text = .ok text) ∧
      (record.attempts.length + 1 < record.spec.maxAttempts →
        Retriable record.spec (record.attempts.length + 1) finished)

theorem prepare_isOk (hfinished : IsDate finished) {handled : HandlerReturn} :
    (∃ p, prepare py record finished handled = .ok p) ↔ Preparable py record finished handled := by
  cases handled with
  | returned output =>
    unfold prepare Preparable
    rw [map_isOk, dumpsLoads_isOk]
  | raised exc =>
    obtain ⟨typeName, text⟩ := exc
    unfold prepare Preparable
    dsimp only
    rw [← retryTime_isOk hfinished]
    cases text with
    | error f => exact iff_of_false (by rintro ⟨p, h⟩; cases h) fun h => by cases h.1.choose_spec
    | ok text =>
      rw [Wire.ok_bind]
      split_ifs with hspent
      · exact iff_of_true ⟨_, rfl⟩ ⟨⟨_, rfl⟩, fun hroom => absurd hroom (not_lt.2 hspent)⟩
      · constructor
        · rintro ⟨p, h⟩
          obtain ⟨t, ht, -⟩ := Wire.bind_ok h
          exact ⟨⟨_, rfl⟩, fun _ => ⟨t, ht⟩⟩
        · rintro ⟨-, hretry⟩
          obtain ⟨t, ht⟩ := hretry (not_le.1 hspent)
          rw [ht]
          exact ⟨_, rfl⟩

end Steps

section Ends

variable {py : Interpreter} {l : JobLedger} {binding : Option Binding} {record : JobRecord}
  {fence : Option ℤ} {o : Outside}

def Stale (l : JobLedger) (binding : Option Binding) : Prop :=
  ∃ b, binding = some b ∧ b.fence < l.fenceHwm

theorem checkFence_stale (h : Stale l binding) : ∃ e, l.checkFence binding false = .error e := by
  obtain ⟨b, rfl, hlt⟩ := h
  unfold checkFence
  dsimp only
  rw [if_pos hlt]
  exact ⟨_, rfl⟩

theorem checkFence_fresh (h : ¬ Stale l binding) : ∃ seen, l.checkFence binding false =
    .ok (l, seen) := by
  cases binding with
  | none => exact ⟨none, rfl⟩
  | some b =>
    have hle : ¬ b.fence < l.fenceHwm := fun hlt => h ⟨b, rfl, hlt⟩
    unfold checkFence
    dsimp only
    rw [if_neg hle]
    exact ⟨_, rfl⟩

theorem holderOf_lease : holderOf (o.lease binding) = holderOf binding := by
  cases binding <;> rfl

theorem concluded_jobId (started finished : Timestamp) (outcome : HandlerOutcome) :
    (record.concluded started finished outcome).jobId = record.jobId := by
  obtain ⟨a, status, -, hid, -⟩ := record.concluded_spec started finished outcome
  exact hid

theorem finish_held (hheld : Held l binding record fence) (hfresh : ¬ Stale l (o.lease binding))
    (outcome : HandlerOutcome) :
    ∃ l', l.finish (o.lease binding) (record.concluded o.started o.finished outcome) fence
        outcome.resultJson = .ok l' ∧
      ∃ row, l'.get record.jobId = some row ∧ Settled record row := by
  obtain ⟨row, hrow, hclaim⟩ := hheld
  obtain ⟨seen, hcheck⟩ := checkFence_fresh hfresh
  have hmem : row ∈ l.jobs := List.mem_of_find?_eq_some hrow
  rw [← holderOf_lease (o := o)] at hclaim
  unfold JobLedger.finish
  rw [hcheck]
  dsimp only
  rw [concluded_jobId]
  have hany : ∀ next : JobLedger, next.jobs = l.jobs →
      next.jobs.any (isClaim record.jobId (holderOf (o.lease binding)) fence) = true := by
    intro next hnext
    rw [hnext]
    exact List.any_eq_true.2 ⟨row, hmem, hclaim⟩
  have hget : ∀ next : JobLedger, next.jobs = l.jobs → ∃ row,
      (next.update (isClaim record.jobId (holderOf (o.lease binding)) fence)
        (finishedRow (record.concluded o.started o.finished outcome) outcome.resultJson
          next.queueSeq)).get record.jobId = some row ∧ Settled record row := by
    intro next hnext
    have hrow' : next.get record.jobId = some row := by
      unfold JobLedger.get
      rw [hnext]
      exact hrow
    have hid : ∀ r, (finishedRow (record.concluded o.started o.finished outcome) outcome.resultJson
        next.queueSeq r).jobId = r.jobId := fun _ => rfl
    rw [JobLedger.get_update _ _ hid, hrow', Option.map_some, if_pos hclaim]
    exact ⟨_, rfl, settled_concluded record _ _ outcome _ _ row⟩
  split_ifs with hfailed hmissing hmissing
  · exact ⟨_, rfl, hget l.nextSeq rfl⟩
  · exact absurd (hany l.nextSeq rfl) hmissing
  · exact ⟨_, rfl, hget l rfl⟩
  · exact absurd (hany l rfl) hmissing

structure Concludes (py : Interpreter) (l : JobLedger) (binding : Option Binding)
    (record : JobRecord) (o : Outside) : Prop where
  settings : Readable record.spec
  outcome : Preparable py record o.finished o.handled
  text : ∀ exc text, o.handled = .raised exc → exc.text = .ok text →
    encodable (errorText exc.typeName text) = true ∨ Stale l (o.lease binding)

theorem bound_isOk {finished : Timestamp} {handled : HandlerReturn} {p : Prepared}
    (h : prepare py record finished handled = .ok p) :
    (∃ outcome, p.bound = .ok outcome) ↔ ∀ exc text, handled = .raised exc → exc.text = .ok text →
        encodable (errorText exc.typeName text) = true := by
  cases handled with
  | returned output =>
    refine iff_of_true ?_ fun exc text hraised => by cases hraised
    unfold prepare at h
    dsimp only at h
    cases hdumps : dumpsLoads py output with
    | error f =>
      rw [hdumps] at h
      cases h
    | ok resultJson =>
      rw [hdumps] at h
      cases h
      exact ⟨_, rfl⟩
  | raised exc =>
    obtain ⟨text, htext, h⟩ := Wire.bind_ok h
    have hp : p = .raised (errorText exc.typeName text) := by
      dsimp only at h
      split_ifs at h
      · exact (Except.ok.inj h).symm
      · obtain ⟨t, -, h⟩ := Wire.bind_ok h
        exact (Except.ok.inj h).symm
    have hbound : (∃ outcome, p.bound = .ok outcome) ↔
        encodable (errorText exc.typeName text) = true := by
      rw [hp, Prepared.bound]
      split_ifs with hencodable <;> simp [hencodable]
    rw [hbound]
    constructor
    · rintro hencodable exc' text' hraised htext'
      cases hraised
      rw [htext] at htext'
      cases htext'
      exact hencodable
    · exact fun hall => hall exc text rfl htext

/-- An execution on a claim that stands: it ends the claim, is fenced out, or is stopped. -/
inductive Ending (py : Interpreter) (l : JobLedger) (binding : Option Binding) (record : JobRecord)
    (o : Outside) : Except RunError (JobRecord × JobLedger) → Prop
  | settled {updated : JobRecord} {l' : JobLedger} {row : Job} :
      Concludes py l binding record o → l'.get record.jobId = some row → Settled record row →
      Ending py l binding record o (.ok (updated, l'))
  | fenced {e : OrchestratorError} :
      Concludes py l binding record o → Ending py l binding record o (.error (.fencedOut e))
  | stopped {f : Failure} :
      ¬ Concludes py l binding record o → Ending py l binding record o (.error (.failed f))

variable (py) in
theorem execute_ending (hheld : Held l binding record fence) :
    Ending py l binding record o (execute py l binding record fence o) := by
  unfold execute
  cases hread : record.spec.readBack with
  | error f =>
    refine .stopped fun h => ?_
    rw [readBack_isOk.2 h.settings] at hread
    cases hread
  | ok _ =>
    have hsettings : Readable record.spec := readBack_isOk.1 hread
    dsimp only
    cases hprepare : prepare py record o.finished o.handled with
    | error f =>
      refine .stopped fun h => ?_
      obtain ⟨p, hp⟩ := (prepare_isOk o.finished_date).2 h.outcome
      rw [hp] at hprepare
      cases hprepare
    | ok p =>
      have houtcome : Preparable py record o.finished o.handled :=
        (prepare_isOk o.finished_date).1 ⟨p, hprepare⟩
      dsimp only
      unfold writeOutcome
      by_cases hstale : Stale l (o.lease binding)
      · obtain ⟨e, he⟩ := checkFence_stale hstale
        rw [he]
        exact .fenced ⟨hsettings, houtcome, fun _ _ _ _ => Or.inr hstale⟩
      obtain ⟨seen, hcheck⟩ := checkFence_fresh hstale
      rw [hcheck]
      dsimp only
      have hbounds := bound_isOk hprepare
      cases hbound : p.bound with
      | error f =>
        refine .stopped fun h => ?_
        obtain ⟨outcome, houtcome⟩ := hbounds.2 fun exc text hraised htext =>
          (h.text exc text hraised htext).resolve_right hstale
        rw [houtcome] at hbound
        cases hbound
      | ok outcome =>
        obtain ⟨l', hfinish, row, hrow, hsettled⟩ := finish_held hheld hstale outcome
        dsimp only
        rw [hfinish]
        exact .settled ⟨hsettings, houtcome, fun exc text hraised htext =>
          Or.inl (hbounds.1 ⟨outcome, hbound⟩ exc text hraised htext)⟩ hrow hsettled

end Ends

section Calls

variable (py : Interpreter) (l : JobLedger) (binding : Option Binding) (handles : JobType → Bool)
  (queue : String) (o : Outside)

/-- A call that claimed a job does not leave it running: unless it is fenced out, a job that it
still has when the handler is done is at the end of one more attempt. -/
def Settles (l' : JobLedger) (record : JobRecord) (fence : Option ℤ) : Prop :=
  (∀ e, (runNext py l binding handles queue o).1 ≠ .error (.fencedOut e)) →
    Held (o.others l') binding record fence →
      ∃ row, (runNext py l binding handles queue o).2.get record.jobId = some row ∧
        isClaim record.jobId (holderOf binding) fence row = false ∧ Settled record row

variable {py l binding handles queue o} {l' : JobLedger} {record : JobRecord} {fence : Option ℤ}

theorem runNext_of_error {e : RunError}
    (hclaim : l.claimNext binding handles queue o.now = .ok (l', some (record, fence)))
    (h : execute py (o.others l') binding record fence o = .error e) :
    runNext py l binding handles queue o = (.error e, o.others l') := by
  unfold runNext
  simp only [hclaim, h]

theorem runNext_of_ok {updated : JobRecord} {written : JobLedger}
    (hclaim : l.claimNext binding handles queue o.now = .ok (l', some (record, fence)))
    (h : execute py (o.others l') binding record fence o = .ok (updated, written)) :
    runNext py l binding handles queue o = (.ok (some updated), written) := by
  unfold runNext
  simp only [hclaim, h]

theorem not_settles_of_failed {f : Failure}
    (hclaim : l.claimNext binding handles queue o.now = .ok (l', some (record, fence)))
    (hheld : Held (o.others l') binding record fence)
    (hfailed : execute py (o.others l') binding record fence o = .error (.failed f)) :
    ¬ Settles py l binding handles queue o l' record fence := by
  intro h
  unfold Settles at h
  rw [runNext_of_error hclaim hfailed] at h
  -- the row is what the others left
  obtain ⟨row, hrow, -, hsettled⟩ := h (fun e he => by cases he) hheld
  obtain ⟨row', hrow', hclaimed⟩ := hheld
  have hsame : row' = row := Option.some.inj (hrow'.symm.trans hrow)
  rw [hsame, hsettled.not_claim] at hclaimed
  cases hclaimed

/-- The call settles the job it claimed exactly when, unless the job was lost to another, the spec
reads back and what the handler gave can be stored. -/
theorem run_next_settles_iff
    (hclaim : l.claimNext binding handles queue o.now = .ok (l', some (record, fence))) :
    Settles py l binding handles queue o l' record fence ↔
      (Held (o.others l') binding record fence → Concludes py (o.others l') binding record o) := by
  constructor
  · intro h hheld
    have hending := execute_ending py (o := o) hheld
    cases hanswer : execute py (o.others l') binding record fence o with
    | ok written =>
      rw [hanswer] at hending
      cases hending with
      | settled hconcludes hrow hsettled => exact hconcludes
    | error e =>
      rw [hanswer] at hending
      cases hending with
      | fenced hconcludes => exact hconcludes
      | stopped hstopped => exact absurd h (not_settles_of_failed hclaim hheld hanswer)
  · intro h hanswer hheld
    have hending := execute_ending py (o := o) hheld
    cases hexecute : execute py (o.others l') binding record fence o with
    | ok written =>
      obtain ⟨updated, l''⟩ := written
      rw [hexecute] at hending
      rw [runNext_of_ok hclaim hexecute]
      cases hending with
      | settled hconcludes hrow hsettled => exact ⟨_, hrow, hsettled.not_claim _ _ _, hsettled⟩
    | error e =>
      rw [hexecute] at hending
      rw [runNext_of_error hclaim hexecute] at hanswer
      cases hending with
      | fenced hconcludes => exact absurd rfl (hanswer _)
      | stopped hstopped => exact absurd (h hheld) hstopped

end Calls

def NeverLeft : Prop :=
  ∀ (py : Interpreter) (l : JobLedger) (binding : Option Binding) (handles : JobType → Bool)
    (queue : String) (o : Outside) (l' : JobLedger) (record : JobRecord) (fence : Option ℤ),
    l.claimNext binding handles queue o.now = .ok (l', some (record, fence)) →
      Settles py l binding handles queue o l' record fence

section Sample

def interpreter : Interpreter := ⟨990, 990, 4300, Json.ratioFloats, id, fun _ => List.Perm.refl _⟩

theorem research_named : "research" ≠ "" := by decide

theorem three_attempts : 1 ≤ 3 := by decide

def scanSpec : JobSpec where
  jobType := .regimeScan
  queue := "research"
  payload := "{}"
  idempotencyKey := "scan"
  maxAttempts := 3
  backoffSeconds := 1
  backoffFactor := 2
  maxBackoffSeconds := 300
  scheduledFor := none
  createdAt := none
  queue_named := research_named
  maxAttempts_pos := three_attempts
  backoff_nonneg := by norm_num
  factor_ge_one := (by norm_num : (1 : ℚ) < 2).le

def scanLedger : JobLedger := ⟨[newRow scanSpec "job_1" 0 1], 1, 0⟩

def scanning (handled : HandlerReturn) : Outside := ⟨0, 0, 10 ^ 9, handled, id, 1, by decide⟩

def worker : Option Binding := some ⟨"worker", 1⟩

def claimedScan : JobLedger :=
  { scanLedger with fenceHwm := 1 }.update (fun r => r.jobId == "job_1")
    fun r => claimedRow r "worker" (some 1) 0

def scanRecord : JobRecord := recordFromRow (newRow scanSpec "job_1" 0 1) false

theorem claim_scan (handled : HandlerReturn) :
    scanLedger.claimNext worker (fun _ => true) "research" (scanning handled).now =
      .ok (claimedScan, some (scanRecord, some 1)) := by
  rfl

theorem held_scan : Held claimedScan worker scanRecord (some 1) := ⟨_, rfl, by decide⟩

theorem readable_scan : Readable scanRecord.spec :=
  ⟨by decide +kernel, by decide +kernel, by decide +kernel⟩

def counts : Returned :=
  .value (.dict [(.json (.str "counts"),
    .dict [(.json (.int 2024), .int 3), (.json (.str "total"), .int 3)])])

/-- A result that `sort_keys` cannot sort leaves its job running. -/
theorem mixed_keys_left_running : ¬ NeverLeft := by
  intro h
  have hfailed : execute interpreter claimedScan worker scanRecord (some 1)
      (scanning (.returned counts)) = .error (.failed .typeError) := by
    unfold execute
    rw [readBack_isOk.2 readable_scan]
    rfl
  exact not_settles_of_failed (claim_scan (.returned counts)) held_scan hfailed
    (h interpreter _ _ _ _ _ _ _ _ (claim_scan (.returned counts)))

/-- One that it can sort does not. -/
theorem mapping_returned_settled : Settles interpreter scanLedger worker (fun _ => true) "research"
      (scanning (.returned (.value (.dict [(.json (.str "found"), .int 2)]))))
        claimedScan scanRecord
      (some 1) := by
  have hprints : interpreter.prints 2 = true := by decide +kernel
  have hdepth : 0 < interpreter.encodeDepth ∧ 0 < interpreter.decodeDepth := by decide
  refine (run_next_settles_iff (claim_scan _)).2 fun _ => ⟨readable_scan, ⟨_, rfl, ?_⟩, ?_⟩
  · simp [parts, partsFields, Encodes, Loads, oneKind, LiveKey.accepted, hprints, hdepth]
  · intro exc text hraised
    cases hraised

end Sample

end Execution

end Fiboki
