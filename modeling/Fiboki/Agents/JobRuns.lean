import Fiboki.Agents.Orchestrator
import Fiboki.Lib.Run

/-!
Any number of orchestrators on one job ledger, their transactions interleaved.

A process that pauses or dies takes no further step; what it was running stays where it
was. The nth claim on a job is the one that the nth attempt of that job comes from.
-/

namespace Fiboki

open Runs

inductive FlightPhase where
  | claimed
  | started (now : Timestamp)
  | concluded (updated : JobRecord) (resultJson : Option String)
  | ended

structure Flight (ι : Type) where
  owner : ι
  record : JobRecord
  fence : Option ℤ
  phase : FlightPhase

inductive AttemptSource where
  | outcome
  | abandoned

/-- An attempt added to a job: the number of the claim it came from, and how. -/
structure Added where
  claim : ℕ
  source : AttemptSource

/-- What happened to one job: the executions of its claims in order, the attempts added and
how often its handler was started. -/
structure JobRun (ι : Type) where
  flights : List (Flight ι)
  added : List Added
  starts : ℕ

def JobRun.empty {ι : Type} : JobRun ι := ⟨[], [], 0⟩

/-- `granted` lists the acquisitions of the lease, `submissions` the calls of `submit` that
have read the ledger and not yet written it. -/
structure JobSystem (ι : Type) where
  ledger : JobLedger
  binding : ι → Option Binding
  granted : List Binding
  handles : ι → JobType → Bool
  submissions : List (ι × JobSpec)
  runs : String → JobRun ι

def JobSystem.initial {ι : Type} : JobSystem ι :=
  ⟨.empty, fun _ => none, [], fun _ _ => false, [], fun _ => .empty⟩

/-- `acquire` binds an orchestrator to a new acquisition of the lease, whose fence is above
all earlier ones, `share` to the acquisition that another is bound to. The rest are the
transactions of `submit`, `run_next` and `recover_abandoned`, with the start and the return
of the handler between a claim and its finish. -/
inductive JobEvent (ι : Type) where
  | acquire (o : ι) (holder : String) (fence : ℤ)
  | share (o q : ι)
  | register (o : ι) (jobType : JobType)
  | submit (o : ι) (spec : JobSpec)
  | insert (i : ℕ) (jobId : String) (now : Timestamp)
  | claim (o : ι) (queue : String) (now : Timestamp)
  | start (jobId : String) (k : ℕ) (now : Timestamp)
  | handled (jobId : String) (k : ℕ) (now : Timestamp) (outcome : HandlerOutcome)
  | finish (jobId : String) (k : ℕ)
  | recover (o : ι) (reason : String) (now : Timestamp)

namespace JobRun

variable {ι : Type}

def setPhase (r : JobRun ι) (k : ℕ) (f : Flight ι) (phase : FlightPhase) : JobRun ι :=
  { r with flights := r.flights.set k { f with phase } }

def noteAbandoned (r : JobRun ι) : JobRun ι :=
  { r with added := r.added ++ [⟨r.flights.length - 1, .abandoned⟩] }

end JobRun

namespace JobSystem

variable {ι : Type} [DecidableEq ι]

def setRun (s : JobSystem ι) (jobId : String) (r : JobRun ι) : JobSystem ι :=
  { s with runs := Function.update s.runs jobId r }

def noteAbandoned (runs : String → JobRun ι) (row : Job) : String → JobRun ι :=
  Function.update runs row.jobId (runs row.jobId).noteAbandoned

def step (s : JobSystem ι) : JobEvent ι → JobSystem ι
  | .acquire o holder fence =>
    if ∀ b ∈ s.granted, b.fence < fence then
      { s with
        binding := Function.update s.binding o (some ⟨holder, fence⟩)
        granted := s.granted ++ [⟨holder, fence⟩] }
    else s
  | .share o q => { s with binding := Function.update s.binding o (s.binding q) }
  | .register o jobType =>
    { s with handles := Function.update s.handles o (Function.update (s.handles o) jobType true) }
  | .submit o spec =>
    match s.ledger.submitRead (s.handles o) spec with
    | .ok none => { s with submissions := s.submissions ++ [(o, spec)] }
    | _ => s
  | .insert i jobId now =>
    match s.submissions[i]? with
    | none => s
    | some (_, spec) =>
      let s := { s with submissions := s.submissions.eraseIdx i }
      match s.ledger.insert spec jobId now with
      | .error _ => s
      | .ok ledger => { s with ledger }
  | .claim o queue now =>
    match s.binding o with
    | none => s
    | some b => match s.ledger.claimNext (some b) (s.handles o) queue now with
      | .error _ => s
      | .ok (ledger, none) => { s with ledger }
      | .ok (ledger, some (record, fence)) =>
        let r := s.runs record.jobId
        { s with ledger }.setRun record.jobId
          { r with flights := r.flights ++ [Flight.mk o record fence .claimed] }
  | .start jobId k now =>
    let r := s.runs jobId
    match r.flights[k]? with
    | none => s
    | some f => match f.phase with
      | .claimed => s.setRun jobId { r.setPhase k f (.started now) with starts := r.starts + 1 }
      | _ => s
  | .handled jobId k now outcome =>
    let r := s.runs jobId
    match r.flights[k]? with
    | none => s
    | some f => match f.phase with
      | .started t =>
        s.setRun jobId
          (r.setPhase k f (.concluded (f.record.concluded t now outcome) outcome.resultJson))
      | _ => s
  | .finish jobId k =>
    let r := s.runs jobId
    match r.flights[k]? with
    | none => s
    | some f => match f.phase with
      | .concluded updated resultJson =>
        match s.binding f.owner with
        | none => s
        | some b => match s.ledger.finish (some b) updated f.fence resultJson with
          | .error _ => s.setRun jobId (r.setPhase k f .ended)
          | .ok ledger =>
            { s with ledger }.setRun jobId
              { r.setPhase k f .ended with added := r.added ++ [Added.mk k .outcome] }
      | _ => s
  | .recover o reason now =>
    match s.binding o with
    | none => s
    | some b => match s.ledger.recoverAbandoned (some b) reason now with
      | .error _ => s
      | .ok (ledger, rows) => { s with ledger, runs := rows.foldl noteAbandoned s.runs }

def actor (s : JobSystem ι) : JobEvent ι → Option ι
  | .acquire o _ _ | .share o _ | .register o _ | .submit o _ | .claim o _ _ | .recover o
      _ _ => some o
  | .insert i _ _ => s.submissions[i]?.map Prod.fst
  | .start jobId k _ | .handled jobId k _ _ | .finish jobId k =>
    (s.runs jobId).flights[k]?.map Flight.owner

end JobSystem

section Rows

variable {ι : Type}

def Numbered (attempts : List Attempt) : Prop :=
  attempts.map Attempt.number = List.range' 1 attempts.length

theorem Numbered.snoc {attempts : List Attempt} (h : Numbered attempts) {a : Attempt}
    (ha : a.number = attempts.length + 1) : Numbered (attempts ++ [a]) := by
  unfold Numbered at h ⊢
  rw [List.map_append, h, List.length_append, List.length_singleton, List.range'_concat,
    List.map_singleton, ha]
  congr 2
  omega

def Stands (row : Job) (claims : ℕ) (k : ℕ) (f : Flight ι) : Prop :=
  k + 1 = claims ∧ row.status = .running ∧ row.claimFence = f.fence ∧
    row.attempts = f.record.attempts

def ShutOut (mark : ℤ) (row : Job) (f : Flight ι) : Prop :=
  ∃ fence, f.fence = some fence ∧ fence < mark ∧ row.claimFence ≠ some fence

structure FlightOk (mark : ℤ) (row : Job) (claims k : ℕ) (f : Flight ι) : Prop where
  jobId : f.record.jobId = row.jobId
  spec : f.record.spec = row.spec
  attempts : f.record.attempts.length = k
  room : k < f.record.spec.maxAttempts
  numbered : Numbered f.record.attempts
  concluded : ∀ updated resultJson, f.phase = .concluded updated resultJson →
    ∃ started finished outcome, updated = f.record.concluded started finished outcome
  stands : Stands row claims k f ∨ ShutOut mark row f

/-- A row with what happened to its job, under the highest fence seen. -/
structure RowOk (granted : List Binding) (mark : ℤ) (r : JobRun ι) (row : Job) : Prop where
  numbered : Numbered row.attempts
  claims : r.flights.length = row.attempts.length + if row.status = .running then 1 else 0
  added : r.added.map Added.claim = List.range row.attempts.length
  starts : r.starts + r.flights.countP (fun f => f.phase matches .claimed) ≤ r.flights.length
  limit : row.attempts.length ≤ row.spec.maxAttempts
  room : row.status.terminal = false → row.attempts.length < row.spec.maxAttempts
  claimed : row.status = .running → ∃ b ∈ granted, row.claimedBy = b.holder ∧
    row.claimFence = some b.fence ∧ b.fence ≤ mark
  free : row.status ≠ .running → row.claimFence = none
  flights : ∀ k f, r.flights[k]? = some f → ¬ (f.phase matches .ended) →
    FlightOk mark row r.flights.length k f

structure RowsOk (granted : List Binding) (l : JobLedger) (runs : String → JobRun ι) : Prop where
  ids : (l.jobs.map Job.jobId).Nodup
  keys : (l.jobs.map fun row => row.spec.idempotencyKey).Nodup
  rows : ∀ row ∈ l.jobs, RowOk granted l.fenceHwm (runs row.jobId) row
  fresh : ∀ jobId, jobId ∉ l.jobs.map Job.jobId → runs jobId = .empty

end Rows

structure JobInv {ι : Type} (s : JobSystem ι) : Prop where
  rows : RowsOk s.granted s.ledger s.runs
  bound : ∀ o b, s.binding o = some b → b ∈ s.granted
  fences : ∀ b ∈ s.granted, ∀ c ∈ s.granted, b.fence = c.fence → b = c

section Updates

variable {ι : Type} {granted : List Binding} {mark : ℤ} {l : JobLedger} {runs : String → JobRun ι}
  {r : JobRun ι} {row : Job}

variable {f : Flight ι} {mark' : ℤ}

theorem ShutOut.mono (h : ShutOut mark row f) (hle : mark ≤ mark') : ShutOut mark' row f := by
  obtain ⟨fence, hfence, hlt, hne⟩ := h
  exact ⟨fence, hfence, lt_of_lt_of_le hlt hle, hne⟩

variable {granted' : List Binding}

theorem RowOk.mono (h : RowOk granted mark r row) (hgranted : granted ⊆ granted')
    (hle : mark ≤ mark') : RowOk granted' mark' r row where
  numbered := h.numbered
  claims := h.claims
  added := h.added
  starts := h.starts
  limit := h.limit
  room := h.room
  claimed := fun hrunning => by
    obtain ⟨b, hb, hholder, hfence, hmark⟩ := h.claimed hrunning
    exact ⟨b, hgranted hb, hholder, hfence, le_trans hmark hle⟩
  free := h.free
  flights := fun k f hf hphase => by
    have hflight := h.flights k f hf hphase
    exact { hflight with stands := hflight.stands.imp_right fun hshut => hshut.mono hle }

theorem RowsOk.mono (h : RowsOk granted l runs) (hgranted : granted ⊆ granted') {l' : JobLedger}
    (hjobs : l'.jobs = l.jobs)
    (hle : l.fenceHwm ≤ l'.fenceHwm) : RowsOk granted' l' runs where
  ids := hjobs ▸ h.ids
  keys := hjobs ▸ h.keys
  rows := fun row hrow => (h.rows row (hjobs ▸ hrow)).mono hgranted hle
  fresh := hjobs ▸ h.fresh

theorem RowsOk.unique (h : RowsOk granted l runs) {row row' : Job} (hrow : row ∈ l.jobs)
    (hrow' : row' ∈ l.jobs) (hid : row'.jobId = row.jobId) : row' = row :=
  List.inj_on_of_nodup_map h.ids hrow' hrow hid

theorem RowsOk.setRun (h : RowsOk granted l runs) (hrow : row ∈ l.jobs)
    (hok : RowOk granted l.fenceHwm r row) :
    RowsOk granted l (Function.update runs row.jobId r) where
  ids := h.ids
  keys := h.keys
  rows := fun row' hrow' => by
    by_cases hid : row'.jobId = row.jobId
    · rw [hid, Function.update_self, h.unique hrow hrow' hid]
      exact hok
    · rw [Function.update_of_ne hid]
      exact h.rows row' hrow'
  fresh := fun jobId hjob => by
    have hne : jobId ≠ row.jobId := by
      rintro rfl
      exact hjob (List.mem_map_of_mem hrow)
    rw [Function.update_of_ne hne]
    exact h.fresh jobId hjob

theorem RowsOk.update (h : RowsOk granted l runs) (hrow : row ∈ l.jobs) {hit : Job → Bool}
    (hhit : hit row = true) (hits : ∀ r, hit r = true → r.jobId = row.jobId) {set : Job → Job}
    (hid : (set row).jobId = row.jobId) (hspec : (set row).spec = row.spec)
    (hok : RowOk granted l.fenceHwm r (set row)) :
    RowsOk granted (l.update hit set) (Function.update runs row.jobId r) := by
  have honly : ∀ row' ∈ l.jobs, hit row' = true → row' = row :=
    fun row' hrow' hhit' => h.unique hrow hrow' (hits row' hhit')
  have hids : (l.update hit set).jobs.map Job.jobId = l.jobs.map Job.jobId := by
    unfold JobLedger.update
    rw [List.map_map]
    apply List.map_congr_left
    intro row' hrow'
    simp only [Function.comp_apply]
    split_ifs with hhit'
    · rw [honly row' hrow' hhit', hid]
    · rfl
  have hkeys : (l.update hit set).jobs.map (fun row => row.spec.idempotencyKey) =
      l.jobs.map fun row => row.spec.idempotencyKey := by
    unfold JobLedger.update
    rw [List.map_map]
    apply List.map_congr_left
    intro row' hrow'
    simp only [Function.comp_apply]
    split_ifs with hhit'
    · rw [honly row' hrow' hhit', hspec]
    · rfl
  refine ⟨hids ▸ h.ids, hkeys ▸ h.keys, ?_, ?_⟩
  · intro row' hrow'
    obtain ⟨old, hold, rfl⟩ := List.mem_map.1 hrow'
    by_cases hhit' : hit old = true
    · rw [if_pos hhit', honly old hold hhit', hid, Function.update_self]
      exact hok
    · have hne : old.jobId ≠ row.jobId := by
        intro hsame
        rw [h.unique hrow hold hsame] at hhit'
        exact hhit' hhit
      rw [if_neg hhit', Function.update_of_ne hne]
      exact h.rows old hold
  · intro jobId hjob
    rw [hids] at hjob
    have hne : jobId ≠ row.jobId := by
      rintro rfl
      exact hjob (List.mem_map_of_mem hrow)
    rw [Function.update_of_ne hne]
    exact h.fresh jobId hjob

theorem RowsOk.exists_row (h : RowsOk granted l runs) {jobId : String} {k : ℕ}
    (hf : (runs jobId).flights[k]? = some f) : ∃ row ∈ l.jobs, row.jobId = jobId := by
  by_contra hnone
  rw [h.fresh jobId] at hf
  · cases hf
  · intro hmem
    obtain ⟨row, hrow, hid⟩ := List.mem_map.1 hmem
    exact hnone ⟨row, hrow, hid⟩

end Updates

section Transitions

variable {ι : Type} {granted : List Binding} {mark : ℤ} {r : JobRun ι} {row : Job}

variable {k : ℕ}

theorem countP_set {α : Type} (p : α → Bool) {l : List α} {a : α} (h : l[k]? = some a)
    (b : α) : (l.set k b).countP p + (if p a then 1 else 0) = l.countP p +
      if p b then 1 else 0 := by
  obtain ⟨hk, rfl⟩ := List.getElem?_eq_some_iff.1 h
  have hcounted : (if p l[k] then 1 else 0) ≤ l.countP p := by
    split_ifs with hp
    · exact List.countP_pos_iff.2 ⟨_, List.getElem_mem hk, hp⟩
    · exact Nat.zero_le _
  rw [List.countP_set hk]
  omega

variable {f : Flight ι}

theorem RowOk.setPhase (h : RowOk granted mark r row)
    (hf : r.flights[k]? = some f) (hlive : ¬ (f.phase matches .ended)) {phase : FlightPhase}
    (hphase : ¬ (phase matches .claimed)) (hconcluded : ∀ updated resultJson,
      phase = .concluded updated resultJson →
        ∃ started finished outcome, updated = f.record.concluded started finished outcome)
    {starts : ℕ} (hstarts : starts ≤ r.starts + if f.phase matches .claimed then 1 else 0) :
    RowOk granted mark { r.setPhase k f phase with starts } row where
  numbered := h.numbered
  claims := by
    show (r.flights.set k _).length = _
    rw [List.length_set]
    exact h.claims
  added := h.added
  starts := by
    have hcount := countP_set (fun f : Flight ι => f.phase matches .claimed) hf { f with phase }
    have hold := h.starts
    simp only [hphase, Bool.false_eq_true, if_false] at hcount
    show starts + (r.flights.set k _).countP _ ≤ (r.flights.set k _).length
    rw [List.length_set]
    omega
  limit := h.limit
  room := h.room
  claimed := h.claimed
  free := h.free
  flights := by
    intro i g hg hlive'
    have hlength : (r.setPhase k f phase).flights.length = r.flights.length := List.length_set
    show FlightOk mark row (r.setPhase k f phase).flights.length i g
    rw [hlength]
    change (r.flights.set k _)[i]? = some g at hg
    rw [List.getElem?_set] at hg
    split_ifs at hg with hi hlt
    · cases hg
      subst hi
      have hflight := h.flights k f hf hlive
      exact { hflight with concluded := hconcluded }
    · exact h.flights i g hg hlive'

theorem RowOk.claim (h : RowOk granted mark r row) (hrunnable : row.status.runnable = true)
    {b : Binding} (hb : b ∈ granted) (hmark : mark ≤ b.fence) (o : ι) (now : Timestamp) :
    RowOk granted b.fence
      { r with flights := r.flights ++
        [Flight.mk o (recordFromRow row false) (some b.fence) .claimed] }
      (JobLedger.claimedRow row b.holder (some b.fence) now) := by
  have hidle : row.status ≠ .running := by
    intro hrunning
    rw [hrunning] at hrunnable
    cases hrunnable
  have hopen : row.status.terminal = false := by
    cases hstatus : row.status <;> rw [hstatus] at hrunnable <;> first | rfl | cases hrunnable
  have hclaims := h.claims
  rw [if_neg hidle, Nat.add_zero] at hclaims
  have hroom := h.room hopen
  constructor
  · exact h.numbered
  · show (r.flights ++ _).length = _
    rw [List.length_append, hclaims]
    rfl
  · exact h.added
  · have hstarts := h.starts
    show r.starts + (r.flights ++ _).countP _ ≤ (r.flights ++ _).length
    rw [List.countP_append, List.length_append]
    simp only [List.countP_cons, List.countP_nil, List.length_singleton, if_true]
    omega
  · exact h.limit
  · exact fun _ => hroom
  · exact fun _ => ⟨b, hb, rfl, rfl, le_rfl⟩
  · exact fun hne => absurd rfl hne
  · intro k f hf hlive
    change (r.flights ++ _)[k]? = some f at hf
    show FlightOk b.fence _ (r.flights ++ _).length k f
    rcases Nat.lt_or_ge k r.flights.length with hlt | hge
    · rw [List.getElem?_append_left hlt] at hf
      have hflight := h.flights k f hf hlive
      refine { hflight with stands := .inr ?_ }
      rcases hflight.stands with hstands | ⟨fence, hfence, hltmark, -⟩
      · exact absurd hstands.2.1 hidle
      · refine ⟨fence, hfence, lt_of_lt_of_le hltmark hmark, ?_⟩
        show some b.fence ≠ some fence
        intro hsame
        cases hsame
        exact absurd hltmark (not_lt_of_ge hmark)
    · rw [List.getElem?_append_right hge] at hf
      have hk : k - r.flights.length = 0 := by
        by_contra hne
        rw [List.getElem?_eq_none (by rw [List.length_singleton]; omega)] at hf
        cases hf
      rw [hk] at hf
      cases hf
      have hlast : k = r.flights.length := by omega
      subst hlast
      refine ⟨rfl, rfl, hclaims.symm, ?_, h.numbered, ?_, .inl ⟨?_, rfl, rfl, rfl⟩⟩
      · rw [hclaims]
        exact hroom
      · intro updated resultJson hphase
        cases hphase
      · rw [List.length_append, List.length_singleton]

theorem JobRecord.concluded_spec (record : JobRecord) (started finished : Timestamp)
    (outcome : HandlerOutcome) :
    ∃ a status, a.number = record.attempts.length + 1 ∧
      (record.concluded started finished outcome).jobId = record.jobId ∧
      (record.concluded started finished outcome).status = status ∧ status ≠ .running ∧
      (record.concluded started finished outcome).attempts = record.attempts ++ [a] ∧
      (status.terminal = false → record.attempts.length + 1 < record.spec.maxAttempts) := by
  cases outcome with
  | returned resultJson => exact ⟨_, .succeeded, rfl, rfl, rfl, by decide, rfl, fun h => by cases h⟩
  | raised error =>
    unfold JobRecord.concluded
    dsimp only
    split_ifs with hspent
    · exact ⟨_, .deadLetter, rfl, rfl, rfl, by decide, rfl, fun h => by cases h⟩
    · exact ⟨_, .failed, rfl, rfl, rfl, by decide, rfl, fun _ => by omega⟩

/-- A job whose claim is closed with one more attempt, by the execution of that claim or by a
recovery; `closed` tells which executions end with it. -/
theorem RowOk.close (h : RowOk granted mark r row) (hrunning : row.status = .running) (row' : Job)
    (hid : row'.jobId = row.jobId) (hspec : row'.spec = row.spec) {a : Attempt}
    (hattempts : row'.attempts = row.attempts ++ [a]) (ha : a.number = row.attempts.length + 1)
    (hstatus : row'.status ≠ .running) (hfree : row'.claimFence = none)
    (hroom : row'.status.terminal = false → row.attempts.length + 1 < row.spec.maxAttempts)
    {flights : List (Flight ι)} (hlength : flights.length = r.flights.length)
    (hcount : flights.countP (fun f => f.phase matches .claimed) ≤
      r.flights.countP fun f => f.phase matches .claimed)
    (hflights : ∀ (k : ℕ) (f : Flight ι), flights[k]? = some f → ¬ (f.phase matches .ended) →
      r.flights[k]? = some f ∧ ShutOut mark row' f)
    {source : AttemptSource} :
    RowOk granted mark ⟨flights, r.added ++ [⟨row.attempts.length, source⟩], r.starts⟩ row' := by
  have hclaims := h.claims
  rw [if_pos hrunning] at hclaims
  have hlen : row'.attempts.length = row.attempts.length + 1 := by
    rw [hattempts, List.length_append, List.length_singleton]
  have hold : row.attempts.length < row.spec.maxAttempts := h.room (by rw [hrunning]; rfl)
  constructor
  · rw [hattempts]
    exact h.numbered.snoc ha
  · show flights.length = _
    rw [hlength, hclaims, hlen, if_neg hstatus]
  · show (r.added ++ _).map _ = _
    rw [List.map_append, h.added, hlen, List.range_succ]
    rfl
  · have hstarts := h.starts
    show r.starts + flights.countP _ ≤ flights.length
    omega
  · rw [hlen, hspec]
    omega
  · intro hopen
    rw [hlen, hspec]
    exact hroom hopen
  · exact fun hrunning' => absurd hrunning' hstatus
  · exact fun _ => hfree
  · intro k f hf hlive
    obtain ⟨hbefore, hshut⟩ := hflights k f hf hlive
    have hflight := h.flights k f hbefore hlive
    exact { hflight with
      jobId := hflight.jobId.trans hid.symm
      spec := hflight.spec.trans hspec.symm
      stands := .inr hshut }

theorem RowOk.finish (h : RowOk granted mark r row)
    (hf : r.flights[k]? = some f) {updated : JobRecord} {resultJson : Option String}
    (hphase : f.phase = .concluded updated resultJson) (hrunning : row.status = .running)
    (hfence : row.claimFence = f.fence) (seq : ℕ) :
    (∃ a, updated.attempts = row.attempts ++ [a]) ∧
      RowOk granted mark { r.setPhase k f .ended with added := r.added ++ [⟨k, .outcome⟩] }
        (JobLedger.finishedRow updated resultJson seq row) := by
  have hlive : ¬ (f.phase matches .ended) := by
    rw [hphase]
    exact Bool.false_ne_true
  have hflight := h.flights k f hf hlive
  obtain ⟨started, finished, outcome, rfl⟩ := hflight.concluded updated resultJson hphase
  obtain ⟨a, status, ha, -, hstatus, hstop, hattempts, hroom⟩ :=
    f.record.concluded_spec started finished outcome
  -- Shut out, it could not find its fence on the row.
  have hstands : Stands row r.flights.length k f := by
    rcases hflight.stands with hstands | ⟨fence, hsome, -, hne⟩
    · exact hstands
    · exact absurd (hfence.trans hsome) hne
  obtain ⟨hlast, -, -, hsame⟩ := hstands
  have hk : row.attempts.length = k := by rw [hsame, hflight.attempts]
  rw [← hsame] at hattempts ha hroom
  rw [hflight.spec] at hroom
  refine ⟨⟨a, hattempts⟩, ?_⟩
  have hcount := countP_set (fun f : Flight ι => f.phase matches .claimed) hf
    { f with phase := .ended }
  rw [← hk]
  apply h.close hrunning
    (JobLedger.finishedRow (f.record.concluded started finished outcome) resultJson seq row) rfl rfl
    hattempts ha
  · show (f.record.concluded started finished outcome).status ≠ _
    rw [hstatus]
    exact hstop
  · rfl
  · show (f.record.concluded started finished outcome).status.terminal = false → _
    rw [hstatus]
    exact hroom
  · exact List.length_set
  · simp only [hphase, Bool.false_eq_true, if_false, Nat.add_zero] at hcount
    exact le_of_eq (by rw [hk]; exact hcount)
  · intro i g hg hlive'
    change (r.flights.set _ _)[i]? = some g at hg
    rw [List.getElem?_set] at hg
    split_ifs at hg with hi hlt
    · cases hg
      exact absurd rfl hlive'
    · have hother := h.flights i g hg hlive'
      refine ⟨hg, ?_⟩
      rcases hother.stands with hstands | ⟨fence, hsome, hlt, hne⟩
      · have := hstands.1
        omega
      · refine ⟨fence, hsome, hlt, ?_⟩
        show none ≠ some fence
        intro hnone
        cases hnone

theorem JobLedger.abandonedRecord_spec (reason : String) (now : Timestamp) (row : Job) :
    ∃ a status, a.number = row.attempts.length + 1 ∧
      (abandonedRecord reason now row).status = status ∧ status ≠ .running ∧
      (abandonedRecord reason now row).attempts = row.attempts ++ [a] ∧
      (status.terminal = false → row.attempts.length + 1 < row.spec.maxAttempts) := by
  unfold abandonedRecord
  dsimp only
  split_ifs with hspent
  · exact ⟨_, .deadLetter, rfl, rfl, by decide, rfl, fun h => by cases h⟩
  · exact ⟨_, .failed, rfl, rfl, by decide, rfl, fun _ => by omega⟩

theorem RowOk.abandon (h : RowOk granted mark r row) (hrunning : row.status = .running) {fence : ℤ}
    (hfence : row.claimFence = some fence) (hlt : fence < mark) (reason : String)
    (now : Timestamp) (seq : ℕ) :
    RowOk granted mark r.noteAbandoned
      (JobLedger.recoveredRow (JobLedger.abandonedRecord reason now row) seq row) := by
  have hclaims := h.claims
  rw [if_pos hrunning] at hclaims
  obtain ⟨a, status, ha, hstatus, hstop, hattempts, hroom⟩ :=
    JobLedger.abandonedRecord_spec reason now row
  have hnote : r.noteAbandoned =
      ⟨r.flights, r.added ++ [⟨row.attempts.length, .abandoned⟩], r.starts⟩ := by
    unfold JobRun.noteAbandoned
    rw [hclaims, Nat.add_sub_cancel]
  rw [hnote]
  apply h.close hrunning
    (JobLedger.recoveredRow (JobLedger.abandonedRecord reason now row) seq row) rfl rfl hattempts ha
  · show (JobLedger.abandonedRecord reason now row).status ≠ _
    rw [hstatus]
    exact hstop
  · rfl
  · show (JobLedger.abandonedRecord reason now row).status.terminal = false → _
    rw [hstatus]
    exact hroom
  · rfl
  · exact le_rfl
  · intro k f hf hlive
    refine ⟨hf, ?_⟩
    have hnone : ∀ fence' : ℤ, (none : Option ℤ) ≠ some fence' := fun _ hsame => by cases hsame
    rcases (h.flights k f hf hlive).stands with hstands | ⟨fence', hsome, hlt', -⟩
    · exact ⟨fence, hstands.2.2.1.symm.trans hfence, hlt, hnone fence⟩
    · exact ⟨fence', hsome, hlt', hnone fence'⟩

end Transitions

end Fiboki
