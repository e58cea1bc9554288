import Fiboki.Lifecycle.Reload
import Mathlib.Data.Fintype.Pi
import Mathlib.Data.Fintype.Prod

/-!
Several machines on one log.  A call checks a move against what its machine remembers,
reads the length of the log, reads its last hash and appends; other machines take steps
in between.
-/

namespace Fiboki

open Wire Text StrategyLifecycle Runs LifecycleStateMachine

/-- A call that passed its checks: its record but for the place in the chain. -/
structure Draft where
  current : Option StrategyRecord
  strategyId : String
  strategyContentHash : String
  fromState : StrategyLifecycle
  toState : StrategyLifecycle
  kind : TransitionKind
  actor : Actor
  reason : String
  evidence : List Evidence
  now : Timestamp

namespace Draft

variable (std : Stdlib)

def sealAt (d : Draft) (sequence : ℕ) (previousHash : String) : TransitionRecord :=
  .sealRecord std sequence d.now d.strategyId d.strategyContentHash d.fromState d.toState d.kind
    d.actor d.reason d.evidence previousHash

def applied (d : Draft) (record : TransitionRecord) : StrategyRecord :=
  match d.current with
  | none => .opened record
  | some current => current.applied record

def ofCall (records : Dict String StrategyRecord) : LifecycleCall → Except LifecycleError Draft
  | .register strategyId hash actor reason evidence now =>
    match records.get hash with
    | some current =>
      .error (.lifecycleError ("strategy " ++ short hash ++
        " is already registered in state " ++ current.state.value))
    | none =>
      if isBlank hash then .error (.valueError "strategy_content_hash is mandatory")
      else
        .ok ⟨none, strategyId, hash, discovery, discovery, .registration, actor, reason,
          if evidence = [] then [registrationNote hash reason] else evidence, now⟩
  | .transition hash toState actor reason evidence now =>
    match records.get hash with
    | none => .error (.unknownStrategy hash)
    | some current =>
      match checkTransition std current hash toState actor evidence with
      | .error e => .error e
      | .ok edge =>
        .ok ⟨some current, current.strategyId, hash, current.state, toState, edge.kind, actor,
          reason, evidence, now⟩

/-- A machine alone on its log takes the steps of a call one after the other. -/
theorem perform_eq (m : LifecycleStateMachine (List TransitionRecord)) (c : LifecycleCall) :
    m.perform std inMemoryTransitionLog c =
      match ofCall std m.records c with
      | .error e => (m, .error e)
      | .ok d =>
        (⟨m.log ++ [d.sealAt std m.log.length (headHash m.log)], m.records.set d.strategyContentHash
            (d.applied (d.sealAt std m.log.length (headHash m.log)))⟩,
          .ok (d.applied (d.sealAt std m.log.length (headHash m.log)))) := by
  cases c with
  | register strategyId hash actor reason evidence now =>
    dsimp only [perform, register, ofCall]
    cases hget : m.records.get hash with
    | some current => rfl
    | none =>
      dsimp only
      by_cases hblank : isBlank hash = true
      · rw [if_pos hblank, if_pos hblank]
      · rw [if_neg hblank, if_neg hblank]
        rfl
  | transition hash toState actor reason evidence now =>
    dsimp only [perform, transition, ofCall]
    cases hget : m.records.get hash with
    | none => rfl
    | some current =>
      dsimp only
      cases checkTransition std current hash toState actor evidence with
      | error e | ok edge => rfl

end Draft

inductive CallPhase where
  | idle
  | checked (d : Draft)
  | counted (d : Draft) (sequence : ℕ)
  | hashed (d : Draft) (record : TransitionRecord)

def CallPhase.isIdle : CallPhase → Bool
  | idle => true
  | _ => false

structure Participant where
  records : Dict String StrategyRecord
  phase : CallPhase

structure SharedLog (ι : Type) where
  rows : List TransitionRecord
  machines : ι → Participant

inductive LogEvent (ι : Type) where
  | opened (i : ι)
  | called (i : ι) (c : LifecycleCall)
  | counted (i : ι)
  | hashed (i : ι)
  | appended (i : ι)

namespace SharedLog

variable {ι : Type} [DecidableEq ι] (std : Stdlib)

def fresh : SharedLog ι := ⟨[], fun _ => ⟨.empty, .idle⟩⟩

def put (s : SharedLog ι) (i : ι) (p : Participant) : SharedLog ι :=
  { s with machines := Function.update s.machines i p }

def step (s : SharedLog ι) : LogEvent ι → SharedLog ι
  | .opened i =>
    match load std inMemoryTransitionLog s.rows with
    | .ok m => s.put i ⟨m.records, .idle⟩
    | .error _ => s
  | .called i c =>
    match (s.machines i).phase with
    | .idle =>
      match Draft.ofCall std (s.machines i).records c with
      | .ok d => s.put i ⟨(s.machines i).records, .checked d⟩
      | .error _ => s
    | _ => s
  | .counted i =>
    match (s.machines i).phase with
    | .checked d => s.put i ⟨(s.machines i).records, .counted d s.rows.length⟩
    | _ => s
  | .hashed i =>
    match (s.machines i).phase with
    | .counted d n =>
      s.put i ⟨(s.machines i).records, .hashed d (d.sealAt std n (headHash s.rows))⟩
    | _ => s
  | .appended i =>
    match (s.machines i).phase with
    | .hashed d record =>
      { rows := s.rows ++ [record]
        machines := Function.update s.machines i
          ⟨(s.machines i).records.set d.strategyContentHash (d.applied record), .idle⟩ }
    | _ => s

variable {std} in
theorem exec_opened {s : SharedLog ι} {records : Dict String StrategyRecord}
    {es fs : List (LogEvent ι)} (i : ι)
    (h : firstBreak std 0 genesisHash (exec (step std) s es).rows = none)
    (hreplay : (exec (step std) s es).rows.foldlM replayRow Dict.empty = .ok records) :
    exec (step std) s (es ++ [.opened i] ++ fs) =
      exec (step std) ((exec (step std) s es).put i ⟨records, .idle⟩) fs := by
  rw [exec_append, exec_append, exec_cons, exec_nil]
  simp only [step, Reload.load_intact h hreplay]

/-- The steps of a call with no step of another machine in between. -/
def turn (i : ι) (c : LifecycleCall) : List (LogEvent ι) :=
  [.called i c, .counted i, .hashed i, .appended i]

theorem exec_turn (m : LifecycleStateMachine (List TransitionRecord)) (machines : ι → Participant)
    (i : ι) (c : LifecycleCall) :
    exec (step std) ⟨m.log, Function.update machines i ⟨m.records, .idle⟩⟩ (turn i c) =
      ⟨(m.step std inMemoryTransitionLog c).log,
        Function.update machines i ⟨(m.step std inMemoryTransitionLog c).records, .idle⟩⟩ := by
  simp only [turn, exec_cons, exec_nil, LifecycleStateMachine.step, Draft.perform_eq]
  cases hcall : Draft.ofCall std m.records c with
  | error e => simp [step, hcall]
  | ok d => simp [step, put, hcall]

/-- A machine that is not interrupted leaves the log and records of single-step calls. -/
theorem run_uninterrupted (m : LifecycleStateMachine (List TransitionRecord))
    (machines : ι → Participant) (i : ι) (cs : List LifecycleCall) :
    let m' := exec (LifecycleStateMachine.step std inMemoryTransitionLog) m cs
    exec (step std) ⟨m.log, Function.update machines i ⟨m.records, .idle⟩⟩ (cs.flatMap (turn i)) =
      ⟨m'.log, Function.update machines i ⟨m'.records, .idle⟩⟩ := by
  induction cs generalizing m with
  | nil => rfl
  | cons c cs ih =>
    rw [List.flatMap_cons, exec_append, exec_turn, exec_cons]
    exact ih _

end SharedLog

def stateIn (rows : List TransitionRecord) (hash : String) : Option StrategyLifecycle :=
  (rows.filter fun r => r.strategyContentHash = hash).getLast?.map TransitionRecord.toState

def GoesOn (rows : List TransitionRecord) (r : TransitionRecord) : Prop :=
  if r.kind = .registration then stateIn rows r.strategyContentHash = none
  else stateIn rows r.strategyContentHash = some r.fromState ∧
    ∃ e, edge r.fromState r.toState = some e ∧ e.kind = r.kind

/-- The chain verifies, sequence numbers are consecutive, and every record takes a legal
edge out of the state that the record before it led to. -/
structure AgreedLog (std : Stdlib) (rows : List TransitionRecord) : Prop where
  verified : firstBreak std 0 genesisHash rows = none
  goesOn : ∀ before r after, rows = before ++ r :: after → GoesOn before r

namespace AgreedLog

variable {std : Stdlib} {rows : List TransitionRecord} {r : TransitionRecord}

theorem nil (std : Stdlib) : AgreedLog std [] where
  verified := rfl
  goesOn _ _ _ h := absurd h.symm (List.append_ne_nil_of_right_ne_nil _ (List.cons_ne_nil _ _))

theorem snoc (h : AgreedLog std rows) (hseq : r.sequence = rows.length)
    (hprev : r.previousHash = headHash rows) (hhash : r.recomputeHash std = r.recordHash)
    (hgoes : GoesOn rows r) : AgreedLog std (rows ++ [r]) where
  verified := firstBreak_snoc std h.verified (by rw [hseq, Nat.zero_add]) hprev hhash
  goesOn before r' after heq := by
    rcases List.eq_nil_or_concat after with rfl | ⟨after', last, rfl⟩
    · obtain ⟨rfl, hlast⟩ := List.append_inj' heq rfl
      obtain rfl := (List.cons.inj hlast).1
      exact hgoes
    · have hsplit : rows ++ [r] = (before ++ r' :: after') ++ [last] := by
        rw [heq, List.append_assoc, List.cons_append, List.concat_eq_append]
      obtain ⟨hrows, -⟩ := List.append_inj' hsplit rfl
      exact h.goesOn before r' after' hrows

end AgreedLog

/-- The draft fits the log: it moves the strategy on from where the log has it. -/
structure Draft.Fits (rows : List TransitionRecord) (d : Draft) : Prop where
  state : stateIn rows d.strategyContentHash = d.current.map StrategyRecord.state
  registers : d.current = none → d.kind = .registration
  moves : ∀ current, d.current = some current → d.fromState = current.state ∧
    d.kind ≠ .registration ∧ ∃ e, edge d.fromState d.toState = some e ∧ e.kind = d.kind

variable {rows : List TransitionRecord}

variable {std : Stdlib} {d : Draft}

theorem Draft.Fits.goesOn (h : d.Fits rows) (n : ℕ)
    (previousHash : String) : GoesOn rows (d.sealAt std n previousHash) := by
  have hstate := h.state
  unfold GoesOn
  cases hcurrent : d.current with
  | none =>
    rw [hcurrent] at hstate
    rw [if_pos (show (d.sealAt std n previousHash).kind = _ from h.registers hcurrent)]
    exact hstate
  | some current =>
    obtain ⟨hfrom, hkind, hedge⟩ := h.moves current hcurrent
    rw [hcurrent] at hstate
    rw [if_neg (show (d.sealAt std n previousHash).kind ≠ _ from hkind)]
    refine ⟨?_, hedge⟩
    change stateIn rows d.strategyContentHash = some d.fromState
    rw [hstate, hfrom]
    rfl

theorem Draft.fits_of_call {records : Dict String StrategyRecord} {c : LifecycleCall}
    (hcurrent : (records.get c.hash).map StrategyRecord.state = stateIn rows c.hash)
    (hcall : Draft.ofCall std records c = .ok d) : d.Fits rows := by
  cases c with
  | register strategyId hash actor reason evidence now =>
    have hstate : (records.get hash).map StrategyRecord.state = stateIn rows hash := hcurrent
    simp only [Draft.ofCall] at hcall
    cases hget : records.get hash with
    | some current =>
      rw [hget] at hcall
      cases hcall
    | none =>
      rw [hget] at hcall hstate
      dsimp only at hcall
      split_ifs at hcall
      all_goals
        cases hcall
        exact ⟨hstate.symm, fun _ => rfl, fun _ h => by cases h⟩
  | transition hash toState actor reason evidence now =>
    have hstate : (records.get hash).map StrategyRecord.state = stateIn rows hash := hcurrent
    simp only [Draft.ofCall] at hcall
    cases hget : records.get hash with
    | none =>
      rw [hget] at hcall
      cases hcall
    | some current =>
      rw [hget] at hcall hstate
      dsimp only at hcall
      cases hcheck : checkTransition std current hash toState actor evidence with
      | error e =>
        rw [hcheck] at hcall
        cases hcall
      | ok e =>
        rw [hcheck] at hcall
        cases hcall
        have hedge := (checkTransition_ok hcheck).isEdge
        refine ⟨hstate.symm, fun h => (Option.some_ne_none _ h).elim, ?_⟩
        intro current' heq
        obtain rfl := Option.some.inj heq
        exact ⟨rfl, (edgeLaw hedge).requested, e, hedge, rfl⟩

namespace SharedLog

variable {ι : Type} [DecidableEq ι] {std : Stdlib} {s : SharedLog ι}

/-- A call starts on a machine that remembers the state the log has the strategy in, and
none appends while another machine is in the middle of a call. -/
def Serial (s : SharedLog ι) : LogEvent ι → Prop
  | .called i c =>
    ((s.machines i).records.get c.hash).map StrategyRecord.state = stateIn s.rows c.hash
  | .appended i => ∀ j, j ≠ i → (s.machines j).phase.isIdle = true
  | _ => True

def PhaseFits (std : Stdlib) (rows : List TransitionRecord) : CallPhase → Prop
  | .idle => True
  | .checked d => d.Fits rows
  | .counted d n => d.Fits rows ∧ n = rows.length
  | .hashed d record => d.Fits rows ∧ record = d.sealAt std rows.length (headHash rows)

theorem phaseFits_of_isIdle (std : Stdlib) (rows : List TransitionRecord) {phase : CallPhase}
    (h : phase.isIdle = true) : PhaseFits std rows phase := by
  cases phase with
  | idle => trivial
  | checked d | counted d n | hashed d record => cases h

structure Agreed (std : Stdlib) (s : SharedLog ι) : Prop where
  log : AgreedLog std s.rows
  phases : ∀ i, PhaseFits std s.rows (s.machines i).phase

theorem Agreed.put (h : Agreed std s) {i : ι} {p : Participant}
    (hp : PhaseFits std s.rows p.phase) : Agreed std (s.put i p) where
  log := h.log
  phases j := by
    change PhaseFits std s.rows (Function.update s.machines i p j).phase
    by_cases hj : j = i
    · subst hj
      rw [Function.update_self]
      exact hp
    · rw [Function.update_of_ne hj]
      exact h.phases j

theorem Agreed.step (h : Agreed std s) {e : LogEvent ι} (hserial : Serial s e) :
    Agreed std (s.step std e) := by
  cases e with
  | opened i =>
    unfold SharedLog.step
    cases load std inMemoryTransitionLog s.rows with
    | error e => exact h
    | ok m => exact h.put trivial
  | called i c =>
    unfold SharedLog.step
    dsimp only
    split
    · split
      · rename_i d hcall
        exact h.put (Draft.fits_of_call hserial hcall)
      · exact h
    · exact h
  | counted i =>
    have hphase := h.phases i
    unfold SharedLog.step
    dsimp only
    split
    · rename_i d heq
      rw [heq] at hphase
      exact h.put ⟨hphase, rfl⟩
    · exact h
  | hashed i =>
    have hphase := h.phases i
    unfold SharedLog.step
    dsimp only
    split
    · rename_i d n heq
      rw [heq] at hphase
      obtain ⟨hfits, rfl⟩ := hphase
      exact h.put ⟨hfits, rfl⟩
    · exact h
  | appended i =>
    have hphase := h.phases i
    unfold SharedLog.step
    dsimp only
    split
    · rename_i d record heq
      rw [heq] at hphase
      obtain ⟨hfits, rfl⟩ := hphase
      refine ⟨h.log.snoc rfl rfl rfl (hfits.goesOn _ _), fun j => ?_⟩
      dsimp only
      by_cases hj : j = i
      · subst hj
        rw [Function.update_self]
        trivial
      · rw [Function.update_of_ne hj]
        exact phaseFits_of_isIdle std _ (hserial j hj)
    · exact h

/-- Machines that take turns, each calling only on what it knows to be current, agree on
one history. -/
theorem agreed_of_serial (std : Stdlib) (es : List (LogEvent ι))
    (h : Along Serial (step std) (fresh : SharedLog ι) es) :
    AgreedLog std (exec (step std) (fresh : SharedLog ι) es).rows := by
  have hfresh : Agreed std (fresh : SharedLog ι) := ⟨.nil std, fun _ => trivial⟩
  have hrun : Agreed std (exec (step std) (fresh : SharedLog ι) es) :=
    h.invariant (I := Agreed std) (fun s e hs he => Agreed.step hs he) hfresh
  exact hrun.log

end SharedLog

namespace MachineRuns

open LadderRuns SharedLog

def registered (hash : String) : LifecycleCall := .register "trend" hash operator "new" [note] 0

def researched (hash : String) : LifecycleCall :=
  .transition hash research operator "promoted" [note] 0

def turns : List (LogEvent Bool) :=
  turn false (registered "a1") ++ turn true (registered "b1") ++ turn false (researched "a1") ++
    turn true (researched "b1")

instance (s : SharedLog Bool) (e : LogEvent Bool) : Decidable (Serial s e) := by
  cases e with
  | opened i => exact isTrue trivial
  | called i c => exact inferInstanceAs (Decidable (_ = _))
  | counted i | hashed i => exact isTrue trivial
  | appended i => exact inferInstanceAs (Decidable (∀ j, j ≠ i → _))

theorem agreed_turns :
    AgreedLog epochStdlib (exec (step epochStdlib) (fresh : SharedLog Bool) turns).rows :=
  agreed_of_serial epochStdlib turns (by decide)

def opening : List (LogEvent Bool) := turn false (registered "a1")

def stale : List (LogEvent Bool) :=
  turn false (registered "a1") ++ [.opened true] ++ turn false (researched "a1") ++
    turn true (researched "a1")

theorem stale_machine_appends : ¬ ∀ es : List (LogEvent Bool),
      AgreedLog epochStdlib (exec (step epochStdlib) (fresh : SharedLog Bool) es).rows := by
  intro h
  have hlog := h stale
  have hread : (exec (step epochStdlib) (fresh : SharedLog Bool) stale).rows[2]?.map
        (fun r => (r.strategyContentHash, r.kind, r.fromState)) =
          some ("a1", .promotion, discovery) ∧
      stateIn ((exec (step epochStdlib) (fresh : SharedLog Bool) stale).rows.take 2) "a1" =
        some research := by
    -- no hash of the log is computed
    have hintact := (agreed_of_serial epochStdlib opening (by decide)).verified
    have hreplay : (exec (step epochStdlib) fresh opening).rows.foldlM replayRow Dict.empty =
      .ok ((exec (step epochStdlib) fresh opening).machines false).records := rfl
    have hstale : stale = opening ++ [.opened true] ++ _ := List.append_assoc _ _ _
    rw [hstale, exec_opened true hintact hreplay]
    decide +kernel
  generalize (exec (step epochStdlib) (fresh : SharedLog Bool) stale).rows = rows at hlog hread
  obtain ⟨hthird, hbefore⟩ := hread
  obtain ⟨r, hget, hr⟩ := Option.map_eq_some_iff.1 hthird
  obtain ⟨hhash, hrest⟩ := Prod.mk.inj hr
  obtain ⟨hkind, hfrom⟩ := Prod.mk.inj hrest
  obtain ⟨hlt, hat⟩ := List.getElem?_eq_some_iff.1 hget
  have hsplit : rows = rows.take 2 ++ r :: rows.drop 3 := by
    rw [← hat, List.getElem_cons_drop, List.take_append_drop]
  have hgoes := hlog.goesOn _ r _ hsplit
  unfold GoesOn at hgoes
  rw [hkind, if_neg (by decide), hhash, hbefore, hfrom] at hgoes
  cases hgoes.1

end MachineRuns

end Fiboki
