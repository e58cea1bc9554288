import Fiboki.Core.Stdlib
import Fiboki.Lib.Run

/-!
The parameter sweep of the research worker: its checkpoint rows, one pass of
`SweepRunner.run` over a list of cells, and the report that says whether the sweep is
complete.

A pass goes through the cells that were not finished when it started.  The report counts
rows of the whole sweep, whatever list they were recorded for.
-/

namespace Fiboki

open Wire Runs

inductive CellStatus where
  | pending
  | done
  | noData
  | failed
  | excluded
  deriving DecidableEq

namespace CellStatus

def value : CellStatus → String
  | pending => "pending"
  | done => "done"
  | noData => "no_data"
  | failed => "failed"
  | excluded => "excluded"

def members : List CellStatus := [pending, done, noData, failed, excluded]

def terminal : CellStatus → Bool
  | done | excluded => true
  | _ => false

end CellStatus

structure SweepCell where
  key : String
  key_ne : key ≠ ""

structure CellOutcome where
  status : CellStatus
  result : Option Value
  reason : String

namespace CellOutcome

def done (result : Value) : CellOutcome := ⟨.done, some result, ""⟩

def noData (reason : String) : CellOutcome :=
  ⟨.noData, none, if reason = "" then "no bars for this cell" else reason⟩

def failed (reason : String) : CellOutcome := ⟨.failed, none, reason⟩

end CellOutcome

/-- What calling the compute function comes to.  `other` is an object that is neither an
outcome nor a mapping, or one whose result `json.dumps` refuses: a `TypeError` then
leaves the pass. -/
inductive Computed where
  | raised (error : String)
  | nothing
  | outcome (o : CellOutcome)
  | mapping (entries : List (String × Value))
  | other (typeName : String)

def givenResult : Value → Option Value
  | .null => none
  | v => some v

/-- `_coerce_outcome`, and the `except` clause before it. -/
def coerceOutcome (std : Stdlib) : Computed → Except String CellOutcome
  | .raised error => .ok (.failed error)
  | .nothing => .ok (.noData "compute returned None")
  | .outcome o => .ok o
  | .mapping [] => .ok (.noData "compute returned an empty mapping")
  | .mapping entries =>
    let raw := Value.dict entries
    let named (status : CellStatus) : CellOutcome :=
      ⟨status, (raw.get? "result").bind givenResult, textOr std raw "reason" ""⟩
    match raw.get? "status" with
    | some (.str s) =>
      match CellStatus.members.find? fun status => status.value == s with
      | some status => .ok (named status)
      | none => .ok (.done raw)
    | _ => .ok (.done raw)
  | .other typeName =>
    .error ("a sweep compute function must return CellOutcome, a Mapping or None; got " ++
      typeName)

structure CellRow where
  status : CellStatus
  reason : String
  result : Option Value
  attempts : ℕ

structure CheckpointStore where
  total : ℕ
  cells : Dict String CellRow

namespace CheckpointStore

def empty : CheckpointStore := ⟨0, .empty⟩

def beginSweep (s : CheckpointStore) (total : ℕ) : CheckpointStore := { s with total }

def record (s : CheckpointStore) (key : String) (o : CellOutcome) : CheckpointStore :=
  let attempts := ((s.cells.get key).map CellRow.attempts).getD 0 + 1
  { s with cells := s.cells.set key ⟨o.status, o.reason, o.result, attempts⟩ }

def exclude (s : CheckpointStore) (key reason : String) : CheckpointStore :=
  if Text.isBlank reason then s else s.record key ⟨.excluded, none, reason⟩

def statusOf (s : CheckpointStore) (key : String) : CellStatus :=
  ((s.cells.get key).map CellRow.status).getD .pending

def completedKeys (s : CheckpointStore) : List String :=
  (s.cells.entries.filter fun e => e.2.status.terminal).map Prod.fst

def pending (s : CheckpointStore) (cells : List SweepCell) : List SweepCell :=
  cells.filter fun c => c.key ∉ s.completedKeys

def count (s : CheckpointStore) (status : CellStatus) : ℕ :=
  s.cells.entries.countP fun e => e.2.status = status

end CheckpointStore

structure SweepReport where
  total : ℕ
  done : ℕ
  noData : ℕ
  failed : ℕ
  excluded : ℕ
  computedThisRun : ℕ
  skippedThisRun : ℕ
  stoppedEarly : Bool
  stopReason : String

namespace SweepReport

def outstanding (r : SweepReport) : ℕ := r.total - r.done - r.excluded

def complete (r : SweepReport) : Bool :=
  !r.stoppedEarly && 0 < r.total && r.outstanding = 0 && r.noData = 0 && r.failed = 0

def noDataFraction (r : SweepReport) : ℚ := if r.total = 0 then 0 else r.noData / r.total

end SweepReport

inductive SweepError where
  | typeError (text : String)
  | noDataFractionExceeded (noData total : ℕ) (threshold : ℚ)

structure SweepRunner where
  maxNoDataFraction : ℚ
  minCellsForGuard : ℕ
  fraction_ok : 0 ≤ maxNoDataFraction ∧ maxNoDataFraction ≤ 1

/-- What a pass meets at one cell: a worker that is stopping, or an answer of the compute
function, with the cells an operator excludes meanwhile. -/
inductive CellTurn where
  | stopping
  | computes (answer : Computed) (exclusions : List (String × String))

/-- The calls of the compute function, with the status recorded as each is made. -/
structure ComputeCall where
  key : String
  before : CellStatus
  deriving DecidableEq

inductive LoopEnd where
  | ranThrough
  | stopped
  | raised (error : SweepError)
  | died

structure Pass where
  store : CheckpointStore
  calls : List ComputeCall
  computed : ℕ
  ending : LoopEnd

inductive RunEnd where
  | report (r : SweepReport)
  | raised (error : SweepError)
  | died

structure SweepRun where
  store : CheckpointStore
  calls : List ComputeCall
  ending : RunEnd

namespace SweepRunner

variable (runner : SweepRunner) (std : Stdlib)

def tooMuchMissing (noData computed : ℕ) : Bool :=
  runner.minCellsForGuard ≤ computed && runner.maxNoDataFraction < (noData : ℚ) / computed

/-- The loop over the pending cells, after `computed` calls of which `noData` had no
data.  A process that is given no further turn has died. -/
def loop : ℕ → ℕ → CheckpointStore → List SweepCell → List CellTurn → Pass
  | computed, _, s, [], _ => ⟨s, [], computed, .ranThrough⟩
  | computed, _, s, _ :: _, [] => ⟨s, [], computed, .died⟩
  | computed, _, s, _ :: _, .stopping :: _ => ⟨s, [], computed, .stopped⟩
  | computed, noData, s, c :: cells, .computes answer exclusions :: turns =>
    let call : ComputeCall := ⟨c.key, s.statusOf c.key⟩
    let s := exclusions.foldl (fun s e => s.exclude e.1 e.2) s
    match coerceOutcome std answer with
    | .error text => ⟨s, [call], computed, .raised (.typeError text)⟩
    | .ok o =>
      let s := s.record c.key o
      let computed := computed + 1
      let noData := if o.status = .noData then noData + 1 else noData
      if runner.tooMuchMissing noData computed then
        ⟨s, [call], computed,
          .raised (.noDataFractionExceeded noData computed runner.maxNoDataFraction)⟩
      else
        let rest := loop computed noData s cells turns
        { rest with calls := call :: rest.calls }

def reportOn (s : CheckpointStore) (total skipped computed : ℕ) (stoppedEarly : Bool) :
    SweepReport where
  total := total
  done := s.count .done
  noData := s.count .noData
  failed := s.count .failed
  excluded := s.count .excluded
  computedThisRun := computed
  skippedThisRun := skipped
  stoppedEarly := stoppedEarly
  stopReason := if stoppedEarly then "worker stopping" else ""

def finish (r : SweepReport) : RunEnd :=
  if runner.minCellsForGuard ≤ r.total ∧ runner.maxNoDataFraction < r.noDataFraction then
    .raised (.noDataFractionExceeded r.noData r.total runner.maxNoDataFraction)
  else .report r

def run (s : CheckpointStore) (cells : List SweepCell) (turns : List CellTurn) : SweepRun :=
  let total := cells.length
  let s := s.beginSweep total
  let pending := s.pending cells
  let pass := runner.loop std 0 0 s pending turns
  let report := reportOn pass.store total (total - pending.length) pass.computed
  match pass.ending with
  | .ranThrough => ⟨pass.store, pass.calls, runner.finish (report false)⟩
  | .stopped => ⟨pass.store, pass.calls, runner.finish (report true)⟩
  | .raised e => ⟨pass.store, pass.calls, .raised e⟩
  | .died => ⟨pass.store, pass.calls, .died⟩

/-- What happens to a sweep: a pass over a list of cells, or an operator's exclusion. -/
inductive Event where
  | run (cells : List SweepCell) (turns : List CellTurn)
  | exclude (key reason : String)

def step (s : CheckpointStore) : Event → CheckpointStore
  | .run cells turns => (runner.run std s cells turns).store
  | .exclude key reason => s.exclude key reason

def unfinished (s : CheckpointStore) (cells : List SweepCell) : List SweepCell :=
  cells.filter fun c => !(s.statusOf c.key).terminal

def Cut : RunEnd → Prop
  | .report r => r.stoppedEarly = true
  | .raised _ | .died => True

def Truthful (s : CheckpointStore) (cells : List SweepCell) (turns : List CellTurn) : Prop :=
  let pass := runner.run std s cells turns
  ∀ r, pass.ending = .report r → r.complete = true →
    ∀ c ∈ cells, (pass.store.statusOf c.key).terminal = true

def NeverAgain (s : CheckpointStore) (cells : List SweepCell) (turns : List CellTurn) : Prop :=
  ∀ call ∈ (runner.run std s cells turns).calls, call.before ≠ .done

def Retries (s : CheckpointStore) (cells : List SweepCell) (turns : List CellTurn) : Prop :=
  let pass := runner.run std s cells turns
  ∀ front c back, cells = front ++ c :: back →
    s.statusOf c.key = .noData ∨ s.statusOf c.key = .failed →
    (pass.calls.map ComputeCall.key)[(unfinished s front).length]? = some c.key ∨
      (Cut pass.ending ∧ pass.calls.length ≤ (unfinished s front).length)

def Lawful (s : CheckpointStore) : Event → Prop
  | .run cells turns =>
    Truthful runner std s cells turns ∧ NeverAgain runner std s cells turns ∧
      Retries runner std s cells turns
  | .exclude _ _ => True

def Answers (status : CellStatus) : CellTurn → Prop
  | .stopping => False
  | .computes answer _ => ∃ o, coerceOutcome std answer = .ok o ∧ o.status = status

def DoneLast (s : CheckpointStore) (cells : List SweepCell) (turns : List CellTurn) : Prop :=
  ((unfinished s cells).zip turns).Pairwise fun a b => Answers std .done a.2 → a.1.key ≠ b.1.key

def CellTurn.excludes (key : String) : CellTurn → Prop
  | .stopping => False
  | .computes _ exclusions => ∃ e ∈ exclusions, e.1 = key ∧ Text.isBlank e.2 = false

def PendingCovered (s : CheckpointStore) (cells : List SweepCell) (turns : List CellTurn) : Prop :=
  (∃ turn ∈ turns, Answers std .pending turn) →
    ∀ key, (s.statusOf key).terminal = true ∨ (∃ turn ∈ turns, CellTurn.excludes key turn) →
      key ∈ cells.map SweepCell.key

def Meets (s : CheckpointStore) : Event → Prop
  | .run cells turns => DoneLast std s cells turns ∧ PendingCovered std s cells turns
  | .exclude _ _ => True

end SweepRunner

namespace CheckpointStore

variable (s : CheckpointStore)

theorem statusOf_record (key k : String) (o : CellOutcome) :
    (s.record key o).statusOf k = if key = k then o.status else s.statusOf k := by
  simp only [statusOf, record, Dict.get_set]
  split_ifs <;> rfl

theorem statusOf_exclude (key reason k : String) :
    (s.exclude key reason).statusOf k = s.statusOf k ∨
      ((s.exclude key reason).statusOf k = .excluded ∧ key = k ∧ Text.isBlank reason = false) := by
  unfold exclude
  split_ifs with hblank
  · exact .inl rfl
  · rw [statusOf_record]
    split_ifs with hkey
    · exact .inr ⟨rfl, hkey, by simpa using hblank⟩
    · exact .inl rfl

theorem statusOf_exclusions (exclusions : List (String × String)) (s : CheckpointStore)
    (k : String) :
    (exclusions.foldl (fun s e => s.exclude e.1 e.2) s).statusOf k = s.statusOf k ∨
      ((exclusions.foldl (fun s e => s.exclude e.1 e.2) s).statusOf k = .excluded ∧
        ∃ e ∈ exclusions, e.1 = k ∧ Text.isBlank e.2 = false) := by
  induction exclusions generalizing s with
  | nil => exact .inl rfl
  | cons e rest ih =>
    rw [List.foldl_cons]
    rcases ih (s.exclude e.1 e.2) with hsame | ⟨hexcluded, e', he', hk⟩
    · rcases statusOf_exclude s e.1 e.2 k with hs | ⟨hs, hk⟩
      · exact .inl (hsame.trans hs)
      · exact .inr ⟨hsame.trans hs, e, List.mem_cons_self, hk⟩
    · exact .inr ⟨hexcluded, e', List.mem_cons_of_mem _ he', hk⟩

theorem mem_completedKeys {s : CheckpointStore} {k : String} :
    k ∈ s.completedKeys ↔ (s.statusOf k).terminal = true := by
  simp only [completedKeys, List.mem_map, List.mem_filter, Prod.exists, exists_and_right,
    exists_eq_right, Dict.mem_entries, statusOf]
  constructor
  · rintro ⟨row, hrow, hterminal⟩
    rw [hrow]
    exact hterminal
  · intro h
    cases hrow : s.cells.get k with
    | none =>
      rw [hrow] at h
      cases h
    | some row =>
      rw [hrow] at h
      exact ⟨row, rfl, h⟩

theorem nodup_completedKeys : s.completedKeys.Nodup :=
  s.cells.nodup_keys.sublist (List.filter_sublist.map _)

theorem length_completedKeys : s.completedKeys.length = s.count .done + s.count .excluded := by
  unfold completedKeys count
  rw [List.length_map, ← List.countP_eq_length_filter]
  induction s.cells.entries with
  | nil => rfl
  | cons e rest ih =>
    simp only [List.countP_cons, ih]
    cases e.2.status <;> simp [CellStatus.terminal] <;> omega

theorem statusOf_ne_of_count {s : CheckpointStore} {status : CellStatus} (h : s.count status = 0)
    (hpending : status ≠ .pending) (k : String) : s.statusOf k ≠ status := by
  unfold statusOf
  cases hrow : s.cells.get k with
  | none => exact hpending.symm
  | some row =>
    have hentry := List.countP_eq_zero.1 h (k, row) (Dict.mem_entries.2 hrow)
    simpa using hentry

theorem pending_beginSweep (total : ℕ) (cells : List SweepCell) :
    (s.beginSweep total).pending cells = SweepRunner.unfinished s cells := by
  unfold pending SweepRunner.unfinished
  congr 1
  funext c
  have hmem : c.key ∈ (s.beginSweep total).completedKeys ↔ (s.statusOf c.key).terminal = true :=
    mem_completedKeys
  cases h : (s.statusOf c.key).terminal <;> simp_all

end CheckpointStore

namespace SweepRunner

variable {runner : SweepRunner} {std : Stdlib}

variable (runner std) in
theorem loop_computes (computed noData : ℕ) (s : CheckpointStore) (c : SweepCell)
    (cells : List SweepCell) (answer : Computed) (exclusions : List (String × String))
    (turns : List CellTurn) :
    (∃ st n e, runner.loop std computed noData s (c :: cells) (.computes answer exclusions :: turns)
        = ⟨st, [⟨c.key, s.statusOf c.key⟩], n, .raised e⟩) ∨
      ∃ o n m, coerceOutcome std answer = .ok o ∧
        runner.loop std computed noData s (c :: cells) (.computes answer exclusions :: turns) =
          let rest := runner.loop std n m
            ((exclusions.foldl (fun s e => s.exclude e.1 e.2) s).record c.key o) cells turns
          { rest with calls := ⟨c.key, s.statusOf c.key⟩ :: rest.calls } := by
  rw [loop]
  cases h : coerceOutcome std answer with
  | error text => exact .inl ⟨_, _, _, rfl⟩
  | ok o =>
    dsimp only
    by_cases hguard : runner.tooMuchMissing
        (if o.status = .noData then noData + 1 else noData) (computed + 1) = true
    · rw [if_pos hguard]
      exact .inl ⟨_, _, _, rfl⟩
    · rw [if_neg hguard]
      exact .inr ⟨o, _, _, rfl, rfl⟩

variable (runner std) in
theorem calls_prefix (cells : List SweepCell) (turns : List CellTurn) (computed noData : ℕ)
    (s : CheckpointStore) :
    (runner.loop std computed noData s cells turns).calls.map ComputeCall.key <+:
        cells.map SweepCell.key ∧
      ((runner.loop std computed noData s cells turns).ending = .ranThrough →
        (runner.loop std computed noData s cells turns).calls.length = cells.length) := by
  induction cells generalizing turns computed noData s with
  | nil => exact ⟨List.nil_prefix, fun _ => rfl⟩
  | cons c cells ih =>
    cases turns with
    | nil => exact ⟨List.nil_prefix, fun h => by cases h⟩
    | cons turn turns =>
      cases turn with
      | stopping => exact ⟨List.nil_prefix, fun h => by cases h⟩
      | computes answer exclusions =>
        rcases loop_computes runner std computed noData s c cells answer
          exclusions turns with ⟨st, n, e, heq⟩ | ⟨o, n, m, -, heq⟩
        · rw [heq]
          refine ⟨?_, fun h => by cases h⟩
          exact (List.prefix_cons_inj c.key).2 List.nil_prefix
        · obtain ⟨hinitial, hlength⟩ := ih turns n m
            ((exclusions.foldl (fun s e => s.exclude e.1 e.2) s).record c.key o)
          rw [heq]
          refine ⟨(List.prefix_cons_inj c.key).2 hinitial, fun h => ?_⟩
          exact congrArg (· + 1) (hlength h)

theorem calls_not_done (cells : List SweepCell) (turns : List CellTurn) (computed noData : ℕ)
    (s : CheckpointStore) (hopen : ∀ p ∈ cells.zip turns, s.statusOf p.1.key ≠ .done)
    (hlast : (cells.zip turns).Pairwise fun a b => Answers std .done a.2 → a.1.key ≠ b.1.key) :
    ∀ call ∈ (runner.loop std computed noData s cells turns).calls, call.before ≠ .done := by
  induction cells generalizing turns computed noData s with
  | nil => simp [loop]
  | cons c cells ih =>
    cases turns with
    | nil => simp [loop]
    | cons turn turns =>
      cases turn with
      | stopping => simp [loop]
      | computes answer exclusions =>
        have hc := hopen (c, .computes answer exclusions) List.mem_cons_self
        rcases loop_computes runner std computed noData s c cells answer
          exclusions turns with ⟨st, n, e, heq⟩ | ⟨o, n, m, hanswer, heq⟩
        · rw [heq]
          simpa using hc
        · obtain ⟨hhead, htail⟩ := List.pairwise_cons.1 hlast
          rw [heq]
          intro call hcall
          rcases List.mem_cons.1 hcall with rfl | hcall
          · exact hc
          · refine ih turns n m _ ?_ htail call hcall
            intro p hp
            rw [CheckpointStore.statusOf_record]
            split_ifs with hkey
            · intro hdone
              exact hhead p hp ⟨o, hanswer, hdone⟩ hkey
            · rcases CheckpointStore.statusOf_exclusions exclusions s p.1.key with
                hsame | ⟨hexcluded, -⟩
              · rw [hsame]
                exact hopen p (List.mem_cons_of_mem _ hp)
              · rw [hexcluded]
                decide

variable (runner std) in
theorem statusOf_unlisted (cells : List SweepCell) (turns : List CellTurn) (computed noData : ℕ)
    (s : CheckpointStore) {k : String} (hk : k ∉ cells.map SweepCell.key)
    (hkept : ∀ turn ∈ turns, ¬ CellTurn.excludes k turn)
    (hran : (runner.loop std computed noData s cells turns).ending = .ranThrough) :
    (runner.loop std computed noData s cells turns).store.statusOf k = s.statusOf k := by
  induction cells generalizing turns computed noData s with
  | nil => rfl
  | cons c cells ih =>
    cases turns with
    | nil => cases hran
    | cons turn turns =>
      cases turn with
      | stopping => cases hran
      | computes answer exclusions =>
        rcases loop_computes runner std computed noData s c cells answer
          exclusions turns with ⟨st, n, e, heq⟩ | ⟨o, n, m, -, heq⟩
        · rw [heq] at hran
          cases hran
        · rw [heq] at hran ⊢
          simp only [List.map_cons, List.mem_cons, not_or] at hk
          dsimp only at hran ⊢
          rw [ih turns n m _ hk.2 (fun t ht => hkept t (List.mem_cons_of_mem _ ht)) hran,
            CheckpointStore.statusOf_record, if_neg (Ne.symm hk.1)]
          rcases CheckpointStore.statusOf_exclusions exclusions s k with
            hsame | ⟨-, e, he, hek⟩
          · exact hsame
          · exact absurd ⟨e, he, hek⟩ (hkept _ List.mem_cons_self)

/-- What EXCLUDED and every answer have in common, a listed key has once the loop has run
through, and any key that had it before. -/
theorem statusOf_listed {Q : CellStatus → Prop} (hexcluded : Q .excluded) (cells : List SweepCell)
    (turns : List CellTurn) (computed noData : ℕ) (s : CheckpointStore)
    (hanswers : ∀ turn ∈ turns, ∀ status, Answers std status turn → Q status) {k : String}
    (hk : k ∈ cells.map SweepCell.key ∨ Q (s.statusOf k))
    (hran : (runner.loop std computed noData s cells turns).ending = .ranThrough) :
    Q ((runner.loop std computed noData s cells turns).store.statusOf k) := by
  induction cells generalizing turns computed noData s with
  | nil => exact hk.resolve_left List.not_mem_nil
  | cons c cells ih =>
    cases turns with
    | nil => cases hran
    | cons turn turns =>
      cases turn with
      | stopping => cases hran
      | computes answer exclusions =>
        rcases loop_computes runner std computed noData s c cells answer
          exclusions turns with ⟨st, n, e, heq⟩ | ⟨o, n, m, hanswer, heq⟩
        · rw [heq] at hran
          cases hran
        · rw [heq] at hran ⊢
          refine ih turns n m _ (fun t ht => hanswers t (List.mem_cons_of_mem _ ht)) ?_ hran
          rw [CheckpointStore.statusOf_record]
          split_ifs with hkey
          · exact .inr (hanswers _ List.mem_cons_self _ ⟨o, hanswer, rfl⟩)
          · rcases hk with hlisted | hq
            · rw [List.map_cons, List.mem_cons] at hlisted
              exact .inl (hlisted.resolve_left (Ne.symm hkey))
            · rcases CheckpointStore.statusOf_exclusions exclusions s k with hsame | ⟨hsame, -⟩
              · exact .inr (hsame ▸ hq)
              · exact .inr (hsame ▸ hexcluded)

variable {s : CheckpointStore} {cells : List SweepCell}

theorem mem_unfinished {c : SweepCell} :
    c ∈ unfinished s cells ↔ c ∈ cells ∧ (s.statusOf c.key).terminal = false := by
  simp [unfinished]

variable {turns : List CellTurn}

theorem run_report {r : SweepReport} (h : (runner.run std s cells turns).ending = .report r)
    (hran : r.stoppedEarly = false) :
    let pass := runner.loop std 0 0 (s.beginSweep cells.length) (unfinished s cells) turns
    pass.ending = .ranThrough ∧ (runner.run std s cells turns).store = pass.store ∧
      r = reportOn pass.store cells.length (cells.length - (unfinished s cells).length)
        pass.computed false := by
  unfold run at h ⊢
  dsimp only at h ⊢
  rw [CheckpointStore.pending_beginSweep] at h ⊢
  cases hend :
    (runner.loop std 0 0 (s.beginSweep cells.length) (unfinished s cells) turns).ending with
  | ranThrough =>
    rw [hend] at h
    dsimp only [finish] at h ⊢
    split_ifs at h
    cases h
    exact ⟨rfl, rfl, rfl⟩
  | stopped =>
    rw [hend] at h
    dsimp only [finish] at h
    split_ifs at h
    cases h
    cases hran
  | raised e | died =>
    rw [hend] at h
    cases h

variable (runner std) in
theorem run_calls (s : CheckpointStore) (cells : List SweepCell) (turns : List CellTurn) :
    (runner.run std s cells turns).calls =
      (runner.loop std 0 0 (s.beginSweep cells.length) (unfinished s cells) turns).calls := by
  unfold run
  dsimp only
  rw [CheckpointStore.pending_beginSweep]
  split <;> rfl

theorem ranThrough_of_not_cut (h : ¬ Cut (runner.run std s cells turns).ending) :
    (runner.loop std 0 0 (s.beginSweep cells.length) (unfinished s cells) turns).ending
      = .ranThrough := by
  cases hend : (runner.run std s cells turns).ending with
  | report r =>
    rw [hend] at h
    exact (run_report hend (by simpa [Cut] using h)).1
  | raised e | died =>
    rw [hend] at h
    exact absurd trivial h

theorem neverAgain (h : DoneLast std s cells turns) : NeverAgain runner std s cells turns := by
  unfold NeverAgain
  rw [run_calls]
  refine calls_not_done _ turns 0 0 _ ?_ h
  intro p hp
  have hopen := (mem_unfinished.1 (List.of_mem_zip hp).1).2
  intro hdone
  change s.statusOf p.1.key = .done at hdone
  rw [hdone] at hopen
  cases hopen

theorem retries (s : CheckpointStore) (cells : List SweepCell) (turns : List CellTurn) :
    Retries runner std s cells turns := by
  intro front c back hcells hstatus
  subst hcells
  have hopen : (s.statusOf c.key).terminal = false := by
    rcases hstatus with h | h <;> rw [h] <;> rfl
  have hsplit : unfinished s (front ++ c :: back) =
      unfinished s front ++ c :: unfinished s back := by
    simp [unfinished, List.filter_append, hopen]
  have hcalls := run_calls runner std s (front ++ c :: back) turns
  obtain ⟨hinitial, hlength⟩ := calls_prefix runner std
    (unfinished s (front ++ c :: back)) turns 0 0 (s.beginSweep (front ++ c :: back).length)
  rw [← hcalls] at hinitial hlength
  by_cases hreached : (unfinished s front).length <
      (runner.run std s (front ++ c :: back) turns).calls.length
  · left
    obtain ⟨rest, hrest⟩ := hinitial
    have hat : (((runner.run std s (front ++ c :: back) turns).calls.map ComputeCall.key) ++
        rest)[(unfinished s front).length]? = some c.key := by
      rw [hrest, hsplit, List.map_append, List.map_cons]
      simp
    rwa [List.getElem?_append_left (by simpa using hreached)] at hat
  · refine .inr ⟨?_, not_lt.1 hreached⟩
    by_contra hcut
    have hall := hlength (ranThrough_of_not_cut hcut)
    rw [hsplit, List.length_append, List.length_cons] at hall
    omega

theorem truthful (h : PendingCovered std s cells turns) : Truthful runner std s cells turns := by
  intro r hreport hcomplete c hc
  simp only [SweepReport.complete, SweepReport.outstanding, Bool.and_eq_true, decide_eq_true_eq,
    Bool.not_eq_true'] at hcomplete
  obtain ⟨⟨⟨⟨hstopped, -⟩, houtstanding⟩, hnoData⟩, hfailed⟩ := hcomplete
  obtain ⟨hran, hstore, rfl⟩ := run_report hreport hstopped
  rw [hstore]
  dsimp only [reportOn] at houtstanding hnoData hfailed
  generalize hpass : runner.loop std 0 0 (s.beginSweep cells.length) (unfinished s cells) turns
    = pass at *
  by_contra hopen
  have hpending : pass.store.statusOf c.key = .pending := by
    have hno := CheckpointStore.statusOf_ne_of_count hnoData (by decide) c.key
    have hfa := CheckpointStore.statusOf_ne_of_count hfailed (by decide) c.key
    cases hstatus : pass.store.statusOf c.key <;> simp_all [CellStatus.terminal]
  by_cases hanswered : ∃ turn ∈ turns, Answers std .pending turn
  · -- Every finished key is listed and this one is not finished: too few rows for the list.
    have hlisted : c.key :: pass.store.completedKeys ⊆ cells.map SweepCell.key := by
      intro k hk
      rcases List.mem_cons.1 hk with rfl | hk
      · exact List.mem_map_of_mem hc
      · rw [CheckpointStore.mem_completedKeys] at hk
        by_contra hnot
        have hkept : ∀ turn ∈ turns, ¬ CellTurn.excludes k turn :=
          fun turn ht hexcludes => hnot (h hanswered k (.inr ⟨turn, ht, hexcludes⟩))
        have hunlisted : k ∉ (unfinished s cells).map SweepCell.key :=
          fun hmem => hnot ((List.filter_sublist.map _).subset hmem)
        have hsame := statusOf_unlisted runner std _ turns 0 0
          (s.beginSweep cells.length) hunlisted hkept (by rw [hpass]; exact hran)
        rw [hpass] at hsame
        rw [hsame] at hk
        exact hnot (h hanswered k (.inl hk))
    have hnodup : (c.key :: pass.store.completedKeys).Nodup := by
      refine List.nodup_cons.2 ⟨?_, CheckpointStore.nodup_completedKeys _⟩
      rw [CheckpointStore.mem_completedKeys]
      exact hopen
    have hlength := (hnodup.subperm hlisted).length_le
    rw [List.length_cons, CheckpointStore.length_completedKeys, List.length_map] at hlength
    have henough := of_decide_eq_true houtstanding
    omega
  · have hnot : pass.store.statusOf c.key ≠ .pending := by
      rw [← hpass]
      refine statusOf_listed (Q := (· ≠ .pending)) (by decide) _ turns 0 0 _ ?_ ?_
        (by rw [hpass]; exact hran)
      · rintro turn ht status hstatus rfl
        exact hanswered ⟨turn, ht, hstatus⟩
      · cases hstart : (s.statusOf c.key).terminal with
        | false => exact .inl (List.mem_map_of_mem (mem_unfinished.2 ⟨hc, hstart⟩))
        | true =>
          right
          intro heq
          change s.statusOf c.key = .pending at heq
          rw [heq] at hstart
          cases hstart
    exact hnot hpending

theorem lawful_of_meets {e : Event} (h : Meets std s e) : Lawful runner std s e := by
  cases e with
  | run cells turns => exact ⟨truthful h.2, neverAgain h.1, retries s cells turns⟩
  | exclude key reason => trivial

/-- A sweep's reports are true and its DONE cells are left alone, in every sequence of
passes that list no key behind its DONE answer and, where a cell is answered to be still
pending, all that was finished. -/
theorem completion_law (runner : SweepRunner) (std : Stdlib) (s : CheckpointStore)
    (events : List Event) (h : Along (Meets std) (step runner std) s events) :
    Along (Lawful runner std) (step runner std) s events :=
  h.mono fun _ _ => lawful_of_meets

end SweepRunner

namespace SweepSample

open SweepRunner

def runner : SweepRunner := ⟨1 / 50, 20, by norm_num⟩

def cellA : SweepCell := ⟨"EURUSD-H1", by decide⟩

def cellB : SweepCell := ⟨"GBPUSD-H1", by decide⟩

def answers (status : String) : CellTurn := .computes (.mapping [("status", .str status)]) []

def otherList : List Event := [.run [cellA] [answers "done"], .run [cellB] [answers "pending"]]

def sameCell : List Event := [.run [cellA, cellA] [answers "done", answers "done"]]

theorem complete_while_pending :
    ¬ Along (Lawful runner epochStdlib) (step runner epochStdlib) .empty otherList ∧
      ¬ Along (Lawful runner epochStdlib) (step runner epochStdlib) .empty sameCell := by
  constructor
  · intro h
    have hb := h.2.1.1 _ rfl rfl cellB List.mem_cons_self
    exact absurd hb (by decide)
  · intro h
    exact absurd rfl (h.1.2.1 ⟨"EURUSD-H1", .done⟩ (by decide))

theorem answers_iff (text : String) {status named : CellStatus}
    (h : CellStatus.members.find? (fun s => s.value == text) = some named) :
    Answers epochStdlib status (answers text) ↔ status = named := by
  have hcoerce : coerceOutcome epochStdlib (.mapping [("status", .str text)]) =
      .ok ⟨named, none, ""⟩ := by
    simp only [coerceOutcome, Value.get?, Dict.lookup, if_true, h]
    rfl
  constructor
  · rintro ⟨o, ho, rfl⟩
    rw [hcoerce] at ho
    cases ho
    rfl
  · rintro rfl
    exact ⟨_, hcoerce, rfl⟩

def growing : List Event :=
  [.run [cellA] [answers "no_data"], .run [cellA, cellB] [answers "done", answers "done"]]

theorem completion_law_growing :
    Along (Meets epochStdlib) (step runner epochStdlib) .empty growing ∧
      Along (Lawful runner epochStdlib) (step runner epochStdlib) .empty growing := by
  have hmeets : Along (Meets epochStdlib) (step runner epochStdlib) .empty growing := by
    refine ⟨⟨List.pairwise_singleton _ _, ?_⟩, ⟨?_, ?_⟩, trivial⟩
    · rintro ⟨turn, hturn, hpending⟩
      obtain rfl := List.mem_singleton.1 hturn
      cases (answers_iff "no_data" rfl).1 hpending
    · refine List.pairwise_pair.2 fun _ => by decide
    · rintro ⟨turn, hturn, hpending⟩
      obtain rfl : turn = answers "done" := by simpa using hturn
      cases (answers_iff "done" rfl).1 hpending
  exact ⟨hmeets, completion_law runner epochStdlib .empty growing hmeets⟩

end SweepSample

end Fiboki
