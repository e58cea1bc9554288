import Fiboki.Validation.Holdout
import Mathlib.Data.List.Pairwise

/-!
What one step of the processes on a holdout registry does to its tables, to the claims that
are in the middle of their transactions, and to the looks granted.
-/

namespace Fiboki

variable {S : Type} (key : String → S → String)

namespace HoldoutTask

def inner : HoldoutTask S → Option (HoldoutClaim S × ClaimPhase)
  | claim call phase => some (call, phase)
  | claiming call _ c _ phase => some (call.on c, phase)
  | _ => none

end HoldoutTask

namespace HoldoutSystem

variable (s : HoldoutSystem S)

def inner (i : ℕ) : Option (HoldoutClaim S × ClaimPhase) := (s.processes i).task.inner

def commits : ℕ × HoldoutMove S → Option HoldoutConsumptionRow
  | (i, .proceed token) =>
    match s.inner i with
    | some (call, .insert) =>
      if s.db.accepts (call.row key token) then some (call.row key token) else none
    | _ => none
  | _ => none

def restates : ℕ × HoldoutMove S → List (String × String)
  | (i, .proceed _) =>
    match (s.processes i).task with
    | .restate call (.commit tokens) => tokens.map fun t => (t, call.version)
    | _ => []
  | _ => []

end HoldoutSystem

def HoldoutDb.Comparable (db : HoldoutDb) (datasetVersionId version : String) : Prop :=
  ∀ r ∈ db.consumptions, r.datasetVersionId = datasetVersionId → r.resolved db.restated = version

def HoldoutDb.Unique (db : HoldoutDb) : Prop :=
  db.consumptions.Pairwise fun a b => a.token ≠ b.token ∧
    ¬ (a.datasetVersionId = b.datasetVersionId ∧ a.strategyContentHash = b.strategyContentHash)

def HoldoutDb.Holds (db : HoldoutDb) (g : HoldoutGrant S) : Prop :=
  ∃ v, v ≠ "" ∧
    (⟨g.token, g.datasetVersionId, key v g.strategy, v, none⟩ : HoldoutConsumptionRow) ∈
      db.consumptions ∧
    ∀ r ∈ db.consumptions, r.datasetVersionId = g.datasetVersionId → r.keyVersion ≠ "" →
      r.keyVersion = v

section Tables

variable {key} {db db' : HoldoutDb} {row : HoldoutConsumptionRow}

variable (known : Dict String String)

theorem resolved_stamped (h : row.keyVersion ≠ "") : row.resolved known = row.keyVersion := by
  unfold HoldoutConsumptionRow.resolved resolveKeyVersion
  rw [if_pos h]

theorem resolved_unstamped (h : row.keyVersion = "") :
    row.resolved known = (known.get row.token).getD "" := by
  unfold HoldoutConsumptionRow.resolved resolveKeyVersion
  rw [if_neg (not_not.2 h)]

variable {d v : String}

theorem incomparable_nil {known : Dict String String}
    (h : db.incomparable known d v = []) :
    ∀ r ∈ db.consumptions, r.datasetVersionId = d → r.resolved known = v := by
  intro r hr hd
  by_contra hv
  have hmem : r ∈ db.incomparable known d v := by
    unfold HoldoutDb.incomparable
    rw [List.mem_filter, decide_eq_true_eq]
    exact ⟨hr, hd, hv⟩
  rw [h] at hmem
  cases hmem

theorem restated_append (tokens : List String) (v t : String) :
    ({ db with restatements := db.restatements ++ tokens.map fun t => (t, v) } :
      HoldoutDb).restated.get t =
      if t ∈ tokens ∧ v ≠ "" then some v else db.restated.get t := by
  unfold HoldoutDb.restated
  simp only [List.filter_append]
  induction tokens using List.reverseRecOn with
  | nil => simp
  | append_singleton tokens u ih =>
    rw [List.map_append, List.filter_append, ← List.append_assoc]
    by_cases hv : v = ""
    · have hnone : (([u].map fun t => (t, v)).filter fun r => decide (r.2 ≠ "")) = [] := by
        simp [hv]
      rw [hnone, List.append_nil, ih]
      simp [hv]
    · have hone : (([u].map fun t => (t, v)).filter fun r => decide (r.2 ≠ "")) = [(u, v)] := by
        simp [hv]
      rw [hone, Dict.ofList_snoc, Dict.get_set, ih]
      by_cases htu : t = u
      · subst htu
        simp [hv]
      · have hut : ¬ u = t := fun h => htu h.symm
        rw [if_neg hut]
        simp [htu, hv]

theorem unique_eq (h : db.Unique) {a b : HoldoutConsumptionRow} (ha : a ∈ db.consumptions)
    (hb : b ∈ db.consumptions) (hd : a.datasetVersionId = b.datasetVersionId)
    (hh : a.strategyContentHash = b.strategyContentHash) : a = b := by
  let Same : HoldoutConsumptionRow → HoldoutConsumptionRow → Prop := fun a b =>
    a.datasetVersionId = b.datasetVersionId → a.strategyContentHash = b.strategyContentHash → a = b
  have hsymm : Std.Symm Same := ⟨fun a b h hd hh => (h hd.symm hh.symm).symm⟩
  have hpairs : db.consumptions.Pairwise Same := by
    refine h.imp ?_
    intro a b hab hd hh
    exact absurd ⟨hd, hh⟩ hab.2
  exact hpairs.forall_of_forall (fun _ _ _ _ => rfl) ha hb hd hh

theorem accepts_apart (h : db.accepts row = true) : ∀ r ∈ db.consumptions, r.token ≠ row.token ∧
    ¬ (r.datasetVersionId = row.datasetVersionId ∧
      r.strategyContentHash = row.strategyContentHash) := by
  intro r hr
  unfold HoldoutDb.accepts at h
  rw [List.all_eq_true] at h
  exact of_decide_eq_true (h r hr)

theorem unique_append (h : db.Unique) (hrow : db.accepts row = true)
    (hdb : db'.consumptions = db.consumptions ++ [row]) : db'.Unique := by
  unfold HoldoutDb.Unique
  rw [hdb, List.pairwise_append]
  refine ⟨h, List.pairwise_singleton .., ?_⟩
  intro a ha b hb
  rw [List.mem_singleton] at hb
  subst hb
  exact accepts_apart hrow a ha

variable (row) in
theorem resolved_append {tokens : List String} {v : String}
    (h : db'.restatements = db.restatements ++ tokens.map fun t => (t, v)) :
    row.resolved db'.restated = row.resolved db.restated ∨
      row.token ∈ tokens ∧ row.resolved db'.restated = v := by
  have hget : db'.restated.get row.token =
      if row.token ∈ tokens ∧ v ≠ "" then some v else db.restated.get row.token := by
    rw [← restated_append]
    unfold HoldoutDb.restated
    rw [h]
  by_cases hv : row.keyVersion = ""
  · rw [resolved_unstamped _ hv, resolved_unstamped _ hv, hget]
    by_cases hmem : row.token ∈ tokens ∧ v ≠ ""
    · rw [if_pos hmem]
      exact .inr ⟨hmem.1, rfl⟩
    · rw [if_neg hmem]
      exact .inl rfl
  · rw [resolved_stamped _ hv, resolved_stamped _ hv]
    exact .inl rfl

theorem holds_append {g : HoldoutGrant S} (h : db.Holds key g) (hstamped : row.keyVersion ≠ "")
    (hcomparable : db.Comparable row.datasetVersionId row.keyVersion)
    (hdb : db'.consumptions = db.consumptions ++ [row]) : db'.Holds key g := by
  obtain ⟨v, hv, hmem, hall⟩ := h
  refine ⟨v, hv, ?_, ?_⟩
  · rw [hdb]
    exact List.mem_append_left _ hmem
  · intro r hr hd hr'
    rw [hdb, List.mem_append, List.mem_singleton] at hr
    rcases hr with hr | rfl
    · exact hall r hr hd hr'
    · have := hcomparable _ hmem hd.symm
      rw [resolved_stamped _ hv] at this
      exact this.symm

theorem comparable_append (h : db.Comparable d v)
    (hrow : row.datasetVersionId = d → row.resolved db.restated = v)
    (hrestated : db'.restatements = db.restatements)
    (hdb : db'.consumptions = db.consumptions ++ [row]) : db'.Comparable d v := by
  intro r hr hd
  have hsame : db'.restated = db.restated := by
    unfold HoldoutDb.restated
    rw [hrestated]
  rw [hdb, List.mem_append, List.mem_singleton] at hr
  rw [hsame]
  rcases hr with hr | rfl
  · exact h r hr hd
  · exact hrow hd

end Tables

namespace HoldoutProcess

variable (p : HoldoutProcess S)

theorem inner_begin (call : HoldoutCall S) :
    (p.begin_ call).task.inner = none ∨ ∃ c, (p.begin_ call).task.inner = some (c, .segment) := by
  cases call with
  | claim call => exact .inr ⟨call, rfl⟩
  | pooledClaim call | recordPooled composite outcome =>
    unfold begin_
    dsimp only
    split
    · exact .inl rfl
    · exact .inl rfl
  | recordOutcome token outcome => exact .inl rfl
  | restate call => exact .inl rfl

theorem inner_claimedOne (call : PooledClaim S) (tokens rest : List String) :
    (p.claimedOne call tokens rest).task.inner = none ∨
      ∃ c, (p.claimedOne call tokens rest).task.inner = some (c, .segment) := by
  cases rest with
  | nil => exact .inl rfl
  | cons c rest => exact .inr ⟨call.on c, rfl⟩

end HoldoutProcess

namespace HoldoutSystem

variable {key} {s : HoldoutSystem S}

@[simp] theorem inner_setProcess_self (i : ℕ) (p : HoldoutProcess S) :
    (s.setProcess i p).inner i = p.task.inner := by
  unfold inner setProcess
  simp

theorem inner_setProcess_ne {i j : ℕ} (h : j ≠ i) (p : HoldoutProcess S) :
    (s.setProcess i p).inner j = s.inner j := by
  unfold inner setProcess
  simp only [if_neg h]

/-- A step that changes what one process is in the middle of, and the rest as told. -/
structure Moves (s s' : HoldoutSystem S) (i : ℕ) (db : HoldoutDb) (granted : List (HoldoutGrant S))
    (inner : Option (HoldoutClaim S × ClaimPhase) → Prop) : Prop where
  db : s'.db = db
  granted : s'.granted = granted
  self : inner (s'.inner i)
  others : ∀ j, j ≠ i → s'.inner j = s.inner j

def Clear (inner : Option (HoldoutClaim S × ClaimPhase)) : Prop :=
  inner = none ∨ ∃ call, inner = some (call, .segment)

def After (call : HoldoutClaim S) : ClaimProgress → Option (HoldoutClaim S × ClaimPhase) → Prop
  | .going next, inner => inner = some (call, next)
  | .refused _, inner => inner = none
  | .granted _, inner => Clear inner

def grants (call : HoldoutClaim S) : ClaimProgress → List (HoldoutGrant S)
  | .granted t => [⟨call.datasetVersionId, call.strategy, t⟩]
  | _ => []

variable {i : ℕ}

variable {p : HoldoutProcess S} {t : HoldoutSystem S}

theorem moves_setProcess
    {inner : Option (HoldoutClaim S × ClaimPhase) → Prop} (hothers : ∀ j, t.inner j = s.inner j)
    (h : inner p.task.inner) : Moves s (t.setProcess i p) i t.db t.granted inner where
  db := rfl
  granted := rfl
  self := by
    rw [inner_setProcess_self]
    exact h
  others j hj := by rw [inner_setProcess_ne hj, hothers]

variable (key) in
theorem proceed_claim (token : String) {call : HoldoutClaim S} {phase : ClaimPhase}
    (h : s.inner i = some (call, phase)) :
    Moves s (s.proceed key i token) i (call.step key s.db token phase).1
      (s.granted ++ grants call (call.step key s.db token phase).2)
      (After call (call.step key s.db token phase).2) := by
  have hself : ∀ (db : HoldoutDb) (j : ℕ), ({ s with db } : HoldoutSystem S).inner j = s.inner j :=
    fun _ _ => rfl
  unfold inner at h
  unfold proceed
  dsimp only
  cases htask : (s.processes i).task with
  | claim call' phase' =>
    rw [htask] at h
    cases h
    dsimp only
    generalize call.step key s.db token phase = out
    obtain ⟨db, progress⟩ := out
    cases progress with
    | going next | refused e =>
      dsimp only [grants]
      rw [List.append_nil]
      exact moves_setProcess (hself db) rfl
    | granted t =>
      exact moves_setProcess (t := ({ s with db } : HoldoutSystem S).grant _) (hself db)
        (.inl rfl)
  | claiming pool tokens c rest phase' =>
    rw [htask] at h
    cases h
    dsimp only
    generalize (pool.on c).step key s.db token phase = out
    obtain ⟨db, progress⟩ := out
    cases progress with
    | going next | refused e =>
      dsimp only [grants]
      rw [List.append_nil]
      exact moves_setProcess (hself db) rfl
    | granted t =>
      exact moves_setProcess (t := ({ s with db } : HoldoutSystem S).grant _) (hself db)
        ((s.processes i).inner_claimedOne pool (tokens ++ [t]) rest)
  | _ =>
    rw [htask] at h
    cases h

structure Quiet (s s' : HoldoutSystem S) (i : ℕ) (stated : List (String × String)) : Prop where
  consumptions : s'.db.consumptions = s.db.consumptions
  restatements : s'.db.restatements = s.db.restatements ++ stated
  granted : s'.granted = s.granted
  phases : ∀ j, s'.inner j = s.inner j ∨ j = i ∧ Clear (s'.inner j)

theorem quiet_setProcess
    {stated : List (String × String)} (hothers : ∀ j, t.inner j = s.inner j)
    (hrows : t.db.consumptions = s.db.consumptions)
    (hstated : t.db.restatements = s.db.restatements ++ stated) (hgranted : t.granted = s.granted)
    (h : Clear p.task.inner) : Quiet s (t.setProcess i p) i stated where
  consumptions := hrows
  restatements := hstated
  granted := hgranted
  phases j := by
    by_cases hj : j = i
    · rw [hj, inner_setProcess_self]
      exact .inr ⟨rfl, h⟩
    · rw [inner_setProcess_ne hj, hothers]
      exact .inl rfl

theorem quiet_refl : Quiet s s i [] where
  consumptions := rfl
  restatements := (List.append_nil _).symm
  granted := rfl
  phases _ := .inl rfl

theorem recordStep_rows (db : HoldoutDb) (t : String) (outcome : Wire.Value) (phase : RecordPhase) :
    (recordStep db t outcome phase).1.consumptions = db.consumptions ∧
      (recordStep db t outcome phase).1.restatements = db.restatements := by
  cases phase with
  | row =>
    unfold recordStep
    dsimp only
    split
    · exact ⟨rfl, rfl⟩
    · split
      · exact ⟨rfl, rfl⟩
      · exact ⟨rfl, rfl⟩
  | outcome | insert =>
    unfold recordStep
    dsimp only
    split
    · exact ⟨rfl, rfl⟩
    · exact ⟨rfl, rfl⟩

theorem restate_rows (call : RestateCall) (db : HoldoutDb) (phase : RestatePhase) :
    (call.step db phase).1.consumptions = db.consumptions := by
  cases phase with
  | known =>
    unfold RestateCall.step
    dsimp only
    split
    · rfl
    · split
      · rfl
      · rfl
  | rows known | commit tokens => rfl

theorem proceed_quiet {token : String} (h : s.inner i = none) :
    Quiet s (s.proceed key i token) i (s.restates (i, .proceed token)) := by
  have hstated : ∀ task, (s.processes i).task = task → s.restates (i, .proceed token) =
      match task with
      | .restate call (.commit tokens) => tokens.map fun t => (t, call.version)
      | _ => [] := by
    intro task htask
    rw [← htask]
    rfl
  unfold inner at h
  unfold proceed
  dsimp only
  cases htask : (s.processes i).task with
  | idle =>
    rw [hstated _ htask]
    exact quiet_refl
  | claim call phase | claiming call tokens c rest phase =>
    rw [htask] at h
    cases h
  | checking call c rest phase =>
    rw [hstated _ htask]
    dsimp only
    have hnil := (List.append_nil s.db.restatements).symm
    rcases call.check key s.db c phase with e | _ | next
    · exact quiet_setProcess (fun _ => rfl) rfl hnil rfl (.inl rfl)
    · cases rest with
      | nil =>
        exact quiet_setProcess (fun _ => rfl) rfl hnil rfl (HoldoutProcess.inner_claimedOne ..)
      | cons c' rest => exact quiet_setProcess (fun _ => rfl) rfl hnil rfl (.inl rfl)
    · exact quiet_setProcess (fun _ => rfl) rfl hnil rfl (.inl rfl)
  | record t outcome rest phase =>
    rw [hstated _ htask]
    dsimp only
    obtain ⟨hrows, hrestated⟩ := recordStep_rows s.db t outcome phase
    generalize recordStep s.db t outcome phase = out at hrows hrestated
    obtain ⟨db, e | _ | next⟩ := out
    · exact quiet_setProcess (fun _ => rfl) hrows (by simpa using hrestated) rfl (.inl rfl)
    · cases rest with
      | nil => exact quiet_setProcess (fun _ => rfl) hrows (by simpa using hrestated) rfl (.inl rfl)
      | cons t' rest =>
        exact quiet_setProcess (fun _ => rfl) hrows (by simpa using hrestated) rfl (.inl rfl)
    · exact quiet_setProcess (fun _ => rfl) hrows (by simpa using hrestated) rfl (.inl rfl)
  | restate call phase =>
    rw [hstated _ htask]
    have hrows := restate_rows call s.db phase
    have hrestated : (call.step s.db phase).1.restatements = s.db.restatements ++
        match HoldoutTask.restate (S := S) call phase with
        | .restate call (.commit tokens) => tokens.map fun t => (t, call.version)
        | _ => [] := by
      cases phase with
      | known =>
        unfold RestateCall.step
        dsimp only
        rw [List.append_nil]
        split
        · rfl
        · split
          · rfl
          · rfl
      | rows known => exact (List.append_nil _).symm
      | commit tokens => rfl
    dsimp only
    generalize call.step s.db phase = out at hrows hrestated
    obtain ⟨db, e | _ | next⟩ := out
    · exact quiet_setProcess (fun _ => rfl) hrows hrestated rfl (.inl rfl)
    · exact quiet_setProcess (fun _ => rfl) hrows hrestated rfl (.inl rfl)
    · exact quiet_setProcess (fun _ => rfl) hrows hrestated rfl (.inl rfl)

variable (key) in
theorem step_cases (s : HoldoutSystem S) (e : ℕ × HoldoutMove S) :
    (∃ i token call phase, e = (i, .proceed token) ∧ s.inner i = some (call, phase)) ∨
      s.commits key e = none ∧ Quiet s (s.step key e) e.1 (s.restates e) := by
  obtain ⟨i, move⟩ := e
  cases move with
  | call call =>
    refine .inr ⟨rfl, ?_⟩
    have hnil : s.db.restatements = s.db.restatements ++ [] := (List.append_nil _).symm
    unfold step
    dsimp only
    split
    · exact quiet_setProcess (fun _ => rfl) rfl hnil rfl (HoldoutProcess.inner_begin ..)
    · exact quiet_refl
  | proceed token =>
    cases hinner : s.inner i with
    | none =>
      refine .inr ⟨?_, proceed_quiet hinner⟩
      unfold commits
      dsimp only
      rw [hinner]
    | some p => exact .inl ⟨i, token, p.1, p.2, rfl, hinner⟩
  | crash =>
    exact .inr ⟨rfl, quiet_setProcess (fun _ => rfl) rfl (List.append_nil _).symm rfl (.inl rfl)⟩

end HoldoutSystem

end Fiboki
