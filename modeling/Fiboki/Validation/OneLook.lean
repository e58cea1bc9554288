import Fiboki.Lib.Run
import Fiboki.Validation.HoldoutSteps

/-!
One look at the holdout, for any interleaving of processes on one registry.

The check that the stored keys are comparable and the insert are separate transactions.
A row of another version, or a statement of another version about an unstamped row, that
is committed between them is not seen.
-/

namespace Fiboki

open Runs

variable {S : Type} (key : String → S → String)

namespace HoldoutSystem

variable (s : HoldoutSystem S)

def ComparableCommit (s : HoldoutSystem S) (e : ℕ × HoldoutMove S) : Prop :=
  ∀ row, s.commits key e = some row → s.db.Comparable row.datasetVersionId row.keyVersion

def ChecksSpendNothing (s : HoldoutSystem S) (e : ℕ × HoldoutMove S) : Prop :=
  ((s.processes e.1).task = .idle ∨
    ∃ call c rest phase, (s.processes e.1).task = .checking call c rest phase) →
      (s.step key e).db = s.db

end HoldoutSystem

namespace ClaimPhase

def compared : ClaimPhase → Bool
  | lookup | insert => true
  | _ => false

def reading : ClaimPhase → Bool
  | rows _ | lookup | insert => true
  | _ => false

end ClaimPhase

namespace HoldoutSystem

/-- No step commits a row under an empty version; none commits a row of another version in a
dataset version while a claim on it stands between its comparison and its insert; and none
states another version of such a dataset version's rows while a claim on it stands between
its reading of the statements and its insert. -/
structure Undisturbed (s : HoldoutSystem S) (e : ℕ × HoldoutMove S) : Prop where
  stamped : ∀ row, s.commits key e = some row → row.keyVersion ≠ ""
  committed : ∀ row, s.commits key e = some row → ∀ j call phase, s.inner j = some (call, phase) →
    phase.compared = true → call.datasetVersionId = row.datasetVersionId →
      call.keyVersion = row.keyVersion
  restated : ∀ t v, (t, v) ∈ s.restates e → ∀ row ∈ s.db.consumptions, row.token = t →
    ∀ j call phase, s.inner j = some (call, phase) → phase.reading = true →
      call.datasetVersionId = row.datasetVersionId → call.keyVersion = v

end HoldoutSystem

def HoldoutClaim.Knows (call : HoldoutClaim S) (db : HoldoutDb) (held : List String) :
    ClaimPhase → Prop
  | .rows known => ∀ r ∈ db.consumptions, r.datasetVersionId = call.datasetVersionId →
      r.resolved known = call.keyVersion → r.resolved db.restated = call.keyVersion
  | .lookup | .insert => db.Comparable call.datasetVersionId call.keyVersion
  | .committed token =>
    db.Holds key ⟨call.datasetVersionId, call.strategy, token⟩ ∧ token ∉ held
  | .segment | .keys | .raced => True

namespace HoldoutSystem

def held (s : HoldoutSystem S) : List String := s.granted.map HoldoutGrant.token

structure Looks (s : HoldoutSystem S) : Prop where
  unique : s.db.Unique
  knows : ∀ j call phase, s.inner j = some (call, phase) → call.Knows key s.db s.held phase
  apart : ∀ i j t call call', s.inner i = some (call, .committed t) →
    s.inner j = some (call', .committed t) → i = j
  tokens : s.held.Nodup
  holds : ∀ g ∈ s.granted, s.db.Holds key g

variable {key} {s s' : HoldoutSystem S}

theorem restates_eq (s : HoldoutSystem S) (e : ℕ × HoldoutMove S) :
    ∃ (tokens : List String) (v : String), s.restates e = tokens.map fun t => (t, v) := by
  unfold restates
  split
  · split
    · exact ⟨_, _, rfl⟩
    · exact ⟨[], "", rfl⟩
  · exact ⟨[], "", rfl⟩

variable {call : HoldoutClaim S} {phase : ClaimPhase}

variable {db : HoldoutDb}

theorem knows_clear {held : List String}
    (h : Clear (some (call, phase))) : call.Knows key db held phase := by
  rcases h with h | ⟨call, h⟩
  · cases h
  · cases h
    trivial

variable {e : ℕ × HoldoutMove S}

theorem knows_quiet (hquiet : Quiet s s' e.1 (s.restates e)) (hundisturbed : s.Undisturbed key e)
    {j : ℕ}
    (hinner : s.inner j = some (call, phase)) (h : call.Knows key s.db s.held phase) :
    call.Knows key s'.db s'.held phase := by
  obtain ⟨tokens, v, hstated⟩ := s.restates_eq e
  have hrestated := hquiet.restatements
  rw [hstated] at hrestated
  have hkeep : phase.reading = true → ∀ r ∈ s.db.consumptions,
      r.datasetVersionId = call.datasetVersionId → r.resolved s.db.restated = call.keyVersion →
        r.resolved s'.db.restated = call.keyVersion := by
    intro hreading r hr hd hv
    rcases resolved_append r hrestated with hsame | ⟨htoken, hnew⟩
    · rw [hsame, hv]
    · have hmem : (r.token, v) ∈ s.restates e := by
        rw [hstated]
        exact List.mem_map_of_mem htoken
      rw [hnew]
      exact (hundisturbed.restated _ _ hmem r hr rfl j call phase hinner hreading hd.symm).symm
  have hheld : s'.held = s.held := by
    unfold held
    rw [hquiet.granted]
  cases phase with
  | segment | keys | raced => trivial
  | rows known =>
    intro r hr hd hv
    rw [hquiet.consumptions] at hr
    exact hkeep rfl r hr hd (h r hr hd hv)
  | lookup | insert =>
    intro r hr hd
    rw [hquiet.consumptions] at hr
    exact hkeep rfl r hr hd (h r hr hd)
  | committed token =>
    obtain ⟨hholds, hnot⟩ := h
    refine ⟨?_, hheld ▸ hnot⟩
    unfold HoldoutDb.Holds at hholds ⊢
    rw [hquiet.consumptions]
    exact hholds

theorem looks_quiet (h : s.Looks key) (hquiet : Quiet s s' e.1 (s.restates e))
    (hundisturbed : s.Undisturbed key e) : s'.Looks key where
  unique := by
    unfold HoldoutDb.Unique
    rw [hquiet.consumptions]
    exact h.unique
  knows j call phase hinner := by
    rcases hquiet.phases j with hj | ⟨-, hj⟩
    · rw [hj] at hinner
      exact knows_quiet hquiet hundisturbed hinner (h.knows j call phase hinner)
    · rw [hinner] at hj
      exact knows_clear hj
  apart i j t call call' hi hj := by
    have hkept : ∀ k c, s'.inner k = some (c, .committed t) → s.inner k =
      some (c, .committed t) := by
      intro k c hk
      rcases hquiet.phases k with hsame | ⟨-, hclear⟩
      · rw [← hsame, hk]
      · rw [hk] at hclear
        rcases hclear with hclear | ⟨_, hclear⟩
        · cases hclear
        · cases hclear
    exact h.apart i j t call call' (hkept i call hi) (hkept j call' hj)
  tokens := by
    unfold held
    rw [hquiet.granted]
    exact h.tokens
  holds g hg := by
    rw [hquiet.granted] at hg
    unfold HoldoutDb.Holds
    rw [hquiet.consumptions]
    exact h.holds g hg

variable {i : ℕ}

theorem looks_claim {inner : Option (HoldoutClaim S × ClaimPhase) → Prop} (h : s.Looks key)
    (hmoves : Moves s s' i s.db s.granted inner)
    (hself : ∀ call phase, inner (some (call, phase)) →
      call.Knows key s.db s.held phase ∧ ∀ t, phase ≠ .committed t) : s'.Looks key := by
  have hheld : s'.held = s.held := by
    unfold held
    rw [hmoves.granted]
  have hcommitted : ∀ j call t, s'.inner j = some (call, .committed t) →
      s.inner j = some (call, .committed t) := by
    intro j call t hj
    by_cases hji : j = i
    · subst hji
      have := hmoves.self
      rw [hj] at this
      exact absurd rfl ((hself _ _ this).2 t)
    · rw [← hmoves.others j hji, hj]
  refine ⟨?_, ?_, ?_, ?_, ?_⟩
  · rw [hmoves.db]
    exact h.unique
  · intro j call phase hj
    rw [hmoves.db, hheld]
    by_cases hji : j = i
    · subst hji
      have := hmoves.self
      rw [hj] at this
      exact (hself _ _ this).1
    · rw [hmoves.others j hji] at hj
      exact h.knows j call phase hj
  · intro j k t call call' hj hk
    exact h.apart j k t call call' (hcommitted _ _ _ hj) (hcommitted _ _ _ hk)
  · rw [hheld]
    exact h.tokens
  · intro g hg
    rw [hmoves.granted] at hg
    rw [hmoves.db]
    exact h.holds g hg

variable {token : String}

theorem looks_spend (h : s.Looks key) (hinner : s.inner i = some (call, .insert))
    (hrow : s.db.accepts (call.row key token) = true)
    (hdb : db.consumptions = s.db.consumptions ++ [call.row key token])
    (hrestated : db.restatements = s.db.restatements) (hstamped : call.keyVersion ≠ "")
    (hundisturbed : ∀ j call' phase, s.inner j = some (call', phase) → phase.compared = true →
      call'.datasetVersionId = call.datasetVersionId → call'.keyVersion = call.keyVersion)
    (hmoves : Moves s s' i db s.granted fun inner => inner = some (call, .committed token)) :
    s'.Looks key := by
  have hcomparable : s.db.Comparable call.datasetVersionId call.keyVersion :=
    h.knows i call .insert hinner
  have hheld : s'.held = s.held := by
    unfold held
    rw [hmoves.granted]
  have hfresh : ∀ r ∈ s.db.consumptions, r.token ≠ token := fun r hr => (accepts_apart hrow r hr).1
  have hnot : token ∉ s.held := by
    intro hmem
    obtain ⟨g, hg, htoken⟩ := List.mem_map.1 hmem
    obtain ⟨v, -, hmem, -⟩ := h.holds g hg
    exact hfresh _ hmem htoken
  have hresolved : (call.row key token).resolved s.db.restated = call.keyVersion :=
    resolved_stamped _ hstamped
  have hsame : db.restated = s.db.restated := by
    unfold HoldoutDb.restated
    rw [hrestated]
  have hown : db.Holds key ⟨call.datasetVersionId, call.strategy, token⟩ := by
    refine ⟨call.keyVersion, hstamped, ?_, ?_⟩
    · rw [hdb]
      exact List.mem_append_right _ (List.mem_singleton_self _)
    · intro r hr hd hv
      rw [hdb, List.mem_append, List.mem_singleton] at hr
      rcases hr with hr | rfl
      · have := hcomparable r hr hd
        rwa [resolved_stamped _ hv] at this
      · rfl
  refine ⟨?_, ?_, ?_, ?_, ?_⟩
  · rw [hmoves.db]
    exact unique_append h.unique hrow hdb
  · intro j call' phase hj
    rw [hmoves.db, hheld]
    by_cases hji : j = i
    · subst hji
      rw [hmoves.self] at hj
      cases hj
      exact ⟨hown, hnot⟩
    · rw [hmoves.others j hji] at hj
      have hknows := h.knows j call' phase hj
      have hkeep : phase.compared = true → s.db.Comparable call'.datasetVersionId call'.keyVersion →
            db.Comparable call'.datasetVersionId call'.keyVersion := by
        intro hcompared hold
        refine comparable_append hold ?_ hrestated hdb
        intro hd
        rw [hresolved]
        exact (hundisturbed j call' phase hj hcompared hd.symm).symm
      cases phase with
      | segment | keys | raced => trivial
      | rows known =>
        intro r hr hd hv
        rw [hdb, List.mem_append, List.mem_singleton] at hr
        rw [hsame]
        rcases hr with hr | rfl
        · exact hknows r hr hd hv
        · rw [resolved_stamped _ hstamped] at hv
          rw [resolved_stamped _ hstamped]
          exact hv
      | lookup | insert => exact hkeep rfl hknows
      | committed t => exact ⟨holds_append hknows.1 hstamped hcomparable hdb, hknows.2⟩
  · intro j k t c c' hj hk
    -- a token that was committed before is that of a row, so it is not the new one
    have hold : ∀ l c, l ≠ i → s'.inner l = some (c, .committed t) →
        s.inner l = some (c, .committed t) ∧ t ≠ token := by
      intro l c hl hinner
      rw [hmoves.others l hl] at hinner
      obtain ⟨⟨v, -, hmem, -⟩, -⟩ := h.knows l c _ hinner
      exact ⟨hinner, hfresh _ hmem⟩
    have hnew : ∀ c, s'.inner i = some (c, .committed t) → t = token := by
      intro c hinner
      rw [hmoves.self] at hinner
      cases hinner
      rfl
    by_cases hji : j = i
    · subst hji
      by_contra hkj
      exact (hold k c' (fun e => hkj e.symm) hk).2 (hnew c hj)
    · by_cases hki : k = i
      · subst hki
        exact absurd (hnew c' hk) (hold j c hji hj).2
      · exact h.apart j k t c c' (hold j c hji hj).1 (hold k c' hki hk).1
  · rw [hheld]
    exact h.tokens
  · intro g hg
    rw [hmoves.granted] at hg
    rw [hmoves.db]
    exact holds_append (h.holds g hg) hstamped hcomparable hdb

theorem looks_grant (h : s.Looks key) (hinner : s.inner i = some (call, .committed token))
    (hmoves : Moves s s' i s.db (s.granted ++ [⟨call.datasetVersionId, call.strategy, token⟩])
      Clear) : s'.Looks key := by
  obtain ⟨hholds, hnot⟩ := h.knows i call _ hinner
  have hheld : s'.held = s.held ++ [token] := by
    unfold held
    rw [hmoves.granted, List.map_append]
    rfl
  have hcommitted : ∀ j c t, s'.inner j = some (c, .committed t) →
      j ≠ i ∧ s.inner j = some (c, .committed t) := by
    intro j c t hj
    by_cases hji : j = i
    · subst hji
      have := hmoves.self
      rw [hj] at this
      rcases this with this | ⟨_, this⟩
      · cases this
      · cases this
    · rw [hmoves.others j hji] at hj
      exact ⟨hji, hj⟩
  refine ⟨?_, ?_, ?_, ?_, ?_⟩
  · rw [hmoves.db]
    exact h.unique
  · intro j c phase hj
    rw [hmoves.db, hheld]
    by_cases hji : j = i
    · subst hji
      have := hmoves.self
      rw [hj] at this
      exact knows_clear this
    · have hj' := hj
      rw [hmoves.others j hji] at hj'
      have hknows := h.knows j c phase hj'
      cases phase with
      | committed t =>
        refine ⟨hknows.1, ?_⟩
        rw [List.mem_append, List.mem_singleton]
        rintro (ht | ht)
        · exact hknows.2 ht
        · subst ht
          exact hji (h.apart j i t c call hj' hinner)
      | segment | keys | raced => trivial
      | rows known | lookup | insert => exact hknows
  · intro j k t c c' hj hk
    exact h.apart j k t c c' (hcommitted j c t hj).2 (hcommitted k c' t hk).2
  · rw [hheld]
    refine List.nodup_append.2 ⟨h.tokens, List.nodup_singleton _, ?_⟩
    intro t ht t' ht' heq
    rw [List.mem_singleton] at ht'
    subst ht' heq
    exact hnot ht
  · intro g hg
    rw [hmoves.db]
    rw [hmoves.granted, List.mem_append, List.mem_singleton] at hg
    rcases hg with hg | rfl
    · exact h.holds g hg
    · exact hholds

theorem looks_going {next : ClaimPhase} (h : s.Looks key)
    (hmoves : Moves s s' i s.db (s.granted ++ grants call (.going next)) (After call (.going next)))
    (hknows : call.Knows key s.db s.held next) (hnext : ∀ t, next ≠ .committed t) :
    s'.Looks key := by
  dsimp only [grants] at hmoves
  rw [List.append_nil] at hmoves
  refine looks_claim h hmoves ?_
  rintro c p ⟨⟩
  exact ⟨hknows, hnext⟩

theorem looks_refused {e : HoldoutError} (h : s.Looks key)
    (hmoves : Moves s s' i s.db (s.granted ++ grants call (.refused e)) (After call (.refused e))) :
    s'.Looks key := by
  dsimp only [grants] at hmoves
  rw [List.append_nil] at hmoves
  exact looks_claim h hmoves nofun

theorem looks_proceed (h : s.Looks key) (hinner : s.inner i = some (call, phase))
    (hundisturbed : s.Undisturbed key (i, .proceed token)) : (s.proceed key i token).Looks key := by
  have hmoves := proceed_claim key token hinner
  have hknows := h.knows i call phase hinner
  cases phase with
  | segment =>
    unfold HoldoutClaim.step at hmoves
    dsimp only at hmoves
    split at hmoves
    · exact looks_going h hmoves trivial nofun
    · exact looks_refused h hmoves
  | keys => exact looks_going h hmoves (fun _ _ _ hv => hv) nofun
  | rows known =>
    unfold HoldoutClaim.step at hmoves
    dsimp only at hmoves
    split at hmoves
    next hnil =>
      refine looks_going h hmoves ?_ nofun
      intro r hr hd
      exact hknows r hr hd (incomparable_nil hnil r hr hd)
    next => exact looks_refused h hmoves
  | lookup =>
    unfold HoldoutClaim.step at hmoves
    dsimp only at hmoves
    split at hmoves
    · exact looks_refused h hmoves
    · exact looks_going h hmoves hknows nofun
  | insert =>
    unfold HoldoutClaim.step at hmoves
    dsimp only at hmoves
    by_cases hrow : s.db.accepts (call.row key token) = true
    · have hcommits : s.commits key (i, .proceed token) = some (call.row key token) := by
        unfold commits
        dsimp only
        rw [hinner]
        dsimp only
        rw [if_pos hrow]
      rw [if_pos hrow] at hmoves
      dsimp only [grants] at hmoves
      rw [List.append_nil] at hmoves
      refine looks_spend h hinner hrow ?_ ?_ (hundisturbed.stamped _ hcommits) ?_ hmoves
      · rfl
      · rfl
      · exact hundisturbed.committed _ hcommits
    · rw [if_neg hrow] at hmoves
      exact looks_going h hmoves trivial nofun
  | committed t => exact looks_grant h hinner hmoves
  | raced =>
    unfold HoldoutClaim.step at hmoves
    dsimp only at hmoves
    split at hmoves
    · exact looks_refused h hmoves
    · exact looks_refused h hmoves

theorem looks_step (s : HoldoutSystem S) (e : ℕ × HoldoutMove S) (h : s.Looks key)
    (hundisturbed : s.Undisturbed key e) : (s.step key e).Looks key := by
  rcases step_cases key s e with ⟨i, token, call, phase, rfl, hinner⟩ | ⟨-, hquiet⟩
  · exact looks_proceed h hinner hundisturbed
  · exact looks_quiet h hquiet hundisturbed

theorem comparable_of_commit (h : s.Looks key) : s.ComparableCommit key e := by
  intro row hrow
  unfold commits at hrow
  split at hrow
  next i token =>
    split at hrow
    next call hinner =>
      split at hrow
      · cases hrow
        exact h.knows i call .insert hinner
      · cases hrow
    next => cases hrow
  next => cases hrow

theorem granted_apart (h : s.Looks key) : s.granted.Pairwise fun a b =>
    ¬ (a.datasetVersionId = b.datasetVersionId ∧ a.strategy = b.strategy) := by
  have htokens : s.granted.Pairwise fun a b => a.token ≠ b.token := List.pairwise_map.1 h.tokens
  refine htokens.imp_of_mem ?_
  rintro a b ha hb htoken ⟨hd, hs⟩
  obtain ⟨v, hv, ha', hall⟩ := h.holds a ha
  obtain ⟨w, hw, hb', -⟩ := h.holds b hb
  have hvw : w = v := hall _ hb' hd.symm hw
  subst hvw
  have hrows := unique_eq h.unique ha' hb' hd (by rw [hs])
  injection hrows with htoken'
  exact htoken htoken'

end HoldoutSystem

def HoldoutDb.carried (db : HoldoutDb) (token : String) : List Wire.Value :=
  (db.consumptions.filter fun r => decide (r.token = token)).filterMap
    HoldoutConsumptionRow.outcome ++
    (db.outcomes.filter fun o => decide (o.1 = token)).map Prod.snd

def HoldoutTask.writing : HoldoutTask S → Option String
  | .record token _ _ .outcome => some token
  | .record token _ _ .insert => some token
  | _ => none

/-- A token whose row carries its outcome is not among the recorded ones. -/
structure HoldoutDb.OneOutcome (db : HoldoutDb) : Prop where
  unique : db.Unique
  recorded : (db.outcomes.map Prod.fst).Nodup
  inline : ∀ r ∈ db.consumptions, r.outcome ≠ none → r.token ∉ db.outcomes.map Prod.fst

def HoldoutDb.Bare (db : HoldoutDb) (token : String) : Prop :=
  ∀ r ∈ db.consumptions, r.token = token → r.outcome = none

namespace HoldoutSystem

structure Outcomes (s : HoldoutSystem S) : Prop where
  db : s.db.OneOutcome
  writing : ∀ j t, (s.processes j).task.writing = some t → s.db.Bare t

inductive Records (db : HoldoutDb) : HoldoutDb → Prop
  | same {db' : HoldoutDb} : db'.consumptions = db.consumptions → db'.outcomes = db.outcomes →
      Records db db'
  | spend {db' : HoldoutDb} (row : HoldoutConsumptionRow) : db.accepts row = true →
      row.outcome = none → db'.consumptions = db.consumptions ++ [row] →
      db'.outcomes = db.outcomes → Records db db'
  | record {db' : HoldoutDb} (token : String) (outcome : Wire.Value) : db.Bare token →
      token ∉ db.outcomes.map Prod.fst → db'.consumptions = db.consumptions →
      db'.outcomes = db.outcomes ++ [(token, outcome)] → Records db db'

variable {key} {s s' : HoldoutSystem S} {db db' : HoldoutDb}

theorem records_refl : Records db db := .same rfl rfl

theorem oneOutcome_records (h : db.OneOutcome) (hrecords : Records db db') : db'.OneOutcome := by
  cases hrecords with
  | same hrows houtcomes =>
    refine ⟨?_, ?_, ?_⟩
    · unfold HoldoutDb.Unique
      rw [hrows]
      exact h.unique
    · rw [houtcomes]
      exact h.recorded
    · rw [hrows, houtcomes]
      exact h.inline
  | spend row hrow hnone hrows houtcomes =>
    refine ⟨unique_append h.unique hrow hrows, ?_, ?_⟩
    · rw [houtcomes]
      exact h.recorded
    · intro r hr hsome
      rw [houtcomes]
      rw [hrows, List.mem_append, List.mem_singleton] at hr
      rcases hr with hr | rfl
      · exact h.inline r hr hsome
      · exact absurd hnone hsome
  | record token outcome hbare hfresh hrows houtcomes =>
    refine ⟨?_, ?_, ?_⟩
    · unfold HoldoutDb.Unique
      rw [hrows]
      exact h.unique
    · rw [houtcomes, List.map_append]
      refine List.nodup_append.2 ⟨h.recorded, List.nodup_singleton _, ?_⟩
      intro t ht t' ht' heq
      rw [List.map_singleton, List.mem_singleton] at ht'
      subst ht' heq
      exact hfresh ht
    · intro r hr hsome hmem
      rw [hrows] at hr
      rw [houtcomes, List.map_append, List.mem_append, List.map_singleton,
        List.mem_singleton] at hmem
      rcases hmem with hmem | htoken
      · exact h.inline r hr hsome hmem
      · exact hsome (hbare r hr htoken)

variable {token : String}

theorem bare_records (h : db.Bare token) (hrecords : Records db db') : db'.Bare token := by
  cases hrecords with
  | same hrows _ | record _ _ _ _ hrows _ =>
    unfold HoldoutDb.Bare
    rw [hrows]
    exact h
  | spend row _ hnone hrows _ =>
    intro r hr htoken
    rw [hrows, List.mem_append, List.mem_singleton] at hr
    rcases hr with hr | rfl
    · exact h r hr htoken
    · exact hnone

theorem length_filter_le_one {α : Type} {f : α → String} {xs : List α} (h : (xs.map f).Nodup)
    (t : String) : (xs.filter fun x => decide (f x = t)).length ≤ 1 := by
  have hcount := List.nodup_iff_count_le_one.1 h t
  rw [List.count, List.countP_map, List.countP_eq_length_filter] at hcount
  exact hcount

theorem carried_length_le (h : db.OneOutcome) (token : String) : (db.carried token).length ≤ 1 := by
  have hrows : (db.consumptions.map HoldoutConsumptionRow.token).Nodup :=
    List.pairwise_map.2 (h.unique.imp fun hab => hab.1)
  have hinline := (List.length_filterMap_le HoldoutConsumptionRow.outcome
    (db.consumptions.filter fun r => decide (r.token = token))).trans
      (length_filter_le_one hrows token)
  have hrecorded := length_filter_le_one h.recorded token
  unfold HoldoutDb.carried
  rw [List.length_append, List.length_map]
  by_cases hmem : token ∈ db.outcomes.map Prod.fst
  · have hnone : (db.consumptions.filter fun r => decide (r.token = token)).filterMap
        HoldoutConsumptionRow.outcome = [] := by
      rw [List.filterMap_eq_nil_iff]
      intro r hr
      obtain ⟨hr, htoken⟩ := List.mem_filter.1 hr
      by_contra hsome
      refine h.inline r hr hsome ?_
      rwa [of_decide_eq_true htoken]
    rw [hnone, List.length_nil]
    omega
  · have hempty : (db.outcomes.filter fun o => decide (o.1 = token)) = [] := by
      rw [List.filter_eq_nil_iff]
      intro o ho htoken
      refine hmem ?_
      rw [← of_decide_eq_true htoken]
      exact List.mem_map_of_mem ho
    rw [hempty, List.length_nil]
    omega

theorem records_record (h : db.OneOutcome) (outcome : Wire.Value)
    {phase : RecordPhase} (hbare : phase ≠ .row → db.Bare token) :
    Records db (recordStep db token outcome phase).1 ∧
      ∀ next, (recordStep db token outcome phase).2 = .ok (some next) → db.Bare token := by
  cases phase with
  | row =>
    unfold recordStep
    dsimp only
    split
    next => exact ⟨records_refl, nofun⟩
    next r hr =>
      split
      next => exact ⟨records_refl, nofun⟩
      next hnone =>
        refine ⟨records_refl, fun _ _ => ?_⟩
        intro r' hr' htoken
        have hfound := List.find?_some hr
        have htoken' : r.token = token := of_decide_eq_true hfound
        by_cases hrr : r' = r
        · rw [hrr]
          exact Option.not_isSome_iff_eq_none.1 hnone
        · have hsymm : Std.Symm fun a b : HoldoutConsumptionRow => a.token ≠ b.token :=
            ⟨fun _ _ hab => hab.symm⟩
          have hpairs : db.consumptions.Pairwise fun a b => a.token ≠ b.token :=
            h.unique.imp fun hab => hab.1
          exact absurd (htoken.trans htoken'.symm)
            (hpairs.forall hr' (List.mem_of_find?_eq_some hr) hrr)
  | outcome =>
    unfold recordStep
    dsimp only
    split
    · exact ⟨records_refl, nofun⟩
    · exact ⟨records_refl, fun _ _ => hbare nofun⟩
  | insert =>
    unfold recordStep
    dsimp only
    split
    next => exact ⟨records_refl, nofun⟩
    next hfresh =>
      refine ⟨.record token outcome (hbare nofun) ?_ rfl rfl, nofun⟩
      intro hmem
      obtain ⟨o, ho, rfl⟩ := List.mem_map.1 hmem
      refine hfresh ?_
      rw [List.any_eq_true]
      exact ⟨o, ho, decide_eq_true rfl⟩

variable (key db) in
theorem records_claim (call : HoldoutClaim S) (token : String) (phase : ClaimPhase) :
    Records db (call.step key db token phase).1 := by
  cases phase with
  | segment | rows known | lookup | raced =>
    unfold HoldoutClaim.step
    dsimp only
    split
    · exact records_refl
    · exact records_refl
  | insert =>
    unfold HoldoutClaim.step
    dsimp only
    split
    next hrow => exact .spend _ hrow rfl rfl rfl
    next => exact records_refl
  | keys | committed token => exact records_refl

variable (db) in
theorem records_restate (call : RestateCall) (phase : RestatePhase) :
    Records db (call.step db phase).1 := by
  cases phase with
  | known =>
    unfold RestateCall.step
    dsimp only
    split
    · exact records_refl
    · split
      · exact records_refl
      · exact records_refl
  | rows known => exact records_refl
  | commit tokens => exact .same rfl rfl

variable {p : HoldoutProcess S} {t : HoldoutSystem S}

theorem outcomes_setProcess {i : ℕ} (h : s.Outcomes)
    (hrecords : Records s.db t.db) (hsame : t.processes = s.processes)
    (hp : ∀ token, p.task.writing = some token → s.db.Bare token) :
    (t.setProcess i p).Outcomes := by
  refine ⟨oneOutcome_records h.db hrecords, ?_⟩
  intro j token hj
  refine bare_records ?_ hrecords
  unfold setProcess at hj
  dsimp only at hj
  by_cases hji : j = i
  · rw [if_pos hji] at hj
    exact hp token hj
  · rw [if_neg hji, hsame] at hj
    exact h.writing j token hj

theorem writing_begin (p : HoldoutProcess S) (call : HoldoutCall S) :
    (p.begin_ call).task.writing = none := by
  cases call with
  | claim call => rfl
  | pooledClaim call | recordPooled composite outcome =>
    unfold HoldoutProcess.begin_
    dsimp only
    split
    · rfl
    · rfl
  | recordOutcome token outcome => rfl
  | restate call => rfl

theorem writing_claimedOne (p : HoldoutProcess S) (call : PooledClaim S)
    (tokens rest : List String) : (p.claimedOne call tokens rest).task.writing = none := by
  cases rest with
  | nil | cons c rest => rfl

theorem outcomes_idle {i : ℕ} (h : s.Outcomes)
    (hrecords : Records s.db t.db) (hsame : t.processes = s.processes)
    (hp : p.task.writing = none) : (t.setProcess i p).Outcomes := by
  refine outcomes_setProcess h hrecords hsame ?_
  intro token htoken
  rw [hp] at htoken
  cases htoken

theorem outcomes_proceed (h : s.Outcomes) (i : ℕ) (token : String) :
    (s.proceed key i token).Outcomes := by
  unfold proceed
  dsimp only
  cases htask : (s.processes i).task with
  | idle => exact h
  | claim call phase =>
    dsimp only
    have hrecords := records_claim key s.db call token phase
    generalize call.step key s.db token phase = out at hrecords
    obtain ⟨db, next | e | t⟩ := out
    · exact outcomes_idle h hrecords rfl rfl
    · exact outcomes_idle h hrecords rfl rfl
    · exact outcomes_idle h hrecords rfl rfl
  | checking call c rest phase =>
    dsimp only
    rcases call.check key s.db c phase with e | _ | next
    · exact outcomes_idle h records_refl rfl rfl
    · cases rest with
      | nil => exact outcomes_idle h records_refl rfl (writing_claimedOne ..)
      | cons c' rest => exact outcomes_idle h records_refl rfl rfl
    · exact outcomes_idle h records_refl rfl rfl
  | claiming call tokens c rest phase =>
    dsimp only
    have hrecords := records_claim key s.db (call.on c) token phase
    generalize (call.on c).step key s.db token phase = out at hrecords
    obtain ⟨db, next | e | t⟩ := out
    · exact outcomes_idle h hrecords rfl rfl
    · exact outcomes_idle h hrecords rfl rfl
    · exact outcomes_idle h hrecords rfl (writing_claimedOne ..)
  | record t outcome rest phase =>
    dsimp only
    have hbare : phase ≠ .row → s.db.Bare t := by
      intro hphase
      refine h.writing i t ?_
      rw [htask]
      cases phase with
      | row => exact absurd rfl hphase
      | outcome | insert => rfl
    obtain ⟨hrecords, hnext⟩ := records_record h.db outcome hbare
    generalize recordStep s.db t outcome phase = out at hrecords hnext
    obtain ⟨db, e | _ | next⟩ := out
    · exact outcomes_idle h hrecords rfl rfl
    · cases rest with
      | nil => exact outcomes_idle h hrecords rfl rfl
      | cons t' rest => exact outcomes_idle h hrecords rfl rfl
    · refine outcomes_setProcess h hrecords rfl ?_
      intro token htoken
      have hsame : token = t := by
        cases next with
        | row => cases htoken
        | outcome | insert => exact (Option.some.inj htoken).symm
      rw [hsame]
      exact hnext next rfl
  | restate call phase =>
    dsimp only
    have hrecords := records_restate s.db call phase
    generalize call.step s.db phase = out at hrecords
    obtain ⟨db, e | _ | next⟩ := out
    · exact outcomes_idle h hrecords rfl rfl
    · exact outcomes_idle h hrecords rfl rfl
    · exact outcomes_idle h hrecords rfl rfl

theorem outcomes_step (s : HoldoutSystem S) (e : ℕ × HoldoutMove S) (h : s.Outcomes) :
    (s.step key e).Outcomes := by
  obtain ⟨i, move⟩ := e
  cases move with
  | call call =>
    unfold step
    dsimp only
    split
    · exact outcomes_idle h records_refl rfl (writing_begin ..)
    · exact h
  | proceed token => exact outcomes_proceed h i token
  | crash => exact outcomes_idle h records_refl rfl rfl

theorem checksSpendNothing (s : HoldoutSystem S) (e : ℕ × HoldoutMove S) :
    s.ChecksSpendNothing key e := by
  obtain ⟨i, move⟩ := e
  intro hchecks
  cases move with
  | call call =>
    unfold step
    dsimp only
    split
    · rfl
    · rfl
  | crash => rfl
  | proceed token =>
    rcases hchecks with hidle | ⟨call, c, rest, phase, hcheck⟩
    · unfold step proceed
      dsimp only
      rw [hidle]
    · unfold step proceed
      dsimp only
      rw [hcheck]
      dsimp only
      rcases call.check key s.db c phase with e | _ | next
      · rfl
      · cases rest with
        | nil => rfl
        | cons c' rest => rfl
      · rfl

end HoldoutSystem

namespace HoldoutSystem

/-- One look at the holdout, along a run and in the state it ends in. -/
structure OneLook (db : HoldoutDb) (es : List (ℕ × HoldoutMove S)) : Prop where
  granted : (exec (step key) (start db) es).granted.Pairwise fun a b =>
    ¬ (a.datasetVersionId = b.datasetVersionId ∧ a.strategy = b.strategy)
  comparable : Along (ComparableCommit key) (step key) (start db) es
  outcomes : ∀ token, ((exec (step key) (start db) es).db.carried token).length ≤ 1
  checks : Along (ChecksSpendNothing key) (step key) (start db) es

variable {key} {db : HoldoutDb}

variable (key) in
theorem looks_start (hdb : db.Unique) : (start db : HoldoutSystem S).Looks key where
  unique := hdb
  knows _ _ _ := nofun
  apart _ _ _ _ _ := nofun
  tokens := List.nodup_nil
  holds _ := nofun

/-- A run in which no claim is disturbed between its comparison and its insert keeps to one
look. -/
theorem one_look (hdb : db.OneOutcome) {es : List (ℕ × HoldoutMove S)}
    (h : Along (Undisturbed key) (step key) (start db) es) : OneLook key db es := by
  have hstart := looks_start key hdb.unique
  have hlooks : (exec (step key) (start db) es).Looks key := h.invariant looks_step hstart
  have houtcomes : (exec (step key) (start db) es).Outcomes :=
    exec_invariant outcomes_step ⟨hdb, fun _ _ hwriting => by cases hwriting⟩ es
  refine ⟨granted_apart hlooks, ?_, ?_, ?_⟩
  · exact h.mono_of_invariant looks_step (fun _ _ hs _ => comparable_of_commit hs) hstart
  · exact carried_length_le houtcomes.db
  · exact along_of_invariant (I := fun _ => True) (fun _ _ _ => trivial)
      (fun s e _ => s.checksSpendNothing e) trivial es

theorem undisturbed_alone {i : ℕ} {s : HoldoutSystem S} {es : List (ℕ × HoldoutMove S)}
    (hes : ∀ e ∈ es, e.1 = i) (hothers : ∀ j, j ≠ i → s.inner j = none)
    (hstamped : Along (fun s e => ∀ row ∈ s.commits key e, row.keyVersion ≠ "") (step key) s es) :
    Along (Undisturbed key) (step key) s es := by
  induction es generalizing s with
  | nil => trivial
  | cons e es ih =>
    have hi : e.1 = i := hes e (List.mem_cons_self ..)
    refine ⟨⟨hstamped.1, ?_, ?_⟩, ih (fun e he => hes e (List.mem_cons_of_mem _ he)) ?_ hstamped.2⟩
    · intro row hrow j call phase hinner _ _
      have hj : j = i := by
        by_contra hj
        rw [hothers j hj] at hinner
        cases hinner
      obtain ⟨k, move⟩ := e
      subst hj hi
      unfold commits at hrow
      split at hrow
      next k' token hmove =>
        cases hmove
        rw [hinner] at hrow
        split at hrow
        next hsome =>
          cases hsome
          split at hrow
          · cases hrow
            rfl
          · cases hrow
        next => cases hrow
      next => cases hrow
    · intro t v htv row _ _ j call phase hinner _ _
      have hj : j = i := by
        by_contra hj
        rw [hothers j hj] at hinner
        cases hinner
      obtain ⟨k, move⟩ := e
      subst hj hi
      unfold inner at hinner
      unfold restates at htv
      split at htv
      next k' token hmove =>
        cases hmove
        split at htv
        next htask =>
          rw [htask] at hinner
          cases hinner
        next => cases htv
      next => cases htv
    · intro j hj
      have hje : j ≠ e.1 := fun h => hj (h.trans hi)
      rcases step_cases key s e with ⟨k, token, call, phase, rfl, hinner⟩ | ⟨-, hquiet⟩
      · exact ((proceed_claim key token hinner).others j hje).trans (hothers j hj)
      · rcases hquiet.phases j with hsame | ⟨hje', -⟩
        · exact hsame.trans (hothers j hj)
        · exact absurd hje' hje

def versionedKey (version strategy : String) : String := version ++ strategy

def oneSegment : HoldoutDb := ⟨["eurusd_h1"], [], [], []⟩

theorem oneSegment_oneOutcome : oneSegment.OneOutcome := by
  refine ⟨.nil, List.nodup_nil, ?_⟩
  intro r hr
  cases hr

def twoClaims : List (ℕ × HoldoutMove String) :=
  [(0, .call (.claim ⟨"eurusd_h1", "breakout", "2"⟩))] ++
    (List.replicate 6 (0, .proceed "hold_1")) ++
    [(0, .call (.recordOutcome "hold_1" (.bool true)))] ++
    (List.replicate 3 (0, .proceed "")) ++
    [(0, .call (.claim ⟨"eurusd_h1", "breakout", "2"⟩))] ++
    (List.replicate 4 (0, .proceed "hold_2"))

theorem one_look_twoClaims : OneLook versionedKey oneSegment twoClaims := by
  refine one_look oneSegment_oneOutcome (undisturbed_alone (i := 0) ?_ (fun _ _ => rfl) ?_)
  · decide
  · decide

def mixedClaims : List (ℕ × HoldoutMove String) :=
  [(0, .call (.claim ⟨"eurusd_h1", "breakout", "2"⟩)),
    (1, .call (.claim ⟨"eurusd_h1", "breakout", "3"⟩))] ++
    (List.replicate 4 (0, .proceed "")) ++ (List.replicate 4 (1, .proceed "")) ++
    [(0, .proceed "hold_1"), (1, .proceed "hold_2"), (0, .proceed ""), (1, .proceed "")]

theorem mixed_claims_look_twice :
    oneSegment.OneOutcome ∧ ¬ OneLook versionedKey oneSegment mixedClaims := by
  refine ⟨oneSegment_oneOutcome, fun h => ?_⟩
  have hgranted := h.granted
  revert hgranted
  decide

end HoldoutSystem

end Fiboki
