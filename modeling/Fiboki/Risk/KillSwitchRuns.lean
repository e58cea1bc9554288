import Fiboki.Lib.Run
import Fiboki.Risk.KillSwitch

/-!
Any interleaving of kill switch objects on one journal.

An object reads a fingerprint, replays, appends, replays and reads a fingerprint
again.  The last two are not one operation: a row that another object appends
between them is covered by the cached fingerprint and missing from the state.
-/

namespace Fiboki

open Runs KillSwitchState

namespace SwitchRuns

variable {J F : Type} {journal : KillSwitchJournal J F}

section Objects

variable (journal)

def PhaseOk (j : J) (view : List KillSwitchEvent) : SwitchPhase J → Prop
  | .opening looked => journal.Grown looked j
  | .called _ started => journal.Grown started j
  | .stale _ started looked =>
    journal.Grown looked j ∧ journal.events started <+: journal.events looked
  | .appending e => e.flattens = true ∨ e.deactivates = true ∨ (replay view).flattening = false
  | _ => True

/-- The cached values are those of some earlier reading of the journal. -/
structure Grounded (j : J) (k : KillSwitch J F) : Prop where
  view : k.view <+: journal.events j
  state : k.state = replay k.view
  fingerprint : k.fingerprint = journal.fingerprint k.looked
  looked : journal.Grown k.looked j
  phase : PhaseOk journal j k.view k.phase

end Objects

variable {phase : SwitchPhase J}

theorem PhaseOk.append {j : J} {view : List KillSwitchEvent} (h : PhaseOk journal j view phase)
    (now : Timestamp) (e : KillSwitchEvent) :
    PhaseOk journal (journal.append j now e) view phase := by
  cases phase with
  | opening looked | called call started => exact KillSwitchJournal.Grown.append h now e
  | stale call started looked => exact ⟨h.1.append now e, h.2⟩
  | appending event => exact h
  | _ => trivial

variable {k : KillSwitch J F}

theorem Grounded.append {j : J} (h : Grounded journal j k) (now : Timestamp)
    (e : KillSwitchEvent) : Grounded journal (journal.append j now e) k where
  view := by
    rw [journal.events_append]
    exact h.view.trans (List.prefix_append _ _)
  state := h.state
  fingerprint := h.fingerprint
  looked := h.looked.append now e
  phase := h.phase.append now e

theorem decide_journalise {state : KillSwitchState} {now : Timestamp} {call : SwitchCall}
    {e : KillSwitchEvent} (h : call.decide state now = .journalise e) :
    e.flattens = true ∨ e.deactivates = true ∨ state.flattening = false := by
  cases call with
  | allows kind => cases h
  | activate mode operator reason at_ positionsOpen extra =>
    simp only [SwitchCall.decide] at h
    split at h
    · cases h
    · rename_i hdown
      cases h
      cases mode with
      | flatten => exact .inl rfl
      | pause =>
        right; right
        simpa using hdown
  | deactivate operator reason at_ extra =>
    simp only [SwitchCall.decide] at h
    split at h
    · cases h
    · split at h
      · cases h
      · cases h
        exact .inr (.inl rfl)

def AllGrounded (journal : KillSwitchJournal J F) (s : SwitchSystem J F) : Prop :=
  ∀ o, Grounded journal s.journal (s.objects o)

variable {s : SwitchSystem J F}

variable {o : ℕ}

theorem AllGrounded.setObject (h : AllGrounded journal s)
    (hk : Grounded journal s.journal k) : AllGrounded journal (s.setObject o k) := by
  intro o'
  by_cases ho : o' = o
  · subst ho
    simpa [SwitchSystem.setObject] using hk
  · simpa [SwitchSystem.setObject, ho] using h o'

theorem AllGrounded.setPhase (h : AllGrounded journal s)
    (hphase : PhaseOk journal s.journal (s.objects o).view phase) :
    AllGrounded journal (s.setPhase o phase) := by
  obtain ⟨hview, hstate, hfingerprint, hlooked, -⟩ := h o
  exact h.setObject ⟨hview, hstate, hfingerprint, hlooked, hphase⟩

variable [DecidableEq F]

theorem grounded_proceed (h : AllGrounded journal s) (o : ℕ)
    (now : Timestamp) : AllGrounded journal (s.proceed journal o now) := by
  obtain ⟨hview, hstate, hfingerprint, hlooked, hphase⟩ := h o
  cases hp : (s.objects o).phase with
  | absent =>
    rw [SwitchSystem.proceed_absent hp]
    exact h.setPhase (Relation.ReflTransGen.refl : journal.Grown s.journal s.journal)
  | opening looked =>
    rw [hp] at hphase
    rw [SwitchSystem.proceed_opening hp]
    exact h.setObject ⟨List.prefix_rfl, rfl, rfl, hphase, trivial⟩
  | idle =>
    rw [SwitchSystem.proceed_idle hp]
    exact h
  | called call started =>
    rw [hp] at hphase
    rw [SwitchSystem.proceed_called hp]
    split
    · exact h.setPhase trivial
    · exact h.setPhase ⟨.refl, KillSwitchJournal.Grown.events_grown hphase⟩
  | stale call started looked =>
    rw [hp] at hphase
    rw [SwitchSystem.proceed_stale hp]
    exact h.setObject ⟨List.prefix_rfl, rfl, rfl, hphase.1, trivial⟩
  | refreshed call started =>
    rcases SwitchSystem.proceed_refreshed journal now hp with
      heq | ⟨event, hdecide, heq⟩
    · rw [heq]
      exact h.setPhase trivial
    · rw [heq]
      apply h.setPhase
      rw [hstate] at hdecide
      exact decide_journalise hdecide
  | appending event =>
    rw [SwitchSystem.proceed_appending hp]
    apply AllGrounded.setPhase
    · intro o'
      exact (h o').append now event
    · trivial
  | appended =>
    rw [SwitchSystem.proceed_appended hp]
    exact h.setObject ⟨List.prefix_rfl, rfl, hfingerprint, hlooked, trivial⟩
  | replayed =>
    rw [SwitchSystem.proceed_replayed hp]
    exact h.setObject ⟨hview, hstate, rfl, .refl, trivial⟩

theorem grounded_step (h : AllGrounded journal s) (e : ℕ × SwitchMove) :
    AllGrounded journal (s.step journal e) := by
  obtain ⟨o, move⟩ := e
  cases move with
  | proceed now => exact grounded_proceed h o now
  | call call =>
    unfold SwitchSystem.step
    dsimp only
    split
    · exact h.setPhase (Relation.ReflTransGen.refl : journal.Grown s.journal s.journal)
    · exact h

omit [DecidableEq F] in
theorem grounded_fresh (j : J) : AllGrounded journal (SwitchSystem.fresh journal j) :=
  fun _ => ⟨List.nil_prefix, rfl, rfl, .refl, trivial⟩

section Fresh

variable (journal)

/-- What the object has replayed includes what its cached fingerprint covers, and
once it has refreshed, what the journal held as its call began. -/
def Covered (looked : J) (view : List KillSwitchEvent) : SwitchPhase J → Prop
  | .absent | .opening _ => True
  | .refreshed _ started =>
    journal.events looked <+: view ∧ journal.events started <+: view
  | _ => journal.events looked <+: view

def AllCovered (s : SwitchSystem J F) : Prop :=
  ∀ o, Covered journal (s.objects o).looked (s.objects o).view (s.objects o).phase

/-- An answer of `allows` is read off rows that include every row journalled before
the call. -/
def AnswerFresh (s : SwitchSystem J F) (e : ℕ × SwitchMove) : Prop :=
  ∀ kind started a, s.answered e = some (kind, started, a) →
    ∃ rows, journal.events started <+: rows ∧ rows <+: journal.events s.journal ∧
      a = (replay rows).allows kind

def NeverBlind (s : SwitchSystem J F) : Prop :=
  ∀ o, (s.objects o).phase = .idle →
    (s.objects o).fingerprint = journal.fingerprint (s.objects o).looked ∧
      journal.events (s.objects o).looked <+: (s.objects o).view

def FreshStep (s : SwitchSystem J F) (e : ℕ × SwitchMove) : Prop :=
  AnswerFresh journal s e ∧ NeverBlind journal (s.step journal e)

def NoRowBetween (s : SwitchSystem J F) : ℕ × SwitchMove → Prop
  | (o, .proceed _) =>
    (s.objects o).phase = .replayed → (s.objects o).view = journal.events s.journal
  | _ => True

end Fresh

omit [DecidableEq F] in
theorem AllCovered.setObject (h : AllCovered journal s)
    (hk : Covered journal k.looked k.view k.phase) : AllCovered journal (s.setObject o k) := by
  intro o'
  by_cases ho : o' = o
  · subst ho
    simpa [SwitchSystem.setObject] using hk
  · simpa [SwitchSystem.setObject, ho] using h o'

theorem covered_proceed (hg : AllGrounded journal s) (h : AllCovered journal s) (o : ℕ)
    (now : Timestamp)
    (hrow : NoRowBetween journal s (o, .proceed now)) :
    AllCovered journal (s.proceed journal o now) := by
  obtain ⟨hview, -, hfingerprint, hlooked, hphase⟩ := hg o
  have hcovered := h o
  have hahead := hlooked.events_grown
  cases hp : (s.objects o).phase with
  | absent =>
    rw [SwitchSystem.proceed_absent hp]
    exact h.setObject trivial
  | opening looked =>
    rw [hp] at hphase
    rw [SwitchSystem.proceed_opening hp]
    exact h.setObject (KillSwitchJournal.Grown.events_grown hphase)
  | idle =>
    rw [SwitchSystem.proceed_idle hp]
    exact h
  | called call started =>
    rw [hp] at hphase hcovered
    rw [SwitchSystem.proceed_called hp]
    split
    · rename_i heq
      -- An unchanged fingerprint says the journal is the one already replayed.
      have hsame := hlooked.eq_of_fingerprint (hfingerprint.symm.trans heq.symm)
      have hstarted := KillSwitchJournal.Grown.events_grown hphase
      rw [← hsame] at hstarted
      exact h.setObject ⟨hcovered, hstarted.trans hcovered⟩
    · exact h.setObject hcovered
  | stale call started looked =>
    rw [hp] at hphase
    rw [SwitchSystem.proceed_stale hp]
    have hlooked' := hphase.1.events_grown
    exact h.setObject ⟨hlooked', hphase.2.trans hlooked'⟩
  | refreshed call started =>
    rw [hp] at hcovered
    rcases SwitchSystem.proceed_refreshed journal now hp with
      heq | ⟨event, -, heq⟩
    · rw [heq]
      exact h.setObject hcovered.1
    · rw [heq]
      exact h.setObject hcovered.1
  | appending event =>
    rw [hp] at hcovered
    rw [SwitchSystem.proceed_appending hp]
    exact AllCovered.setObject (s := { s with
      journal := journal.append s.journal now event
      appended := s.appended ++ [(event, (s.objects o).view)] }) h hcovered
  | appended =>
    rw [SwitchSystem.proceed_appended hp]
    exact h.setObject hahead
  | replayed =>
    rw [SwitchSystem.proceed_replayed hp]
    apply h.setObject
    exact (hrow hp) ▸ List.prefix_rfl

theorem covered_step (hg : AllGrounded journal s) (h : AllCovered journal s) (e : ℕ × SwitchMove)
    (hrow : NoRowBetween journal s e) : AllCovered journal (s.step journal e) := by
  obtain ⟨o, move⟩ := e
  cases move with
  | proceed now => exact covered_proceed hg h o now hrow
  | call call =>
    have hcovered := h o
    unfold SwitchSystem.step
    dsimp only
    split
    · rename_i hp _
      rw [hp] at hcovered
      exact h.setObject hcovered
    · exact h

omit [DecidableEq F] in
theorem neverBlind_of_covered (hg : AllGrounded journal s)
    (h : AllCovered journal s) : NeverBlind journal s := by
  intro o hp
  have hcovered := h o
  rw [hp] at hcovered
  exact ⟨(hg o).fingerprint, hcovered⟩

omit [DecidableEq F] in
theorem answerFresh_of_covered (hg : AllGrounded journal s) (h : AllCovered journal s)
    (e : ℕ × SwitchMove) : AnswerFresh journal s e := by
  intro kind started a ha
  obtain ⟨o, move⟩ := e
  cases move with
  | call call => cases ha
  | proceed now =>
    have hcovered := h o
    unfold SwitchSystem.answered at ha
    dsimp only at ha
    split at ha
    · rename_i kind' started' hp
      simp only [SwitchCall.decide, Option.some.injEq, Prod.mk.injEq] at ha
      obtain ⟨rfl, rfl, rfl⟩ := ha
      rw [hp] at hcovered
      exact ⟨(s.objects o).view, hcovered.2, (hg o).view, by rw [(hg o).state]⟩
    · cases ha

theorem noRowBetween_of_neverBlind (hg : AllGrounded journal s) {e : ℕ × SwitchMove}
    (h : NeverBlind journal (s.step journal e)) : NoRowBetween journal s e := by
  obtain ⟨o, move⟩ := e
  cases move with
  | call call => trivial
  | proceed now =>
    intro hp
    have hblind : NeverBlind journal (s.proceed journal o now) := h
    rw [SwitchSystem.proceed_replayed hp] at hblind
    have hafter := hblind o
    simp only [SwitchSystem.setObject, Function.update_self] at hafter
    have hcovers := (hafter trivial).2
    exact (hg o).view.eq_of_length_le hcovers.length_le

/-- In every run the answers are those of the whole journal and no object is blind to a later row,
exactly when no row comes between a replay and the reading of the fingerprint after it. -/
theorem allows_fresh_iff (j : J) (run : List (ℕ × SwitchMove)) :
    Along (FreshStep journal) (SwitchSystem.step journal) (.fresh journal j) run ↔
      Along (NoRowBetween journal) (SwitchSystem.step journal) (.fresh journal j) run := by
  refine (along_iff_of_invariant
    (I := fun s => AllGrounded journal s ∧ AllCovered journal s) ?_ ?_ ?_ run).symm
  · intro s e hs hrow
    exact ⟨grounded_step hs.1 e, covered_step hs.1 hs.2 e hrow⟩
  · intro s e hs
    constructor
    · intro hrow
      refine ⟨answerFresh_of_covered hs.1 hs.2 e, ?_⟩
      exact neverBlind_of_covered (grounded_step hs.1 e) (covered_step hs.1 hs.2 e hrow)
    · intro hfresh
      exact noRowBetween_of_neverBlind hs.1 hfresh.2
  · exact ⟨grounded_fresh j, fun _ => trivial⟩

/-- Object 0 re-arms; object 1 activates FLATTEN before object 0 reads its closing
fingerprint; object 0 is then asked for a new position. -/
def lostWindow : List (ℕ × SwitchMove) :=
  let on (o : ℕ) := (o, SwitchMove.proceed 0)
  let activate := SwitchCall.activate .flatten "operator" "fast market" none 0 []
  [on 0, on 0, on 1, on 1, (0, .call activate), on 0, on 0, on 0, on 0, on 0,
   (0, .call (.deactivate "operator" "calm again" none [])), on 0, on 0, on 0, on 0,
   (1, .call activate), on 1, on 1, on 1, on 1, on 1, on 1,
   on 0, (0, .call (.allows .open_)), on 0]

abbrev sharedFile : KillSwitchJournal KillSwitchFile (ℕ × ℕ × Timestamp) := fileJournal fun _ => 200

theorem stale_allows_after_append : ¬ Along (FreshStep sharedFile) (SwitchSystem.step sharedFile)
      (.fresh sharedFile sharedFile.empty) (lostWindow ++ [(0, .proceed 0)]) := by
  intro h
  obtain ⟨rows, hstarted, hrows, hanswer⟩ := h.at_last.1 .open_ _ _ rfl
  have hall := hrows.eq_of_length_le hstarted.length_le
  rw [hall] at hanswer
  cases hanswer

section Weaken

/-- Row `k` deactivates, on a view that already held row `i`. -/
def DeactivatesSeen (rows : List (KillSwitchEvent × List KillSwitchEvent)) (i k : ℕ) : Prop :=
  ∃ r, rows[k]? = some r ∧ r.1.deactivates = true ∧ i < r.2.length

def Kept (rows : List (KillSwitchEvent × List KillSwitchEvent)) : Prop :=
  ∀ i n, i < n → n ≤ rows.length → (∃ r, rows[i]? = some r ∧ r.1.flattens = true) →
    (∀ k, i < k → k < n → ¬ DeactivatesSeen rows i k) →
    (replay ((rows.take n).map Prod.fst)).flattening = true

variable (journal) in
/-- After the step the journal has lost no row, and no FLATTEN activation in it was
weakened by an object that had not seen it. -/
def KeptStep (s : SwitchSystem J F) (e : ℕ × SwitchMove) : Prop :=
  journal.events s.journal <+: journal.events (s.step journal e).journal ∧
    journal.events (s.step journal e).journal = (s.step journal e).appended.map Prod.fst ∧
    Kept (s.step journal e).appended

variable (journal) in
/-- A row other than a FLATTEN activation is appended while the switch flattens only
by an object that has replayed the row it flattens by. -/
def SeesFlatten (s : SwitchSystem J F) : ℕ × SwitchMove → Prop
  | (o, .proceed _) =>
    match (s.objects o).phase with
    | .appending event =>
      event.flattens = false → (replay (journal.events s.journal)).flattening = true →
        journal.events s.journal <+: (s.objects o).view
    | _ => True
  | _ => True

variable {rows : List (KillSwitchEvent × List KillSwitchEvent)}

theorem last_flattens (h : (replay (rows.map Prod.fst)).flattening = true) :
    ∃ r, rows[rows.length - 1]? = some r ∧ r.1.flattens = true := by
  rw [flattening_replay, List.getLast?_map] at h
  cases hr : rows.getLast? with
  | none => simp [hr] at h
  | some r =>
    refine ⟨r, ?_, by simpa [hr] using h⟩
    rw [← List.getLast?_eq_getElem?]
    exact hr

/-- One more row keeps every activation if and only if, while the switch flattens, it
flattens too or deactivates on a view of everything. -/
theorem kept_append (h : Kept rows) {e : KillSwitchEvent} {v : List KillSwitchEvent} :
    Kept (rows ++ [(e, v)]) ↔ ((replay (rows.map Prod.fst)).flattening = true →
        e.flattens = true ∨ (e.deactivates = true ∧ rows.length ≤ v.length)) := by
  have hlast : (rows ++ [(e, v)])[rows.length]? = some (e, v) := List.getElem?_concat_length
  have hget : ∀ k, k < rows.length → (rows ++ [(e, v)])[k]? = rows[k]? := by
    intro k hk
    exact List.getElem?_append_left hk
  have hfull : (replay (((rows ++ [(e, v)]).take (rows.length + 1)).map Prod.fst)).flattening =
      e.flattens := by
    rw [List.take_of_length_le (by simp), List.map_append]
    exact (congrArg _ (replay_append _ _)).trans (flattening_after _ _)
  constructor
  · intro hkept hflat
    by_contra hweak
    rw [not_or] at hweak
    obtain ⟨r, hr, hrf⟩ := last_flattens hflat
    have hpos : 0 < rows.length := by
      rcases rows with _ | ⟨r, rows⟩
      · simp at hr
      · simp
    have hrow := hkept (rows.length - 1) (rows.length + 1) (by omega) (by simp)
      ⟨r, by rw [hget _ (by omega)]; exact hr, hrf⟩ (by
        rintro k hik hkn ⟨r', hr', hdeact, hseen⟩
        obtain rfl : k = rows.length := by omega
        rw [hlast] at hr'
        obtain rfl := Option.some.inj hr'
        exact hweak.2 ⟨hdeact, by simp only at hseen; omega⟩)
    rw [hfull] at hrow
    exact hweak.1 hrow
  · intro hnew i n hin hn hi hunseen
    rw [List.length_append, List.length_singleton] at hn
    by_cases hold : n ≤ rows.length
    · rw [List.take_append_of_le_length hold]
      refine h i n hin hold (by rwa [hget i (by omega)] at hi) ?_
      intro k hik hkn hk
      apply hunseen k hik hkn
      unfold DeactivatesSeen at hk ⊢
      rwa [hget k (by omega)]
    · obtain rfl : n = rows.length + 1 := by omega
      rw [hfull]
      by_cases hi' : i = rows.length
      · subst hi'
        rw [hlast] at hi
        obtain ⟨r, hr, hrf⟩ := hi
        obtain rfl := Option.some.inj hr
        exact hrf
      · have hflat := h i rows.length (by omega) le_rfl (by rwa [hget i (by omega)] at hi) (by
          intro k hik hkn hk
          apply hunseen k hik (by omega)
          unfold DeactivatesSeen at hk ⊢
          rwa [hget k hkn])
        rw [List.take_length] at hflat
        rcases hnew hflat with he | ⟨hdeact, hseen⟩
        · exact he
        · exact absurd ⟨(e, v), hlast, hdeact, (by omega : i < v.length)⟩
            (hunseen rows.length (by omega) (by omega))

/-- Every row of the journal was appended by the run, and every FLATTEN activation in
it still stands. -/
structure Journalled (journal : KillSwitchJournal J F) (s : SwitchSystem J F) : Prop where
  grounded : AllGrounded journal s
  rows : journal.events s.journal = s.appended.map Prod.fst
  kept : Kept s.appended

variable (journal) in
theorem step_journal_cases (s : SwitchSystem J F) (e : ℕ × SwitchMove) :
    (∃ o now event, e = (o, .proceed now) ∧ (s.objects o).phase = .appending event ∧
      (s.step journal e).journal = journal.append s.journal now event ∧
      (s.step journal e).appended = s.appended ++ [(event, (s.objects o).view)]) ∨
    (SeesFlatten journal s e ∧ (s.step journal e).journal = s.journal ∧
      (s.step journal e).appended = s.appended) := by
  obtain ⟨o, move⟩ := e
  cases move with
  | call call =>
    right
    unfold SwitchSystem.step
    dsimp only
    split <;> exact ⟨trivial, rfl, rfl⟩
  | proceed now =>
    cases hp : (s.objects o).phase with
    | appending event =>
      left
      refine ⟨o, now, event, rfl, hp, ?_, ?_⟩
      · change (s.proceed journal o now).journal = _
        rw [SwitchSystem.proceed_appending hp]
        rfl
      · change (s.proceed journal o now).appended = _
        rw [SwitchSystem.proceed_appending hp]
        rfl
    | _ =>
      right
      refine ⟨by simp only [SeesFlatten, hp], ?_⟩
      simp only [SwitchSystem.step, SwitchSystem.proceed, hp]
      (repeat' split) <;> simp [SwitchSystem.setPhase, SwitchSystem.setObject]

theorem keptStep_iff {s : SwitchSystem J F} (h : Journalled journal s) (e : ℕ × SwitchMove) :
    KeptStep journal s e ↔ SeesFlatten journal s e := by
  unfold KeptStep
  rcases step_journal_cases journal s e with
    ⟨o, now, event, rfl, hp, hj, ha⟩ | ⟨hsees, hj, ha⟩
  · have hg := h.grounded o
    have hphase := hg.phase
    rw [hp] at hphase
    have hlen : (journal.events s.journal).length = s.appended.length := by
      rw [h.rows, List.length_map]
    have hrows : journal.events (s.step journal (o, .proceed now)).journal =
        (s.step journal (o, .proceed now)).appended.map Prod.fst := by
      rw [hj, ha, journal.events_append, h.rows, List.map_append, List.map_singleton]
    have hbegins : journal.events s.journal <+:
        journal.events (s.step journal (o, .proceed now)).journal := by
      rw [hj, journal.events_append]
      exact List.prefix_append _ _
    have hsees : SeesFlatten journal s (o, .proceed now) ↔
        (event.flattens = false → (replay (journal.events s.journal)).flattening = true →
          journal.events s.journal <+: (s.objects o).view) := by
      simp only [SeesFlatten, hp]
    rw [hsees, ha, kept_append h.kept, ← h.rows]
    constructor
    · rintro ⟨-, -, hkept⟩ hnot hflat
      rcases hkept hflat with hevent | ⟨-, hseen⟩
      · rw [hevent] at hnot
        cases hnot
      · have hwhole := hg.view.eq_of_length_le (hlen ▸ hseen)
        exact hwhole ▸ List.prefix_rfl
    · intro hview
      refine ⟨hbegins, ha ▸ hrows, ?_⟩
      intro hflat
      by_cases hevent : event.flattens = true
      · exact .inl hevent
      · right
        have hseen := hview (by simpa using hevent) hflat
        rcases hphase with hflattens | hdeact | hchecked
        · exact absurd hflattens hevent
        · exact ⟨hdeact, hlen ▸ hseen.length_le⟩
        · -- The check was made on the whole journal, which flattens.
          have hwhole := hg.view.eq_of_length_le hseen.length_le
          rw [hwhole, hflat] at hchecked
          cases hchecked
  · rw [hj, ha]
    exact ⟨fun _ => hsees, fun _ => ⟨List.prefix_rfl, h.rows, h.kept⟩⟩

/-- In every run no row is lost and no flatten is weakened by an object that had not seen it,
exactly when an object appends past a flatten only after replaying it. -/
theorem flatten_kept_iff (run : List (ℕ × SwitchMove)) :
    Along (KeptStep journal) (SwitchSystem.step journal) (.fresh journal journal.empty) run ↔
      Along (SeesFlatten journal) (SwitchSystem.step journal) (.fresh journal journal.empty)
        run := by
  refine along_iff_of_invariant (I := Journalled journal) ?_ ?_ ?_ run
  · intro s e h hkept
    exact ⟨grounded_step h.grounded e, hkept.2.1, hkept.2.2⟩
  · intro s e h
    exact keptStep_iff h e
  · refine ⟨grounded_fresh _, journal.events_empty, ?_⟩
    intro i n hin hn
    exact absurd hn (by simp [SwitchSystem.fresh]; omega)

def uncheckedPause : List (ℕ × SwitchMove) :=
  let on (o : ℕ) := (o, SwitchMove.proceed 0)
  [on 0, on 0, on 1, on 1, (0, .call (.activate .pause "operator" "spread" none 0 [])), on 0, on 0,
   (1, .call (.activate .flatten "operator" "gap" none 0 [])), on 1, on 1, on 1]

theorem pause_appended_over_flatten : ¬ Along (KeptStep sharedFile) (SwitchSystem.step sharedFile)
      (.fresh sharedFile sharedFile.empty) (uncheckedPause ++ [(0, .proceed 0)]) := by
  intro h
  have hkept := h.at_last.2.2 0 2 (by decide) (by decide) ⟨_, rfl, rfl⟩ (by
    rintro k hik hkn ⟨r, hr, hdeact, -⟩
    obtain rfl : k = 1 := by omega
    obtain rfl := Option.some.inj hr
    cases hdeact)
  cases hkept

end Weaken

end SwitchRuns

end Fiboki
