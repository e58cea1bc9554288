import Fiboki.Lib.Run
import Fiboki.Lifecycle.State

/-!
What no sequence of registrations and moves can do to a lifecycle: reach LIVE
without a named human's authorisation, gain more than one rung in one move, recover
above the rung a strategy left, or leave RETIRED.
-/

namespace Fiboki

open Wire Text StrategyLifecycle

variable {f t : StrategyLifecycle} {e : LifecycleTransition}

theorem edge_some (h : edge f t = some e) : e.fromState = f ∧ e.toState = t := by
  unfold edge at h
  split_ifs at h
  have := List.find?_some h
  simpa using this

theorem edge_retired : ∀ t, edge retired t = none := by decide

structure EdgeLaw (f t : StrategyLifecycle) (e : LifecycleTransition) : Prop where
  requested : e.kind ≠ .registration
  rises : f ∈ ladder → ladderIndex t ≤ ladderIndex f + 1
  intoHealth : t ∈ healthStates → f ∈ runningStates ∨ f ∈ healthStates
  -- Off a health state a move is a recovery, or goes below every running state.
  fromHealth : f ∈ healthStates → t ∈ ladder →
    e.kind = .recovery ∨ ∀ c ∈ runningStates, ladderIndex t ≤ ladderIndex c
  -- Into a running state a move asks for a human, or steps down from a higher one.
  intoRunning : t ∈ runningStates → e.requiresHumanActor ∨
    (e.kind = .demotion ∧ f ∈ runningStates ∧ ladderIndex t < ladderIndex f)

instance (f t : StrategyLifecycle) (e : LifecycleTransition) : Decidable (EdgeLaw f t e) :=
  decidable_of_iff (e.kind ≠ .registration ∧ (f ∈ ladder → ladderIndex t ≤ ladderIndex f + 1) ∧
      (t ∈ healthStates → f ∈ runningStates ∨ f ∈ healthStates) ∧
      (f ∈ healthStates → t ∈ ladder →
        e.kind = .recovery ∨ ∀ c ∈ runningStates, ladderIndex t ≤ ladderIndex c) ∧
      (t ∈ runningStates → e.requiresHumanActor ∨
        (e.kind = .demotion ∧ f ∈ runningStates ∧ ladderIndex t < ladderIndex f)))
    ⟨fun ⟨h1, h2, h3, h4, h5⟩ => ⟨h1, h2, h3, h4, h5⟩, fun h => ⟨h.1, h.2, h.3, h.4, h.5⟩⟩

theorem edgeLaw (h : edge f t = some e) : EdgeLaw f t e := by
  have htable : ∀ f t, ∀ e ∈ edge f t, EdgeLaw f t e := by decide
  exact htable f t e h

theorem running_ladder : ∀ s ∈ runningStates, s ∈ ladder := by decide

theorem health_not_ladder : ∀ s ∈ healthStates, s ∉ ladder := by decide

theorem cases_states : ∀ s, s ∈ ladder ∨ s ∈ healthStates ∨ s = retired := by decide

theorem index_off_ladder : ∀ s, s ∉ ladder → ladderIndex s = -1 := by decide

inductive LifecycleCall where
  | register (strategyId strategyContentHash : String) (actor : Actor) (reason : String)
      (evidence : List Evidence) (now : Timestamp)
  | transition (strategyContentHash : String) (toState : StrategyLifecycle) (actor : Actor)
      (reason : String) (evidence : List Evidence) (now : Timestamp)

namespace LifecycleCall

def hash : LifecycleCall → String
  | register _ hash _ _ _ _ => hash
  | transition hash _ _ _ _ _ => hash

def actor : LifecycleCall → Actor
  | register _ _ actor _ _ _ => actor
  | transition _ _ actor _ _ _ => actor

end LifecycleCall

namespace LifecycleStateMachine

variable {L : Type} (std : Stdlib) (store : TransitionLog L)

def perform (m : LifecycleStateMachine L) :
    LifecycleCall → LifecycleStateMachine L × Except LifecycleError StrategyRecord
  | .register id hash actor reason evidence now =>
    m.register std store id hash actor reason evidence now
  | .transition hash toState actor reason evidence now =>
    m.transition std store hash toState actor reason evidence now

def step (m : LifecycleStateMachine L) (c : LifecycleCall) : LifecycleStateMachine L :=
  (m.perform std store c).1

end LifecycleStateMachine

section Accepted

variable {L : Type} {std : Stdlib} {store : TransitionLog L} {m : LifecycleStateMachine L}

open LifecycleStateMachine

variable (store m) in
theorem write_cases (draft : List TransitionRecord → TransitionRecord)
    (apply : TransitionRecord → StrategyRecord) :
    (∃ e, m.write store draft apply = (m, .error e)) ∨ ∃ rows, store.records m.log = .ok rows ∧
        m.write store draft apply = (⟨store.append m.log (draft rows),
            m.records.set (draft rows).strategyContentHash (apply (draft rows))⟩,
            .ok (apply (draft rows))) := by
  unfold write
  cases store.records m.log with
  | error e => exact .inl ⟨e, rfl⟩
  | ok rows => exact .inr ⟨rows, rfl, rfl⟩

variable {evidence : List Evidence} {hash : String} {actor : Actor}

theorem checkLive_ok (h : checkLive std hash actor evidence = .ok ()) :
    actor.kind = .human ∧ ∃ auth, authorisationIn std evidence = some auth ∧
      auth.fits hash live = true := by
  unfold checkLive at h
  by_cases hhuman : actor.kind = .human
  · rw [if_neg (not_not.2 hhuman)] at h
    cases hauth : authorisationIn std evidence with
    | none =>
      rw [hauth] at h
      cases h
    | some auth =>
      rw [hauth] at h
      by_cases hfits : auth.fits hash live = true
      · exact ⟨hhuman, auth, rfl, hfits⟩
      · simp only [hfits] at h
        cases h
  · rw [if_pos hhuman] at h
    cases h

variable {e : LifecycleTransition}

theorem checkEdge_ok (h : checkEdge std e hash actor evidence = .ok ()) :
    e.requiresHumanActor = true → actor.kind = .human := by
  intro hreq
  by_contra hauto
  unfold checkEdge at h
  dsimp only at h
  rw [if_pos ⟨hreq, hauto⟩] at h
  cases h

variable {current : StrategyRecord}

theorem checkCeiling_ok (h : checkCeiling current e = .ok ()) (hkind : e.kind = .recovery)
    (hto : e.toState ∈ ladder)
    {ceiling : StrategyLifecycle} (hpre : current.preHealthState = some ceiling) :
    ladderIndex e.toState ≤ ladderIndex ceiling := by
  by_contra hlt
  unfold checkCeiling at h
  rw [hpre] at h
  dsimp only at h
  rw [if_pos ⟨hkind, hto, not_le.1 hlt⟩] at h
  cases h

structure Allowed (std : Stdlib) (current : StrategyRecord) (hash : String)
    (toState : StrategyLifecycle) (actor : Actor) (evidence : List Evidence)
    (e : LifecycleTransition) : Prop where
  isEdge : edge current.state toState = some e
  liveAuthorised : toState = live → actor.kind = .human ∧
    ∃ auth, authorisationIn std evidence = some auth ∧ auth.fits hash live = true
  human : e.requiresHumanActor = true → actor.kind = .human
  ceiling : e.kind = .recovery → toState ∈ ladder → ∀ c, current.preHealthState = some c →
    ladderIndex toState ≤ ladderIndex c

theorem checkTransition_ok {toState : StrategyLifecycle}
    (h : checkTransition std current hash toState actor evidence = .ok e) :
    Allowed std current hash toState actor evidence e := by
  unfold checkTransition at h
  cases hedge : edge current.state toState with
  | none =>
    rw [hedge] at h
    cases h
  | some e' =>
    rw [hedge] at h
    dsimp only at h
    by_cases hcited : evidence = []
    · rw [if_pos hcited] at h
      cases h
    rw [if_neg hcited] at h
    obtain ⟨hlive, hrest⟩ : (toState = live → checkLive std hash actor evidence = .ok ()) ∧
        (do checkEdge std e' hash actor evidence
            checkCeiling current e'
            pure e') = Except.ok e := by
      by_cases hto : toState = live
      · rw [if_pos hto] at h
        obtain ⟨_, hlive, hrest⟩ := bind_ok h
        exact ⟨fun _ => hlive, hrest⟩
      · rw [if_neg hto] at h
        exact ⟨fun h' => absurd h' hto, h⟩
    obtain ⟨_, hcheck, hrest⟩ := bind_ok hrest
    obtain ⟨_, hceiling, hrest⟩ := bind_ok hrest
    obtain rfl : e' = e := Except.ok.inj hrest
    refine ⟨hedge, fun hto => checkLive_ok (hlive hto), checkEdge_ok hcheck, ?_⟩
    intro hkind hto c hpre
    have hend := (edge_some hedge).2
    rw [← hend] at hto ⊢
    exact checkCeiling_ok hceiling hkind hto hpre

variable (std store m) in
theorem register_cases (id hash : String) (actor : Actor) (reason : String)
    (evidence : List Evidence) (now : Timestamp) :
    (∃ e, m.register std store id hash actor reason evidence now = (m, .error e)) ∨
      ∃ rows, store.records m.log = .ok rows ∧ m.records.get hash = none ∧
        m.register std store id hash actor reason evidence now =
          (⟨store.append m.log (registrationRecord std id hash actor reason evidence now rows),
            m.records.set hash
              (.opened (registrationRecord std id hash actor reason evidence now rows))⟩,
            .ok (.opened (registrationRecord std id hash actor reason evidence now rows))) := by
  unfold register
  cases hget : m.records.get hash with
  | some current => exact .inl ⟨_, rfl⟩
  | none =>
    by_cases hblank : isBlank hash = true
    · exact .inl ⟨_, if_pos hblank⟩
    · dsimp only
      rw [if_neg hblank]
      rcases write_cases store m
        (registrationRecord std id hash actor reason evidence now) .opened with
        ⟨e, he⟩ | ⟨rows, hread, hw⟩
      · exact .inl ⟨e, he⟩
      · exact .inr ⟨rows, hread, rfl, hw⟩

variable (std store m) in
theorem transition_cases (hash : String) (toState : StrategyLifecycle) (actor : Actor)
    (reason : String) (evidence : List Evidence) (now : Timestamp) :
    (∃ e, m.transition std store hash toState actor reason evidence now = (m, .error e)) ∨
      ∃ rows current e, store.records m.log = .ok rows ∧ m.records.get hash = some current ∧
        Allowed std current hash toState actor evidence e ∧
        m.transition std store hash toState actor reason evidence now = (⟨store.append m.log
              (moveRecord std current hash toState e.kind actor reason evidence now rows),
            m.records.set hash (current.applied
              (moveRecord std current hash toState e.kind actor reason evidence now rows))⟩,
            .ok (current.applied
              (moveRecord std current hash toState e.kind actor reason evidence now rows))) := by
  unfold transition
  cases hget : m.records.get hash with
  | none => exact .inl ⟨_, rfl⟩
  | some current =>
    dsimp only
    cases hcheck : checkTransition std current hash toState actor evidence with
    | error e => exact .inl ⟨e, rfl⟩
    | ok e =>
      rcases write_cases store m
        (moveRecord std current hash toState e.kind actor reason evidence now)
        current.applied with ⟨err, herr⟩ | ⟨rows, hread, hw⟩
      · exact .inl ⟨err, herr⟩
      · exact .inr ⟨rows, current, e, hread, rfl, checkTransition_ok hcheck, hw⟩

/-- How an accepted call made its record, and the strategy's record after it. -/
inductive Accepted (std : Stdlib) (store : TransitionLog L) (m : LifecycleStateMachine L) :
    LifecycleCall → TransitionRecord → StrategyRecord → Prop where
  | registered {id hash : String} {actor : Actor} {reason : String} {evidence : List Evidence}
      {now : Timestamp} {rows : List TransitionRecord} (read : store.records m.log = .ok rows)
      (absent : m.records.get hash = none) :
      Accepted std store m (.register id hash actor reason evidence now)
        (registrationRecord std id hash actor reason evidence now rows)
        (.opened (registrationRecord std id hash actor reason evidence now rows))
  | moved {hash : String} {toState : StrategyLifecycle} {actor : Actor} {reason : String}
      {evidence : List Evidence} {now : Timestamp} {rows : List TransitionRecord}
      {current : StrategyRecord} {e : LifecycleTransition} (read : store.records m.log = .ok rows)
      (known : m.records.get hash = some current)
      (allowed : Allowed std current hash toState actor evidence e) :
      Accepted std store m (.transition hash toState actor reason evidence now)
        (moveRecord std current hash toState e.kind actor reason evidence now rows)
        (current.applied (moveRecord std current hash toState e.kind actor reason
          evidence now rows))

variable (std store) in
theorem perform_cases (m : LifecycleStateMachine L) (c : LifecycleCall) :
    (∃ e, m.perform std store c = (m, .error e)) ∨ ∃ record s', Accepted std store m c record s' ∧
        m.perform std store c = (⟨store.append m.log record, m.records.set c.hash s'⟩, .ok s') := by
  cases c with
  | register id hash actor reason evidence now =>
    rcases register_cases std store m id hash actor reason evidence now
      with ⟨e, he⟩ | ⟨rows, hread, habsent, hp⟩
    · exact .inl ⟨e, he⟩
    · exact .inr ⟨_, _, .registered hread habsent, hp⟩
  | transition hash toState actor reason evidence now =>
    rcases transition_cases std store m hash toState actor reason
      evidence now with ⟨e, he⟩ | ⟨rows, current, e, hread, hknown, hallowed, hp⟩
    · exact .inl ⟨e, he⟩
    · exact .inr ⟨_, _, .moved hread hknown hallowed, hp⟩

end Accepted

def LiveAuthorised (std : Stdlib) (r : TransitionRecord) : Prop :=
  r.toState = live → r.actor.kind = .human ∧ ∃ item ∈ r.evidence, item.kind = .humanAuthorisation ∧
      ∃ auth, HumanAuthorisation.fromDict std item.detail = .ok auth ∧
        auth.strategyContentHash = r.strategyContentHash ∧ auth.toState = live

def highestReached (history : List TransitionRecord) : ℤ :=
  (history.map fun r => ladderIndex r.toState).foldr max (-1)

def demotedFrom (history : List TransitionRecord) : Option StrategyLifecycle :=
  ((history.filter fun r => r.fromState ∈ ladder ∧ r.toState ∈ healthStates).getLast?).map
    TransitionRecord.fromState

theorem highestReached_snoc (history : List TransitionRecord) (r : TransitionRecord) :
    highestReached (history ++ [r]) = max (highestReached history) (ladderIndex r.toState) := by
  unfold highestReached
  induction history with
  | nil => exact max_comm _ _
  | cons a history ih =>
    rw [List.cons_append, List.map_cons, List.map_cons, List.foldr_cons, List.foldr_cons, ih,
      max_assoc]

theorem neg_one_le_highestReached (history : List TransitionRecord) :
    -1 ≤ highestReached history := by
  induction history with
  | nil => exact le_refl _
  | cons a history ih => exact le_trans ih (le_max_right _ _)

variable {history : List TransitionRecord}

variable {r : TransitionRecord}

theorem demotedFrom_snoc_leaving (hfrom : r.fromState ∈ ladder)
    (hto : r.toState ∈ healthStates) : demotedFrom (history ++ [r]) = some r.fromState := by
  unfold demotedFrom
  rw [List.filter_append, List.filter_cons_of_pos (by simpa using ⟨hfrom, hto⟩), List.filter_nil,
    List.getLast?_append]
  rfl

theorem demotedFrom_snoc_other
    (hfrom : r.fromState ∉ ladder) : demotedFrom (history ++ [r]) = demotedFrom history := by
  have hnot : ¬ (r.fromState ∈ ladder ∧ r.toState ∈ healthStates) := fun h => hfrom h.1
  unfold demotedFrom
  rw [List.filter_append, List.filter_cons_of_neg (by simpa using hnot), List.filter_nil,
    List.append_nil]

theorem authorisationIn_some {std : Stdlib} {evidence : List Evidence} {auth : HumanAuthorisation}
    (h : authorisationIn std evidence = some auth) :
    ∃ item ∈ evidence, item.kind = .humanAuthorisation ∧
      HumanAuthorisation.fromDict std item.detail = .ok auth := by
  induction evidence with
  | nil => cases h
  | cons item rest ih =>
    have hrest : authorisationIn std rest = some auth → ∃ a ∈ item :: rest,
        a.kind = .humanAuthorisation ∧ HumanAuthorisation.fromDict std a.detail = .ok auth := by
      intro hrest
      obtain ⟨a, ha, hfound⟩ := ih hrest
      exact ⟨a, List.mem_cons_of_mem _ ha, hfound⟩
    unfold authorisationIn at h
    by_cases hkind : item.kind = .humanAuthorisation
    · rw [if_neg (not_not.2 hkind)] at h
      cases hread : HumanAuthorisation.fromDict std item.detail with
      | error e =>
        rw [hread] at h
        exact hrest h
      | ok a =>
        rw [hread] at h
        obtain rfl := Option.some.inj h
        exact ⟨item, List.mem_cons_self, hkind, hread⟩
    · rw [if_pos hkind] at h
      exact hrest h

/-- The state stands no higher than the history, and in a health state the recovery
ceiling is the running state that the history left. -/
structure Earned (std : Stdlib) (hash : String) (s : StrategyRecord) : Prop where
  live : ∀ r ∈ s.history, LiveAuthorised std r
  own : ∀ r ∈ s.history, r.strategyContentHash = hash
  reached : ladderIndex s.state ≤ highestReached s.history
  left : s.state ∈ healthStates → ∃ c ∈ runningStates, s.preHealthState = some c ∧
    demotedFrom s.history = some c ∧ ladderIndex c ≤ highestReached s.history

section Step

variable {L : Type} {std : Stdlib} {store : TransitionLog L} {hash : String}
  {current : StrategyRecord} {toState : StrategyLifecycle} {actor : Actor}
  {evidence : List Evidence} {e : LifecycleTransition} {record : TransitionRecord}

theorem earned_opened (hhash : record.strategyContentHash = hash)
    (hto : record.toState = discovery) : Earned std hash (.opened record) := by
  refine ⟨?_, ?_, ?_, ?_⟩
  · intro r hr hlive
    obtain rfl := List.mem_singleton.1 hr
    rw [hto] at hlive
    cases hlive
  · intro r hr
    obtain rfl := List.mem_singleton.1 hr
    exact hhash
  · change ladderIndex discovery ≤ highestReached [record]
    unfold highestReached
    rw [List.map_singleton, hto]
    decide
  · intro hhealth
    exact absurd (show discovery ∈ healthStates from hhealth) (by decide)

theorem Allowed.liveAuthorised_record (h : Allowed std current hash toState actor evidence e)
    (hhash : record.strategyContentHash = hash) (hto : record.toState = toState)
    (hactor : record.actor = actor) (hevidence : record.evidence = evidence) :
    LiveAuthorised std record := by
  intro hlive
  rw [hto] at hlive
  obtain ⟨hhuman, auth, hauth, hfits⟩ := h.liveAuthorised hlive
  obtain ⟨item, hitem, hkind, hread⟩ := authorisationIn_some hauth
  simp only [HumanAuthorisation.fits, decide_eq_true_eq] at hfits
  rw [hactor, hevidence, hhash]
  exact ⟨hhuman, item, hitem, hkind, auth, hread, hfits⟩

theorem Allowed.recovers (h : Allowed std current hash toState actor evidence e)
    (hearned : Earned std hash current) (hfrom : current.state ∈ healthStates)
    (hto : toState ∈ ladder) :
    ∃ c ∈ runningStates, demotedFrom current.history = some c ∧
      ladderIndex c ≤ highestReached current.history ∧ ladderIndex toState ≤ ladderIndex c := by
  obtain ⟨c, hc, hpre, hleft, hreached⟩ := hearned.left hfrom
  refine ⟨c, hc, hleft, hreached, ?_⟩
  rcases (edgeLaw h.isEdge).fromHealth hfrom hto with hkind | hbelow
  · exact h.ceiling hkind hto c hpre
  · exact hbelow c hc

theorem Allowed.rises (h : Allowed std current hash toState actor evidence e)
    (hearned : Earned std hash current) :
    ladderIndex toState ≤ highestReached current.history + 1 := by
  have hlow := neg_one_le_highestReached current.history
  by_cases hto : toState ∈ ladder
  · rcases cases_states current.state with hfrom | hfrom | hfrom
    · have hrise := (edgeLaw h.isEdge).rises hfrom
      have hreached := hearned.reached
      omega
    · obtain ⟨c, -, -, hreached, hle⟩ := h.recovers hearned hfrom hto
      omega
    · have hedge := h.isEdge
      rw [hfrom, edge_retired] at hedge
      cases hedge
  · rw [index_off_ladder _ hto]
    omega

variable (current record) in
theorem applied_eq (hkind : record.kind ≠ .registration) : current.applied record =
      { current with
        state := record.toState
        history := current.history ++ [record]
        preHealthState :=
          if current.state ∈ ladder ∧ record.toState ∈ healthStates then some current.state
          else if record.toState ∈ ladder then none else current.preHealthState } := by
  unfold StrategyRecord.applied
  rw [if_neg hkind]

theorem Allowed.earned_applied (h : Allowed std current hash toState actor evidence e)
    (hearned : Earned std hash current) (hkind : record.kind = e.kind)
    (hhash : record.strategyContentHash = hash) (hfrom : record.fromState = current.state)
    (hto : record.toState = toState) (hactor : record.actor = actor)
    (hevidence : record.evidence = evidence) : Earned std hash (current.applied record) := by
  have hne : record.kind ≠ .registration := by
    rw [hkind]
    exact (edgeLaw h.isEdge).requested
  rw [applied_eq _ _ hne, hto]
  refine ⟨?_, ?_, ?_, ?_⟩
  · intro r hr
    rcases List.mem_append.1 hr with hr | hr
    · exact hearned.live r hr
    · obtain rfl := List.mem_singleton.1 hr
      exact h.liveAuthorised_record hhash hto hactor hevidence
  · intro r hr
    rcases List.mem_append.1 hr with hr | hr
    · exact hearned.own r hr
    · obtain rfl := List.mem_singleton.1 hr
      exact hhash
  · rw [highestReached_snoc, hto]
    exact le_max_right _ _
  · intro hhealth
    change toState ∈ healthStates at hhealth
    have hoff := health_not_ladder _ hhealth
    change ∃ c ∈ runningStates, (if current.state ∈ ladder ∧ toState ∈ healthStates then
      some current.state else if toState ∈ ladder then none else current.preHealthState) = some c ∧
      demotedFrom (current.history ++ [record]) = some c ∧
      ladderIndex c ≤ highestReached (current.history ++ [record])
    rw [highestReached_snoc]
    rcases (edgeLaw h.isEdge).intoHealth hhealth with hrunning | hstays
    · have hladder := running_ladder _ hrunning
      refine ⟨current.state, hrunning, if_pos ⟨hladder, hhealth⟩, ?_, ?_⟩
      · rw [← hfrom] at hladder ⊢
        exact demotedFrom_snoc_leaving hladder (hto ▸ hhealth)
      · exact le_trans hearned.reached (le_max_left _ _)
    · have hout := health_not_ladder _ hstays
      obtain ⟨c, hc, hpre, hleft, hreached⟩ := hearned.left hstays
      refine ⟨c, hc, ?_, ?_, le_trans hreached (le_max_left _ _)⟩
      · rw [if_neg (fun h => hout h.1), if_neg hoff, hpre]
      · rw [demotedFrom_snoc_other (hfrom ▸ hout), hleft]

end Step

section Run

variable {L : Type} {std : Stdlib} {store : TransitionLog L} {m : LifecycleStateMachine L}
  {c : LifecycleCall}

open LifecycleStateMachine Runs

def AllEarned (std : Stdlib) (m : LifecycleStateMachine L) : Prop :=
  ∀ hash s, m.records.get hash = some s → Earned std hash s

variable {record : TransitionRecord}

theorem Accepted.earned {s' : StrategyRecord} (h : Accepted std store m c record s')
    (hall : AllEarned std m) : Earned std c.hash s' := by
  cases h with
  | registered _ _ => exact earned_opened rfl rfl
  | moved _ known allowed =>
    exact allowed.earned_applied (hall _ _ known) rfl rfl rfl rfl rfl rfl

theorem allEarned_step (hall : AllEarned std m) (c : LifecycleCall) :
    AllEarned std (m.step std store c) := by
  unfold step
  rcases perform_cases std store m c with
    ⟨e, he⟩ | ⟨record, s', haccepted, hp⟩
  · rw [he]
    exact hall
  · rw [hp]
    intro hash s hget
    by_cases heq : c.hash = hash
    · subst heq
      rw [Dict.get_set_self] at hget
      obtain rfl := Option.some.inj hget
      exact haccepted.earned hall
    · rw [Dict.get_set_of_ne _ _ heq] at hget
      exact hall hash s hget

/-- What one call can do, whoever makes it and whatever it cites. -/
structure LadderLaw (std : Stdlib) (store : TransitionLog L) (m : LifecycleStateMachine L)
    (c : LifecycleCall) : Prop where
  refused : ∀ e, (m.perform std store c).2 = .error e → (m.perform std store c).1 = m
  written : ∀ s', (m.perform std store c).2 = .ok s' → ∃ record : TransitionRecord,
    (m.perform std store c).1 = ⟨store.append m.log record, m.records.set c.hash s'⟩ ∧
      record.toState = s'.state ∧ record.actor = c.actor ∧ record.strategyContentHash = c.hash ∧
      LiveAuthorised std record
  rises : ∀ s s', m.records.get c.hash = some s → (m.perform std store c).2 = .ok s' →
    highestReached s'.history ≤ highestReached s.history + 1
  recovers : ∀ s s', m.records.get c.hash = some s → (m.perform std store c).2 = .ok s' →
    s.state ∈ healthStates → s'.state ∈ ladder →
    ∃ rung, demotedFrom s.history = some rung ∧ ladderIndex s'.state ≤ ladderIndex rung
  automated : ∀ s', (m.perform std store c).2 = .ok s' → c.actor.kind ≠ .human →
    s'.state ∈ runningStates → ∃ s, m.records.get c.hash = some s ∧ s.state ∈ runningStates ∧
      ladderIndex s'.state < ladderIndex s.state
  absorbing : ∀ hash s, m.records.get hash = some s → s.state = retired →
    (m.perform std store c).1.records.get hash = some s

theorem ladderLaw_of_refused {e : LifecycleError} (h : m.perform std store c = (m, .error e)) :
    LadderLaw std store m c where
  refused _ _ := by rw [h]
  written s' hok := by
    rw [h] at hok
    cases hok
  rises s s' _ hok := by
    rw [h] at hok
    cases hok
  recovers s s' _ hok := by
    rw [h] at hok
    cases hok
  automated s' hok := by
    rw [h] at hok
    cases hok
  absorbing hash s hget _ := by rwa [h]

theorem ladderLaw_of_registered (absent : m.records.get c.hash = none)
    (into : record.toState = discovery) (hhash : record.strategyContentHash = c.hash)
    (hactor : record.actor = c.actor)
    (h : m.perform std store c = (⟨store.append m.log record,
      m.records.set c.hash (.opened record)⟩, .ok (.opened record))) :
    LadderLaw std store m c where
  refused e he := by
    rw [h] at he
    cases he
  written s' hok := by
    rw [h] at hok ⊢
    obtain rfl := Except.ok.inj hok
    refine ⟨record, rfl, into, hactor, hhash, ?_⟩
    intro hlive
    rw [into] at hlive
    cases hlive
  rises s s' hget := by
    rw [absent] at hget
    cases hget
  recovers s s' hget := by
    rw [absent] at hget
    cases hget
  automated s' hok _ hrunning := by
    rw [h] at hok
    obtain rfl := Except.ok.inj hok
    exact absurd (show discovery ∈ runningStates from hrunning) (by decide)
  absorbing hash s hget _ := by
    rw [h]
    have hne : c.hash ≠ hash := by
      rintro rfl
      rw [absent] at hget
      cases hget
    exact (Dict.get_set_of_ne _ _ hne).trans hget

theorem ladderLaw_of_moved (hall : AllEarned std m) {current : StrategyRecord}
    {evidence : List Evidence} {e : LifecycleTransition}
    (known : m.records.get c.hash = some current)
    (allowed : Allowed std current c.hash record.toState c.actor evidence e)
    (kind : record.kind = e.kind) (cited : record.evidence = evidence)
    (hhash : record.strategyContentHash = c.hash) (hactor : record.actor = c.actor)
    (h : m.perform std store c = (⟨store.append m.log record,
      m.records.set c.hash (current.applied record)⟩, .ok (current.applied record))) :
    LadderLaw std store m c := by
  have hearned := hall _ _ known
  have happlied := applied_eq current record (by
    rw [kind]
    exact (edgeLaw allowed.isEdge).requested)
  have hstate : (current.applied record).state = record.toState := by rw [happlied]
  have hhistory : (current.applied record).history = current.history ++ [record] := by
    rw [happlied]
  refine ⟨?_, ?_, ?_, ?_, ?_, ?_⟩
  · intro err herr
    rw [h] at herr
    cases herr
  · intro s' hok
    rw [h] at hok ⊢
    obtain rfl := Except.ok.inj hok
    exact ⟨record, rfl, hstate.symm, hactor, hhash,
      allowed.liveAuthorised_record hhash rfl hactor cited⟩
  · intro s s' hget hok
    rw [h] at hok
    obtain rfl := Except.ok.inj hok
    rw [known] at hget
    obtain rfl := Option.some.inj hget
    rw [hhistory, highestReached_snoc]
    exact max_le (by omega) (allowed.rises hearned)
  · intro s s' hget hok hhealth hladder
    rw [h] at hok
    obtain rfl := Except.ok.inj hok
    rw [known] at hget
    obtain rfl := Option.some.inj hget
    rw [hstate] at hladder ⊢
    obtain ⟨rung, -, hleft, -, hle⟩ := allowed.recovers hearned hhealth hladder
    exact ⟨rung, hleft, hle⟩
  · intro s' hok hauto hrunning
    rw [h] at hok
    obtain rfl := Except.ok.inj hok
    rw [hstate] at hrunning ⊢
    rcases (edgeLaw allowed.isEdge).intoRunning hrunning with hreq | ⟨-, hfrom, hlt⟩
    · exact absurd (allowed.human hreq) hauto
    · exact ⟨current, known, hfrom, hlt⟩
  · intro hash s hget hretired
    rw [h]
    have hne : c.hash ≠ hash := by
      rintro rfl
      rw [known] at hget
      obtain rfl := Option.some.inj hget
      have hedge := allowed.isEdge
      rw [hretired, edge_retired] at hedge
      cases hedge
    exact (Dict.get_set_of_ne _ _ hne).trans hget

theorem ladderLaw_of_allEarned (hall : AllEarned std m) (c : LifecycleCall) :
    LadderLaw std store m c := by
  rcases perform_cases std store m c with
    ⟨e, he⟩ | ⟨record, s', haccepted, hp⟩
  · exact ladderLaw_of_refused he
  · cases haccepted with
    | registered _ absent => exact ladderLaw_of_registered absent rfl rfl rfl hp
    | moved _ known allowed =>
      refine ladderLaw_of_moved hall known ?_ rfl rfl rfl rfl hp
      exact allowed

end Run

namespace LadderRuns

open LifecycleStateMachine Runs

theorem allEarned_fresh {L : Type} (std : Stdlib) (log : L) : AllEarned std ⟨log, .empty⟩ := by
  intro hash s hget
  cases hget

/-- Every call of a run obeys the law, and every record into LIVE was authorised by a
human for its own strategy. -/
theorem cannot_be_walked_into_trading {L : Type} (std : Stdlib) (store : TransitionLog L) (log : L)
    (calls : List LifecycleCall) :
    Along (LadderLaw std store) (step std store) ⟨log, .empty⟩ calls ∧
      ∀ hash s, (exec (step std store) ⟨log, .empty⟩ calls).records.get hash = some s →
        ∀ r ∈ s.history, r.strategyContentHash = hash ∧ LiveAuthorised std r := by
  constructor
  · exact along_of_invariant (I := AllEarned std) (fun m c hall => allEarned_step hall c)
      (fun m c hall => ladderLaw_of_allEarned hall c) (allEarned_fresh std log) calls
  · intro hash s hget r hr
    have hkept : ∀ m c, AllEarned std m → AllEarned std (step std store m c) :=
      fun m c hall => allEarned_step hall c
    have hall : AllEarned std (exec (step std store) ⟨log, .empty⟩ calls) :=
      exec_invariant (I := AllEarned std) hkept (allEarned_fresh std log) calls
    have hearned := hall hash s hget
    exact ⟨hearned.own r hr, hearned.live r hr⟩

def note : Evidence where
  kind := .operatorNote
  id := "note:1"
  summary := "reviewed"
  detail := .empty
  named := by decide

def operator : Actor := ⟨.human, "operator", by decide, by decide⟩

def degradationRule : Actor := ⟨.automatedRule, "lifecycle:degradation", by decide, by decide⟩

def promoteTo (toState : StrategyLifecycle) : LifecycleCall :=
  .transition "a1" toState operator "promoted" [note] 0

def promotedToShadow : List LifecycleCall :=
  [.register "trend" "a1" operator "new" [] 0, promoteTo research, promoteTo validating,
    promoteTo candidate, promoteTo paper, promoteTo shadow]

def steppedDown : LifecycleCall := .transition "a1" paper degradationRule "drifted" [note] 0

theorem rule_enters_paper : ¬ ∀ calls : List LifecycleCall,
      Along (fun m c => ∀ s', (m.perform epochStdlib inMemoryTransitionLog c).2 = .ok s' →
          s'.state ∈ runningStates → c.actor.kind = .human)
        (step epochStdlib inMemoryTransitionLog) ⟨[], .empty⟩ calls := by
  intro h
  have hlast := (h (promotedToShadow ++ [steppedDown])).at_last
  have hstate : ((perform epochStdlib inMemoryTransitionLog
      (exec (step epochStdlib inMemoryTransitionLog) ⟨[], .empty⟩ promotedToShadow)
      steppedDown).2.toOption.map StrategyRecord.state) = some paper := by
    decide
  cases hresult : (perform epochStdlib inMemoryTransitionLog
      (exec (step epochStdlib inMemoryTransitionLog) ⟨[], .empty⟩ promotedToShadow)
      steppedDown).2 with
  | error e =>
    rw [hresult] at hstate
    cases hstate
  | ok s' =>
    rw [hresult] at hstate
    have hpaper : s'.state = paper := Option.some.inj hstate
    have hhuman := hlast s' hresult (by rw [hpaper]; decide)
    cases hhuman

end LadderRuns

end Fiboki
