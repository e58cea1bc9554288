import Fiboki.Lifecycle.Degradation

/-!
The dwell time of the degradation tracker over a run of scores: a band that is entered was
supported for as long as it must be, and when a band that is supported for as long is entered.
-/

namespace Fiboki

namespace DegradationTracker

variable {config : DegradationConfig}

def Supports (config : DegradationConfig) (b : DegradationBand) (score : DegradationScore) : Prop :=
  config.minConfidence ≤ score.confidence ∧ (config.enterThreshold b).any (· ≤ score.score) = true

def Forces (current : DegradationBand) (score : DegradationScore) (forced : DegradationBand) :
    Prop :=
  score.forcedBand = some forced ∧ current.depth < forced.depth

def deeper (config : DegradationConfig) (current : DegradationBand) (q : ℚ) :
    List DegradationBand :=
  [DegradationBand.quarantined, .degraded, .watch].filter fun b =>
    current.depth < b.depth ∧ (config.enterThreshold b).any (· ≤ q)

variable {current b : DegradationBand} {q : ℚ}

theorem mem_deeper : b ∈ deeper config current q ↔
      current.depth < b.depth ∧ (config.enterThreshold b).any (· ≤ q) = true := by
  unfold deeper
  rw [List.mem_filter, decide_eq_true_iff]
  refine ⟨fun h => h.2, fun h => ⟨?_, h⟩⟩
  cases b with
  | healthy => exact absurd h.1 (Nat.not_lt_zero _)
  | watch | degraded | quarantined => simp

theorem pairwise_deeper (config : DegradationConfig) (current : DegradationBand) (q : ℚ) :
    (deeper config current q).Pairwise fun b c => c.depth < b.depth := by
  apply List.Pairwise.filter
  decide

theorem target_of_nil {current : DegradationBand} (h : deeper config current q = []) :
    (target config current q).depth ≤ current.depth := by
  unfold deeper at h
  unfold target
  dsimp only
  rw [h]
  dsimp only
  split_ifs
  · cases current <;> decide
  · exact le_rfl

theorem target_of_cons {rest : List DegradationBand}
    (h : deeper config current q = b :: rest) : target config current q = b := by
  unfold deeper at h
  unfold target
  dsimp only
  rw [h]

theorem le_target (hdeeper : current.depth < b.depth)
    (hb : (config.enterThreshold b).any (· ≤ q) = true) :
    b.depth ≤ (target config current q).depth := by
  have hmem := mem_deeper.2 ⟨hdeeper, hb⟩
  cases hlist : deeper config current q with
  | nil =>
    rw [hlist] at hmem
    cases hmem
  | cons c rest =>
    rw [target_of_cons hlist]
    have hpairwise := pairwise_deeper config current q
    rw [hlist] at hmem hpairwise
    rcases List.mem_cons.1 hmem with rfl | hrest
    · exact le_rfl
    · exact ((List.pairwise_cons.1 hpairwise).1 b hrest).le

theorem target_supported {current : DegradationBand}
    (h : current.depth < (target config current q).depth) :
    (config.enterThreshold (target config current q)).any (· ≤ q) = true := by
  cases hlist : deeper config current q with
  | nil => exact absurd (target_of_nil hlist) (not_le.2 h)
  | cons c rest =>
    rw [target_of_cons hlist]
    have hmem : c ∈ deeper config current q := by
      rw [hlist]
      exact List.mem_cons_self
    exact (mem_deeper.1 hmem).2

/-- What a score does to a tracker that does not recover by itself. -/
inductive Observes (config : DegradationConfig) (t : DegradationTracker)
    (score : DegradationScore) :
    DegradationTracker → Prop where
  | forced (f : DegradationBand) (history : List ℚ) (h : Forces t.band score f) :
      Observes config t score ⟨f, none, 0, history⟩
  | quiet (history : List ℚ) (h : ∀ f, ¬ Forces t.band score f)
      (hlow : score.confidence < config.minConfidence ∨ target config t.band score.score = t.band) :
      Observes config t score ⟨t.band, none, 0, history⟩
  | pending (history : List ℚ) (consecutive : ℕ) (h : ∀ f, ¬ Forces t.band score f)
      (hconfident : config.minConfidence ≤ score.confidence)
      (hconsecutive : consecutive =
        if t.pendingBand = some (target config t.band score.score) then t.consecutive + 1 else 1)
      (hwaits : t.band.depth < (target config t.band score.score).depth →
        consecutive < config.consecutiveToWorsen) :
      Observes config t score
        ⟨t.band, some (target config t.band score.score), consecutive, history⟩
  | moved (history : List ℚ) (h : ∀ f, ¬ Forces t.band score f)
      (hconfident : config.minConfidence ≤ score.confidence)
      (hdeeper : t.band.depth < (target config t.band score.score).depth)
      (hdwelt : config.consecutiveToWorsen ≤
        if t.pendingBand = some (target config t.band score.score) then t.consecutive + 1 else 1) :
      Observes config t score ⟨target config t.band score.score, none, 0, history⟩

theorem observe_cases (hmanual : config.allowAutomaticRecovery = false) (t : DegradationTracker)
    (score : DegradationScore) : Observes config t score (t.observe config score).2 := by
  unfold observe
  dsimp only
  cases hfilter : score.forcedBand.filter (t.band.depth < ·.depth) with
  | some f =>
    rw [Option.filter_eq_some_iff] at hfilter
    exact .forced f _ ⟨hfilter.1, of_decide_eq_true hfilter.2⟩
  | none =>
    have hnone : ∀ f, ¬ Forces t.band score f := by
      rintro f ⟨hf, hdeeper⟩
      rw [Option.filter_eq_none_iff] at hfilter
      exact hfilter f hf (decide_eq_true hdeeper)
    dsimp only
    by_cases hlow : score.confidence < config.minConfidence
    · rw [if_pos hlow]
      exact .quiet _ hnone (.inl hlow)
    rw [if_neg hlow]
    by_cases hsame : target config t.band score.score = t.band
    · rw [if_pos hsame]
      exact .quiet _ hnone (.inr hsame)
    rw [if_neg hsame]
    generalize hconsecutive : (if t.pendingBand = some (target config t.band score.score) then
      t.consecutive + 1 else 1) = consecutive
    by_cases hdeeper : t.band.depth < (target config t.band score.score).depth
    · simp only [hdeeper, if_true, not_true_eq_false, false_and, if_false]
      split_ifs with hwaits
      · exact .pending _ _ hnone (not_lt.1 hlow) hconsecutive.symm fun _ => hwaits
      · exact .moved _ hnone (not_lt.1 hlow) hdeeper (hconsecutive ▸ not_lt.1 hwaits)
    · simp only [hdeeper, hmanual, if_false, not_false_eq_true, true_and, Bool.false_eq_true,
        if_true]
      split_ifs
      · exact .pending _ _ hnone (not_lt.1 hlow) hconsecutive.symm fun h => absurd h hdeeper
      · exact .pending _ _ hnone (not_lt.1 hlow) hconsecutive.symm fun h => absurd h hdeeper

def fresh (band : DegradationBand) : DegradationTracker := ⟨band, none, 0, []⟩

def after (config : DegradationConfig) (band : DegradationBand) (scores : List DegradationScore) :
    DegradationTracker :=
  scores.foldl (fun t score => (t.observe config score).2) (fresh band)

theorem after_concat (band : DegradationBand) (scores : List DegradationScore)
    (score : DegradationScore) :
    after config band (scores ++ [score]) = ((after config band scores).observe config score).2 :=
  List.foldl_concat ..

def Dwells (config : DegradationConfig) (scores : List DegradationScore) (t : DegradationTracker) :
    Prop :=
  ∀ goal, t.pendingBand = some goal → t.band.depth < goal.depth →
    t.consecutive ≤ scores.length ∧ ∀ score ∈ scores.rtake t.consecutive, Supports config goal score

def Held (config : DegradationConfig) (b : DegradationBand) (scores : List DegradationScore) :
    Prop :=
  config.consecutiveToWorsen ≤ scores.length ∧
    ∀ score ∈ scores.rtake config.consecutiveToWorsen, Supports config b score

variable {scores : List DegradationScore}

theorem rtake_subset {m n : ℕ} (h : m ≤ n) : scores.rtake m ⊆ scores.rtake n := by
  unfold List.rtake
  apply List.Sublist.subset
  apply List.drop_sublist_drop_left
  omega

variable {t : DegradationTracker}

variable {score : DegradationScore}

theorem dwelt_concat (h : Dwells config scores t)
    (hconfident : config.minConfidence ≤ score.confidence)
    (hdeeper : t.band.depth < (target config t.band score.score).depth) {consecutive : ℕ}
    (hconsecutive : consecutive =
      if t.pendingBand = some (target config t.band score.score) then t.consecutive + 1 else 1) :
    consecutive ≤ (scores ++ [score]).length ∧ ∀ x ∈ (scores ++ [score]).rtake consecutive,
      Supports config (target config t.band score.score) x := by
  have hscore : Supports config (target config t.band score.score) score :=
    ⟨hconfident, target_supported hdeeper⟩
  rw [List.length_append, List.length_singleton]
  split_ifs at hconsecutive with hpending
  · obtain ⟨hlength, hall⟩ := h _ hpending hdeeper
    subst hconsecutive
    refine ⟨by omega, ?_⟩
    intro x hx
    rw [List.rtake_concat_succ] at hx
    rcases List.mem_append.1 hx with hx | hx
    · exact hall x hx
    · rw [List.mem_singleton.1 hx]
      exact hscore
  · subst hconsecutive
    refine ⟨by omega, ?_⟩
    intro x hx
    rw [List.rtake_concat_succ, List.rtake_zero, List.nil_append] at hx
    rw [List.mem_singleton.1 hx]
    exact hscore

theorem Dwells.observe (hmanual : config.allowAutomaticRecovery = false)
    (h : Dwells config scores t)
    (score : DegradationScore) : Dwells config (scores ++ [score]) (t.observe config score).2 := by
  have hstep := observe_cases hmanual t score
  generalize (t.observe config score).2 = t' at hstep ⊢
  intro goal hgoal hdepth
  cases hstep with
  | forced f history hforced | quiet history hnone hlow => cases hgoal
  | pending history consecutive hnone hconfident hconsecutive hwaits =>
    cases hgoal
    exact dwelt_concat h hconfident hdepth hconsecutive
  | moved history hnone hconfident hdeeper hdwelt => cases hgoal

theorem dwells_after (hmanual : config.allowAutomaticRecovery = false) (band : DegradationBand)
    (scores : List DegradationScore) : Dwells config scores (after config band scores) := by
  induction scores using List.reverseRecOn with
  | nil =>
    intro goal hgoal
    cases hgoal
  | append_singleton scores score ih =>
    rw [after_concat]
    exact ih.observe hmanual score

theorem observe_deepens (hmanual : config.allowAutomaticRecovery = false)
    (h : Dwells config scores t)
    (score : DegradationScore) :
    t.band.depth ≤ (t.observe config score).2.band.depth ∧
    (t.band.depth < (t.observe config score).2.band.depth →
      score.forcedBand = some (t.observe config score).2.band ∨
      Held config (t.observe config score).2.band (scores ++ [score])) := by
  have hstep := observe_cases hmanual t score
  generalize (t.observe config score).2 = t' at hstep ⊢
  cases hstep with
  | forced f history hforced => exact ⟨hforced.2.le, fun _ => .inl hforced.1⟩
  | quiet history hnone hlow => exact ⟨le_rfl, fun hlt => absurd hlt (lt_irrefl _)⟩
  | pending history consecutive hnone hconfident hconsecutive hwaits =>
    exact ⟨le_rfl, fun hlt => absurd hlt (lt_irrefl _)⟩
  | moved history hnone hconfident hdeeper hdwelt =>
    refine ⟨hdeeper.le, fun _ => .inr ?_⟩
    obtain ⟨hlength, hall⟩ := dwelt_concat h hconfident hdeeper rfl
    exact ⟨hdwelt.trans hlength, fun x hx => hall x (rtake_subset hdwelt hx)⟩

def Switches (config : DegradationConfig) (t : DegradationTracker) (score : DegradationScore) :
    Prop :=
  config.minConfidence ≤ score.confidence ∧
    t.band.depth < (target config t.band score.score).depth ∧
    ∃ p, t.pendingBand = some p ∧ t.band.depth < p.depth ∧ p ≠ target config t.band score.score

def Undercuts (config : DegradationConfig) (t : DegradationTracker) (score : DegradationScore) :
    Prop :=
  ∃ f, Forces t.band score f ∧ ∃ b, f.depth < b.depth ∧ Supports config b score

def Steady (config : DegradationConfig) (band : DegradationBand) (scores : List DegradationScore) :
    Prop :=
  ∀ before score rest, scores = before ++ score :: rest →
    ¬ Switches config (after config band before) score ∧
    ¬ Undercuts config (after config band before) score

def Counted (config : DegradationConfig) (scores : List DegradationScore) (t : DegradationTracker) :
    Prop :=
  ∀ b n, t.band.depth < b.depth → n ≤ scores.length →
    (∀ score ∈ scores.rtake n, Supports config b score) →
    n = 0 ∨ ∃ p, t.pendingBand = some p ∧ t.band.depth < p.depth ∧ n ≤ t.consecutive ∧
      t.consecutive < config.consecutiveToWorsen

theorem Counted.observe (hmanual : config.allowAutomaticRecovery = false)
    (h : Counted config scores t)
    (hswitches : ¬ Switches config t score)
    (hundercuts : ¬ Undercuts config t score) :
    Counted config (scores ++ [score]) (t.observe config score).2 := by
  have hstep := observe_cases hmanual t score
  generalize (t.observe config score).2 = t' at hstep ⊢
  intro b n hb hn hall
  cases n with
  | zero => exact .inl rfl
  | succ n =>
    right
    rw [List.rtake_concat_succ] at hall
    rw [List.length_append, List.length_singleton] at hn
    have hscore : Supports config b score := hall score (List.mem_append_right _ (by simp))
    have hearlier : ∀ x ∈ scores.rtake n, Supports config b x :=
      fun x hx => hall x (List.mem_append_left _ hx)
    cases hstep with
    | forced f history hforced => exact absurd ⟨f, hforced, b, hb, hscore⟩ hundercuts
    | quiet history hnone hlow =>
      have htarget := le_target hb hscore.2
      rcases hlow with hlow | hlow
      · exact absurd hscore.1 (not_le.2 hlow)
      · rw [hlow] at htarget
        exact absurd hb (not_lt.2 htarget)
    | pending history consecutive hnone hconfident hconsecutive hwaits =>
      have hdeeper := lt_of_lt_of_le hb (le_target hb hscore.2)
      refine ⟨_, rfl, hdeeper, ?_, hwaits hdeeper⟩
      show n + 1 ≤ consecutive
      rcases h b n hb (by omega) hearlier with rfl | ⟨p, hp, hpdepth, hcount, -⟩
      · split_ifs at hconsecutive <;> omega
      · have hgoal : p = target config t.band score.score := by
          by_contra hne
          exact hswitches ⟨hconfident, hdeeper, p, hp, hpdepth, hne⟩
        rw [hp, hgoal, if_pos rfl] at hconsecutive
        omega
    | moved history hnone hconfident hdeeper hdwelt =>
      have hlt : (target config t.band score.score).depth < b.depth := hb
      exact absurd (le_target (hdeeper.trans hlt) hscore.2) (not_le.2 hlt)

theorem counted_after (hmanual : config.allowAutomaticRecovery = false) (band : DegradationBand)
    (hsteady : Steady config band scores) : Counted config scores (after config band scores) := by
  induction scores using List.reverseRecOn with
  | nil =>
    intro b n _ hn _
    exact .inl (Nat.le_zero.1 hn)
  | append_singleton scores score ih =>
    obtain ⟨hswitches, hundercuts⟩ := hsteady scores score [] rfl
    rw [after_concat]
    apply Counted.observe hmanual _ hswitches hundercuts
    apply ih
    intro before x rest hscores
    exact hsteady before x (rest ++ [score]) (by rw [hscores]; simp)

/-- Without automatic recovery a band never becomes shallower, becomes deeper only when it is
forced or was held, and in a steady run is as deep as every band that was held. -/
theorem hysteresis (config : DegradationConfig) (hmanual : config.allowAutomaticRecovery = false)
    (band : DegradationBand) (scores : List DegradationScore) :
    (∀ score, (after config band scores).band.depth ≤
        (after config band (scores ++ [score])).band.depth ∧
      ((after config band scores).band.depth < (after config band (scores ++ [score])).band.depth →
        score.forcedBand = some (after config band (scores ++ [score])).band ∨
        Held config (after config band (scores ++ [score])).band (scores ++ [score]))) ∧
    (Steady config band scores → ∀ b, Held config b scores →
      b.depth ≤ (after config band scores).band.depth) := by
  constructor
  · intro score
    rw [after_concat]
    exact observe_deepens hmanual (dwells_after hmanual band scores) score
  · intro hsteady b hheld
    by_contra hlt
    have hdwells := config.dwells.1
    rcases counted_after hmanual band hsteady b _ (not_le.1 hlt) hheld.1 hheld.2 with
      hzero | ⟨p, -, -, hcount, hfew⟩
    · omega
    · omega

def scored (q : ℚ) : DegradationScore := ⟨q, 1, [], none⟩

/-- Two scores above the entry of DEGRADED, one of them above that of QUARANTINED. -/
theorem held_band_is_not_entered : Held .v1 .degraded [scored (70 / 100), scored (45 / 100)] ∧
    (after .v1 .healthy [scored (70 / 100), scored (45 / 100)]).band = .healthy := by
  refine ⟨⟨le_rfl, ?_⟩, by decide +kernel⟩
  intro x hx
  rcases List.mem_pair.1 hx with rfl | rfl
  · exact ⟨by decide +kernel, by decide +kernel⟩
  · exact ⟨by decide +kernel, by decide +kernel⟩

theorem held_band_is_entered : DegradationBand.degraded.depth ≤
      (after .v1 .healthy [scored (45 / 100), scored (50 / 100)]).band.depth := by
  apply (hysteresis .v1 rfl .healthy [scored (45 / 100), scored (50 / 100)]).2
  · have hunforced : ∀ t q, ¬ Undercuts .v1 t (scored q) := by
      rintro t q ⟨f, ⟨hforced, -⟩, -⟩
      cases hforced
    intro before score rest hscores
    rcases before with - | ⟨x, - | ⟨y, before⟩⟩
    · cases hscores
      refine ⟨?_, hunforced _ _⟩
      rintro ⟨-, -, p, hp, -⟩
      cases hp
    · cases hscores
      refine ⟨?_, hunforced _ _⟩
      rintro ⟨-, -, p, hp, -, hne⟩
      have hpending : (after .v1 .healthy [scored (45 / 100)]).pendingBand = some .degraded := by
        decide +kernel
      have htarget : target .v1 (after .v1 .healthy [scored (45 / 100)]).band (50 / 100) =
          .degraded := by
        decide +kernel
      obtain rfl := Option.some.inj (hpending.symm.trans hp)
      exact hne htarget.symm
    · cases before <;> cases hscores
  · refine ⟨le_rfl, ?_⟩
    intro x hx
    rcases List.mem_pair.1 hx with rfl | rfl
    · exact ⟨by decide +kernel, by decide +kernel⟩
    · exact ⟨by decide +kernel, by decide +kernel⟩

end DegradationTracker

end Fiboki
