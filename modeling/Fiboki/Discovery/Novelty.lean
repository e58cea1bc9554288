import Fiboki.Research.Memory

/-!
Novelty: whether a proposal is worth compute, against the whole history.

When the index keeps a campaign from repeating itself: what it decides about a ledger against
what the ledger holds.
-/

namespace Fiboki.Discovery

open Research Text

inductive NoveltyDecision where
  | proceed
  | proceedWithCaution
  | skipRediscovery
  deriving DecidableEq

def NoveltyDecision.shouldRun (decision : NoveltyDecision) : Bool := decision ≠ .skipRediscovery

structure PriorAttempt where
  experimentId : String
  strategyId : String
  relation : Relation
  similarity : ℚ
  outcome : Outcome
  rejectedAtRung : String
  reason : String
  conclusion : String
  datasetVersionId : String
  createdAt : ℚ

namespace PriorAttempt

def isRediscovery (p : PriorAttempt) : Bool := p.relation.isRediscovery

def fromExperiment (exp : Experiment) (relation : Relation) (similarity : ℚ) : PriorAttempt :=
  ⟨exp.id, exp.strategyId, relation, similarity, exp.outcome, exp.rejectedAtRung,
    exp.rejectionReason, exp.conclusion, exp.datasetVersionId, exp.createdAt⟩

end PriorAttempt

def pyBool (b : Bool) : String := if b then "True" else "False"

def blindSpot (r : Restrictions) : String :=
  let sessionPart :=
    match r.sessions with
    | none => "sessions:none"
    | some s =>
      "sessions:windows=" ++ natText s.windows.length ++
        ",weekdays=" ++ natText s.weekdays.length ++
        ",weekend_block=" ++ pyBool (s.blockBarsBeforeWeekend ≠ 0)
  let events := r.events.getD ⟨0, 0, [], false, false⟩
  let eventPart :=
    "events:blackout=" ++ pyBool (events.blockMinutesBefore ≠ 0 || events.blockMinutesAfter ≠ 0) ++
      ",tags=" ++ natText events.blockedEventTags.length ++
      ",month_end=" ++ pyBool events.avoidMonthEnd ++
      ",rollover=" ++ pyBool events.avoidRolloverHour
  sessionPart ++ "|" ++ eventPart

def join : List String → String
  | [x] => x
  | items => String.intercalate ", " items.dropLast ++ " and " ++ items.getLastD ""

def isFreshDataset (rediscoveries : List PriorAttempt) (version : String) : Bool × String :=
  let seen := ((rediscoveries.map PriorAttempt.datasetVersionId).filter (· ≠ "")).toFinset
  if version = "" then
    (false, "no dataset version was supplied, so freshness cannot be claimed")
  else if seen = ∅ then
    (false, "the prior attempts record no dataset version, so it cannot be shown that this data " ++
      "is new to them")
  else if version ∈ seen then
    (false, "the prior attempts already ran on dataset version " ++ version)
  else
    (true, "every prior attempt ran on " ++ join (seen.sort (· ≤ ·)) ++
      ", none of which is the proposed " ++ version)

structure Question where
  proposal : Proposal
  datasetVersionId : String
  excludeTags : List String

namespace Question

variable (q : Question)

def excludes (exp : Experiment) : Bool := exp.tags.any fun tag => tag ∈ q.excludeTags

def blindSpot : Option String :=
  q.proposal.document.map fun doc => Discovery.blindSpot doc.restrictions

def demotes (m : RelatedExperiment) : Bool :=
  let prior := m.experiment.restrictions.map Discovery.blindSpot
  m.relation = .reparameterisation && prior.isSome && prior ≠ q.blindSpot

def attempt (m : RelatedExperiment) : PriorAttempt :=
  if q.demotes m then
    .fromExperiment m.experiment .structuralVariant (min m.similarity (95 / 100))
  else .fromExperiment m.experiment m.relation m.similarity

def attempts (found : List RelatedExperiment) : List PriorAttempt :=
  (found.filter fun m => !q.excludes m.experiment).map q.attempt

def rediscoveries (found : List RelatedExperiment) : List PriorAttempt :=
  (q.attempts found).filter PriorAttempt.isRediscovery

end Question

structure NoveltyVerdict where
  decision : NoveltyDecision
  priorAttempts : List PriorAttempt
  overrideReason : String
  contentHash : String
  structureHash : String
  datasetVersionId : String
  /-- The diagnostics of the verdict. -/
  excludedByTag : ℕ
  demotedByBlindSpot : ℕ
  datasetNote : Option String

namespace NoveltyIndex

variable (lower : String → String) (memory : ResearchMemory)

def assess (ledger : ExperimentLedger) (q : Question) (overrideReason : String) : NoveltyVerdict :=
  let found := (memory.recall lower ledger q.proposal).matched
  let rediscoveries := q.rediscoveries found
  let fresh := isFreshDataset rediscoveries q.datasetVersionId
  let given := !isBlank overrideReason
  { decision :=
      if rediscoveries.isEmpty then .proceed
      else if fresh.1 then .proceedWithCaution
      else if given then .proceedWithCaution
      else .skipRediscovery
    priorAttempts := q.attempts found
    overrideReason :=
      String.ofList (strip (if !rediscoveries.isEmpty && fresh.1 && overrideReason = "" then
        fresh.2 else overrideReason))
    contentHash := q.proposal.document.elim "" fun doc => doc.fingerprint.contentHash
    structureHash := q.proposal.document.elim "" fun doc => doc.fingerprint.structureHash
    datasetVersionId := q.datasetVersionId
    excludedByTag := found.countP fun m => q.excludes m.experiment
    demotedByBlindSpot := found.countP fun m => !q.excludes m.experiment && q.demotes m
    datasetNote := if rediscoveries.isEmpty then none else some fresh.2 }

end NoveltyIndex

namespace Question

variable (q : Question)

def Repeats (exp : Experiment) : Prop :=
  ∃ doc, q.proposal.document = some doc ∧ ((doc.fingerprint.contentHash ≠ "" ∧
        exp.strategyContentHash = doc.fingerprint.contentHash) ∨
      (doc.fingerprint.structureHash ≠ "" ∧ exp.structureHash = doc.fingerprint.structureHash ∧
        exp.restrictions.map Discovery.blindSpot = some (Discovery.blindSpot doc.restrictions)))

/-- A comparable experiment outside the excluded tags that the index takes for a rediscovery:
one without a stored document is taken to have the proposal's restrictions. -/
def Rediscovers (exp : Experiment) : Prop :=
  q.excludes exp = false ∧ keysComparable exp strategyKeyVersion = true ∧
    ∃ doc, q.proposal.document = some doc ∧ ((doc.fingerprint.contentHash ≠ "" ∧
          exp.strategyContentHash = doc.fingerprint.contentHash) ∨
        (doc.fingerprint.structureHash ≠ "" ∧
          exp.structureHash = doc.fingerprint.structureHash ∧
          ∀ r, exp.restrictions = some r →
            Discovery.blindSpot r = Discovery.blindSpot doc.restrictions))

end Question

namespace NoveltyIndex

variable (lower : String → String) (memory : ResearchMemory) (ledger : ExperimentLedger)
  (q : Question)

def decision : NoveltyDecision := (assess lower memory ledger q "").decision

def RunsNoRepeat : Prop :=
  (decision lower memory ledger q).shouldRun = true →
    (∀ exp ∈ ledger.rows, q.excludes exp = false → ¬ q.Repeats exp) ∨
      (q.datasetVersionId ≠ "" ∧ ∀ exp ∈ ledger.rows, q.excludes exp = false → q.Repeats exp →
        exp.datasetVersionId ≠ q.datasetVersionId)

def FailsClosed : Prop :=
  decision lower memory ledger q = .proceed →
    ∀ exp ∈ ledger.rows, q.excludes exp = false → keysComparable exp strategyKeyVersion = true

def Steady : Prop :=
  ∀ (memory' : ResearchMemory) (ledger' : ExperimentLedger),
    (∀ exp, (exp ∈ ledger'.rows ∧ q.Rediscovers exp) ↔ (exp ∈ ledger.rows ∧ q.Rediscovers exp)) →
      decision lower memory' ledger' q = decision lower memory ledger q

def known : List PriorAttempt := q.rediscoveries (memory.ranked lower ledger q.proposal)

/-- The rediscoveries among the first `max_matches` matches. -/
def seen : List PriorAttempt :=
  q.rediscoveries (firstOf memory.maxMatches (memory.ranked lower ledger q.proposal))

end NoveltyIndex

section Matches

variable {α : Type} {cap : ℤ} {xs : List α} {a : α}

theorem mem_of_mem_firstOf (h : a ∈ firstOf cap xs) : a ∈ xs := by
  unfold firstOf at h
  split_ifs at h
  · exact List.mem_of_mem_take h
  · exact List.mem_of_mem_take h

theorem firstOf_of_length_le (h : (xs.length : ℤ) ≤ cap) : firstOf cap xs = xs := by
  unfold firstOf
  rw [if_pos (by omega)]
  apply List.take_of_length_le
  omega

end Matches

variable {lower : String → String} {memory : ResearchMemory} {ledger : ExperimentLedger}
  {q : Question}

variable {m : RelatedExperiment} {proposal : Proposal}

theorem mem_ranked : m ∈ memory.ranked lower ledger proposal ↔ ∃ exp ∈ ledger.rows,
      ResearchMemory.answerable proposal exp = true ∧
        memory.classify lower exp proposal = some m := by
  unfold ResearchMemory.ranked StableSort.sortBy
  rw [List.mem_insertionSort, List.mem_filterMap]
  constructor
  · rintro ⟨exp, hexp, hclassify⟩
    obtain ⟨hrow, hanswer⟩ := List.mem_filter.1 hexp
    exact ⟨exp, hrow, hanswer, hclassify⟩
  · rintro ⟨exp, hrow, hanswer, hclassify⟩
    exact ⟨exp, List.mem_filter.2 ⟨hrow, hanswer⟩, hclassify⟩

variable {exp : Experiment}

theorem classifyKeyword_spec (h : memory.classifyKeyword lower exp proposal = some m) :
    m.experiment = exp ∧ m.relation.isRediscovery = false := by
  unfold ResearchMemory.classifyKeyword at h
  dsimp only at h
  split_ifs at h
  cases h
  exact ⟨rfl, rfl⟩

theorem classify_experiment
    (h : memory.classify lower exp proposal = some m) : m.experiment = exp := by
  unfold ResearchMemory.classify at h
  split at h
  · exact (classifyKeyword_spec h).1
  · dsimp only at h
    split_ifs at h
    · cases h
      rfl
    · cases h
      rfl
    · cases h
      rfl
    · exact (classifyKeyword_spec h).1

theorem isRediscovery_attempt (m : RelatedExperiment) :
    (q.attempt m).isRediscovery = (m.relation.isRediscovery && !q.demotes m) := by
  unfold Question.attempt PriorAttempt.isRediscovery PriorAttempt.fromExperiment
  split_ifs with hdemotes
  · simp [hdemotes, Relation.isRediscovery]
  · simp [hdemotes]

theorem demotes_eq_false_iff (hrelation : m.relation = .reparameterisation) {doc : StrategyDocument}
    (hdoc : q.proposal.document = some doc) :
    q.demotes m = false ↔ ∀ r, m.experiment.restrictions = some r →
      Discovery.blindSpot r = Discovery.blindSpot doc.restrictions := by
  unfold Question.demotes Question.blindSpot
  rw [hdoc]
  cases hprior : m.experiment.restrictions with
  | none => simp
  | some r => simp [hrelation]

theorem rediscovery_iff (lower : String → String) (memory : ResearchMemory)
    (hexcludes : q.excludes exp = false) :
    (ResearchMemory.answerable q.proposal exp = true ∧
      ∃ m, memory.classify lower exp q.proposal = some m ∧ (q.attempt m).isRediscovery = true) ↔
      q.Rediscovers exp := by
  unfold Question.Rediscovers ResearchMemory.answerable ResearchMemory.classify
  cases hdoc : q.proposal.document with
  | none =>
    refine iff_of_false ?_ ?_
    · rintro ⟨-, m, hclassify, hattempt⟩
      rw [isRediscovery_attempt, (classifyKeyword_spec hclassify).2] at hattempt
      cases hattempt
    · rintro ⟨-, -, doc, hsome, -⟩
      cases hsome
  | some doc =>
    rw [Option.isNone_some, Bool.false_or]
    dsimp only
    simp only [hexcludes, true_and]
    refine and_congr_right fun hcomparable => ?_
    split_ifs with hcontent hstructure hsimilar
    · refine iff_of_true ⟨_, rfl, ?_⟩ ⟨doc, rfl, .inl hcontent⟩
      rw [isRediscovery_attempt]
      rfl
    · constructor
      · rintro ⟨m, hm, hattempt⟩
        cases hm
        rw [isRediscovery_attempt, Bool.and_eq_true, Bool.not_eq_true'] at hattempt
        have hdigest := (demotes_eq_false_iff rfl hdoc).1 hattempt.2
        exact ⟨doc, rfl, .inr ⟨hstructure.1, hstructure.2, hdigest⟩⟩
      · rintro ⟨doc', hdoc', hkeys⟩
        cases hdoc'
        rcases hkeys with hkeys | ⟨-, -, hdigest⟩
        · exact absurd hkeys hcontent
        · refine ⟨_, rfl, ?_⟩
          rw [isRediscovery_attempt, (demotes_eq_false_iff rfl hdoc).2 hdigest]
          rfl
    · refine iff_of_false ?_ ?_
      · rintro ⟨m, hm, hattempt⟩
        cases hm
        rw [isRediscovery_attempt] at hattempt
        cases hattempt
      · rintro ⟨doc', hdoc', hkeys⟩
        cases hdoc'
        rcases hkeys with hkeys | ⟨hne, heq, -⟩
        · exact hcontent hkeys
        · exact hstructure ⟨hne, heq⟩
    · refine iff_of_false ?_ ?_
      · rintro ⟨m, hm, hattempt⟩
        rw [isRediscovery_attempt, (classifyKeyword_spec hm).2] at hattempt
        cases hattempt
      · rintro ⟨doc', hdoc', hkeys⟩
        cases hdoc'
        rcases hkeys with hkeys | ⟨hne, heq, -⟩
        · exact hcontent hkeys
        · exact hstructure ⟨hne, heq⟩

theorem mem_rediscoveries {found : List RelatedExperiment} {p : PriorAttempt} :
    p ∈ q.rediscoveries found ↔ ∃ m ∈ found, q.excludes m.experiment = false ∧
      (q.attempt m).isRediscovery = true ∧ q.attempt m = p := by
  unfold Question.rediscoveries Question.attempts
  rw [List.mem_filter, List.mem_map]
  constructor
  · rintro ⟨⟨m, hm, rfl⟩, hattempt⟩
    obtain ⟨hfound, hexcludes⟩ := List.mem_filter.1 hm
    exact ⟨m, hfound, by simpa using hexcludes, hattempt, rfl⟩
  · rintro ⟨m, hfound, hexcludes, hattempt, rfl⟩
    exact ⟨⟨m, List.mem_filter.2 ⟨hfound, by simp [hexcludes]⟩, rfl⟩, hattempt⟩

theorem datasetVersionId_attempt (m : RelatedExperiment) :
    (q.attempt m).datasetVersionId = m.experiment.datasetVersionId := by
  unfold Question.attempt
  split_ifs <;> rfl

namespace NoveltyIndex

theorem mem_known {version : String} :
    (∃ p ∈ known lower memory ledger q, p.datasetVersionId = version) ↔
      ∃ exp ∈ ledger.rows, q.Rediscovers exp ∧ exp.datasetVersionId = version := by
  constructor
  · rintro ⟨p, hp, hversion⟩
    obtain ⟨m, hm, hexcludes, hattempt, rfl⟩ := mem_rediscoveries.1 hp
    obtain ⟨exp, hrow, hanswer, hclassify⟩ := mem_ranked.1 hm
    have hexp : m.experiment = exp := classify_experiment hclassify
    rw [hexp] at hexcludes
    rw [datasetVersionId_attempt, hexp] at hversion
    exact ⟨exp, hrow, (rediscovery_iff lower memory hexcludes).1 ⟨hanswer, m, hclassify, hattempt⟩,
      hversion⟩
  · rintro ⟨exp, hrow, hredis, hversion⟩
    obtain ⟨hanswer, m, hclassify, hattempt⟩ := (rediscovery_iff lower memory hredis.1).2 hredis
    have hexp : m.experiment = exp := classify_experiment hclassify
    have hexcludes : q.excludes m.experiment = false := by
      rw [hexp]
      exact hredis.1
    refine ⟨q.attempt m, mem_rediscoveries.2 ⟨m, ?_, hexcludes, hattempt, rfl⟩, ?_⟩
    · exact mem_ranked.2 ⟨exp, hrow, hanswer, hclassify⟩
    · rw [datasetVersionId_attempt, hexp]
      exact hversion

theorem known_eq_nil_iff :
    known lower memory ledger q = [] ↔ ∀ exp ∈ ledger.rows, ¬ q.Rediscovers exp := by
  rw [List.eq_nil_iff_forall_not_mem]
  constructor
  · intro h exp hrow hredis
    obtain ⟨p, hp, -⟩ := mem_known.2 ⟨exp, hrow, hredis, rfl⟩
    exact h p hp
  · intro h p hp
    obtain ⟨exp, hrow, hredis, -⟩ := mem_known.1 ⟨p, hp, rfl⟩
    exact h exp hrow hredis

theorem seen_subset_known (lower : String → String) (memory : ResearchMemory)
    (ledger : ExperimentLedger) (q : Question) :
    seen lower memory ledger q ⊆ known lower memory ledger q := by
  intro p hp
  obtain ⟨m, hm, hrest⟩ := mem_rediscoveries.1 hp
  exact mem_rediscoveries.2 ⟨m, mem_of_mem_firstOf hm, hrest⟩

theorem seen_eq_known
    (h : ((memory.ranked lower ledger q.proposal).length : ℤ) ≤ memory.maxMatches) :
    seen lower memory ledger q = known lower memory ledger q := by
  unfold seen known
  rw [firstOf_of_length_le h]

theorem decision_eq : decision lower memory ledger q =
    if (seen lower memory ledger q).isEmpty then .proceed
    else if (isFreshDataset (seen lower memory ledger q) q.datasetVersionId).1 then
      .proceedWithCaution
    else .skipRediscovery := rfl

theorem decision_eq_proceed_iff :
    decision lower memory ledger q = .proceed ↔ seen lower memory ledger q = [] := by
  rw [decision_eq]
  split_ifs with hseen hfresh
  · exact iff_of_true rfl (List.isEmpty_iff.1 hseen)
  · exact iff_of_false (by decide) fun h => hseen (List.isEmpty_iff.2 h)
  · exact iff_of_false (by decide) fun h => hseen (List.isEmpty_iff.2 h)

theorem shouldRun_eq_false_iff : (decision lower memory ledger q).shouldRun = false ↔
    seen lower memory ledger q ≠ [] ∧
      (isFreshDataset (seen lower memory ledger q) q.datasetVersionId).1 = false := by
  rw [decision_eq]
  split_ifs with hseen hfresh
  · exact iff_of_false (by decide) fun h => h.1 (List.isEmpty_iff.1 hseen)
  · exact iff_of_false (by decide) fun h => absurd hfresh (by simp [h.2])
  · exact iff_of_true rfl ⟨fun h => hseen (List.isEmpty_iff.2 h), by simpa using hfresh⟩

/-- A fresh dataset is given, and is that of no rediscovery. -/
theorem isFreshDataset_iff {rediscoveries : List PriorAttempt} {version : String} :
    (isFreshDataset rediscoveries version).1 = true ↔ version ≠ "" ∧
      (∃ p ∈ rediscoveries, p.datasetVersionId ≠ "") ∧
      ∀ p ∈ rediscoveries, p.datasetVersionId ≠ version := by
  unfold isFreshDataset
  dsimp only
  have hseen : ∀ v, v ∈ ((rediscoveries.map PriorAttempt.datasetVersionId).filter
      (· ≠ "")).toFinset ↔ v ≠ "" ∧ ∃ p ∈ rediscoveries, p.datasetVersionId = v := by
    intro v
    simp [and_comm]
  split_ifs with hversion hnone hmem
  · exact iff_of_false (by simp) fun h => h.1 hversion
  · refine iff_of_false (by simp) ?_
    rintro ⟨-, ⟨p, hp, hne⟩, -⟩
    have hin := (hseen _).2 ⟨hne, p, hp, rfl⟩
    rw [hnone] at hin
    exact absurd hin (Finset.notMem_empty _)
  · refine iff_of_false (by simp) ?_
    rintro ⟨-, -, hall⟩
    obtain ⟨-, p, hp, heq⟩ := (hseen _).1 hmem
    exact hall p hp heq
  · refine iff_of_true rfl ⟨hversion, ?_, ?_⟩
    · obtain ⟨v, hv⟩ := Finset.nonempty_iff_ne_empty.2 hnone
      obtain ⟨hne, p, hp, rfl⟩ := (hseen v).1 hv
      exact ⟨p, hp, hne⟩
    · intro p hp heq
      exact hmem ((hseen version).2 ⟨hversion, p, hp, heq⟩)

theorem steady_iff : Steady lower memory ledger q ↔ ∀ exp ∈ ledger.rows, ¬ q.Rediscovers exp := by
  constructor
  · intro h
    -- one index reads nothing, the other reads every match
    have hnone := h { memory with maxMatches := 0 } ledger fun _ => Iff.rfl
    have hall := h { memory with
      maxMatches := (memory.ranked lower ledger q.proposal).length } ledger fun _ => Iff.rfl
    have hproceed : decision lower { memory with maxMatches := 0 } ledger q = .proceed := rfl
    rw [← hnone, hproceed, decision_eq_proceed_iff] at hall
    rw [seen_eq_known (le_refl _)] at hall
    exact known_eq_nil_iff.1 hall
  · intro h memory' ledger' hsame
    have hnil : ∀ (memory : ResearchMemory) (ledger : ExperimentLedger),
        (∀ exp ∈ ledger.rows, ¬ q.Rediscovers exp) → decision lower memory ledger q = .proceed := by
      intro memory ledger hnone
      have hsub := seen_subset_known lower memory ledger q
      rw [known_eq_nil_iff.2 hnone] at hsub
      exact decision_eq_proceed_iff.2 (List.subset_nil.1 hsub)
    rw [hnil memory ledger h]
    apply hnil
    intro exp hrow hredis
    obtain ⟨hrow', -⟩ := (hsame exp).1 ⟨hrow, hredis⟩
    exact h exp hrow' hredis

theorem rediscovers_of_repeats (hcomparable : ∀ exp ∈ ledger.rows, q.excludes exp = false →
      keysComparable exp strategyKeyVersion = true) {exp : Experiment} (hrow : exp ∈ ledger.rows)
    (hexcludes : q.excludes exp = false) (hrepeats : q.Repeats exp) : q.Rediscovers exp := by
  obtain ⟨doc, hdoc, hkeys⟩ := hrepeats
  refine ⟨hexcludes, hcomparable exp hrow hexcludes, doc, hdoc, hkeys.imp_right ?_⟩
  rintro ⟨hne, heq, hdigest⟩
  refine ⟨hne, heq, fun r hr => ?_⟩
  rw [hr] at hdigest
  exact Option.some.inj hdigest

theorem runsNoRepeat_iff : RunsNoRepeat lower memory ledger q ↔
    (∀ exp ∈ ledger.rows, q.excludes exp = false → ¬ q.Repeats exp) ∨
      (q.datasetVersionId ≠ "" ∧ ∀ exp ∈ ledger.rows, q.excludes exp = false → q.Repeats exp →
        exp.datasetVersionId ≠ q.datasetVersionId) ∨
      (seen lower memory ledger q ≠ [] ∧
        (isFreshDataset (seen lower memory ledger q) q.datasetVersionId).1 = false) := by
  unfold RunsNoRepeat
  rw [← shouldRun_eq_false_iff, ← or_assoc, ← Bool.not_eq_true, imp_iff_not_or]
  exact or_comm

theorem failsClosed_iff : FailsClosed lower memory ledger q ↔
    (∀ exp ∈ ledger.rows, q.excludes exp = false →
      keysComparable exp strategyKeyVersion = true) ∨ seen lower memory ledger q ≠ [] := by
  unfold FailsClosed
  rw [decision_eq_proceed_iff, imp_iff_not_or]
  exact or_comm

/-- When the index does what it is for: each part on its own, and all of them. -/
theorem keeps_iff (lower : String → String) (memory : ResearchMemory) (ledger : ExperimentLedger)
    (q : Question) :
    (RunsNoRepeat lower memory ledger q ↔
      (∀ exp ∈ ledger.rows, q.excludes exp = false → ¬ q.Repeats exp) ∨
        (q.datasetVersionId ≠ "" ∧ ∀ exp ∈ ledger.rows, q.excludes exp = false → q.Repeats exp →
          exp.datasetVersionId ≠ q.datasetVersionId) ∨
        (seen lower memory ledger q ≠ [] ∧
          (isFreshDataset (seen lower memory ledger q) q.datasetVersionId).1 = false)) ∧
      (FailsClosed lower memory ledger q ↔ (∀ exp ∈ ledger.rows, q.excludes exp = false →
          keysComparable exp strategyKeyVersion = true) ∨ seen lower memory ledger q ≠ []) ∧
      (Steady lower memory ledger q ↔ ∀ exp ∈ ledger.rows, ¬ q.Rediscovers exp) ∧
      (RunsNoRepeat lower memory ledger q ∧ FailsClosed lower memory ledger q ∧
          Steady lower memory ledger q ↔
        ∀ exp ∈ ledger.rows, ¬ q.Rediscovers exp ∧
          (q.excludes exp = false → keysComparable exp strategyKeyVersion = true)) := by
  refine ⟨runsNoRepeat_iff, failsClosed_iff, steady_iff, ?_, ?_⟩
  · rintro ⟨-, hclosed, hsteady⟩ exp hrow
    have hnone := steady_iff.1 hsteady
    refine ⟨hnone exp hrow, ?_⟩
    rcases failsClosed_iff.1 hclosed with hcomparable | hseen
    · exact hcomparable exp hrow
    · have hsub := seen_subset_known lower memory ledger q
      rw [known_eq_nil_iff.2 hnone] at hsub
      exact absurd (List.subset_nil.1 hsub) hseen
  · intro h
    have hcomparable : ∀ exp ∈ ledger.rows, q.excludes exp = false →
        keysComparable exp strategyKeyVersion = true := fun exp hrow => (h exp hrow).2
    refine ⟨runsNoRepeat_iff.2 (.inl ?_), failsClosed_iff.2 (.inl hcomparable),
      steady_iff.2 fun exp hrow => (h exp hrow).1⟩
    intro exp hrow hexcludes hrepeats
    exact (h exp hrow).1 (rediscovers_of_repeats hcomparable hrow hexcludes hrepeats)

/-- An index that reads every match of a ledger with comparable keys runs no repeat. -/
theorem runsNoRepeat_of_uncut
    (hlength : ((memory.ranked lower ledger q.proposal).length : ℤ) ≤ memory.maxMatches)
    (hcomparable : ∀ exp ∈ ledger.rows, q.excludes exp = false →
      keysComparable exp strategyKeyVersion = true) : RunsNoRepeat lower memory ledger q := by
  intro hrun
  by_cases hseen : seen lower memory ledger q = []
  · left
    intro exp hrow hexcludes hrepeat
    rw [seen_eq_known hlength, known_eq_nil_iff] at hseen
    exact hseen exp hrow (rediscovers_of_repeats hcomparable hrow hexcludes hrepeat)
  · right
    have hfresh : (isFreshDataset (seen lower memory ledger q) q.datasetVersionId).1 = true := by
      by_contra hstale
      rw [shouldRun_eq_false_iff.2 ⟨hseen, by simpa using hstale⟩] at hrun
      cases hrun
    obtain ⟨hgiven, -, hother⟩ := isFreshDataset_iff.1 hfresh
    refine ⟨hgiven, fun exp hrow hexcludes hrepeat hversion => ?_⟩
    have hredis := rediscovers_of_repeats hcomparable hrow hexcludes hrepeat
    obtain ⟨p, hp, heq⟩ := mem_known.2 ⟨exp, hrow, hredis, hversion⟩
    rw [← seen_eq_known hlength] at hp
    exact hother p hp heq

def defaultMemory : ResearchMemory := ⟨3 / 4, 1 / 2, 10, by norm_num⟩

def proposedDocument : StrategyDocument := ⟨⟨"c1", "s1", [], []⟩, ⟨none, none⟩⟩

def resumed : Question := ⟨⟨some proposedDocument, "", .inl rfl⟩, "", ["campaign:2"]⟩

def ranProposed (id : String) (createdAt : ℚ) (tag version : String) : Experiment where
  id := id
  createdAt := createdAt
  strategyId := "ema_cross"
  strategyContentHash := "c1"
  contentHashVersion := version
  structureHash := "s1"
  structureHashVersion := version
  structureTokens := []
  restrictions := some ⟨none, none⟩
  datasetVersionId := "d1"
  hypothesisId := ""
  reason := ""
  conclusion := ""
  rejectionReason := "negative expectancy"
  rejectedAtRung := "holdout"
  outcome := .rejected
  tags := [tag]

def crowdedLedger : ExperimentLedger where
  rows := ranProposed "e0" 0 "campaign:1" "dsl:2.0.0" ::
    ["e1", "e2", "e3", "e4", "e5", "e6", "e7", "e8", "e9", "f0"].map fun id =>
      ranProposed id 1 "campaign:2" "dsl:2.0.0"
  ids := by decide

def staleLedger : ExperimentLedger where
  rows := [ranProposed "e0" 0 "campaign:1" "dsl:1.0.0"]
  ids := by decide

def earlierLedger : ExperimentLedger where
  rows := [ranProposed "e0" 0 "campaign:1" "dsl:2.0.0"]
  ids := by decide

theorem earlier_rejection_not_run : RunsNoRepeat id defaultMemory earlierLedger resumed :=
  runsNoRepeat_of_uncut (by decide) (by decide)

/-- The rows of the campaign crowd the earlier rejection out of the ten matches, and the row that
cannot be compared is passed over: the rejected document is run again. -/
theorem rejected_document_proceeds : ¬ RunsNoRepeat id defaultMemory crowdedLedger resumed ∧
      ¬ FailsClosed id defaultMemory staleLedger resumed ∧
      (defaultMemory.recall id staleLedger resumed.proposal).isNovel = false := by
  have hcrowded : decision id defaultMemory crowdedLedger resumed = .proceed := by decide
  have hstale : decision id defaultMemory staleLedger resumed = .proceed := by decide
  have hrow : ranProposed "e0" 0 "campaign:1" "dsl:2.0.0" ∈ crowdedLedger.rows :=
    List.mem_cons_self
  have hrow' : ranProposed "e0" 0 "campaign:1" "dsl:1.0.0" ∈ staleLedger.rows :=
    List.mem_cons_self
  refine ⟨fun h => ?_, fun h => ?_, by decide⟩
  · rcases h (by rw [hcrowded]; rfl) with hnone | ⟨hgiven, -⟩
    · have hkept : resumed.excludes (ranProposed "e0" 0 "campaign:1" "dsl:2.0.0") = false := by
        decide
      exact hnone _ hrow hkept ⟨proposedDocument, rfl, .inl ⟨by decide, rfl⟩⟩
    · exact hgiven rfl
  · have hkept : resumed.excludes (ranProposed "e0" 0 "campaign:1" "dsl:1.0.0") = false := by
      decide
    exact absurd (h hstale _ hrow' hkept) (by decide)

end NoveltyIndex

end Fiboki.Discovery
