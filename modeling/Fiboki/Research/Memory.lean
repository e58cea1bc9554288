import Fiboki.Core.Text
import Fiboki.Lib.StableSort
import Mathlib.Data.Finset.Sort
import Mathlib.Data.Prod.Lex
import Mathlib.Data.String.Basic

/-!
The keys of a strategy document in the research ledger, and how alike two documents are by
their structural tokens.

Research memory: the experiments of the ledger that bear on a proposal, on three keys, the
nearest first.
-/

namespace Fiboki.Research

structure SessionBlock where
  windows : List (ℕ × ℕ)
  weekdays : List ℕ
  blockBarsBeforeWeekend : ℕ

structure EventBlock where
  blockMinutesBefore : ℕ
  blockMinutesAfter : ℕ
  blockedEventTags : List String
  avoidMonthEnd : Bool
  avoidRolloverHour : Bool

/-- The `sessions` and the `events` of a document, or of its stored form. -/
structure Restrictions where
  sessions : Option SessionBlock
  events : Option EventBlock

structure StructuralFingerprint where
  contentHash : String
  structureHash : String
  tokens : List String
  keywords : List String

def namespaceWeights : List (String × ℚ) := [("rule", 3 / 5), ("exit", 1 / 5), ("context", 1 / 5)]

def inNamespace (ns : String) (tokens : List String) : Finset String :=
  (tokens.filter fun t => (ns ++ ":").isPrefixOf t).toFinset

def jaccard (a b : Finset String) : Option ℚ :=
  if a = ∅ ∧ b = ∅ then none else some ((a ∩ b).card / (a ∪ b).card)

def structuralSimilarity (left right : List String) : ℚ :=
  let scored := namespaceWeights.filterMap fun (ns, w) =>
    (jaccard (inNamespace ns left) (inNamespace ns right)).map fun score => (w, score)
  let weight := (scored.map Prod.fst).sum
  if 0 < weight then (scored.map fun (w, score) => w * score).sum / weight else 0

open Text

inductive Outcome where
  | pending
  | promoted
  | rejected
  | inconclusive
  | abandoned
  | error

/-- A row of the ledger.  The two versions are those of the algorithm that derived each hash, as
the row or a restatement of it says. -/
structure Experiment where
  id : String
  /-- `created_at.timestamp()`. -/
  createdAt : ℚ
  strategyId : String
  strategyContentHash : String
  contentHashVersion : String
  structureHash : String
  structureHashVersion : String
  structureTokens : List String
  /-- What `strategy_document` says of the dealing hours, where one is stored. -/
  restrictions : Option Restrictions
  datasetVersionId : String
  hypothesisId : String
  reason : String
  conclusion : String
  rejectionReason : String
  rejectedAtRung : String
  outcome : Outcome
  tags : List String

structure ExperimentLedger where
  rows : List Experiment
  ids : (rows.map Experiment.id).Nodup

def strategyKeyVersion : String := "dsl:2.0.0"

def keyIsComparable (stored version expected : String) : Bool := stored = "" || version = expected

def keysComparable (exp : Experiment) (expected : String) : Bool :=
  keyIsComparable exp.strategyContentHash exp.contentHashVersion expected &&
    keyIsComparable exp.structureHash exp.structureHashVersion expected

structure StrategyDocument where
  fingerprint : StructuralFingerprint
  restrictions : Restrictions

/-- A proposal has a document, a description, or both: `recall` refuses to look for neither. -/
structure Proposal where
  document : Option StrategyDocument
  text : String
  given : document.isSome ∨ isBlank text = false

def stopwords : List String :=
  ["a", "an", "and", "are", "as", "at", "be", "but", "by", "for", "from", "has", "have", "if",
    "in", "into", "is", "it", "its", "of", "on", "or", "that", "the", "than", "then", "there",
    "these", "this", "to", "was", "were", "will", "with", "we", "you", "your", "do", "add",
    "adding", "also", "try", "trying", "test", "testing", "use", "using", "run", "running",
    "strategy"]

def isWordChar (c : Char) : Bool := ('a' ≤ c && c ≤ 'z') || ('0' ≤ c && c ≤ '9')

/-- The words of a text in lower case: the runs of `[a-z0-9]`, but the stop words and letters. -/
def tokenise (lower : String → String) (text : String) : Finset String :=
  let runs := (lower text).toList.splitOnP fun c => !isWordChar c
  ((runs.map String.ofList).filter fun w => w ∉ stopwords && 1 < w.length).toFinset

inductive Relation where
  | exact
  | reparameterisation
  | structuralVariant
  | keyword
  deriving DecidableEq

namespace Relation

def isRediscovery : Relation → Bool
  | exact | reparameterisation => true
  | structuralVariant | keyword => false

def rank : Relation → ℤ
  | exact => 3
  | reparameterisation => 2
  | structuralVariant => 1
  | keyword => 0

end Relation

structure RelatedExperiment where
  experiment : Experiment
  relation : Relation
  similarity : ℚ

def RelatedExperiment.key (m : RelatedExperiment) : ℤ ×ₗ ℚ ×ₗ ℚ :=
  toLex (-m.relation.rank, toLex (-m.similarity, -m.experiment.createdAt))

structure RecallResult where
  matched : List RelatedExperiment
  /-- The experiments whose keys were derived under another version. -/
  incomparable : List Experiment

namespace RecallResult

def rediscoveries (r : RecallResult) : List RelatedExperiment :=
  r.matched.filter fun m => m.relation.isRediscovery

def isNovel (r : RecallResult) : Bool := r.rediscoveries.isEmpty && r.incomparable.isEmpty

end RecallResult

/-- `xs[:cap]`. -/
def firstOf {α : Type} (cap : ℤ) (xs : List α) : List α :=
  if 0 ≤ cap then xs.take cap.toNat else xs.take (xs.length - cap.natAbs)

structure ResearchMemory where
  similarityThreshold : ℚ
  keywordThreshold : ℚ
  maxMatches : ℤ
  threshold_ok : 0 < similarityThreshold ∧ similarityThreshold ≤ 1

namespace ResearchMemory

variable (lower : String → String) (memory : ResearchMemory)

def queryTerms (proposal : Proposal) : Finset String :=
  tokenise lower proposal.text ∪
    (proposal.document.elim [] fun doc => doc.fingerprint.keywords).toFinset

def haystack (exp : Experiment) : Finset String :=
  tokenise lower (String.intercalate " " [exp.reason, exp.conclusion, exp.rejectionReason,
    exp.strategyId, exp.hypothesisId, String.intercalate " " exp.tags,
    String.intercalate " " (exp.structureTokens.map fun t =>
      String.ofList ((t.toList.splitOn ':').getLastD []))])

def classifyKeyword (exp : Experiment) (proposal : Proposal) : Option RelatedExperiment :=
  let terms := queryTerms lower proposal
  let hit := (terms ∩ haystack lower exp).card
  let score : ℚ := hit / terms.card
  if isBlank proposal.text = false ∧ terms ≠ ∅ ∧ 2 ≤ hit ∧ memory.keywordThreshold ≤ score then
    some ⟨exp, .keyword, score⟩
  else none

def classify (exp : Experiment) (proposal : Proposal) : Option RelatedExperiment :=
  match proposal.document with
  | none => classifyKeyword lower memory exp proposal
  | some doc =>
    let fp := doc.fingerprint
    let score := structuralSimilarity fp.tokens exp.structureTokens
    if fp.contentHash ≠ "" ∧ exp.strategyContentHash = fp.contentHash then
      some ⟨exp, .exact, 1⟩
    else if fp.structureHash ≠ "" ∧ exp.structureHash = fp.structureHash then
      some ⟨exp, .reparameterisation, 1⟩
    else if exp.structureTokens ≠ [] ∧ memory.similarityThreshold ≤ score then
      some ⟨exp, .structuralVariant, score⟩
    else classifyKeyword lower memory exp proposal

def answerable (proposal : Proposal) (exp : Experiment) : Bool :=
  proposal.document.isNone || keysComparable exp strategyKeyVersion

def ranked (ledger : ExperimentLedger) (proposal : Proposal) : List RelatedExperiment :=
  StableSort.sortBy RelatedExperiment.key
    ((ledger.rows.filter (answerable proposal)).filterMap fun exp =>
      classify lower memory exp proposal)

end ResearchMemory

def ResearchMemory.recall (lower : String → String) (memory : ResearchMemory)
    (ledger : ExperimentLedger) (proposal : Proposal) : RecallResult where
  matched := firstOf memory.maxMatches (memory.ranked lower ledger proposal)
  incomparable := ledger.rows.filter fun exp => !ResearchMemory.answerable proposal exp

end Fiboki.Research
