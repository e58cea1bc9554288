import Fiboki.Lib.ArraySplit
import Fiboki.Lib.Combinations
import Fiboki.Lib.Contiguous
import Fiboki.Lib.Pointwise
import Fiboki.Lib.Quantile
import Fiboki.Lib.Stamps
import Mathlib

/-!
Purged and embargoed cross-validation for overlapping labels: the samples are cut into groups,
every selection of `k` groups is tested once, and the splits reassemble into backtest paths.
A split's training labels keep clear of its test runs and their embargo, as far as no label's
time is missing.
-/

namespace Fiboki

open ArraySplit Combinations Contiguous IsClock Quantile

def nBacktestPaths (nGroups k : ℤ) : Except String ℕ :=
  if nGroups < 2 then .error "n_groups must be >= 2"
  else if ¬(1 ≤ k ∧ k < nGroups) then .error "k must satisfy 1 <= k < n_groups"
  else
    let total := nGroups.toNat.choose k.toNat * k.toNat
    if total % nGroups.toNat ≠ 0 then .error "C(N,k)*k must divide N"
    else .ok (total / nGroups.toNat)

/-- When each sample's label starts and when it stops being determined; the times are read below
the size only.  What the constructor refuses is a comparison that holds, and none holds of a time
that is missing. -/
structure LabelSpans (T : Type) [LT T] where
  size : ℕ
  starts : ℕ → T
  ends : ℕ → T
  nonempty : 0 < size
  ordered : ∀ i < size, ¬ends i < starts i
  sorted : ∀ i, i + 1 < size → ¬starts (i + 1) < starts i

/-- Times whose durations have a percentile, as the code takes it. -/
class TimeScale (T : Type) where
  percentile : List T → ℚ → Except String T

def floatPercentile (durations : List ℚ) (p : ℚ) : ℚ := (quantile durations (p / 100)).getD 0

def wholeSeconds (durations : List ℤ) (p : ℚ) : ℤ :=
  ⌊(quantile (durations.map fun d => ((d / 10 ^ 9 : ℤ) : ℚ)) (p / 100)).getD 0⌋ * 10 ^ 9

instance : TimeScale ℚ where
  percentile durations p := .ok (floatPercentile durations p)

instance : TimeScale ℤ where
  percentile durations p := .ok (wholeSeconds durations p)

instance : TimeScale (Stamp ℚ) where
  percentile durations p :=
    match Stamp.times durations with
    | some durations => .ok (.at_ (floatPercentile durations p))
    | none => .ok .nan

instance : TimeScale (Stamp ℤ) where
  percentile durations p :=
    match Stamp.times durations with
    | some durations => .ok (.at_ (wholeSeconds durations p))
    | none => .error "cannot convert float NaN to integer"

section Spans

variable {T : Type} [LT T] [DecidableLT T]

/-- `LabelSpans(starts, ends)`. -/
def LabelSpans.create (starts ends : List T) : Except String (LabelSpans T) :=
  if hlength : starts.length ≠ ends.length then
    .error "starts and ends must be 1-D arrays of equal length"
  else if hempty : starts = [] then .error "label spans are empty"
  else if hordered : ∃ i, ∃ hi : i < starts.length, ends[i] < starts[i] then
    .error "a label cannot end before it starts"
  else if hsorted : ∃ i, ∃ hi : i < starts.length - 1, starts[i + 1] < starts[i] then
    .error "samples must be sorted by start time"
  else .ok
    { size := starts.length
      starts := fun i => starts.getD i (starts.head hempty)
      ends := fun i => ends.getD i (starts.head hempty)
      nonempty := List.length_pos_iff.2 hempty
      ordered := by
        intro i hi
        rw [List.getD_eq_getElem _ _ hi, List.getD_eq_getElem _ _ (by omega)]
        exact fun hlt => hordered ⟨i, hi, hlt⟩
      sorted := by
        intro i hi
        rw [List.getD_eq_getElem _ _ hi, List.getD_eq_getElem _ _ (by omega)]
        exact fun hlt => hsorted ⟨i, by omega, hlt⟩ }

end Spans

/-- An embargo as a share of the samples, or as a time, which goes first. -/
structure Embargo (T : Type) where
  pct : ℚ
  delta : Option T

structure CVSplit where
  train : List ℕ
  test : List ℕ
  testGroups : List ℕ
  nPurged : ℕ
  nEmbargoed : ℕ
  deriving DecidableEq

namespace LabelSpans

variable {T : Type} [LT T]

def durations [Sub T] (spans : LabelSpans T) : List T :=
  (List.range spans.size).map fun i => spans.ends i - spans.starts i

def embargoDelta [Sub T] [TimeScale T] (spans : LabelSpans T) (percentile : ℚ) :
    Except String T :=
  if ¬(0 ≤ percentile ∧ percentile ≤ 100) then .error "percentile must be in [0, 100]"
  else TimeScale.percentile spans.durations percentile

def resolveEmbargo [Sub T] [TimeScale T] (spans : LabelSpans T) (embargoPct : ℚ)
    (embargoPercentile : Option ℚ) : Except String (Embargo T) :=
  match embargoPercentile with
  | none => .ok ⟨embargoPct, none⟩
  | some percentile => (spans.embargoDelta percentile).map fun delta => ⟨embargoPct, some delta⟩

variable (spans : LabelSpans T)

/-- `spans.ends[lo : hi + 1].max()`. -/
def lastEnd [Max T] (lo hi : ℕ) : T :=
  ((List.range' (lo + 1) (hi - lo)).map spans.ends).foldl max (spans.ends lo)

variable [LE T] [Max T] [DecidableLE T]

def overlaps (run : ℕ × ℕ) (i : ℕ) : Bool :=
  spans.starts i ≤ spans.lastEnd run.1 run.2 && spans.starts run.1 ≤ spans.ends i

variable [Add T] [DecidableLT T]

def embargoed (embargo : Embargo T) (run : ℕ × ℕ) (i : ℕ) : Bool :=
  match embargo.delta with
  | some delta =>
    let t1 := spans.lastEnd run.1 run.2
    t1 < spans.starts i && spans.starts i ≤ t1 + delta
  | none =>
    if 0 < embargo.pct then
      let width := ⌈(spans.size : ℚ) * embargo.pct⌉.toNat
      let stop := min spans.size (run.2 + 1 + width)
      run.2 + 1 ≤ i && i < stop
    else false

/-- `_purge_and_embargo`: the training samples, how many were purged and how many embargoed. -/
def purgeAndEmbargo (testIdx : List ℕ) (embargo : Embargo T) : List ℕ × ℕ × ℕ :=
  let runs := contiguousRuns testIdx
  let outside := (List.range spans.size).filter fun i => i ∉ testIdx
  let keep := outside.filter fun i => !runs.any fun run => spans.overlaps run i
  let train := keep.filter fun i => !runs.any fun run => spans.embargoed embargo run i
  let nEmbargoed := keep.countP fun i => runs.any fun run => spans.embargoed embargo run i
  (train, outside.length - keep.length, nEmbargoed)

end LabelSpans

structure CombinatorialPurgedCV (T : Type) [LT T] where
  nGroups : ℕ
  k : ℕ
  spans : LabelSpans T
  embargo : Embargo T
  nPaths : ℕ
  enough : nGroups ≤ spans.size
  paths : nBacktestPaths nGroups k = .ok nPaths

theorem nBacktestPaths_bounds {nGroups k : ℤ} {n : ℕ} (h : nBacktestPaths nGroups k = .ok n) :
    2 ≤ nGroups ∧ 1 ≤ k ∧ k < nGroups := by
  unfold nBacktestPaths at h
  split at h
  · cases h
  · split at h
    · cases h
    · omega

namespace CombinatorialPurgedCV

section Create

variable {T : Type} [LT T] [Sub T] [TimeScale T]

/-- `CombinatorialPurgedCV(n_groups, k, spans=..., ...)`. -/
def create (nGroups k : ℤ) (spans : LabelSpans T) (embargoPct : ℚ)
    (embargoPercentile : Option ℚ) : Except String (CombinatorialPurgedCV T) :=
  if henough : spans.size < nGroups then .error "fewer samples than groups"
  else match hpaths : nBacktestPaths nGroups k with
    | .error e => .error e
    | .ok nPaths =>
      (spans.resolveEmbargo embargoPct embargoPercentile).map fun embargo =>
        { nGroups := nGroups.toNat
          k := k.toNat
          spans, embargo, nPaths
          enough := by omega
          paths := by
            have := nBacktestPaths_bounds hpaths
            rw [Int.toNat_of_nonneg (by omega), Int.toNat_of_nonneg (by omega), hpaths] }

end Create

variable {T : Type} [LT T] (cv : CombinatorialPurgedCV T)

def groups : List (List ℕ) := arraySplit (List.range cv.spans.size) cv.nGroups

def combos : List (List ℕ) := combinations cv.k (List.range cv.nGroups)

def testIdx (combo : List ℕ) : List ℕ := combo.flatMap fun g => cv.groups.getD g []

section Splits

variable [LE T] [Max T] [DecidableLE T] [Add T] [DecidableLT T]

def splitOf (combo : List ℕ) : CVSplit :=
  let testIdx := cv.testIdx combo
  let (train, nPurged, nEmbargoed) := cv.spans.purgeAndEmbargo testIdx cv.embargo
  { train, nPurged, nEmbargoed
    test := testIdx.insertionSort (· ≤ ·)
    testGroups := combo }

def split : List CVSplit := cv.combos.map cv.splitOf

end Splits

def perGroup : ℕ → List ℕ :=
  cv.combos.zipIdx.foldl
    (fun table x => x.1.foldl (fun table g => Function.update table g (table g ++ [x.2])) table)
    fun _ => []

/-- `path_map`: none where a group is tested by fewer splits than there are paths. -/
def pathMap : Option (List (List (ℕ × ℕ))) :=
  (List.range cv.nPaths).mapM fun p =>
    (List.range cv.nGroups).mapM fun g => (cv.perGroup g)[p]?.map fun s => (s, g)

end CombinatorialPurgedCV

namespace LabelSpans

section Order

variable {T : Type} [LE T] [LT T] (spans : LabelSpans T)

def Meet (i j : ℕ) : Prop := spans.starts i ≤ spans.ends j ∧ spans.starts j ≤ spans.ends i

/-- The times of every label are there. -/
def Timed : Prop := ∀ i < spans.size, spans.starts i ≤ spans.starts i ∧ spans.ends i ≤ spans.ends i

/-- The start of the first label of a run and the greatest end in it, which is missing where one
of them is. -/
def IsSpan (lo hi : ℕ) (t0 t1 : T) : Prop :=
  t0 = spans.starts lo ∧ (IsGreatest {t | ∃ j, lo ≤ j ∧ j ≤ hi ∧ t = spans.ends j} t1 ∨
    ¬t1 ≤ t1 ∧ ∃ j, lo ≤ j ∧ j ≤ hi ∧ ¬spans.ends j ≤ spans.ends j)

variable [Max T] [IsClock T] {lo hi : ℕ}

omit [LE T] [Max T] [IsClock T] in
theorem mem_endsOf (h : lo ≤ hi) {t : T} :
    t ∈ spans.ends lo :: (List.range' (lo + 1) (hi - lo)).map spans.ends ↔
      ∃ j, lo ≤ j ∧ j ≤ hi ∧ t = spans.ends j := by
  rw [List.mem_cons, List.mem_map]
  constructor
  · rintro (rfl | ⟨j, hj, rfl⟩)
    · exact ⟨lo, le_rfl, h, rfl⟩
    · rw [List.mem_range'_1] at hj
      exact ⟨j, by omega, by omega, rfl⟩
  · rintro ⟨j, hlo, hhi, rfl⟩
    rcases hlo.eq_or_lt with rfl | hlt
    · exact .inl rfl
    · refine .inr ⟨j, ?_, rfl⟩
      rw [List.mem_range'_1]
      omega

theorem isSpan_lastEnd (h : lo ≤ hi) :
    spans.IsSpan lo hi (spans.starts lo) (spans.lastEnd lo hi) := by
  refine ⟨rfl, ?_⟩
  unfold lastEnd
  by_cases hall : ∀ t ∈ spans.ends lo :: (List.range' (lo + 1) (hi - lo)).map spans.ends, t ≤ t
  · left
    have hgreatest := isGreatest_foldl_max hall
    simpa only [spans.mem_endsOf h] using hgreatest
  · right
    push Not at hall
    refine ⟨missing_foldl_max hall, ?_⟩
    obtain ⟨t, ht, hmissing⟩ := hall
    obtain ⟨j, hlo, hhi, rfl⟩ := (spans.mem_endsOf h).1 ht
    exact ⟨j, hlo, hhi, hmissing⟩

omit [LE T] [Max T] [IsClock T] in
theorem getElem?_of_create [DecidableLT T] {starts ends : List T} {spans : LabelSpans T}
    (h : create starts ends = .ok spans) {r : ℕ} (hr : r < spans.size) :
    starts[r]? = some (spans.starts r) ∧ ends[r]? = some (spans.ends r) := by
  unfold create at h
  split at h
  · cases h
  next hlength =>
    split at h
    · cases h
    split at h
    · cases h
    split at h
    · cases h
    cases h
    dsimp only at hr ⊢
    rw [List.getD_eq_getElem _ _ hr, List.getD_eq_getElem _ _ (by omega)]
    exact ⟨List.getElem?_eq_getElem hr, List.getElem?_eq_getElem (by omega)⟩

theorem eq_of_isSpan (h : lo ≤ hi) {t0 t1 : T} (hspan : spans.IsSpan lo hi t0 t1) :
    t0 = spans.starts lo ∧ t1 = spans.lastEnd lo hi := by
  refine ⟨hspan.1, ?_⟩
  rcases hspan.2, (spans.isSpan_lastEnd h).2 with
    ⟨hgreatest | ⟨hmissing, j, hlo, hhi, hj⟩, hgreatest' | ⟨hmissing', j', hlo', hhi', hj'⟩⟩
  · exact IsClock.le_antisymm (hgreatest'.2 hgreatest.1) (hgreatest.2 hgreatest'.1)
  · exact absurd (le_self_left (hgreatest.2 ⟨j', hlo', hhi', rfl⟩)) hj'
  · exact absurd (le_self_left (hgreatest'.2 ⟨j, hlo, hhi, rfl⟩)) hj
  · exact missing_unique hmissing hmissing'

variable {spans}

omit [Max T] [IsClock T] in
theorem Timed.starts_le [Max T] [IsClock T] (h : spans.Timed) {i j : ℕ} (hij : i ≤ j)
    (hj : j < spans.size) : spans.starts i ≤ spans.starts j := by
  induction j, hij using Nat.le_induction with
  | base => exact (h i hj).1
  | succ j hle ih =>
    have hprev : j < spans.size := by omega
    exact IsClock.le_trans (ih hprev)
      (le_of_not_lt (h j hprev).1 (h (j + 1) hj).1 (spans.sorted j hj))

end Order

variable {T : Type} [LE T] [LT T] [Max T] [Add T] [DecidableLE T] [DecidableLT T]
  (spans : LabelSpans T)

omit [Max T] [DecidableLE T] [DecidableLT T] in
/-- A sample starts in the embargo after a run whose last sample is `hi` and whose last label
ends at `t1`. -/
def InEmbargo (embargo : Embargo T) (hi : ℕ) (t1 : T) (i : ℕ) : Prop :=
  match embargo.delta with
  | some delta => t1 < spans.starts i ∧ spans.starts i ≤ t1 + delta
  | none => hi < i ∧ (i : ℤ) ≤ hi + ⌈(spans.size : ℚ) * embargo.pct⌉

section Purge

variable {testIdx : List ℕ} {embargo : Embargo T}

variable {i : ℕ}

theorem mem_train : i ∈ (spans.purgeAndEmbargo testIdx embargo).1 ↔
    i < spans.size ∧ i ∉ testIdx ∧ (∀ run ∈ contiguousRuns testIdx, ¬spans.overlaps run i) ∧
      ∀ run ∈ contiguousRuns testIdx, ¬spans.embargoed embargo run i := by
  unfold purgeAndEmbargo
  simp only [List.mem_filter, List.mem_range, decide_eq_true_eq, Bool.not_eq_true',
    List.any_eq_false, and_assoc]

theorem embargoed_iff (run : ℕ × ℕ) (hi : i < spans.size) : spans.embargoed embargo run i ↔
      spans.InEmbargo embargo run.2 (spans.lastEnd run.1 run.2) i := by
  unfold embargoed InEmbargo
  cases embargo.delta with
  | some delta => simp only [Bool.and_eq_true, decide_eq_true_eq]
  | none =>
    by_cases hpct : 0 < embargo.pct
    · simp only [hpct, if_true, Bool.and_eq_true, decide_eq_true_eq]
      omega
    · have hwidth : ⌈(spans.size : ℚ) * embargo.pct⌉ ≤ 0 := by
        rw [Int.ceil_le, Int.cast_zero]
        exact mul_nonpos_of_nonneg_of_nonpos (Nat.cast_nonneg _) (not_lt.1 hpct)
      simp only [hpct, if_false, Bool.false_eq_true, false_iff, not_and]
      intro hafter hwithin
      omega

/-- The training samples are those outside the test whose labels keep clear of every run of the
test and of its embargo. -/
theorem mem_train_iff [IsClock T] (hnodup : testIdx.Nodup) :
    i ∈ (spans.purgeAndEmbargo testIdx embargo).1 ↔
      i < spans.size ∧ i ∉ testIdx ∧ ∀ lo hi t0 t1, IsRun {j | j ∈ testIdx} lo hi →
        spans.IsSpan lo hi t0 t1 → ¬(spans.starts i ≤ t1 ∧ t0 ≤ spans.ends i) ∧
          ¬spans.InEmbargo embargo hi t1 i := by
  rw [mem_train]
  have hoverlaps : ∀ run : ℕ × ℕ, spans.overlaps run i ↔
      spans.starts i ≤ spans.lastEnd run.1 run.2 ∧ spans.starts run.1 ≤ spans.ends i := by
    intro run
    unfold overlaps
    rw [Bool.and_eq_true, decide_eq_true_eq, decide_eq_true_eq]
  constructor
  · intro h
    obtain ⟨hsize, houtside, hpurged, hembargoed⟩ := h
    refine ⟨hsize, houtside, ?_⟩
    intro lo hi t0 t1 hrun hspan
    have hmem : (lo, hi) ∈ contiguousRuns testIdx := (mem_contiguousRuns hnodup).2 hrun
    obtain ⟨rfl, rfl⟩ := spans.eq_of_isSpan hrun.le hspan
    constructor
    · rw [← hoverlaps (lo, hi)]
      exact hpurged _ hmem
    · rw [← spans.embargoed_iff (lo, hi) hsize]
      exact hembargoed _ hmem
  · intro h
    obtain ⟨hsize, houtside, hclear⟩ := h
    refine ⟨hsize, houtside, ?_, ?_⟩
    · intro run hmem
      have hrun := (mem_contiguousRuns hnodup).1 hmem
      rw [hoverlaps]
      exact (hclear _ _ _ _ hrun (spans.isSpan_lastEnd hrun.le)).1
    · intro run hmem
      have hrun := (mem_contiguousRuns hnodup).1 hmem
      rw [spans.embargoed_iff run hsize]
      exact (hclear _ _ _ _ hrun (spans.isSpan_lastEnd hrun.le)).2

theorem train_clear_sample [IsClock T] (htimed : spans.Timed) (hnodup : testIdx.Nodup)
    (hlt : ∀ j ∈ testIdx, j < spans.size) {i j : ℕ}
    (hi : i ∈ (spans.purgeAndEmbargo testIdx embargo).1) (hj : j ∈ testIdx) : ¬spans.Meet i j := by
  obtain ⟨lo, hi', hrun, hlo, hhi⟩ := exists_isRun (s := {j | j ∈ testIdx}) hj hlt
  have hspan := spans.isSpan_lastEnd hrun.le
  intro hmeet
  apply (((spans.mem_train_iff hnodup).1 hi).2.2 _ _ _ _ hrun hspan).1
  constructor
  · rcases hspan.2 with hgreatest | ⟨-, k, hlok, hki, hmissing⟩
    · exact IsClock.le_trans hmeet.1 (hgreatest.2 ⟨j, hlo, hhi, rfl⟩)
    · exact absurd (htimed k (hlt k (hrun.mem k hlok hki))).2 hmissing
  · exact IsClock.le_trans (htimed.starts_le hlo (hlt j hj)) hmeet.2

theorem counts (embargo : Embargo T) (h : testIdx.Nodup) (hlt : ∀ i ∈ testIdx, i < spans.size) :
    (spans.purgeAndEmbargo testIdx embargo).1.length + (spans.purgeAndEmbargo testIdx embargo).2.1 +
      (spans.purgeAndEmbargo testIdx embargo).2.2 + testIdx.length = spans.size := by
  unfold purgeAndEmbargo
  dsimp only
  generalize contiguousRuns testIdx = runs
  generalize houtside : (List.range spans.size).filter (fun i => i ∉ testIdx) = outside
  generalize hkeep : outside.filter (fun i => !runs.any fun run => spans.overlaps run i) = keep
  have hkeepLe : keep.length ≤ outside.length := by
    rw [← hkeep]
    exact List.length_filter_le _ _
  have hsplit : keep.length =
      (keep.countP fun i => runs.any fun run => spans.embargoed embargo run i) +
        (keep.filter fun i => !runs.any fun run => spans.embargoed embargo run i).length := by
    rw [← List.countP_eq_length_filter]
    simpa using List.length_eq_countP_add_countP (l := keep)
      (fun i => runs.any fun run => spans.embargoed embargo run i)
  have htest : ((List.range spans.size).filter fun i => i ∈ testIdx).length = testIdx.length := by
    apply List.Perm.length_eq
    rw [List.perm_ext_iff_of_nodup (List.nodup_range.filter _) h]
    intro i
    rw [List.mem_filter, List.mem_range, decide_eq_true_eq]
    exact ⟨And.right, fun hi => ⟨hlt i hi, hi⟩⟩
  have hall : outside.length + testIdx.length = spans.size := by
    rw [← houtside, ← htest, ← List.countP_eq_length_filter, ← List.countP_eq_length_filter,
      Nat.add_comm]
    have hcount := List.length_eq_countP_add_countP (l := List.range spans.size)
      (fun i => decide (i ∈ testIdx))
    rw [List.length_range] at hcount
    simpa using hcount.symm
  omega

end Purge

end LabelSpans

namespace CombinatorialPurgedCV

theorem spans_of_create {T : Type} [LT T] [Sub T] [TimeScale T] {nGroups k : ℤ}
    {spans : LabelSpans T} {embargoPct : ℚ} {embargoPercentile : Option ℚ}
    {cv : CombinatorialPurgedCV T}
    (h : create nGroups k spans embargoPct embargoPercentile = .ok cv) : cv.spans = spans := by
  unfold create at h
  split at h
  · cases h
  split at h
  · cases h
  · cases hembargo : spans.resolveEmbargo embargoPct embargoPercentile with
    | error e =>
      rw [hembargo] at h
      cases h
    | ok embargo =>
      rw [hembargo] at h
      cases h
      rfl

section Splits

variable {T : Type} [LT T] (cv : CombinatorialPurgedCV T)

theorem bounds : 2 ≤ cv.nGroups ∧ 1 ≤ cv.k ∧ cv.k < cv.nGroups := by
  have := nBacktestPaths_bounds cv.paths
  omega

theorem length_groups : cv.groups.length = cv.nGroups :=
  length_arraySplit _ (by have := cv.bounds; omega)

theorem flatten_groups : cv.groups.flatten = List.range cv.spans.size :=
  flatten_arraySplit _ (by have := cv.bounds; omega)

theorem flatMap_range_groups : ((List.range cv.nGroups).flatMap fun g => cv.groups.getD g []) =
      List.range cv.spans.size := by
  rw [← cv.flatten_groups, List.flatMap_def, ← cv.length_groups]
  congr 1
  apply List.ext_getElem
  · rw [List.length_map, List.length_range]
  · intro g h h'
    rw [List.getElem_map, List.getElem_range, List.getD_eq_getElem _ _ h']

variable {combo : List ℕ}

theorem testIdx_sublist (h : combo ∈ cv.combos) :
    (cv.testIdx combo).Sublist (List.range cv.spans.size) := by
  rw [← cv.flatMap_range_groups]
  exact (mem_combinations.1 h).1.flatMap _

theorem nodup_testIdx (h : combo ∈ cv.combos) : (cv.testIdx combo).Nodup :=
  (cv.testIdx_sublist h).nodup List.nodup_range

theorem testIdx_lt (h : combo ∈ cv.combos) : ∀ j ∈ cv.testIdx combo, j < cv.spans.size :=
  fun _ hj => List.mem_range.1 ((cv.testIdx_sublist h).subset hj)

end Splits

section Paths

variable {table : ℕ → List ℕ}

variable {combo : List ℕ}

theorem fold_members (h : combo.Nodup) (s g : ℕ) :
    combo.foldl (fun table g => Function.update table g (table g ++ [s])) table g =
      if g ∈ combo then table g ++ [s] else table g := by
  induction combo generalizing table with
  | nil => rfl
  | cons b combo ih =>
    obtain ⟨hb, hcombo⟩ := List.nodup_cons.1 h
    rw [List.foldl_cons, ih hcombo]
    by_cases hgb : g = b
    · subst hgb
      rw [if_neg hb, if_pos List.mem_cons_self, Function.update_self]
    · rw [Function.update_of_ne hgb]
      simp only [List.mem_cons, hgb, false_or]

theorem fold_combos {xs : List (List ℕ × ℕ)} (h : ∀ x ∈ xs, x.1.Nodup) (g : ℕ) :
    xs.foldl (fun table x =>
        x.1.foldl (fun table g => Function.update table g (table g ++ [x.2])) table) table g =
      table g ++ (xs.filter fun x => g ∈ x.1).map Prod.snd := by
  induction xs generalizing table with
  | nil => exact (List.append_nil _).symm
  | cons x xs ih =>
    obtain ⟨hx, hxs⟩ := List.forall_mem_cons.1 h
    rw [List.foldl_cons, ih hxs, fold_members hx]
    by_cases hg : g ∈ x.1
    · rw [if_pos hg, List.filter_cons_of_pos (by simpa using hg), List.map_cons, List.append_assoc]
      rfl
    · rw [if_neg hg, List.filter_cons_of_neg (by simpa using hg)]

variable {T : Type} [LT T] (cv : CombinatorialPurgedCV T)

theorem nodup_of_mem_combos (h : combo ∈ cv.combos) : combo.Nodup :=
  (mem_combinations.1 h).1.nodup List.nodup_range

theorem perGroup_eq (g : ℕ) :
    cv.perGroup g = (cv.combos.zipIdx.filter fun x => g ∈ x.1).map Prod.snd := by
  unfold perGroup
  rw [fold_combos, List.nil_append]
  intro x hx
  exact cv.nodup_of_mem_combos (List.mem_of_getElem? (List.mem_zipIdx_iff_getElem?.1 hx))

theorem mem_perGroup {s g : ℕ} :
    s ∈ cv.perGroup g ↔ ∃ combo, cv.combos[s]? = some combo ∧ g ∈ combo := by
  rw [cv.perGroup_eq, List.mem_map]
  constructor
  · intro h
    obtain ⟨x, hx, rfl⟩ := h
    rw [List.mem_filter, decide_eq_true_eq] at hx
    exact ⟨x.1, List.mem_zipIdx_iff_getElem?.1 hx.1, hx.2⟩
  · intro h
    obtain ⟨combo, hcombo, hg⟩ := h
    refine ⟨(combo, s), ?_, rfl⟩
    rw [List.mem_filter, decide_eq_true_eq]
    exact ⟨List.mem_zipIdx_iff_getElem?.2 hcombo, hg⟩

theorem nodup_perGroup (g : ℕ) : (cv.perGroup g).Nodup := by
  rw [cv.perGroup_eq]
  have hall : (cv.combos.zipIdx.map Prod.snd).Nodup := by
    rw [List.zipIdx_map_snd]
    exact List.nodup_range'
  exact (List.filter_sublist.map _).nodup hall

theorem nPaths_eq : cv.nPaths = (cv.nGroups - 1).choose (cv.k - 1) := by
  have hbounds := cv.bounds
  obtain ⟨n, hn⟩ : ∃ n, cv.nGroups = n + 1 := ⟨cv.nGroups - 1, by omega⟩
  obtain ⟨k, hk⟩ : ∃ k, cv.k = k + 1 := ⟨cv.k - 1, by omega⟩
  have hpaths := cv.paths
  unfold nBacktestPaths at hpaths
  rw [if_neg (by omega), if_neg (by omega)] at hpaths
  dsimp only at hpaths
  rw [Int.toNat_natCast, Int.toNat_natCast, hn, hk, ← Nat.add_one_mul_choose_eq,
    if_neg (not_not.2 (Nat.mul_mod_right _ _)),
    Nat.mul_div_cancel_left _ (Nat.succ_pos n)] at hpaths
  rw [hn, hk, Nat.add_sub_cancel, Nat.add_sub_cancel]
  exact (Except.ok.inj hpaths).symm

theorem length_perGroup {g : ℕ} (h : g < cv.nGroups) : (cv.perGroup g).length = cv.nPaths := by
  have hbounds := cv.bounds
  obtain ⟨k, hk⟩ : ∃ k, cv.k = k + 1 := ⟨cv.k - 1, by omega⟩
  have hcount : cv.combos.zipIdx.countP (fun x => decide (g ∈ x.1)) = cv.combos.countP (g ∈ ·) := by
    have hmap := List.countP_map (p := fun c : List ℕ => decide (g ∈ c))
      (f := Prod.fst) (l := cv.combos.zipIdx)
    rw [List.zipIdx_map_fst] at hmap
    exact hmap.symm
  rw [cv.perGroup_eq, List.length_map, ← List.countP_eq_length_filter, hcount, cv.nPaths_eq]
  unfold combos
  rw [hk, countP_combinations List.nodup_range (List.mem_range.2 h), List.length_range,
    Nat.add_sub_cancel]

def pathOf (p : ℕ) : List (ℕ × ℕ) :=
  (List.range cv.nGroups).map fun g => ((cv.perGroup g).getD p 0, g)

theorem pathMap_eq : cv.pathMap = some ((List.range cv.nPaths).map cv.pathOf) := by
  unfold pathMap
  apply Pointwise.mapM_eq_some_map
  intro p hp
  rw [List.mem_range] at hp
  apply Pointwise.mapM_eq_some_map
  intro g hg
  rw [List.mem_range] at hg
  have hlt : p < (cv.perGroup g).length := by
    rw [cv.length_perGroup hg]
    exact hp
  rw [List.getElem?_eq_getElem hlt, Option.map_some, List.getD_eq_getElem _ _ hlt]

theorem mem_paths {x : ℕ × ℕ} : x ∈ ((List.range cv.nPaths).map cv.pathOf).flatten ↔
      ∃ combo, cv.combos[x.1]? = some combo ∧ x.2 ∈ combo := by
  rw [← cv.mem_perGroup, List.mem_flatten]
  constructor
  · intro h
    obtain ⟨path, hpath, hx⟩ := h
    obtain ⟨p, hp, rfl⟩ := List.mem_map.1 hpath
    obtain ⟨g, hg, rfl⟩ := List.mem_map.1 hx
    rw [List.mem_range] at hp hg
    have hlt : p < (cv.perGroup g).length := by
      rw [cv.length_perGroup hg]
      exact hp
    dsimp only
    rw [List.getD_eq_getElem _ _ hlt]
    exact List.getElem_mem hlt
  · intro h
    obtain ⟨s, g⟩ := x
    have hg : g < cv.nGroups := by
      obtain ⟨combo, hcombo, hmem⟩ := cv.mem_perGroup.1 h
      have hsub := (mem_combinations.1 (List.mem_of_getElem? hcombo)).1
      exact List.mem_range.1 (hsub.subset hmem)
    obtain ⟨p, hp, hps⟩ := List.getElem_of_mem h
    refine ⟨cv.pathOf p, List.mem_map.2 ⟨p, ?_, rfl⟩, List.mem_map.2 ⟨g, ?_, ?_⟩⟩
    · rw [List.mem_range, ← cv.length_perGroup hg]
      exact hp
    · exact List.mem_range.2 hg
    · rw [List.getD_eq_getElem _ _ hp, hps]

theorem nodup_pathOf (p : ℕ) : (cv.pathOf p).Nodup := by
  have hgroups : ((cv.pathOf p).map Prod.snd).Nodup := by
    unfold pathOf
    rw [List.map_map]
    simpa [Function.comp_def] using List.nodup_range
  exact hgroups.of_map _

theorem nodup_paths : ((List.range cv.nPaths).map cv.pathOf).flatten.Nodup := by
  rw [List.nodup_flatten]
  constructor
  · intro path hpath
    obtain ⟨p, -, rfl⟩ := List.mem_map.1 hpath
    exact cv.nodup_pathOf p
  · rw [List.pairwise_map]
    refine List.pairwise_lt_range.imp_of_mem ?_
    intro p q hp hq hlt x hxp hxq
    rw [List.mem_range] at hp hq
    obtain ⟨g, hg, rfl⟩ := List.mem_map.1 hxp
    obtain ⟨g', -, heq⟩ := List.mem_map.1 hxq
    obtain ⟨hs, hgroup⟩ := Prod.mk.inj heq
    subst hgroup
    rw [List.mem_range] at hg
    have hlength := cv.length_perGroup hg
    rw [List.getD_eq_getElem _ _ (by omega), List.getD_eq_getElem _ _ (by omega)] at hs
    have := (cv.nodup_perGroup _).getElem_inj_iff.1 hs
    omega

end Paths

section Leaks

variable {T : Type} [LE T] [LT T] [Max T] [Add T] [DecidableLE T] [DecidableLT T]
  (cv : CombinatorialPurgedCV T)

/-- What the splits keep apart is what the spans of the tested runs and their embargo catch. -/
theorem apart_iff [IsClock T] (R : ℕ → ℕ → Prop) :
    (∀ split ∈ cv.split, ∀ i ∈ split.train, ∀ j ∈ split.test, ¬R i j) ↔
      ∀ combo ∈ cv.combos, ∀ i < cv.spans.size, i ∉ cv.testIdx combo → ∀ j ∈ cv.testIdx combo,
        R i j → ∃ lo hi t0 t1, IsRun {r | r ∈ cv.testIdx combo} lo hi ∧
          cv.spans.IsSpan lo hi t0 t1 ∧ ((cv.spans.starts i ≤ t1 ∧ t0 ≤ cv.spans.ends i) ∨
            cv.spans.InEmbargo cv.embargo hi t1 i) := by
  have hsort : ∀ combo, ((cv.testIdx combo).insertionSort (· ≤ ·)).Perm (cv.testIdx combo) :=
    fun combo => List.perm_insertionSort _ _
  constructor
  · intro h combo hcombo i hi hout j hj hrelated
    by_contra hcaught
    refine h (cv.splitOf combo) (List.mem_map_of_mem hcombo) i ?_ j
      ((hsort combo).mem_iff.2 hj) hrelated
    refine (cv.spans.mem_train_iff (cv.nodup_testIdx hcombo)).2 ⟨hi, hout, ?_⟩
    intro lo hi' t0 t1 hrun hspan
    exact ⟨fun hmeet => hcaught ⟨lo, hi', t0, t1, hrun, hspan, .inl hmeet⟩,
      fun hembargo => hcaught ⟨lo, hi', t0, t1, hrun, hspan, .inr hembargo⟩⟩
  · intro h split hsplit i hi j hj hrelated
    obtain ⟨combo, hcombo, rfl⟩ := List.mem_map.1 hsplit
    obtain ⟨hsize, hout, hclear⟩ := (cv.spans.mem_train_iff (cv.nodup_testIdx hcombo)).1 hi
    obtain ⟨lo, hi', t0, t1, hrun, hspan, hcaught⟩ :=
      h combo hcombo i hsize hout j ((hsort combo).mem_iff.1 hj) hrelated
    obtain ⟨hmeet, hembargo⟩ := hclear lo hi' t0 t1 hrun hspan
    rcases hcaught with hcaught | hcaught
    · exact hmeet hcaught
    · exact hembargo hcaught

/-- No training label meets a run of the test, one of its labels or its embargo; every sample is
counted once; and the splits make up whole paths. -/
structure Sound : Prop where
  disjoint : ∀ split ∈ cv.split, ∀ i ∈ split.train, i ∉ split.test
  runs : ∀ split ∈ cv.split, ∀ i ∈ split.train, ∀ lo hi t0 t1, IsRun {j | j ∈ split.test} lo hi →
    cv.spans.IsSpan lo hi t0 t1 → ¬(cv.spans.starts i ≤ t1 ∧ t0 ≤ cv.spans.ends i) ∧
      ¬cv.spans.InEmbargo cv.embargo hi t1 i
  labels : ∀ split ∈ cv.split, ∀ i ∈ split.train, ∀ j ∈ split.test, ¬cv.spans.Meet i j
  counted : ∀ split ∈ cv.split,
    split.train.length + split.nPurged + split.nEmbargoed + split.test.length = cv.spans.size
  paths : ∃ paths, cv.pathMap = some paths ∧ paths.length = (cv.nGroups - 1).choose (cv.k - 1) ∧
    (∀ path ∈ paths, path.map Prod.snd = List.range cv.nGroups) ∧ paths.flatten.Nodup ∧
    ∀ s g, (s, g) ∈ paths.flatten ↔ ∃ split, cv.split[s]? = some split ∧ g ∈ split.testGroups

/-- A label outside the tested groups that meets a label in them meets the span of a tested run,
as far as its times are there, or starts in the embargo after one. -/
def Caught : Prop :=
  ∀ combo ∈ cv.combos, ∀ i < cv.spans.size, i ∉ cv.testIdx combo → ∀ j ∈ cv.testIdx combo,
    cv.spans.Meet i j → ∃ lo hi t0 t1, IsRun {r | r ∈ cv.testIdx combo} lo hi ∧
      cv.spans.IsSpan lo hi t0 t1 ∧ ((cv.spans.starts i ≤ t1 ∧ t0 ≤ cv.spans.ends i) ∨
        cv.spans.InEmbargo cv.embargo hi t1 i)

variable {cv}

theorem sound_of_labels [IsClock T]
    (h : ∀ split ∈ cv.split, ∀ i ∈ split.train, ∀ j ∈ split.test, ¬cv.spans.Meet i j) :
    cv.Sound := by
  have htest : ∀ combo j, j ∈ (cv.splitOf combo).test ↔ j ∈ cv.testIdx combo :=
    fun combo j => (List.perm_insertionSort _ _).mem_iff
  refine ⟨?_, ?_, h, ?_, _, cv.pathMap_eq, ?_, ?_, cv.nodup_paths, ?_⟩
  · intro split hsplit i hi hmem
    obtain ⟨combo, hcombo, rfl⟩ := List.mem_map.1 hsplit
    have hnodup := cv.nodup_testIdx hcombo
    exact ((cv.spans.mem_train_iff hnodup).1 hi).2.1 ((htest combo i).1 hmem)
  · intro split hsplit i hi lo hi' t0 t1 hrun hspan
    obtain ⟨combo, hcombo, rfl⟩ := List.mem_map.1 hsplit
    have hnodup := cv.nodup_testIdx hcombo
    exact ((cv.spans.mem_train_iff hnodup).1 hi).2.2 _ _ _ _
      ((isRun_congr (htest combo)).1 hrun) hspan
  · intro split hsplit
    obtain ⟨combo, hcombo, rfl⟩ := List.mem_map.1 hsplit
    have hcounts := cv.spans.counts cv.embargo (cv.nodup_testIdx hcombo) (cv.testIdx_lt hcombo)
    rw [← (List.perm_insertionSort (· ≤ ·) (cv.testIdx combo)).length_eq] at hcounts
    exact hcounts
  · rw [List.length_map, List.length_range, cv.nPaths_eq]
  · intro path hpath
    obtain ⟨p, -, rfl⟩ := List.mem_map.1 hpath
    unfold pathOf
    rw [List.map_map]
    exact List.map_id _
  · intro s g
    rw [cv.mem_paths]
    unfold split
    rw [List.getElem?_map]
    constructor
    · intro h
      obtain ⟨combo, hcombo, hg⟩ := h
      exact ⟨cv.splitOf combo, by rw [hcombo]; rfl, hg⟩
    · intro h
      obtain ⟨split, hsplit, hg⟩ := h
      obtain ⟨combo, hcombo, rfl⟩ := Option.map_eq_some_iff.1 hsplit
      exact ⟨combo, hcombo, hg⟩

variable (cv)

/-- Purged cross-validation does not leak exactly where the spans of its tested runs catch every
label that meets one of theirs, and so wherever no label's time is missing.  A run in which an
end is missing, or whose first start is, catches nothing. -/
theorem purged_cv [IsClock T] : (cv.Sound ↔ cv.Caught) ∧ (cv.spans.Timed → cv.Sound) := by
  have hlabels := cv.apart_iff cv.spans.Meet
  refine ⟨⟨fun h => hlabels.1 h.labels, fun h => sound_of_labels (hlabels.2 h)⟩, fun htimed => ?_⟩
  apply sound_of_labels
  intro split hsplit i hi j hj
  obtain ⟨combo, hcombo, rfl⟩ := List.mem_map.1 hsplit
  exact cv.spans.train_clear_sample htimed (cv.nodup_testIdx hcombo) (cv.testIdx_lt hcombo) hi
    ((List.perm_insertionSort _ _).mem_iff.1 hj)

end Leaks

section Samples

open Stamp

/-- Labels that last ten, the one numbered `missing` without an end. -/
def labelEnd (missing : Option ℕ) (i : ℕ) : Stamp ℤ :=
  if missing = some i then nan else at_ (i + 10)

theorem four_pos : 0 < 4 := by decide

theorem labelEnd_ordered (missing : Option ℕ) : ∀ i < 4, ¬labelEnd missing i < at_ (i : ℤ) := by
  intro i _
  unfold labelEnd
  split_ifs
  · exact id
  · rw [at_lt_at]
    omega

theorem labelStart_sorted : ∀ i, i + 1 < 4 → ¬at_ ((i + 1 : ℕ) : ℤ) < at_ (i : ℤ) := by
  intro i _
  rw [at_lt_at]
  omega

def fourLabels (missing : Option ℕ) : LabelSpans (Stamp ℤ) where
  size := 4
  starts i := at_ (i : ℤ)
  ends := labelEnd missing
  nonempty := four_pos
  ordered := labelEnd_ordered missing
  sorted := labelStart_sorted

theorem two_le_four : 2 ≤ 4 := by decide

theorem halves_paths : nBacktestPaths (2 : ℕ) (1 : ℕ) = .ok 1 := by decide

def halves (missing : Option ℕ) : CombinatorialPurgedCV (Stamp ℤ) where
  nGroups := 2
  k := 1
  spans := fourLabels missing
  embargo := ⟨0, none⟩
  nPaths := 1
  enough := two_le_four
  paths := halves_paths

theorem purged_halves : (halves none).spans.Timed ∧ (halves none).Sound := by
  have htimed : (halves none).spans.Timed := fun i _ => ⟨le_refl (i : ℤ), le_refl (i + 10 : ℤ)⟩
  exact ⟨htimed, (halves none).purged_cv.2 htimed⟩

/-- The first half is tested and one of its labels has no end: nothing is purged, and the third
label trains while the first is tested. -/
theorem open_label_leaks : (halves (some 1)).split =
      [⟨[2, 3], [0, 1], [0], 0, 0⟩, ⟨[1], [2, 3], [1], 1, 0⟩] ∧ ¬(halves (some 1)).Sound := by
  have hsplit : (halves (some 1)).split =
      [⟨[2, 3], [0, 1], [0], 0, 0⟩, ⟨[1], [2, 3], [1], 1, 0⟩] := by decide
  refine ⟨hsplit, fun hsound => ?_⟩
  have hfirst : (⟨[2, 3], [0, 1], [0], 0, 0⟩ : CVSplit) ∈ (halves (some 1)).split := by
    rw [hsplit]
    exact List.mem_cons_self
  have hmeet : (halves (some 1)).spans.Meet 2 0 := by
    unfold LabelSpans.Meet
    decide
  exact hsound.labels _ hfirst 2 (by simp) 0 (by simp) hmeet

end Samples

end CombinatorialPurgedCV

end Fiboki
