import Fiboki.Backtest.Position
import Fiboki.Stats.CrossValidation
import Fiboki.Validation.Rungs

/-!
The purged rung on the rows of an evaluation: label spans are attached to the rows by position,
the trades' in entry order, and what the purge keeps apart is the labels at the positions.
-/

namespace Fiboki

open ArraySplit Combinations Contiguous StableSort Wire
open Floating (Number)

def LabelSpans.fromTrades (trades : List Trade) : Except String (LabelSpans ℤ) :=
  if trades = [] then .error "no trades"
  else
    let ordered := sortBy Trade.entryTime trades
    LabelSpans.create (ordered.map Trade.entryTime) (ordered.map Trade.exitTime)

def LabelSpans.unitPeriods (n : ℕ) : Except String (LabelSpans ℤ) :=
  LabelSpans.create ((List.range n).map fun i : ℕ => (i : ℤ))
    ((List.range n).map fun i : ℕ => (i : ℤ) + 1)

def SpanSource.labelSpans : SpanSource Trade → Except String (LabelSpans ℤ)
  | .trades ts => LabelSpans.fromTrades ts
  | .periods n => LabelSpans.unitPeriods n

def embargoShare : Number → Except String ℚ
  | .fin q => .ok q
  | .nan | .inf true => .ok 0
  | .inf false => .error "cannot convert float infinity to integer"

def purgedCv (source : SpanSource Trade) (cvGroups cvK : ℤ) (embargoPct : Number) :
    Except String (CombinatorialPurgedCV ℤ) := do
  let spans ← source.labelSpans
  let share ← embargoShare embargoPct
  CombinatorialPurgedCV.create cvGroups cvK spans share none

def WindowEvaluation.fromTrades (window : DateWindow) (params : Params) (trades : List Trade) :
    WindowEvaluation Trade where
  window := window
  params := canonicalParams params
  nTrades := trades.length
  netProfit := .fin (trades.map Trade.netPnl).sum
  returns := trades.map fun t => .fin t.netPnl
  returnsBasis := .trade
  trades := trades
  metadata := Dict.empty
  canonical := canonicalParams_canonicalParams params

/-- What the rung receives: the selected evaluation and the matrix of trial columns, where there
is one.  Trade-basis returns are one for each trade, in the order the trades are listed. -/
structure RungRows where
  full : WindowEvaluation Trade
  matrix : Option (List (List Number))
  aligned : full.returnsBasis = .trade → full.returns.length = full.trades.length

namespace RungRows

variable (rows : RungRows)

def nRows : ℕ := ((rows.matrix.getD [rows.full.returns]).head?.getD []).length

def basis : ReturnsBasis := if rows.matrix.isSome then .period else rows.full.returnsBasis

def holding (r : ℕ) : Option (ℤ × ℤ) :=
  match rows.basis with
  | .trade => rows.full.trades[r]?.map fun t => (t.entryTime, t.exitTime)
  | .period => some (r, r + 1)

def Overlap (i j : ℕ) : Prop :=
  ∃ a b, rows.holding i = some a ∧ rows.holding j = some b ∧ a.1 ≤ b.2 ∧ b.1 ≤ a.2

def cv (cvGroups cvK : ℤ) (embargoPct : Number) : Except String (CombinatorialPurgedCV ℤ) :=
  purgedCv (spansFor rows.full rows.nRows).1 cvGroups cvK embargoPct

def NoLeak (cv : CombinatorialPurgedCV ℤ) : Prop :=
  ∀ split ∈ cv.split, ∀ i ∈ split.train, ∀ j ∈ split.test, ¬rows.Overlap i j

/-- Where a row outside the tested groups holds while a row in them does, the label standing at
its position meets the labels standing at the positions of a tested run, or starts in the
embargo after it. -/
def CaughtByPosition (cv : CombinatorialPurgedCV ℤ) : Prop :=
  ∀ combo ∈ cv.combos, ∀ i < cv.spans.size, i ∉ cv.testIdx combo → ∀ j ∈ cv.testIdx combo,
    rows.Overlap i j → ∃ lo hi t0 t1, IsRun {r | r ∈ cv.testIdx combo} lo hi ∧
      cv.spans.IsSpan lo hi t0 t1 ∧ ((cv.spans.starts i ≤ t1 ∧ t0 ≤ cv.spans.ends i) ∨
        cv.spans.InEmbargo cv.embargo hi t1 i)

def OwnLabels (spans : LabelSpans ℤ) : Prop :=
  ∀ r < spans.size, rows.holding r = some (spans.starts r, spans.ends r)

/-- The trades are listed in the order they were entered, and rows that are periods do not count
as many as the trades. -/
structure ListedByEntry : Prop where
  trade : rows.basis = .trade → rows.full.trades.Pairwise fun a b => a.entryTime ≤ b.entryTime
  period : rows.basis = .period → rows.full.trades = [] ∨ rows.full.trades.length ≠ rows.nRows

theorem noLeak_iff (cv : CombinatorialPurgedCV ℤ) : rows.NoLeak cv ↔ rows.CaughtByPosition cv :=
  cv.apart_iff rows.Overlap

variable {cv : CombinatorialPurgedCV ℤ}

theorem noLeak_of_ownLabels (h : rows.OwnLabels cv.spans) : rows.NoLeak cv := by
  intro split hsplit i hi j hj hoverlap
  obtain ⟨combo, hcombo, rfl⟩ := List.mem_map.1 hsplit
  have hnodup := cv.nodup_testIdx hcombo
  have hmem : j ∈ cv.testIdx combo := (List.perm_insertionSort _ _).mem_iff.1 hj
  obtain ⟨a, b, ha, hb, hab, hba⟩ := hoverlap
  have hi' := ((cv.spans.mem_train_iff hnodup).1 hi).1
  rw [h i hi', Option.some.injEq] at ha
  rw [h j (cv.testIdx_lt hcombo j hmem), Option.some.injEq] at hb
  subst ha hb
  have htimed : cv.spans.Timed := fun _ _ => ⟨le_rfl, le_rfl⟩
  exact cv.spans.train_clear_sample htimed hnodup (cv.testIdx_lt hcombo) hi hmem ⟨hab, hba⟩

variable {embargoPct : Number} {cvGroups cvK : ℤ}

theorem spans_of_cv {source : SpanSource Trade}
    (h : purgedCv source cvGroups cvK embargoPct = .ok cv) : source.labelSpans = .ok cv.spans := by
  unfold purgedCv at h
  obtain ⟨spans, hspans, h⟩ := bind_ok h
  obtain ⟨share, -, h⟩ := bind_ok h
  rw [hspans, CombinatorialPurgedCV.spans_of_create h]

theorem ownLabels_of_create {starts ends : List ℤ} {spans : LabelSpans ℤ}
    (h : LabelSpans.create starts ends = .ok spans)
    (hown : ∀ r a b, starts[r]? = some a → ends[r]? = some b → rows.holding r = some (a, b)) :
    rows.OwnLabels spans := by
  intro r hr
  obtain ⟨hstart, hend⟩ := LabelSpans.getElem?_of_create h hr
  exact hown r _ _ hstart hend

theorem ownLabels_of_listedByEntry (h : rows.ListedByEntry)
    (hcv : rows.cv cvGroups cvK embargoPct = .ok cv) : rows.OwnLabels cv.spans := by
  have hspans := spans_of_cv hcv
  unfold spansFor at hspans
  cases hbasis : rows.basis with
  | trade =>
    have hnone : rows.matrix = none := by
      by_contra hsome
      unfold basis at hbasis
      rw [if_pos (Option.isSome_iff_ne_none.2 hsome)] at hbasis
      cases hbasis
    have htrade : rows.full.returnsBasis = .trade := by
      unfold basis at hbasis
      rwa [hnone, if_neg (by simp)] at hbasis
    have hrows : rows.full.trades.length = rows.nRows := by
      rw [← rows.aligned htrade]
      unfold nRows
      rw [hnone]
      rfl
    split at hspans
    · have hsorted : sortBy Trade.entryTime rows.full.trades = rows.full.trades :=
        (h.trade hbasis).insertionSort_eq
      unfold SpanSource.labelSpans LabelSpans.fromTrades at hspans
      dsimp only at hspans
      rw [if_neg (by tauto), hsorted] at hspans
      apply rows.ownLabels_of_create hspans
      intro r a b ha hb
      rw [List.getElem?_map] at ha hb
      unfold holding
      rw [hbasis]
      obtain ⟨t, ht, rfl⟩ := Option.map_eq_some_iff.1 ha
      rw [ht] at hb ⊢
      cases hb
      rfl
    · have hempty : rows.full.trades = [] := by
        by_contra hne
        tauto
      rw [← hrows, hempty] at hspans
      cases hspans
  | period =>
    have hno : ¬(rows.full.trades ≠ [] ∧ rows.full.trades.length = rows.nRows) := by
      rintro ⟨hne, heq⟩
      rcases h.period hbasis with hnil | hlength
      · exact hne hnil
      · exact hlength heq
    rw [if_neg hno] at hspans
    apply rows.ownLabels_of_create hspans
    intro r a b ha hb
    rw [List.getElem?_map] at ha hb
    obtain ⟨i, hi, rfl⟩ := Option.map_eq_some_iff.1 ha
    rw [hi] at hb
    cases hb
    obtain ⟨hlt, hir⟩ := List.getElem?_eq_some_iff.1 hi
    rw [List.getElem_range] at hir
    subst hir
    unfold holding
    rw [hbasis]

/-- A purged split keeps training rows and test rows apart exactly where the labels by position
catch every pair of them, and so wherever rows are listed in the order of entry. -/
theorem purged_rung {cvGroups cvK : ℤ} {embargoPct : Number} {cv : CombinatorialPurgedCV ℤ}
    (h : rows.cv cvGroups cvK embargoPct = .ok cv) :
    (rows.NoLeak cv ↔ rows.CaughtByPosition cv) ∧ (rows.ListedByEntry → rows.NoLeak cv) :=
  ⟨rows.noLeak_iff cv, fun hlisted =>
    rows.noLeak_of_ownLabels (rows.ownLabels_of_listedByEntry hlisted h)⟩

end RungRows

section Examples

def held (entryTime exitTime : ℤ) : Trade where
  instrument := "EUR_USD"
  direction := .long
  size := 1
  entryPrice := 1
  exitPrice := 1
  entryTime := entryTime
  exitTime := exitTime
  exitReason := .takeProfit
  grossPnl := 0
  spreadCost := 0
  commission := 0
  slippageCost := 0
  financingCost := 0
  netPnl := 0
  accountCcy := "GBP"
  strategyId := ""
  barsHeld := 0
  maxAdverseExcursion := 0
  maxFavourableExcursion := 0
  provenance := .backtest
  fxRateUsed := 1
  initialStop := 0
  finalStop := 0
  takeProfitTargets := []
  stopMovedBy := ""

def tradeRows (trades : List Trade) : RungRows where
  full := .fromTrades ⟨"research", 0, 1000, by decide⟩ Dict.empty trades
  matrix := none
  aligned _ := List.length_map _

def closeOrder : RungRows := tradeRows [held 10 20, held 30 40, held 50 60, held 0 100]

def entryOrder : RungRows := tradeRows [held 0 100, held 10 20, held 30 40, held 50 60]

theorem closeOrder_splits : (closeOrder.cv 2 1 (.fin 0)).map (fun cv => cv.split) =
      .ok [⟨[], [0, 1], [0], 2, 0⟩, ⟨[1], [2, 3], [1], 1, 0⟩] := by
  decide

/-- In the order of closing a training row holds while a test row does. -/
theorem close_order_leaks : ∃ cv, closeOrder.cv 2 1 (.fin 0) = .ok cv ∧ ¬closeOrder.NoLeak cv := by
  have hsplits := closeOrder_splits
  cases hcv : closeOrder.cv 2 1 (.fin 0) with
  | error e =>
    rw [hcv] at hsplits
    cases hsplits
  | ok cv =>
    rw [hcv] at hsplits
    have hsplit : cv.split = [⟨[], [0, 1], [0], 2, 0⟩, ⟨[1], [2, 3], [1], 1, 0⟩] :=
      Except.ok.inj hsplits
    refine ⟨cv, rfl, ?_⟩
    intro hno
    apply hno ⟨[1], [2, 3], [1], 1, 0⟩ (by rw [hsplit]; simp) 1 (by simp) 3 (by simp)
    exact ⟨(30, 40), (0, 100), rfl, rfl, by decide, by decide⟩

theorem entryOrder_listedByEntry : entryOrder.ListedByEntry where
  trade _ := by decide
  period h := by cases h

/-- In the order of entry nothing leaks. -/
theorem entry_order_does_not_leak :
    ∃ cv, entryOrder.cv 2 1 (.fin 0) = .ok cv ∧ entryOrder.NoLeak cv ∧
      (entryOrder.NoLeak cv ↔ entryOrder.CaughtByPosition cv) := by
  have hok : (entryOrder.cv 2 1 (.fin 0)).isOk = true := by decide
  cases hcv : entryOrder.cv 2 1 (.fin 0) with
  | error e =>
    rw [hcv] at hok
    cases hok
  | ok cv =>
    refine ⟨cv, rfl, ?_, ?_⟩
    · exact (entryOrder.purged_rung hcv).2 entryOrder_listedByEntry
    · exact (entryOrder.purged_rung hcv).1

end Examples

end Fiboki
