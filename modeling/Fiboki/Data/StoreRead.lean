import Fiboki.Data.ContentBytes
import Fiboki.Data.Store
import Fiboki.Lib.Pointwise

/-!
What is read of a directory that a frame was written to: its rows inside the window, each NaN
the standard one, sorted by their timestamps.

The frames that have the same bytes when they are read back, and the windows whose rows are
read exactly.
-/

namespace Fiboki.Bars

open StableSort

def Row.OnGrid (r : Row) : Prop := 1000 * (r.timestamp / 1000) = r.timestamp

instance (r : Row) : Decidable r.OnGrid := inferInstanceAs (Decidable (_ = _))

def restoredBits (c : NumericColumn) (bits : BitVec 64) : BitVec 64 :=
  if !c.isInt && isNaN bits then quietNaN else bits

def Row.stored (r : Row) : Row := { r with value := fun c => restoredBits c (r.value c) }

variable {r : Row}

theorem toArrow_eq_some {a : ArrowRow} (h : r.toArrow = some a) :
    r.OnGrid ∧ 1000 * a.us = r.timestamp ∧ a.toRow = r.stored := by
  unfold Row.toArrow at h
  split_ifs at h with hgrid
  cases h
  refine ⟨hgrid, hgrid, ?_⟩
  apply Row.ext
  · exact hgrid
  · rfl
  · rfl
  · rfl
  · funext c
    show (if !c.isInt && isNaN (r.value c) then none else some (r.value c)).getD quietNaN =
      restoredBits c (r.value c)
    unfold restoredBits
    split_ifs <;> rfl

theorem toArrow_isSome : (∃ a, r.toArrow = some a) ↔ r.OnGrid := by
  constructor
  · rintro ⟨a, ha⟩
    exact (toArrow_eq_some ha).1
  · intro h
    unfold Row.toArrow
    exact ⟨_, dif_pos h⟩

def Tabled (rows : List Row) (table : List ArrowRow) : Prop :=
  List.Forall₂ (fun r a => r.toArrow = some a) rows table

variable {table : List ArrowRow}

variable {rows : List Row}

theorem Tabled.map_toRow (h : Tabled rows table) :
    table.map ArrowRow.toRow = rows.map Row.stored := by
  induction h with
  | nil => rfl
  | cons hhead _ ih => rw [List.map_cons, List.map_cons, (toArrow_eq_some hhead).2.2, ih]

theorem exists_tabled : (∃ table, Tabled rows table) ↔ ∀ r ∈ rows, r.OnGrid := by
  constructor
  · rintro ⟨table, h⟩
    induction h with
    | nil => exact fun r hr => absurd hr List.not_mem_nil
    | cons hhead _ ih => exact List.forall_mem_cons.2 ⟨(toArrow_eq_some hhead).1, ih⟩
  · intro h
    induction rows with
    | nil => exact ⟨[], .nil⟩
    | cons r rows ih =>
      obtain ⟨hr, hrows⟩ := List.forall_mem_cons.1 h
      obtain ⟨a, ha⟩ := toArrow_isSome.2 hr
      obtain ⟨table, htable⟩ := ih hrows
      exact ⟨a :: table, .cons ha htable⟩

variable {f : Frame}

theorem frameToArrow_eq_ok : frameToArrow f = .ok table ↔ Accepted f ∧ Tabled f.rows table := by
  unfold frameToArrow
  cases hshape : validateFrameShape f with
  | error e =>
    refine iff_of_false (by simp) fun h => ?_
    rw [validateFrameShape_eq_ok.2 h.1] at hshape
    cases hshape
  | ok u =>
    have hf := validateFrameShape_eq_ok.1 hshape
    cases htable : f.rows.mapM Row.toArrow with
    | none =>
      refine iff_of_false (by simp) fun h => ?_
      rw [Pointwise.mapM_eq_some.2 h.2] at htable
      cases htable
    | some table' =>
      have htabled := Pointwise.mapM_eq_some.1 htable
      constructor
      · intro h
        cases h
        exact ⟨hf, htabled⟩
      · intro h
        rw [Pointwise.mapM_eq_some.2 h.2] at htable
        cases htable
        rfl

theorem yearOf_mono {a b : ℤ} (h : micros a ≤ micros b) : yearOf a ≤ yearOf b := by
  unfold yearOf micros at *
  have hsplit : ∀ x : ℤ, x / 86400000000000 = x / 1000 / 86400000000 := by
    intro x
    omega
  rw [hsplit a, hsplit b]
  exact Civil.year_monotone (Int.ediv_le_ediv (by omega) h)

variable {w : Window}

theorem keepsYear_of_keeps {us : ℤ} (h : w.keeps us = true) :
    w.keepsYear (yearOf (1000 * us)) = true := by
  have hus : micros (1000 * us) = us := by
    unfold micros
    omega
  unfold Window.keeps at h
  unfold Window.keepsYear
  rw [Bool.and_eq_true, Option.all_eq_true, Option.all_eq_true] at h ⊢
  constructor
  · intro b hb
    have hle := of_decide_eq_true (h.1 b hb)
    exact decide_eq_true (yearOf_mono (by rw [hus]; exact hle))
  · intro b hb
    have hle := of_decide_eq_true (h.2 b hb)
    exact decide_eq_true (yearOf_mono (by rw [hus]; exact hle))

def selected (f : Frame) (w : Window) : Frame where
  columns := f.ordered
  rows := sortBy Row.timestamp ((f.rows.map Row.stored).filter fun r =>
    w.keeps (micros r.timestamp))
  nodup := nodup_columnOrder.filter _

def restored (f : Frame) : Frame := selected f .whole

theorem mem_selected (h : r ∈ (selected f w).rows) :
    ∃ q ∈ f.rows, r = q.stored ∧ w.keeps (micros q.timestamp) = true := by
  have hmem := (sameBlocks_sortBy Row.timestamp _).mem _ h
  obtain ⟨hr, hkeep⟩ := List.mem_filter.1 hmem
  obtain ⟨q, hq, rfl⟩ := List.mem_map.1 hr
  exact ⟨q, hq, rfl, hkeep⟩

theorem Identified.of_stored {rows rows' : List Row} (h : Identified rows)
    (hfrom : ∀ r ∈ rows', ∃ q ∈ rows, r = q.stored) : Identified rows' := by
  obtain ⟨⟨b, hb⟩, ⟨tf, htf⟩, ⟨i, hi⟩⟩ := h
  refine ⟨⟨b, ?_⟩, ⟨tf, ?_⟩, ⟨i, ?_⟩⟩
  all_goals
    intro r hr
    obtain ⟨q, hq, rfl⟩ := hfrom r hr
  · exact hb q hq
  · exact htf q hq
  · exact hi q hq

theorem mem_columnOrder (c : NumericColumn) : c ∈ columnOrder := by cases c <;> decide

theorem mem_ordered {c : NumericColumn} : c ∈ f.ordered ↔ c ∈ f.columns := by
  unfold Frame.ordered
  rw [List.mem_filter, decide_eq_true_eq]
  exact ⟨fun h => h.2, fun h => ⟨mem_columnOrder c, h⟩⟩

theorem accepted_selected (h : Accepted f) (w : Window) : Accepted (selected f w) where
  ohlc c hc := mem_ordered.2 (h.ohlc c hc)
  identified := h.identified.of_stored fun r hr => by
    obtain ⟨q, hq, hrq, -⟩ := mem_selected hr
    exact ⟨q, hq, hrq⟩

structure Holds (dir : Directory) (f : Frame) : Prop where
  columns : dir.columns = f.columns
  partitions : ∃ table, Tabled f.rows table ∧ dir.partitions = partition table

theorem readFrame_of_holds {parquet : Parquet} {dir : Directory} (hf : Accepted f) (h : Holds dir f)
    (w : Window) :
    readFrame parquet dir w =
      if f.rows.isEmpty then .error .noTimestampColumn else .ok (selected f w) := by
  obtain ⟨table, htable, hpartitions⟩ := h.partitions
  have hempty : dir.partitions.isEmpty = f.rows.isEmpty := by
    rw [hpartitions]
    apply Bool.eq_iff_iff.2
    rw [List.isEmpty_iff, List.isEmpty_iff]
    unfold partition
    rw [Partitions.split_eq_nil]
    constructor
    · rintro rfl
      exact List.eq_nil_of_length_eq_zero htable.length_eq
    · intro hnil
      exact List.eq_nil_of_length_eq_zero (htable.length_eq ▸ congrArg List.length hnil)
  unfold readFrame
  rw [hempty]
  split_ifs with hrows
  · rfl
  -- the partitions, in whatever order, are the rows of the window once they are sorted
  have hperm : (parquet.arrange dir.partitions).Perm (partition table) := by
    rw [← hpartitions]
    exact parquet.perm _
  have hpruned : ((parquet.arrange dir.partitions).flatMap fun p =>
      if w.keepsYear p.1 then p.2.filter fun r => w.keeps r.us else []) =
      ((parquet.arrange dir.partitions).flatMap Prod.snd).filter fun r => w.keeps r.us :=
    Partitions.flatMap_pruned hperm fun a _ ha => keepsYear_of_keeps ha
  have hblocks : SameBlocks ArrowRow.us
      (((parquet.arrange dir.partitions).flatMap Prod.snd).filter fun r => w.keeps r.us)
      (table.filter fun r => w.keeps r.us) :=
    (Partitions.sameBlocks_of_perm ArrowRow.us (fun us => yearOf (1000 * us)) hperm).filter _
      w.keeps
  have hrowsOf : ((table.filter fun r => w.keeps r.us).map ArrowRow.toRow) =
      (f.rows.map Row.stored).filter fun r => w.keeps (micros r.timestamp) := by
    rw [← htable.map_toRow, List.filter_map]
    congr 1
    apply List.filter_congr
    intro a _
    show w.keeps a.us = w.keeps (micros (1000 * a.us))
    have hus : micros (1000 * a.us) = a.us := by
      unfold micros
      omega
    rw [hus]
  have hinjective : Function.Injective fun us : ℤ => 1000 * us := by
    intro a b hab
    dsimp only at hab
    omega
  have hmapped := hblocks.map _ Row.timestamp ArrowRow.toRow _ hinjective fun a => rfl
  have hsorted := hmapped.sortBy_eq
  rw [hrowsOf] at hmapped hsorted
  rw [hpruned]
  unfold frameFromArrow
  dsimp only
  have haccepted : Accepted {
      columns := columnOrder.filter fun c => c ∈ dir.columns
      rows := (((parquet.arrange dir.partitions).flatMap Prod.snd).filter fun r =>
        w.keeps r.us).map ArrowRow.toRow
      nodup := nodup_columnOrder.filter _ } := by
    refine ⟨?_, ?_⟩
    · intro c hc
      show c ∈ columnOrder.filter fun c => c ∈ dir.columns
      rw [h.columns]
      exact mem_ordered.2 (hf.ohlc c hc)
    · apply hf.identified.of_stored
      intro r hr
      have hmem := hmapped.mem _ hr
      obtain ⟨q, hq, hrq⟩ := List.mem_map.1 (List.mem_filter.1 hmem).1
      exact ⟨q, hq, hrq.symm⟩
  rw [validateFrameShape_eq_ok.2 haccepted]
  show Except.ok _ = Except.ok _
  apply congrArg Except.ok
  apply Frame.ext
  · show columnOrder.filter (fun c => c ∈ dir.columns) = f.ordered
    rw [h.columns]
    rfl
  · exact hsorted

/-- At least one row, in the order of the timestamps, and no NaN but the standard one. -/
structure Restores (f : Frame) : Prop where
  rows : f.rows ≠ []
  sorted : f.rows.Pairwise fun a b => a.timestamp ≤ b.timestamp
  standard : ∀ r ∈ f.rows, ∀ c ∈ f.columns, restoredBits c (r.value c) = r.value c

instance (f : Frame) : Decidable (Restores f) :=
  decidable_of_iff (f.rows ≠ [] ∧ (f.rows.Pairwise fun a b => a.timestamp ≤ b.timestamp) ∧
      ∀ r ∈ f.rows, ∀ c ∈ f.columns, restoredBits c (r.value c) = r.value c)
    ⟨fun h => ⟨h.1, h.2.1, h.2.2⟩, fun h => ⟨h.rows, h.sorted, h.standard⟩⟩

theorem ordered_restored (f : Frame) : (restored f).ordered = f.ordered := by
  unfold Frame.ordered
  apply List.filter_congr
  intro c _
  apply decide_eq_decide.2
  show c ∈ f.ordered ↔ c ∈ f.columns
  exact mem_ordered

theorem filter_whole (rows : List Row) :
    (rows.filter fun r => Window.whole.keeps (micros r.timestamp)) = rows :=
  List.filter_eq_self.2 fun _ _ => rfl

theorem rows_restored (f : Frame) :
    (restored f).rows = sortBy Row.timestamp (f.rows.map Row.stored) :=
  congrArg (sortBy Row.timestamp) (filter_whole _)

theorem sorted_stored {rows : List Row} (h : rows.Pairwise fun a b => a.timestamp ≤ b.timestamp) :
    (rows.map Row.stored).Pairwise fun a b => a.timestamp ≤ b.timestamp :=
  List.pairwise_map.2 h

variable {f : Frame}

theorem rows_restored_of_sorted (h : f.rows.Pairwise fun a b => a.timestamp ≤ b.timestamp) :
    (restored f).rows = f.rows.map Row.stored := by
  rw [rows_restored, sortBy_of_sorted Row.timestamp (sorted_stored h)]

theorem sameRows_restored : List.Forall₂ (fun r r' : Row => r.timestamp = r'.timestamp ∧
        ∀ c ∈ f.columns, r.value c = r'.value c) (restored f).rows f.rows ↔
      (f.rows.Pairwise fun a b => a.timestamp ≤ b.timestamp) ∧
        ∀ r ∈ f.rows, ∀ c ∈ f.columns, restoredBits c (r.value c) = r.value c := by
  constructor
  · intro h
    have htimes := map_eq_of_rows (h.imp fun _ _ hr => hr.1)
    have hsorted : f.rows.Pairwise fun a b => a.timestamp ≤ b.timestamp := by
      have hread : (restored f).rows.Pairwise fun a b => a.timestamp ≤ b.timestamp :=
        sorted_sortBy Row.timestamp _
      have hmapped := List.pairwise_map.2 hread
      rw [htimes] at hmapped
      exact List.pairwise_map.1 hmapped
    refine ⟨hsorted, ?_⟩
    rw [rows_restored_of_sorted hsorted, List.forall₂_map_left_iff, List.forall₂_same] at h
    intro r hr c hc
    exact (h r hr).2 c hc
  · rintro ⟨hsorted, hstandard⟩
    rw [rows_restored_of_sorted hsorted, List.forall₂_map_left_iff, List.forall₂_same]
    intro r hr
    exact ⟨rfl, hstandard r hr⟩

theorem length_restored (f : Frame) : (restored f).rows.length = f.rows.length := by
  rw [rows_restored]
  unfold sortBy
  rw [List.length_insertionSort, List.length_map]

theorem contentBytes_restored_iff (hf : Accepted f) : contentBytes (restored f) = contentBytes f ↔
      (f.rows.Pairwise fun a b => a.timestamp ≤ b.timestamp) ∧
        ∀ r ∈ f.rows, ∀ c ∈ f.columns, restoredBits c (r.value c) = r.value c := by
  obtain ⟨⟨p, hp⟩, ⟨tf, htf⟩, ⟨i, hi⟩⟩ := hf.identified
  have hfrom : ∀ r ∈ (restored f).rows, ∃ q ∈ f.rows, r = q.stored := by
    intro r hr
    obtain ⟨q, hq, hrq, -⟩ := mem_selected hr
    exact ⟨q, hq, hrq⟩
  have hp' : ∀ r ∈ (restored f).rows, r.priceBasis = p.value := by
    intro r hr
    obtain ⟨q, hq, rfl⟩ := hfrom r hr
    exact hp q hq
  have htf' : ∀ r ∈ (restored f).rows, r.timeframe = tf.value := by
    intro r hr
    obtain ⟨q, hq, rfl⟩ := hfrom r hr
    exact htf q hq
  have hi' : ∀ r ∈ (restored f).rows, r.instrument = i := by
    intro r hr
    obtain ⟨q, hq, rfl⟩ := hfrom r hr
    exact hi q hq
  have hlength := length_restored f
  rw [contentBytes_eq hi htf hp, contentBytes_eq hi' htf' hp', ← sameRows_restored, hlength]
  have hcells : ∀ c, (List.flatMap (fun r : Row => word (r.value c)) (restored f).rows =
      List.flatMap (fun r : Row => word (r.value c)) f.rows) ↔
      List.Forall₂ (fun r r' : Row => r.value c = r'.value c) (restored f).rows f.rows := by
    intro c
    constructor
    · exact words_injective hlength
    · intro h
      rw [← List.flatMap_map (fun r : Row => r.value c) word, map_eq_of_rows h, List.flatMap_map]
  constructor
  · intro h
    have hbytes := (List.cons.inj (List.append_cancel_left h)).2
    have hindex : (indexBytes (restored f)).length = (indexBytes f).length := by
      unfold indexBytes
      rw [length_flatMap_word, length_flatMap_word, hlength]
    obtain ⟨hindices, hlayout⟩ := List.append_inj hbytes hindex
    unfold layout at hlayout
    have hcols := cols_injective (n := f.rows.length) ?_ ?_ (List.append_cancel_left hlayout)
    · have htimes := words_injective hlength hindices
      rw [List.forall₂_iff_get]
      refine ⟨hlength, fun k hk hk' => ⟨?_, ?_⟩⟩
      · exact ofInt_injective ((List.forall₂_iff_get.1 htimes).2 k hk hk')
      · intro c hc
        unfold colsOf at hcols
        rw [ordered_restored] at hcols
        have hcell := (Prod.mk.inj (List.map_inj_left.1 hcols c (mem_ordered.2 hc))).2
        exact (List.forall₂_iff_get.1 ((hcells c).1 hcell)).2 k hk hk'
    · intro c hc
      obtain ⟨d, -, rfl⟩ := List.mem_map.1 hc
      exact (length_flatMap_word _ _).trans (congrArg (8 * ·) hlength)
    · intro c hc
      obtain ⟨d, -, rfl⟩ := List.mem_map.1 hc
      exact length_flatMap_word _ _
  · intro h
    have hindex : indexBytes (restored f) = indexBytes f := by
      unfold indexBytes
      rw [← List.flatMap_map Row.timestamp fun t => word (BitVec.ofInt 64 t),
        map_eq_of_rows (h.imp fun _ _ hr => hr.1), List.flatMap_map]
    have hcols : colsOf (restored f) = colsOf f := by
      unfold colsOf
      rw [ordered_restored]
      apply List.map_congr_left
      intro c hc
      rw [(hcells c).2 (h.imp fun _ _ hr => hr.2 c (mem_ordered.1 hc))]
    rw [hindex, hcols]

theorem Restores.contentBytes_eq (hf : Accepted f) (h : Restores f) :
    contentBytes (restored f) = contentBytes f :=
  (contentBytes_restored_iff hf).2 ⟨h.sorted, h.standard⟩

def checksumOf (f : Frame) : String := Blake2b.hexdigest (contentBytes f)

theorem Accepted.contentChecksum (h : Accepted f) : contentChecksum f = .ok (checksumOf f) :=
  contentChecksum_eq_ok.2 ⟨h, rfl⟩

theorem Restores.checksum (hf : Accepted f) (h : Restores f) :
    contentChecksum (restored f) = .ok (checksumOf f) :=
  contentChecksum_eq_ok.2 ⟨accepted_selected hf _, congrArg _ (h.contentBytes_eq hf)⟩

theorem restores_iff (hf : Accepted f)
    (hdigest : Set.InjOn Blake2b.hexdigest {contentBytes f, contentBytes (restored f)}) :
    Restores f ↔ f.rows ≠ [] ∧ contentChecksum (restored f) = .ok (checksumOf f) := by
  constructor
  · intro h
    exact ⟨h.rows, h.checksum hf⟩
  · rintro ⟨hrows, hchecksum⟩
    obtain ⟨-, hsame⟩ := contentChecksum_eq_ok.1 hchecksum
    have hbytes := hdigest (Set.mem_insert_of_mem _ rfl) (Set.mem_insert _ _) hsame
    obtain ⟨hsorted, hstandard⟩ := (contentBytes_restored_iff hf).1 hbytes
    exact ⟨hrows, hsorted, hstandard⟩

def Window.Clear (w : Window) (f : Frame) : Prop :=
  ∀ b ∈ w.start, ∀ r ∈ f.rows, (∀ e ∈ w.endInclusive, r.timestamp ≤ e.ns) →
    micros b.ns ≤ micros r.timestamp → b.ns ≤ r.timestamp

variable {w : Window}

theorem keeps_of_has {ns : ℤ} (h : w.Has ns) : w.keeps (micros ns) = true := by
  unfold Window.keeps
  rw [Bool.and_eq_true, Option.all_eq_true, Option.all_eq_true]
  constructor
  · intro b hb
    exact decide_eq_true (Int.ediv_le_ediv (by omega) (h.1 b hb))
  · intro b hb
    exact decide_eq_true (Int.ediv_le_ediv (by omega) (h.2 b hb))

theorem keeps_grid_iff {r : Row} (hgrid : r.OnGrid) : w.keeps (micros r.timestamp) = true ↔
      (∀ b ∈ w.start, micros b.ns ≤ micros r.timestamp) ∧
        ∀ e ∈ w.endInclusive, r.timestamp ≤ e.ns := by
  unfold Window.keeps
  rw [Bool.and_eq_true, Option.all_eq_true, Option.all_eq_true]
  apply and_congr
  · exact forall₂_congr fun b _ => decide_eq_true_iff
  · apply forall₂_congr
    intro e _
    rw [decide_eq_true_iff]
    unfold Row.OnGrid at hgrid
    unfold micros
    omega

theorem selected_perm_iff (hgrid : ∀ r ∈ f.rows, r.OnGrid) :
    (selected f w).rows.Perm ((f.rows.map Row.stored).filter fun r => w.Has r.timestamp) ↔
      w.Clear f := by
  have hsort : (selected f w).rows.Perm
      ((f.rows.map Row.stored).filter fun r => w.keeps (micros r.timestamp)) :=
    List.perm_insertionSort _ _
  have hclear : w.Clear f ↔ ∀ r ∈ f.rows.map Row.stored,
      w.keeps (micros r.timestamp) = true → w.Has r.timestamp := by
    rw [List.forall_mem_map]
    constructor
    · intro h r hr hkeep
      obtain ⟨hstart, hend⟩ := (keeps_grid_iff (hgrid r hr)).1 hkeep
      exact ⟨fun b hb => h b hb r hr hend (hstart b hb), hend⟩
    · intro h b hb r hr hend hle
      refine (h r hr ((keeps_grid_iff (hgrid r hr)).2 ⟨?_, hend⟩)).1 b hb
      intro b' hb'
      rwa [Option.mem_unique hb' hb]
  rw [hclear]
  constructor
  · intro hperm r hr hkeep
    have hmem : r ∈ (f.rows.map Row.stored).filter fun r => w.keeps (micros r.timestamp) :=
      List.mem_filter.2 ⟨hr, hkeep⟩
    have hhas := (List.mem_filter.1 ((hsort.symm.trans hperm).subset hmem)).2
    exact of_decide_eq_true hhas
  · intro h
    apply hsort.trans
    apply List.Perm.of_eq
    apply List.filter_congr
    intro r hr
    apply Bool.eq_iff_iff.2
    rw [decide_eq_true_iff]
    exact ⟨h r hr, keeps_of_has⟩

end Fiboki.Bars
