import Fiboki.Data.Schema
import Fiboki.Lib.Partitions
import Fiboki.Lib.Stepwise
import Mathlib.Algebra.Order.Ring.Int
import Mathlib.Tactic.Ring

/-!
Resampling: bars of a coarser timeframe, on a grid of the epoch or of a venue's wall clock.

Instants and readings are in nanoseconds. A volume is a whole number, and sums of volumes are
exact.
-/

namespace Fiboki.Resample

open StableSort Partitions Bars

/-- A zone of the tz database: what its clock reads at an instant, and the instant that pandas
gives a reading with `ambiguous=True` and `nonexistent="shift_forward"`. It is the first at which
the clock reads that much or more, and where the clock skips the reading it shows the next one
that there is. -/
structure Zone where
  wall : ℤ → ℤ
  localise : ℤ → ℤ
  first : ∀ {w t}, w ≤ wall t → localise w ≤ t
  reached : ∀ w, w ≤ wall (localise w)
  next : ∀ {w t}, w ≤ wall t → wall (localise w) ≤ wall t

def utc : Zone where
  wall t := t
  localise w := w
  first h := h
  reached _ := Int.le_refl _
  next h := h

/-- `anchor_tz` and `anchor_time`, whose hours and minutes are counted in minutes. -/
structure Anchor where
  tz : Option Zone
  time : Option ℤ

def Anchor.zone (a : Anchor) : Zone := a.tz.getD utc

def minute : ℤ := 60 * 10 ^ 9

def day : ℤ := 1440 * minute

/-- `f"{tgt.minutes}min"`. -/
def freq (tf : Timeframe) : ℤ := tf.minutes * minute

/-- The `origin` for a frame whose first row reads `first`. -/
def Anchor.origin (a : Anchor) (first : ℤ) : ℤ :=
  match a.time with
  | none => 0
  | some time =>
    let origin := first - first % day + time * minute
    if first < origin then origin - day else origin

def edge (origin width w : ℤ) : ℤ := w - (w - origin) % width

/-- A float cell is `none` where it is missing, and so is a volume. -/
structure Row (P : Type) where
  timestamp : ℤ
  price : NumericColumn → Option P
  volume : NumericColumn → Option ℤ

/-- A frame that `validate_frame_shape` accepts: one instrument, timeframe and price basis. -/
structure Frame (P : Type) where
  instrument : String
  timeframe : Timeframe
  priceBasis : PriceBasis
  columns : List NumericColumn
  ohlc : ∀ c ∈ ohlcColumns, c ∈ columns
  rows : List (Row P)

inductive ResampleError where
  | upsample (source target : Timeframe)
  | notNested (source target : Timeframe)
  | empty
  | anchorTime
  deriving DecidableEq

def assertNested (source target : Timeframe) : Except ResampleError Unit :=
  if target.minutes < source.minutes then .error (.upsample source target)
  else if target.minutes % source.minutes ≠ 0 then .error (.notNested source target)
  else .ok ()

inductive Aggregation where
  | first
  | max
  | min
  | last
  | sum
  deriving DecidableEq

/-- `_aggregation_map`. -/
def aggregationOf : NumericColumn → Aggregation
  | .opening | .bidOpen | .askOpen => .first
  | .high | .bidHigh | .askHigh => .max
  | .low | .bidLow | .askLow => .min
  | .close | .bidClose | .askClose => .last
  | .volume | .tickVolume => .sum

section Rows

variable {P : Type} [LinearOrder P]

def aggregatePrice (agg : Aggregation) (prices : List P) : Option P :=
  match agg with
  | .first => prices.head?
  | .max => prices.max?
  | .min => prices.min?
  | .last => prices.getLast?
  | .sum => none

def absentVolume : ℤ := -1

def given : Option ℤ → Option ℤ
  | some v => if v = absentVolume then none else some v
  | none => none

/-- `sum(min_count=1)`. -/
def sumGiven (volumes : List ℤ) : Option ℤ := if volumes.isEmpty then none else some volumes.sum

def aggregate (columns : List NumericColumn) (timestamp : ℤ) (rows : List (Row P)) :
    Row P where
  timestamp := timestamp
  price c := if c ∈ columns then
      aggregatePrice (aggregationOf c) (rows.filterMap fun r => r.price c)
    else none
  volume c := if c ∈ columns ∧ c.isInt then
      some ((sumGiven (rows.filterMap fun r => given (r.volume c))).getD absentVolume)
    else none

def wallOrder (zone : Zone) (rows : List (Row P)) : List (Row P) :=
  sortBy (fun r => zone.wall r.timestamp) (sortBy Row.timestamp rows)

namespace Frame

variable (f : Frame P) (target : Timeframe) (a : Anchor)

def firstReading : ℤ :=
  (((sortBy Row.timestamp f.rows).head?.map Row.timestamp).map a.zone.wall).getD 0

def bucketOf (r : Row P) : ℤ :=
  edge (a.origin (f.firstReading a)) (freq target) (a.zone.wall r.timestamp)

def buckets : List (ℤ × Row P) :=
  ((split (f.bucketOf target a) (wallOrder a.zone f.rows)).map fun p =>
    (p.1, aggregate f.columns (a.zone.localise p.1) p.2)).filter fun b =>
    (b.2.price .opening).isSome

def resample : Except ResampleError (Frame P) :=
  if f.rows = [] then .error .empty
  else match assertNested f.timeframe target with
    | .error e => .error e
    | .ok () =>
      if f.timeframe = target then .ok f
      else if a.time.isSome ∧ a.tz.isNone then .error .anchorTime
      else .ok { f with timeframe := target, rows := (f.buckets target a).map Prod.snd }

def resampleChain (a : Anchor) : Frame P → List Timeframe → Except ResampleError (Frame P)
  | f, [] => .ok f
  | f, target :: path => (f.resample target a).bind fun out => resampleChain a out path

end Frame

end Rows

variable (tf : Timeframe)

theorem freq_pos : 0 < freq tf := by
  cases tf <;> decide

theorem freq_dvd_day : freq tf ∣ day := by
  cases tf <;> decide

theorem freq_dvd_of_nested {source target : Timeframe} (h : assertNested source target = .ok ()) :
    freq source ∣ freq target := by
  unfold assertNested at h
  split_ifs at h with hup hnest
  have hdvd := Nat.dvd_of_mod_eq_zero (not_not.1 hnest)
  exact mul_dvd_mul_right (Int.natCast_dvd_natCast.2 hdvd) minute

section Grid

variable {o width : ℤ}

theorem edge_le (hwidth : 0 < width) (w : ℤ) : edge o width w ≤ w := by
  have := Int.emod_nonneg (w - o) hwidth.ne'
  unfold edge
  omega

theorem lt_edge_add (hwidth : 0 < width) (w : ℤ) : w < edge o width w + width := by
  have := Int.emod_lt_of_pos (w - o) hwidth
  unfold edge
  omega

theorem dvd_edge_sub (o width w : ℤ) : width ∣ edge o width w - o := by
  have hsub : edge o width w - o = w - o - (w - o) % width := by
    unfold edge
    omega
  rw [hsub]
  exact Int.dvd_self_sub_emod

theorem edge_eq {w e : ℤ} (he : width ∣ e - o) (hle : e ≤ w) (hlt : w < e + width) :
    edge o width w = e := by
  have hmod : (w - o) % width = w - e := by
    have hsplit : w - o = w - e + (e - o) := by omega
    obtain ⟨k, hk⟩ := he
    rw [hsplit, hk, Int.add_mul_emod_self_left]
    exact Int.emod_eq_of_lt (by omega) (by omega)
  unfold edge
  omega

variable {v w : ℤ}

theorem edge_mono (hwidth : 0 < width) (h : v ≤ w) : edge o width v ≤ edge o width w := by
  by_contra hlt
  have hv := edge_le (o := o) hwidth v
  have hw := lt_edge_add (o := o) hwidth w
  obtain ⟨j, hj⟩ := dvd_edge_sub o width v
  obtain ⟨k, hk⟩ := dvd_edge_sub o width w
  have hjk : width * k < width * j := by omega
  have hstep : k + 1 ≤ j := lt_of_mul_lt_mul_left hjk hwidth.le
  have hmul := mul_le_mul_of_nonneg_left hstep hwidth.le
  rw [mul_add, mul_one] at hmul
  omega

theorem le_edge (hwidth : 0 < width) (h : edge o width v ≤ w) :
    edge o width v ≤ edge o width w := by
  have hmono := edge_mono (o := o) hwidth h
  rwa [edge_eq (dvd_edge_sub o width v) le_rfl (by omega)] at hmono

theorem edge_shift {o' : ℤ} (h : width ∣ o' - o) (hwidth : 0 < width) (w : ℤ) :
    edge o' width w = edge o width w := by
  apply edge_eq _ (edge_le hwidth w) (lt_edge_add hwidth w)
  have hsub : edge o width w - o' = edge o width w - o - (o' - o) := by omega
  rw [hsub]
  exact Int.dvd_sub (dvd_edge_sub o width w) h

theorem edge_coarser {coarse : ℤ} (hwidth : 0 < width) (hdvd : width ∣ coarse)
    (hcoarse : 0 < coarse) (hv : edge o width w ≤ v) (hle : v ≤ w) :
    edge o coarse v = edge o coarse w := by
  have hw := edge_le (o := o) hcoarse w
  apply edge_eq (dvd_edge_sub o coarse w)
  · have hfiner : edge o width (edge o coarse w) = edge o coarse w :=
      edge_eq (hdvd.trans (dvd_edge_sub o coarse w)) le_rfl (by omega)
    have hmono := edge_mono (o := o) hwidth hw
    omega
  · have := lt_edge_add (o := o) hcoarse w
    omega

end Grid

def Anchor.base (a : Anchor) : ℤ := a.time.getD 0 * minute

def bucket (target : Timeframe) (a : Anchor) (t : ℤ) : ℤ :=
  edge a.base (freq target) (a.zone.wall t)

theorem edge_origin (a : Anchor) (first : ℤ) (target : Timeframe) (w : ℤ) :
    edge (a.origin first) (freq target) w = edge a.base (freq target) w := by
  refine edge_shift ((freq_dvd_day target).trans ?_) (freq_pos target) w
  have hmidnight : day ∣ first - first % day := Int.dvd_self_sub_emod
  unfold Anchor.origin Anchor.base
  cases a.time with
  | none => simp
  | some time =>
    dsimp only [Option.getD_some]
    split_ifs
    · have hsub : first - first % day + time * minute - day - time * minute =
          first - first % day - day := by ring
      rw [hsub]
      exact Int.dvd_sub hmidnight dvd_rfl
    · have hsub : first - first % day + time * minute - time * minute = first - first % day := by
        ring
      rw [hsub]
      exact hmidnight

variable (target : Timeframe)

theorem bucket_le (a : Anchor) (t : ℤ) : bucket target a t ≤ a.zone.wall t :=
  edge_le (freq_pos target) _

theorem localise_lt {target : Timeframe} {a : Anchor} {s t : ℤ}
    (h : bucket target a s < bucket target a t) :
    a.zone.localise (bucket target a s) < a.zone.localise (bucket target a t) := by
  -- the clock reads less than the later edge where it first reaches the earlier one
  have hread : a.zone.wall (a.zone.localise (bucket target a s)) < bucket target a t := by
    by_contra hle
    have hreached := (not_lt.1 hle).trans (a.zone.next (bucket_le target a s))
    exact absurd h (not_lt.2 (le_edge (freq_pos target) hreached))
  have hle : a.zone.localise (bucket target a s) ≤ a.zone.localise (bucket target a t) :=
    a.zone.first (h.le.trans (a.zone.reached _))
  refine lt_of_le_of_ne hle fun heq => ?_
  have := a.zone.reached (bucket target a t)
  rw [← heq] at this
  omega

theorem bucket_localise (a : Anchor) (t : ℤ) :
    bucket target a (a.zone.localise (bucket target a t)) = bucket target a t := by
  have hnext := a.zone.next (bucket_le target a t)
  have hlt := lt_edge_add (o := a.base) (freq_pos target) (a.zone.wall t)
  exact edge_eq (dvd_edge_sub _ _ _) (a.zone.reached _) (by unfold bucket at hnext ⊢; omega)

section Buckets

variable {P : Type}

variable (zone : Zone)

theorem perm_wallOrder (rows : List (Row P)) : (wallOrder zone rows).Perm rows :=
  (List.perm_insertionSort _ _).trans (List.perm_insertionSort _ _)

theorem wallOrder_ascending (target : Timeframe) (a : Anchor) (rows : List (Row P)) :
    (wallOrder a.zone rows).Pairwise fun r s =>
      bucket target a r.timestamp ≤ bucket target a s.timestamp :=
  (sorted_sortBy (fun r : Row P => a.zone.wall r.timestamp) _).imp fun h =>
    edge_mono (freq_pos target) h

theorem wallOrder_filter (rows : List (Row P)) (p : Row P → Bool) :
    wallOrder zone (rows.filter p) = (wallOrder zone rows).filter p := by
  unfold wallOrder
  rw [sortBy_filter, sortBy_filter]

def inBucket (target : Timeframe) (a : Anchor) (e : ℤ) (rows : List (Row P)) : List (Row P) :=
  rows.filter fun r => bucket target a r.timestamp = e

variable {target : Timeframe} {a : Anchor} {e : ℤ}

variable {rows : List (Row P)}

theorem mem_inBucket {r : Row P} :
    r ∈ inBucket target a e rows ↔ r ∈ rows ∧ bucket target a r.timestamp = e := by
  rw [inBucket, List.mem_filter, decide_eq_true_eq]

def labels (target : Timeframe) (a : Anchor) (rows : List (Row P)) : List ℤ :=
  ((wallOrder a.zone rows).map fun r => bucket target a r.timestamp).dedup

theorem mem_labels : e ∈ labels target a rows ↔ ∃ r ∈ rows, bucket target a r.timestamp = e := by
  rw [labels, List.mem_dedup, List.mem_map]
  simp only [(perm_wallOrder a.zone rows).mem_iff]

theorem labels_pairwise (target : Timeframe) (a : Anchor) (rows : List (Row P)) :
    (labels target a rows).Pairwise (· < ·) := by
  have h := labels_ascending (wallOrder_ascending target a rows)
  rwa [labels_split] at h

theorem Frame.bucketOf_eq (f : Frame P) (target : Timeframe) (a : Anchor) :
    f.bucketOf target a = fun r => bucket target a r.timestamp :=
  funext fun _ => edge_origin a _ target _

def Frame.Opened (f : Frame P) : Prop := ∀ r ∈ f.rows, (r.price .opening).isSome

variable [LinearOrder P]

def Frame.bar (f : Frame P) (target : Timeframe) (a : Anchor) (e : ℤ) : Row P :=
  aggregate f.columns (a.zone.localise e) (wallOrder a.zone (inBucket target a e f.rows))

theorem Frame.buckets_eq (f : Frame P) (target : Timeframe) (a : Anchor) :
    f.buckets target a = ((labels target a f.rows).map fun e => (e, f.bar target a e)).filter
      fun b => (b.2.price .opening).isSome := by
  unfold buckets split labels
  rw [f.bucketOf_eq, List.map_map]
  congr 1
  apply List.map_congr_left
  intro e _
  unfold bar inBucket
  rw [wallOrder_filter]
  rfl

variable {f : Frame P}

variable {c : NumericColumn}

theorem Frame.bar_price (hc : c ∈ f.columns) (target : Timeframe) (a : Anchor)
    (e : ℤ) : (f.bar target a e).price c = aggregatePrice (aggregationOf c)
        ((wallOrder a.zone (inBucket target a e f.rows)).filterMap fun r => r.price c) :=
  if_pos hc

theorem Frame.bar_volume (hc : c ∈ f.columns) (hint : c.isInt)
    (target : Timeframe) (a : Anchor) (e : ℤ) : (f.bar target a e).volume c =
      some ((sumGiven ((wallOrder a.zone (inBucket target a e f.rows)).filterMap fun r =>
        given (r.volume c))).getD absentVolume) :=
  if_pos ⟨hc, hint⟩

theorem Frame.bar_bucket (f : Frame P)
    (he : e ∈ labels target a f.rows) : bucket target a (f.bar target a e).timestamp = e := by
  obtain ⟨r, -, rfl⟩ := mem_labels.1 he
  exact bucket_localise target a r.timestamp

theorem Frame.Opened.bar (h : f.Opened)
    (he : e ∈ labels target a f.rows) : ((f.bar target a e).price .opening).isSome := by
  obtain ⟨r, hr, hre⟩ := mem_labels.1 he
  obtain ⟨p, hp⟩ := Option.isSome_iff_exists.1 (h r hr)
  have hmem : p ∈ (wallOrder a.zone (inBucket target a e f.rows)).filterMap fun r =>
      r.price .opening :=
    List.mem_filterMap.2 ⟨r, (perm_wallOrder _ _).mem_iff.2 (mem_inBucket.2 ⟨hr, hre⟩), hp⟩
  rw [bar_price (f.ohlc .opening (by decide))]
  exact List.isSome_head?.2 (List.ne_nil_of_mem hmem)

theorem Frame.Opened.buckets_eq (h : f.Opened) (target : Timeframe) (a : Anchor) :
    f.buckets target a = (labels target a f.rows).map fun e => (e, f.bar target a e) := by
  rw [f.buckets_eq, List.filter_eq_self]
  intro b hb
  obtain ⟨e, he, rfl⟩ := List.mem_map.1 hb
  exact h.bar he

theorem Frame.resample_ok {f out : Frame P}
    (h : f.resample target a = .ok out) : f.timeframe = target ∧ out = f ∨ f.timeframe ≠ target ∧
      out = { f with timeframe := target, rows := (f.buckets target a).map Prod.snd } := by
  unfold resample at h
  by_cases hrows : f.rows = []
  · rw [if_pos hrows] at h
    cases h
  rw [if_neg hrows] at h
  cases hnest : assertNested f.timeframe target with
  | error e =>
    rw [hnest] at h
    cases h
  | ok _ =>
    rw [hnest] at h
    dsimp only at h
    split_ifs at h with hsame hanchor
    · exact .inl ⟨hsame, (Except.ok.inj h).symm⟩
    · exact .inr ⟨hsame, (Except.ok.inj h).symm⟩

end Buckets

end Fiboki.Resample
