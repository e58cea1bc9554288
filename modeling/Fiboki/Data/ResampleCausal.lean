import Fiboki.Data.Resample
import Mathlib.Algebra.Order.BigOperators.Group.List

/-!
When a resample is a causal partition: which rows a bar aggregates, and that they are a run of
the source between its label and the next one unless the clock was set back among them.
-/

namespace Fiboki.Resample

open StableSort Partitions Stepwise Bars

section Causal

variable {P : Type} [LinearOrder P]

def Frame.contributions (f : Frame P) (target : Timeframe) (a : Anchor) :
    List (Row P × List (Row P)) :=
  if f.timeframe = target then f.rows.map fun r => (r, [r])
  else ((split (f.bucketOf target a) (wallOrder a.zone f.rows)).map fun p =>
      (aggregate f.columns (a.zone.localise p.1) p.2, sortBy Row.timestamp p.2)).filter
    fun b => (b.1.price .opening).isSome

/-- A bar has the first open of a run, its extremes and its last close, and the sum of the
volumes that are there. -/
structure Aggregates (columns : List NumericColumn) (run : List (Row P)) (bar : Row P) : Prop where
  opening : bar.price .opening = run.head?.bind fun r => r.price .opening
  high : bar.price .high = (run.filterMap fun r => r.price .high).max?
  low : bar.price .low = (run.filterMap fun r => r.price .low).min?
  close : bar.price .close = run.getLast?.bind fun r => r.price .close
  volume : ∀ c ∈ columns, c.isInt →
    given (bar.volume c) = sumGiven (run.filterMap fun r => given (r.volume c))

/-- The runs put together are the source in order of time; each lies between the label of its bar
and the next one. -/
structure Causal (f : Frame P) (bars : List (Row P × List (Row P))) : Prop where
  partition : (bars.map Prod.snd).flatten = sortBy Row.timestamp f.rows
  nonempty : ∀ b ∈ bars, b.2 ≠ []
  since : ∀ b ∈ bars, ∀ r ∈ b.2, b.1.timestamp ≤ r.timestamp
  before : bars.Pairwise fun b next => ∀ r ∈ b.2, r.timestamp < next.1.timestamp
  ascending : bars.Pairwise fun b next => b.1.timestamp < next.1.timestamp
  values : ∀ b ∈ bars, Aggregates f.columns b.2 b.1

/-- Where rows are bucketed: the clock reaches no later bucket by the time of a row of an earlier
one; the rows of a bucket at which the clock reads least and most have the open and the close of
the first and the last; and the volumes of no bucket add up to the marker. -/
structure Clear (f : Frame P) (target : Timeframe) (a : Anchor) : Prop where
  clock : ∀ r ∈ f.rows, ∀ s ∈ f.rows, bucket target a r.timestamp < bucket target a s.timestamp →
      ∀ t ≤ r.timestamp, a.zone.wall t < bucket target a s.timestamp
  opening : ∀ e,
    ((wallOrder a.zone (inBucket target a e f.rows)).head?.bind fun r => r.price .opening) =
      (sortBy Row.timestamp (inBucket target a e f.rows)).head?.bind fun r => r.price .opening
  close : ∀ e,
    ((wallOrder a.zone (inBucket target a e f.rows)).getLast?.bind fun r => r.price .close) =
      (sortBy Row.timestamp (inBucket target a e f.rows)).getLast?.bind fun r => r.price .close
  volume : ∀ e, ∀ c ∈ f.columns, c.isInt →
    ((inBucket target a e f.rows).filterMap fun r => given (r.volume c)).sum ≠ absentVolume

/-- `Clear`, or rows in order of time where the target is the timeframe of the frame. -/
def Frame.InClockOrder (f : Frame P) (target : Timeframe) (a : Anchor) : Prop :=
  if f.timeframe = target then f.rows.Pairwise fun r s => r.timestamp < s.timestamp
  else Clear f target a

end Causal

def Frame.Priced {P : Type} (f : Frame P) : Prop :=
  ∀ r ∈ f.rows, ∀ c ∈ ohlcColumns, (r.price c).isSome

section Values

variable {α β : Type}

variable {g : α → Option β} {xs : List α}

theorem head?_filterMap (h : ∀ x ∈ xs, (g x).isSome) :
    (xs.filterMap g).head? = xs.head?.bind g := by
  cases xs with
  | nil => rfl
  | cons x xs =>
    obtain ⟨y, hy⟩ := Option.isSome_iff_exists.1 (h x List.mem_cons_self)
    rw [List.filterMap_cons_some hy]
    exact hy.symm

theorem getLast?_filterMap (h : ∀ x ∈ xs, (g x).isSome) :
    (xs.filterMap g).getLast? = xs.getLast?.bind g := by
  rw [List.getLast?_eq_head?_reverse, ← List.filterMap_reverse, List.getLast?_eq_head?_reverse]
  exact head?_filterMap fun x hx => h x (List.mem_reverse.1 hx)

variable (volumes : List ℤ)

theorem sumGiven_eq_total : sumGiven volumes = total (· + ·) volumes := (total_add volumes).symm

theorem sumGiven_perm {xs ys : List ℤ} (h : xs.Perm ys) : sumGiven xs = sumGiven ys := by
  rw [sumGiven_eq_total, sumGiven_eq_total]
  exact total_perm add_assoc add_comm h

theorem given_sumGiven_iff :
    given (some ((sumGiven volumes).getD absentVolume)) = sumGiven volumes ↔
      volumes.sum ≠ absentVolume := by
  unfold sumGiven
  cases volumes with
  | nil => exact ⟨fun _ => by decide, fun _ => rfl⟩
  | cons v volumes =>
    show given (some (v :: volumes).sum) = some (v :: volumes).sum ↔ _
    rw [given]
    split_ifs with hsum
    · exact ⟨nofun, fun h => absurd hsum h⟩
    · exact ⟨fun _ => hsum, fun _ => rfl⟩

end Values

section Buckets

variable {P : Type} {f : Frame P} {target : Timeframe} {a : Anchor} {e : ℤ}

theorem sortBy_wallOrder (zone : Zone) (rows : List (Row P)) :
    sortBy Row.timestamp (wallOrder zone rows) = sortBy Row.timestamp rows := by
  refine SameBlocks.eq_of_sorted Row.timestamp (fun t => ?_) (sorted_sortBy _ _)
    (sorted_sortBy _ _)
  rw [sameBlocks_sortBy Row.timestamp (wallOrder zone rows) t]
  unfold wallOrder block
  rw [← sortBy_filter]
  -- the clock reads the same at rows of one instant
  refine sortBy_of_sorted _ (List.pairwise_of_forall_mem_list fun r hr s hs => ?_)
  rw [of_decide_eq_true (List.mem_filter.1 hr).2, of_decide_eq_true (List.mem_filter.1 hs).2]

theorem Frame.Priced.opened (h : f.Priced) : f.Opened :=
  fun r hr => h r hr .opening (by decide)

def Frame.run (f : Frame P) (target : Timeframe) (a : Anchor) (e : ℤ) : List (Row P) :=
  sortBy Row.timestamp (inBucket target a e f.rows)

theorem Frame.mem_run {r : Row P} :
    r ∈ f.run target a e ↔ r ∈ f.rows ∧ bucket target a r.timestamp = e := by
  rw [run, (perm_sortBy _ _).mem_iff, mem_inBucket]

theorem Frame.perm_run : (wallOrder a.zone (inBucket target a e f.rows)).Perm (f.run target a e) :=
  (perm_wallOrder _ _).trans (perm_sortBy _ _).symm

theorem lt_localise_iff {zone : Zone} {t w : ℤ} :
    t < zone.localise w ↔ ∀ s ≤ t, zone.wall s < w := by
  constructor
  · intro h s hs
    by_contra hle
    have := zone.first (not_lt.1 hle)
    omega
  · intro h
    by_contra hle
    exact absurd (zone.reached w) (not_le.2 (h _ (not_lt.1 hle)))

theorem Frame.Priced.column (h : f.Priced) {c : NumericColumn} (hc : c ∈ ohlcColumns) :
    ∀ r ∈ wallOrder a.zone (inBucket target a e f.rows), (r.price c).isSome := by
  intro r hr
  exact h r (mem_inBucket.1 ((perm_wallOrder _ _).mem_iff.1 hr)).1 c hc

variable [LinearOrder P]

theorem Frame.Opened.contributions_eq (h : f.Opened) (hne : f.timeframe ≠ target) :
    f.contributions target a =
      (labels target a f.rows).map fun e => (f.bar target a e, f.run target a e) := by
  have hgroup : ∀ e, (wallOrder a.zone f.rows).filter (fun r => bucket target a r.timestamp = e) =
      wallOrder a.zone (inBucket target a e f.rows) := fun e => (wallOrder_filter _ _ _).symm
  unfold contributions split
  rw [if_neg hne, f.bucketOf_eq, List.map_map, List.filter_eq_self.2]
  · refine List.map_congr_left fun e _ => ?_
    dsimp only [Function.comp_apply]
    rw [hgroup, sortBy_wallOrder]
    rfl
  · intro b hb
    obtain ⟨e, he, rfl⟩ := List.mem_map.1 hb
    dsimp only [Function.comp_apply]
    rw [hgroup]
    exact h.bar he

theorem Frame.Priced.aggregates_iff (h : f.Priced) :
    Aggregates f.columns (f.run target a e) (f.bar target a e) ↔
      (((wallOrder a.zone (inBucket target a e f.rows)).head?.bind fun r => r.price .opening) =
        (f.run target a e).head?.bind fun r => r.price .opening) ∧
      (((wallOrder a.zone (inBucket target a e f.rows)).getLast?.bind fun r => r.price .close) =
        (f.run target a e).getLast?.bind fun r => r.price .close) ∧
      ∀ c ∈ f.columns, c.isInt →
        ((inBucket target a e f.rows).filterMap fun r => given (r.volume c)).sum ≠
          absentVolume := by
  have hopening : (f.bar target a e).price .opening =
      (wallOrder a.zone (inBucket target a e f.rows)).head?.bind fun r => r.price .opening :=
    (bar_price (f.ohlc .opening (by decide)) target a e).trans
      (head?_filterMap (h.column (by decide)))
  have hclose : (f.bar target a e).price .close =
      (wallOrder a.zone (inBucket target a e f.rows)).getLast?.bind fun r => r.price .close :=
    (bar_price (f.ohlc .close (by decide)) target a e).trans
      (getLast?_filterMap (h.column (by decide)))
  have hvolume : ∀ c ∈ f.columns, c.isInt → (given ((f.bar target a e).volume c) =
          sumGiven ((f.run target a e).filterMap fun r => given (r.volume c)) ↔
        ((inBucket target a e f.rows).filterMap fun r => given (r.volume c)).sum ≠
          absentVolume) := by
    intro c hc hint
    rw [bar_volume hc hint, ← sumGiven_perm (perm_run.filterMap _), given_sumGiven_iff,
      ((perm_wallOrder _ _).filterMap _).sum_eq]
  constructor
  · intro hagg
    exact ⟨hopening.symm.trans hagg.opening, hclose.symm.trans hagg.close,
      fun c hc hint => (hvolume c hc hint).1 (hagg.volume c hc hint)⟩
  · rintro ⟨hfirst, hlast, hsums⟩
    refine ⟨hopening.trans hfirst, ?_, ?_, hclose.trans hlast,
      fun c hc hint => (hvolume c hc hint).2 (hsums c hc hint)⟩
    · rw [bar_price (f.ohlc .high (by decide))]
      show List.max? _ = _
      rw [← total_max, ← total_max]
      exact total_perm max_assoc max_comm (perm_run.filterMap _)
    · rw [bar_price (f.ohlc .low (by decide))]
      show List.min? _ = _
      rw [← total_min, ← total_min]
      exact total_perm min_assoc min_comm (perm_run.filterMap _)

end Buckets

section Runs

variable {P : Type} {f : Frame P} {target : Timeframe} {a : Anchor} {e : ℤ}

theorem inBucket_eq_nil (he : e ∉ labels target a f.rows) : inBucket target a e f.rows = [] := by
  rw [List.eq_nil_iff_forall_not_mem]
  intro r hr
  exact he (mem_labels.2 ⟨r, mem_inBucket.1 hr⟩)

theorem forall_of_pairwise {R : ℤ → ℤ → Prop} {es : List ℤ} (hlt : es.Pairwise (· < ·))
    (h : es.Pairwise R) : ∀ d ∈ es, ∀ e ∈ es, d < e → R d e := by
  have hflip : es.Pairwise (flip fun d e => d < e → R d e) :=
    hlt.imp fun hde hed => absurd hde hed.not_gt
  have himp : es.Pairwise fun d e => d < e → R d e := h.imp (fun {d e} hde (_ : d < e) => hde)
  have hall := himp.forall_of_forall_of_flip (fun d _ hdd => absurd hdd (lt_irrefl d)) hflip
  exact fun d hd e he => hall hd he

theorem Frame.before_iff :
    ((labels target a f.rows).Pairwise fun e next =>
        ∀ r ∈ f.run target a e, r.timestamp < a.zone.localise next) ↔
      ∀ r ∈ f.rows, ∀ s ∈ f.rows, bucket target a r.timestamp < bucket target a s.timestamp →
          ∀ t ≤ r.timestamp, a.zone.wall t < bucket target a s.timestamp := by
  constructor
  · intro h r hr s hs hlt
    have hpair := forall_of_pairwise (labels_pairwise target a f.rows) h
    exact lt_localise_iff.1 (hpair _ (mem_labels.2 ⟨r, hr, rfl⟩) _ (mem_labels.2 ⟨s, hs, rfl⟩) hlt
      r (mem_run.2 ⟨hr, rfl⟩))
  · intro h
    refine (labels_pairwise target a f.rows).imp_of_mem fun {e next} _ hnext hlt r hr => ?_
    obtain ⟨hmem, rfl⟩ := mem_run.1 hr
    obtain ⟨s, hs, rfl⟩ := mem_labels.1 hnext
    exact lt_localise_iff.2 (h r hmem s hs hlt)

theorem Frame.localise_le {r : Row P} (hr : r ∈ f.run target a e) : a.zone.localise e ≤
    r.timestamp := by
  obtain ⟨-, rfl⟩ := mem_run.1 hr
  exact a.zone.first (bucket_le target a r.timestamp)

theorem Frame.flatten_runs (h : (labels target a f.rows).Pairwise fun e next =>
      ∀ r ∈ f.run target a e, r.timestamp < a.zone.localise next) :
    ((labels target a f.rows).map (f.run target a)).flatten = sortBy Row.timestamp f.rows := by
  have hpair := forall_of_pairwise (labels_pairwise target a f.rows) h
  have hsorted : (sortBy Row.timestamp f.rows).Pairwise fun r s =>
      bucket target a r.timestamp ≤ bucket target a s.timestamp := by
    refine (sorted_sortBy Row.timestamp f.rows).imp_of_mem fun {r s} hr hs hle => ?_
    rw [(perm_sortBy _ _).mem_iff] at hr hs
    by_contra hlt
    have hbefore := hpair _ (mem_labels.2 ⟨s, hs, rfl⟩) _ (mem_labels.2 ⟨r, hr, rfl⟩)
      (not_le.1 hlt) s (mem_run.2 ⟨hs, rfl⟩)
    have hsince := f.localise_le (mem_run.2 ⟨hr, rfl⟩ : r ∈ f.run target a _)
    omega
  have hlabels : labels target a f.rows =
      ((sortBy Row.timestamp f.rows).map fun r => bucket target a r.timestamp).dedup :=
    labels_eq (wallOrder_ascending target a f.rows) hsorted
      ((perm_wallOrder _ _).trans (perm_sortBy _ _).symm)
  have hparts := flatMap_split hsorted
  unfold split at hparts
  rw [← hlabels, List.flatMap_map] at hparts
  rw [← List.flatMap_def]
  refine (List.flatMap_congr fun e _ => ?_).trans hparts
  exact sortBy_filter _ _ _

def Frame.Counted (f : Frame P) : Prop :=
  ∀ r ∈ f.rows, ∀ c ∈ f.columns, c.isInt → ∀ v, given (r.volume c) = some v → 0 ≤ v

theorem Frame.Counted.sum_nonneg (h : f.Counted) {c : NumericColumn} (hc : c ∈ f.columns)
    (hint : c.isInt) (e : ℤ) :
    0 ≤ ((inBucket target a e f.rows).filterMap fun r => given (r.volume c)).sum := by
  refine List.sum_nonneg fun v hv => ?_
  obtain ⟨r, hr, hv⟩ := List.mem_filterMap.1 hv
  exact h r (mem_inBucket.1 hr).1 c hc hint v hv

theorem clear_of_monotone
    (hclock : ∀ r ∈ f.rows, ∀ t ≤ r.timestamp, a.zone.wall t ≤ a.zone.wall r.timestamp)
    (hvolume : f.Counted) : Clear f target a := by
  have horder : ∀ e, wallOrder a.zone (inBucket target a e f.rows) =
      sortBy Row.timestamp (inBucket target a e f.rows) := by
    intro e
    refine sortBy_of_sorted _ ((sorted_sortBy Row.timestamp _).imp_of_mem fun _ hs hle => ?_)
    exact hclock _ (mem_inBucket.1 ((perm_sortBy _ _).mem_iff.1 hs)).1 _ hle
  refine ⟨fun r hr s _ hlt t ht => ?_, fun e => by rw [horder], fun e => by rw [horder],
    fun e c hc hint => ?_⟩
  · by_contra hle
    exact absurd hlt
      (not_lt.2 (le_edge (freq_pos target) ((not_lt.1 hle).trans (hclock r hr t ht))))
  · have hsum : 0 ≤ ((inBucket target a e f.rows).filterMap fun r => given (r.volume c)).sum :=
      hvolume.sum_nonneg hc hint e
    unfold absentVolume
    omega

variable [LinearOrder P]

theorem Frame.Priced.causal_iff_clear (h : f.Priced) (hne : f.timeframe ≠ target) :
    Causal f (f.contributions target a) ↔ Clear f target a := by
  rw [h.opened.contributions_eq hne]
  constructor
  · intro hcausal
    have hbefore := List.pairwise_map.1 hcausal.before
    have hvalues : ∀ e ∈ labels target a f.rows,
        Aggregates f.columns (f.run target a e) (f.bar target a e) :=
      fun e he => hcausal.values _ (List.mem_map_of_mem he)
    have hempty : ∀ e, e ∉ labels target a f.rows → inBucket target a e f.rows = [] :=
      fun e he => inBucket_eq_nil he
    refine ⟨before_iff.1 hbefore, fun e => ?_, fun e => ?_, fun e => ?_⟩
    all_goals by_cases he : e ∈ labels target a f.rows
    · exact (h.aggregates_iff.1 (hvalues e he)).1
    · rw [hempty e he]
      rfl
    · exact (h.aggregates_iff.1 (hvalues e he)).2.1
    · rw [hempty e he]
      rfl
    · exact (h.aggregates_iff.1 (hvalues e he)).2.2
    · rw [hempty e he]
      exact fun _ _ _ => show (0 : ℤ) ≠ absentVolume by decide
  · intro hclear
    have hbefore := before_iff.2 hclear.clock
    refine ⟨?_, ?_, ?_, List.pairwise_map.2 hbefore, List.pairwise_map.2 ?_, ?_⟩
    · rw [List.map_map]
      exact flatten_runs hbefore
    · intro b hb
      obtain ⟨e, he, rfl⟩ := List.mem_map.1 hb
      obtain ⟨r, hr, hre⟩ := mem_labels.1 he
      exact List.ne_nil_of_mem (mem_run.2 ⟨hr, hre⟩)
    · intro b hb r hr
      obtain ⟨e, -, rfl⟩ := List.mem_map.1 hb
      exact localise_le hr
    · refine (labels_pairwise target a f.rows).imp_of_mem fun {e next} he hnext hlt => ?_
      obtain ⟨r, -, rfl⟩ := mem_labels.1 he
      obtain ⟨s, -, rfl⟩ := mem_labels.1 hnext
      exact localise_lt hlt
    · intro b hb
      obtain ⟨e, -, rfl⟩ := List.mem_map.1 hb
      exact h.aggregates_iff.2 ⟨hclear.opening e, hclear.close e, hclear.volume e⟩

theorem Frame.causal_iff_ascending (hsame : f.timeframe = target) :
    Causal f (f.contributions target a) ↔ f.rows.Pairwise fun r s => r.timestamp < s.timestamp := by
  unfold contributions
  rw [if_pos hsame]
  constructor
  · intro hcausal
    have hascending := hcausal.ascending
    rwa [List.pairwise_map] at hascending
  · intro hrows
    refine ⟨?_, ?_, ?_, List.pairwise_map.2 ?_, List.pairwise_map.2 hrows, ?_⟩
    · rw [List.map_map, sortBy_of_sorted Row.timestamp (hrows.imp le_of_lt)]
      exact List.flatMap_singleton' f.rows
    · intro b hb
      obtain ⟨r, -, rfl⟩ := List.mem_map.1 hb
      exact List.cons_ne_nil r []
    · intro b hb s hs
      obtain ⟨r, -, rfl⟩ := List.mem_map.1 hb
      rw [List.mem_singleton.1 hs]
    · refine hrows.imp fun {r s} hlt q hq => ?_
      rwa [List.mem_singleton.1 hq]
    · intro b hb
      obtain ⟨r, -, rfl⟩ := List.mem_map.1 hb
      refine ⟨rfl, ?_, ?_, rfl, fun c _ _ => ?_⟩
      · cases hr : r.price .high <;> simp [hr]
      · cases hr : r.price .low <;> simp [hr]
      · cases hr : given (r.volume c) <;> simp [hr, sumGiven]

theorem Frame.mem_buckets_of_inBucket {g : Frame P} (hcolumns : g.columns = f.columns)
    (hrows : inBucket target a e g.rows = inBucket target a e f.rows) {b : Row P}
    (hb : bucket target a b.timestamp = e) (hmem : b ∈ (f.buckets target a).map Prod.snd) :
    b ∈ (g.buckets target a).map Prod.snd := by
  rw [f.buckets_eq] at hmem
  rw [g.buckets_eq]
  obtain ⟨p, hp, rfl⟩ := List.mem_map.1 hmem
  obtain ⟨hlabel, hopen⟩ := List.mem_filter.1 hp
  obtain ⟨e', he', rfl⟩ := List.mem_map.1 hlabel
  have hee : e' = e := (f.bar_bucket he').symm.trans hb
  subst hee
  have hbar : g.bar target a e' = f.bar target a e' := by
    unfold bar
    rw [hcolumns, hrows]
  refine List.mem_map.2 ⟨_, List.mem_filter.2 ⟨List.mem_map.2 ⟨e', ?_, rfl⟩, ?_⟩, hbar⟩
  · by_contra hnot
    obtain ⟨r, hr⟩ := mem_labels.1 he'
    have := mem_inBucket.2 hr
    rw [← hrows, inBucket_eq_nil hnot] at this
    exact absurd this List.not_mem_nil
  · rw [hbar]
    exact hopen

/-- A resample is a causal partition of its source exactly where the clock is in order on it, and
the bars of a bucket never depend on other rows. -/
theorem Frame.causal_iff {out : Frame P} (hpriced : f.Priced) (h : f.resample target a = .ok out) :
    out.rows = (f.contributions target a).map Prod.fst ∧
    (Causal f (f.contributions target a) ↔ f.InClockOrder target a) ∧
    ∀ g outg : Frame P, g.columns = f.columns → g.timeframe = f.timeframe →
      g.resample target a = .ok outg →
        ∀ e, inBucket target a e g.rows = inBucket target a e f.rows →
          ∀ b, bucket target a b.timestamp = e → (b ∈ out.rows ↔ b ∈ outg.rows) := by
  unfold InClockOrder
  obtain ⟨hsame, rfl⟩ | ⟨hne, rfl⟩ := Frame.resample_ok h
  · refine ⟨?_, by rw [if_pos hsame]; exact causal_iff_ascending hsame, ?_⟩
    · unfold contributions
      rw [if_pos hsame, List.map_map]
      exact (List.map_id _).symm
    · intro g outg _ htimeframe hg e hrows b hb
      obtain ⟨-, rfl⟩ | ⟨hne, -⟩ := Frame.resample_ok hg
      · exact ⟨fun hf => (mem_inBucket.1 (hrows ▸ mem_inBucket.2 ⟨hf, hb⟩)).1,
          fun hg => (mem_inBucket.1 (hrows ▸ mem_inBucket.2 ⟨hg, hb⟩)).1⟩
      · exact absurd (htimeframe.trans hsame) hne
  · refine ⟨?_, by rw [if_neg hne]; exact hpriced.causal_iff_clear hne, ?_⟩
    · rw [hpriced.opened.contributions_eq hne, hpriced.opened.buckets_eq, List.map_map,
        List.map_map]
      rfl
    · intro g outg hcolumns htimeframe hg e hrows b hb
      obtain ⟨hsame, -⟩ | ⟨-, rfl⟩ := Frame.resample_ok hg
      · exact absurd (htimeframe.symm.trans hsame) hne
      · exact ⟨mem_buckets_of_inBucket hcolumns hrows hb,
          mem_buckets_of_inBucket hcolumns.symm hrows.symm hb⟩

end Runs

section SetBack

variable (change : ℤ) (shift : ℕ)

def backWall (t : ℤ) : ℤ := if t < change then t + shift else t

def backLocalise (w : ℤ) : ℤ := if w < change + shift then w - shift else w

variable {w t : ℤ}

theorem backLocalise_le (h : w ≤ backWall change shift t) : backLocalise change shift w ≤ t := by
  unfold backWall at h
  unfold backLocalise
  split_ifs at h ⊢ <;> omega

theorem backWall_backLocalise (w : ℤ) : backWall change shift (backLocalise change shift w) =
    w := by
  unfold backWall backLocalise
  split_ifs <;> omega

theorem le_backWall (w : ℤ) : w ≤ backWall change shift (backLocalise change shift w) :=
  (backWall_backLocalise change shift w).ge

theorem backWall_le (h : w ≤ backWall change shift t) :
    backWall change shift (backLocalise change shift w) ≤ backWall change shift t :=
  (backWall_backLocalise change shift w).trans_le h

def Zone.setBack : Zone where
  wall := backWall change shift
  localise := backLocalise change shift
  first := backLocalise_le change shift
  reached := le_backWall change shift
  next := backWall_le change shift

end SetBack

namespace Autumn

def london : Anchor where
  tz := some (Zone.setBack (1792890000 * 10 ^ 9) (3600 * 10 ^ 9))
  time := none

def row (minutes : ℤ) : Row ℤ where
  timestamp := 1792890000 * 10 ^ 9 + minutes * minute
  price _ := some minutes
  volume _ := some 1

def columns : List NumericColumn := [.opening, .high, .low, .close, .volume]

theorem ohlc : ∀ c ∈ ohlcColumns, c ∈ columns := by decide

def frame (rows : List (Row ℤ)) : Frame ℤ where
  instrument := "GBPUSD"
  timeframe := .M15
  priceBasis := .mid
  columns := columns
  ohlc := ohlc
  rows := rows

variable (rows : List ℤ)

theorem priced : (frame (rows.map row)).Priced := by
  intro r hr c _
  obtain ⟨m, -, rfl⟩ := List.mem_map.1 hr
  rfl

theorem counted : (frame (rows.map row)).Counted := by
  intro r hr c _ _ v hv
  obtain ⟨m, -, rfl⟩ := List.mem_map.1 hr
  cases hv
  decide

theorem repeated_hour_is_not_causal : (frame ([-30, 0, 30].map row)).Priced ∧
    ((frame ([-30, 0, 30].map row)).resample .M30 london).isOk ∧
    ¬Causal (frame ([-30, 0, 30].map row))
      ((frame ([-30, 0, 30].map row)).contributions .M30 london) := by
  refine ⟨priced _, by decide, fun h => ?_⟩
  have htimes := congrArg (List.map Row.timestamp) h.partition
  exact absurd htimes (by decide)

/-- Without an anchor, and in London once the repeated hour is over. -/
theorem later_rows_are_causal : Causal (frame ([-30, 0, 30].map row))
      ((frame ([-30, 0, 30].map row)).contributions .M30 ⟨none, none⟩) ∧
    Causal (frame ([60, 75, 90].map row))
      ((frame ([60, 75, 90].map row)).contributions .M30 london) := by
  constructor
  · exact (Frame.causal_iff (priced _) rfl).2.1.2
      (clear_of_monotone (fun _ _ _ h => h) (counted _))
  · refine (Frame.causal_iff (priced _) rfl).2.1.2
      (clear_of_monotone (fun r hr t ht => ?_) (counted _))
    obtain ⟨m, hm, rfl⟩ := List.mem_map.1 hr
    have hover : 60 ≤ m := by
      simp only [List.mem_cons, List.not_mem_nil, or_false] at hm
      omega
    change backWall _ _ t ≤ backWall _ _ (row m).timestamp
    simp only [backWall, row, minute] at ht ⊢
    split_ifs <;> omega

end Autumn

end Fiboki.Resample
