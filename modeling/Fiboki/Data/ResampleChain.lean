import Fiboki.Data.ResampleCausal
import Mathlib.Data.List.Chain

/-!
Resampling in steps: through nested timeframes, on one grid, the bars are those of a single
resample to the last.
-/

namespace Fiboki.Resample

open StableSort Partitions Stepwise Bars

def Nested (source target : Timeframe) : Prop := assertNested source target = .ok ()

variable {source target : Timeframe}

theorem nested_iff :
    Nested source target ↔ source.minutes ≤ target.minutes ∧ source.minutes ∣ target.minutes := by
  unfold Nested assertNested
  rw [Nat.dvd_iff_mod_eq_zero]
  split_ifs with hup hnest
  · exact ⟨nofun, fun h => absurd hup (not_lt.2 h.1)⟩
  · exact ⟨nofun, fun h => absurd h.2 hnest⟩
  · exact ⟨fun _ => ⟨not_lt.1 hup, not_not.1 hnest⟩, fun _ => rfl⟩

theorem Nested.trans {source via target : Timeframe} (h : Nested source via)
    (h' : Nested via target) : Nested source target := by
  rw [nested_iff] at h h' ⊢
  exact ⟨h.1.trans h'.1, h.2.trans h'.2⟩

theorem minutes_injective (h : source.minutes = target.minutes) : source = target := by
  cases source <;> cases target <;> first | rfl | exact absurd h (by decide)

instance : IsTrans Timeframe Nested := ⟨fun _ _ _ => Nested.trans⟩

theorem Nested.antisymm (h : Nested source target)
    (h' : Nested target source) : source = target := by
  rw [nested_iff] at h h'
  exact minutes_injective (le_antisymm h.1 h'.1)

section Labels

variable {P : Type} {fine coarse : Timeframe} {a : Anchor}

theorem bucket_label (h : Nested fine coarse) (t : ℤ) :
    bucket coarse a (a.zone.localise (bucket fine a t)) = bucket coarse a t :=
  edge_coarser (freq_pos fine) (freq_dvd_of_nested h) (freq_pos coarse) (a.zone.reached _)
    (a.zone.next (bucket_le fine a t))

theorem bucket_coarser (h : Nested fine coarse) {s t : ℤ}
    (heq : bucket fine a s = bucket fine a t) :
    bucket coarse a s = bucket coarse a t := by
  rw [← bucket_label h s, heq, bucket_label h t]

theorem labels_inBucket (h : Nested fine coarse) (e : ℤ) (rows : List (Row P)) :
    (labels fine a rows).filter (fun d => bucket coarse a (a.zone.localise d) = e) =
      labels fine a (inBucket coarse a e rows) := by
  refine eq_of_ascending ((labels_pairwise fine a rows).sublist List.filter_sublist)
    (labels_pairwise fine a _) fun d => ?_
  rw [List.mem_filter, decide_eq_true_eq, mem_labels, mem_labels]
  constructor
  · rintro ⟨⟨r, hr, rfl⟩, hlabel⟩
    rw [bucket_label h] at hlabel
    exact ⟨r, mem_inBucket.2 ⟨hr, hlabel⟩, rfl⟩
  · rintro ⟨r, hr, rfl⟩
    obtain ⟨hmem, hbucket⟩ := mem_inBucket.1 hr
    exact ⟨⟨r, hmem, rfl⟩, (bucket_label h _).trans hbucket⟩

theorem inBucket_inBucket (h : Nested fine coarse) {e d : ℤ} {rows : List (Row P)}
    (hd : d ∈ labels fine a (inBucket coarse a e rows)) :
    inBucket fine a d (inBucket coarse a e rows) = inBucket fine a d rows := by
  obtain ⟨s, hs, rfl⟩ := mem_labels.1 hd
  have hbucket := (mem_inBucket.1 hs).2
  unfold inBucket
  rw [List.filter_filter]
  refine List.filter_congr fun r _ => ?_
  by_cases hr : bucket fine a r.timestamp = bucket fine a s.timestamp
  · simp [hr, (bucket_coarser h hr).trans hbucket]
  · simp [hr]

theorem wallOrder_inBucket (h : Nested fine coarse) (e : ℤ) (rows : List (Row P)) :
    (labels fine a (inBucket coarse a e rows)).flatMap
        (fun d => wallOrder a.zone (inBucket fine a d rows)) =
      wallOrder a.zone (inBucket coarse a e rows) := by
  have hparts := flatMap_split (wallOrder_ascending fine a (inBucket coarse a e rows))
  unfold split at hparts
  rw [List.flatMap_map] at hparts
  refine (List.flatMap_congr fun d hd => ?_).trans hparts
  rw [← inBucket_inBucket h hd]
  exact wallOrder_filter _ _ _

end Labels

section Bars

variable {P : Type} [LinearOrder P] {f : Frame P} {fine coarse : Timeframe} {a : Anchor}

def Frame.via (f : Frame P) (fine : Timeframe) (a : Anchor) : Frame P :=
  { f with timeframe := fine, rows := (f.buckets fine a).map Prod.snd }

theorem Frame.Opened.via_rows (h : f.Opened) :
    (f.via fine a).rows = (labels fine a f.rows).map (f.bar fine a) := by
  unfold via
  rw [h.buckets_eq, List.map_map]
  rfl

theorem Frame.Opened.via_inBucket (h : f.Opened) (hnest : Nested fine coarse) (e : ℤ) :
    inBucket coarse a e (f.via fine a).rows =
      (labels fine a (inBucket coarse a e f.rows)).map (f.bar fine a) := by
  rw [h.via_rows, ← labels_inBucket hnest, inBucket, List.filter_map]
  rfl

theorem Frame.wallOrder_bars (f : Frame P) (rows : List (Row P)) :
    wallOrder a.zone ((labels fine a rows).map (f.bar fine a)) =
      (labels fine a rows).map (f.bar fine a) := by
  have htime : ((labels fine a rows).map (f.bar fine a)).Pairwise fun r s =>
      r.timestamp ≤ s.timestamp := by
    refine List.pairwise_map.2 ((labels_pairwise fine a rows).imp_of_mem fun {d e} hd he hlt => ?_)
    obtain ⟨r, -, rfl⟩ := mem_labels.1 hd
    obtain ⟨s, -, rfl⟩ := mem_labels.1 he
    exact (localise_lt hlt).le
  have hclock : ((labels fine a rows).map (f.bar fine a)).Pairwise fun r s =>
      a.zone.wall r.timestamp ≤ a.zone.wall s.timestamp :=
    List.pairwise_map.2 ((labels_pairwise fine a rows).imp fun hlt =>
      a.zone.next (hlt.le.trans (a.zone.reached _)))
  unfold wallOrder
  rw [sortBy_of_sorted Row.timestamp htime]
  exact sortBy_of_sorted _ hclock

theorem Frame.Opened.total_bars {α : Type} {op : α → α → α} {g : Row P → Option α}
    (hassoc : ∀ x y z, op (op x y) z = op x (op y z)) (h : f.Opened) (hnest : Nested fine coarse)
    (hbar : ∀ d, g (f.bar fine a d) =
      total op ((wallOrder a.zone (inBucket fine a d f.rows)).filterMap g)) (e : ℤ) :
    total op ((wallOrder a.zone (inBucket coarse a e (f.via fine a).rows)).filterMap g) =
      total op ((wallOrder a.zone (inBucket coarse a e f.rows)).filterMap g) := by
  rw [h.via_inBucket hnest, f.wallOrder_bars, ← wallOrder_inBucket hnest, List.filterMap_map,
    List.filterMap_flatMap, List.flatMap_def, ← total_parts hassoc, List.filterMap_map]
  congr 1
  exact List.filterMap_congr fun d _ => hbar d

def combine : Aggregation → P → P → P
  | .first, p, _ => p
  | .max, p, q => max p q
  | .min, p, q => min p q
  | .last, _, q => q
  | .sum, p, _ => p

theorem combine_assoc (agg : Aggregation) (p q r : P) :
    combine agg (combine agg p q) r = combine agg p (combine agg q r) := by
  cases agg with
  | first => rfl
  | max => exact max_assoc p q r
  | min => exact min_assoc p q r
  | last | sum => rfl

theorem aggregatePrice_eq_total {agg : Aggregation} (hagg : agg ≠ .sum) (prices : List P) :
    aggregatePrice agg prices = total (combine agg) prices := by
  cases agg with
  | first => exact (total_left prices).symm
  | max => exact (total_max prices).symm
  | min => exact (total_min prices).symm
  | last => exact (total_right prices).symm
  | sum => exact absurd rfl hagg

variable {c : NumericColumn}

theorem Frame.Opened.price_via (h : f.Opened) (hnest : Nested fine coarse) (hc : c ∈ f.columns)
    (e : ℤ) : ((f.via fine a).bar coarse a e).price c = (f.bar coarse a e).price c := by
  have hvia : c ∈ (f.via fine a).columns := hc
  rw [bar_price hc, bar_price hvia]
  by_cases hsum : aggregationOf c = .sum
  · rw [hsum]
    rfl
  rw [aggregatePrice_eq_total hsum, aggregatePrice_eq_total hsum]
  refine h.total_bars (combine_assoc _) hnest (fun d => ?_) e
  rw [bar_price hc, aggregatePrice_eq_total hsum]

theorem Frame.Counted.given_bar (h : f.Counted) (hc : c ∈ f.columns) (hint : c.isInt)
    (d : ℤ) : given ((f.bar fine a d).volume c) =
      sumGiven ((wallOrder a.zone (inBucket fine a d f.rows)).filterMap fun r =>
        given (r.volume c)) := by
  have hsum : 0 ≤ ((inBucket fine a d f.rows).filterMap fun r => given (r.volume c)).sum :=
    h.sum_nonneg hc hint d
  rw [bar_volume hc hint, given_sumGiven_iff, ((perm_wallOrder _ _).filterMap _).sum_eq]
  unfold absentVolume
  omega

theorem Frame.Counted.volume_via (h : f.Counted) (hopened : f.Opened) (hnest : Nested fine coarse)
    (hc : c ∈ f.columns) (hint : c.isInt) (e : ℤ) :
    ((f.via fine a).bar coarse a e).volume c = (f.bar coarse a e).volume c := by
  have hvia : c ∈ (f.via fine a).columns := hc
  rw [bar_volume hc hint, bar_volume hvia hint, sumGiven_eq_total, sumGiven_eq_total]
  rw [hopened.total_bars add_assoc hnest (fun d => ?_) e]
  rw [h.given_bar hc hint, sumGiven_eq_total]

theorem Frame.Counted.bar_via (h : f.Counted) (hopened : f.Opened) (hnest : Nested fine coarse)
    (e : ℤ) : (f.via fine a).bar coarse a e = f.bar coarse a e := by
  have hprice : ((f.via fine a).bar coarse a e).price = (f.bar coarse a e).price := by
    funext c
    by_cases hc : c ∈ f.columns
    · exact hopened.price_via hnest hc e
    · exact (if_neg hc).trans (if_neg hc).symm
  have hvolume : ((f.via fine a).bar coarse a e).volume = (f.bar coarse a e).volume := by
    funext c
    by_cases hc : c ∈ f.columns ∧ c.isInt
    · exact h.volume_via hopened hnest hc.1 hc.2 e
    · exact (if_neg hc).trans (if_neg hc).symm
  exact congrArg₂ (Row.mk (a.zone.localise e)) hprice hvolume

theorem Frame.Opened.labels_via (h : f.Opened) (hnest : Nested fine coarse) :
    labels coarse a (f.via fine a).rows = labels coarse a f.rows := by
  refine eq_of_ascending (labels_pairwise coarse a _) (labels_pairwise coarse a _) fun e => ?_
  rw [mem_labels, mem_labels, h.via_rows]
  constructor
  · rintro ⟨b, hb, rfl⟩
    obtain ⟨d, hd, rfl⟩ := List.mem_map.1 hb
    obtain ⟨r, hr, rfl⟩ := mem_labels.1 hd
    exact ⟨r, hr, (bucket_label hnest r.timestamp).symm⟩
  · rintro ⟨r, hr, rfl⟩
    exact ⟨_, List.mem_map_of_mem (mem_labels.2 ⟨r, hr, rfl⟩), bucket_label hnest r.timestamp⟩

theorem Frame.Opened.via (h : f.Opened) : (f.via fine a).Opened := by
  intro b hb
  rw [h.via_rows] at hb
  obtain ⟨e, he, rfl⟩ := List.mem_map.1 hb
  exact h.bar he

theorem Frame.Counted.via (h : f.Counted) (hopened : f.Opened) : (f.via fine a).Counted := by
  intro b hb c hc hint v hv
  rw [hopened.via_rows] at hb
  obtain ⟨e, -, rfl⟩ := List.mem_map.1 hb
  rw [h.given_bar hc hint] at hv
  unfold sumGiven at hv
  split_ifs at hv
  cases hv
  rw [((perm_wallOrder _ _).filterMap _).sum_eq]
  exact h.sum_nonneg hc hint e

theorem Frame.Counted.buckets_via (h : f.Counted) (hopened : f.Opened)
    (hnest : Nested fine coarse) : (f.via fine a).buckets coarse a = f.buckets coarse a := by
  rw [hopened.via.buckets_eq, hopened.buckets_eq, hopened.labels_via hnest]
  simp only [h.bar_via hopened hnest]

end Bars

section Steps

variable {P : Type} [LinearOrder P] {f : Frame P} {a : Anchor}

theorem Frame.resample_of_nested {target : Timeframe} (h : Nested f.timeframe target) :
    f.resample target a =
      if f.rows = [] then .error .empty
      else if f.timeframe = target then .ok f
      else if a.time.isSome ∧ a.tz.isNone then .error .anchorTime
      else .ok (f.via target a) := by
  unfold resample
  rw [show assertNested f.timeframe target = .ok () from h]
  rfl

theorem Frame.via_rows_eq_nil (h : f.Opened) {target : Timeframe} :
    (f.via target a).rows = [] ↔ f.rows = [] := by
  rw [h.via_rows, List.map_eq_nil_iff, labels, List.dedup_eq_nil, List.map_eq_nil_iff]
  exact ⟨fun hnil => List.perm_nil.1 ((perm_wallOrder a.zone f.rows).symm.trans (hnil ▸ .refl _)),
    fun hnil => by rw [hnil]; rfl⟩

theorem Frame.Counted.resample_via (h : f.Counted) (hopened : f.Opened) {fine coarse : Timeframe}
    (hfine : Nested f.timeframe fine) (hcoarse : Nested fine coarse) :
    ((f.resample fine a).bind fun out => out.resample coarse a) = f.resample coarse a := by
  rw [resample_of_nested hfine, resample_of_nested (hfine.trans hcoarse)]
  by_cases hrows : f.rows = []
  · rw [if_pos hrows, if_pos hrows]
    rfl
  rw [if_neg hrows, if_neg hrows]
  by_cases hsame : f.timeframe = fine
  · rw [if_pos hsame]
    show f.resample coarse a = _
    rw [resample_of_nested (hfine.trans hcoarse), if_neg hrows]
  have hne : f.timeframe ≠ coarse := fun heq =>
    hsame (hfine.antisymm (heq ▸ hcoarse))
  rw [if_neg hsame, if_neg hne]
  by_cases hanchor : a.time.isSome ∧ a.tz.isNone
  · rw [if_pos hanchor, if_pos hanchor]
    rfl
  rw [if_neg hanchor, if_neg hanchor]
  show (f.via fine a).resample coarse a = .ok (f.via coarse a)
  have hvia : Nested (f.via fine a).timeframe coarse := hcoarse
  rw [resample_of_nested hvia, if_neg fun hnil => hrows ((via_rows_eq_nil hopened).1 hnil),
    if_neg hanchor]
  split_ifs with heq
  · cases (show fine = coarse from heq)
    rfl
  · refine congrArg Except.ok ?_
    unfold Frame.via
    rw [← h.buckets_via hopened hcoarse]
    rfl

/-- A chain of nested resamples is the resample to its last timeframe, errors and all. -/
theorem Frame.resampleChain_eq {path : List Timeframe} (hne : path ≠ []) (hopened : f.Opened)
    (hcounted : f.Counted) (hpath : (f.timeframe :: path).IsChain Nested) :
    resampleChain a f path = f.resample (path.getLast hne) a := by
  induction path generalizing f with
  | nil => exact absurd rfl hne
  | cons target path ih =>
    obtain ⟨hfirst, hrest⟩ := List.isChain_cons_cons.1 hpath
    cases path with
    | nil =>
      show (f.resample target a).bind Except.ok = f.resample target a
      cases f.resample target a <;> rfl
    | cons next path =>
      have hlast : Nested target ((next :: path).getLast (List.cons_ne_nil next path)) :=
        hrest.rel_cons (List.getLast_mem _)
      rw [List.getLast_cons (List.cons_ne_nil next path),
        ← hcounted.resample_via hopened hfirst hlast]
      show (f.resample target a).bind (fun out => resampleChain a out (next :: path)) = _
      cases hout : f.resample target a with
      | error e => rfl
      | ok out =>
        refine ih (List.cons_ne_nil next path) ?_ ?_ ?_
        all_goals obtain ⟨hsame, rfl⟩ | ⟨-, rfl⟩ := resample_ok hout
        · exact hopened
        · exact hopened.via
        · exact hcounted
        · exact hcounted.via hopened
        · rwa [hsame]
        · exact hrest

end Steps

theorem Autumn.chain_is_direct :
    Frame.resampleChain london (frame ([-30, 0, 30].map row)) [.M30, .H1] =
      (frame ([-30, 0, 30].map row)).resample .H1 london :=
  Frame.resampleChain_eq (by decide) (priced _).opened (counted _) (by unfold Nested; decide)

end Fiboki.Resample
