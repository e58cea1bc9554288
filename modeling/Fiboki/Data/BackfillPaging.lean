import Fiboki.Data.Backfill

/-!
The paging of a job: the requests that it is estimated to make, the candles that it returns from a
venue that serves its history, and the answers it refuses from any venue.
-/

namespace Fiboki.Backfill

open Timeline

def ceil (t bar : ℤ) : ℤ := t + -t % bar

namespace BackfillJob

variable (job : BackfillJob)

def fetches : Bool :=
  match job.action with
  | .fetch => true
  | .resume => true
  | .refetch => true
  | .current => false
  | .validateOnly => false

def slots (g : Granularity) : ℤ :=
  if job.fetches = false then 0
  else
    let first := ceil job.start g.bar
    if job.stop ≤ first then 0 else (job.stop - first) / g.bar

def estimatedRequests (g : Granularity) (page : ℕ) : ℤ :=
  if job.fetches = false then 0
  else
    let s := job.slots g
    if s ≤ 0 then 1 else max 1 ((s - 2) / (page - 1) + 1)

theorem ceil_emod (g : Granularity) (t : ℤ) : ceil t g.bar % g.bar = 0 := by
  have heq : ceil t g.bar = -(-t - -t % g.bar) := by
    unfold ceil
    omega
  rw [heq]
  exact Int.emod_eq_zero_of_dvd (Int.dvd_neg.2 Int.dvd_self_sub_emod)

variable {g : Granularity}

theorem ceil_le {t u : ℤ} (hu : u % g.bar = 0) (h : t ≤ u) : ceil t g.bar ≤ u := by
  by_contra hlt
  have hnext := add_bar_le hu (ceil_emod g t) (not_le.1 hlt)
  have hmod := Int.emod_lt_of_pos (-t) g.bar_pos
  unfold ceil at hnext
  omega

theorem succ_le_estimatedRequests {job : BackfillJob} {page n : ℕ}
    (hfetches : job.fetches = true) (hpage : 2 ≤ page) (haligned : job.stop % g.bar = 0)
    (h : ceil job.start g.bar + (n + 1) * (page - 1) * g.bar + g.bar < job.stop) :
    (n : ℤ) + 2 ≤ job.estimatedRequests g page := by
  have hpos := g.bar_pos
  have hroom : ((n : ℤ) + 1) * (page - 1) + 2 ≤ (job.stop - ceil job.start g.bar) / g.bar := by
    have hmark : (ceil job.start g.bar + (n + 1) * (page - 1) * g.bar + g.bar) % g.bar = 0 := by
      rw [Int.add_emod_right, Int.add_mul_emod_self_right]
      exact ceil_emod g job.start
    have hnext := add_bar_le hmark haligned h
    rw [Int.le_ediv_iff_mul_le hpos]
    linarith
  have hspan : 0 ≤ ((n : ℤ) + 1) * (page - 1) := by
    have hpage' : (0 : ℤ) ≤ page - 1 := by omega
    positivity
  have hfirst : ¬ job.stop ≤ ceil job.start g.bar := by
    have := mul_nonneg hspan hpos.le
    omega
  have hslots : job.slots g = (job.stop - ceil job.start g.bar) / g.bar := by
    simp [slots, hfetches, hfirst]
  have hsome : ¬ (job.stop - ceil job.start g.bar) / g.bar ≤ 0 := by omega
  have hpages : (n : ℤ) + 1 ≤ ((job.stop - ceil job.start g.bar) / g.bar - 2) / (page - 1) := by
    rw [Int.le_ediv_iff_mul_le (by omega)]
    omega
  simp only [estimatedRequests, hfetches, hslots]
  rw [if_neg (by simp), if_neg hsome]
  exact le_max_of_le_right (by omega)

end BackfillJob

/-- Candles on the bars of the granularity, closed wherever they are before an end. -/
structure History (g : Granularity) (stop : ℤ) where
  candles : List (ℤ × RawCandle)
  timed : ∀ e ∈ candles, e.2.time = some e.1
  increasing : Increasing Prod.fst candles
  aligned : ∀ e ∈ candles, e.1 % g.bar = 0
  complete : ∀ e ∈ candles, e.1 < stop → e.2.complete = true

namespace History

variable {g : Granularity} {stop : ℤ} (history : History g stop)

/-- `from` and `count`: the candle at `from` is included. -/
def page (count : ℕ) (a : ℤ) : List (ℤ × RawCandle) :=
  (history.candles.filter fun e => a ≤ e.1).take count

def serve (oandaName : String) (count : ℕ) (_ : ℕ) (a : ℤ) : Option Reply :=
  some ⟨some oandaName, some g.name, some ((history.page count a).map Prod.snd)⟩

/-- The candles in `[a, b)`. -/
def between (a b : ℤ) : List (ℤ × RawCandle) := slice Prod.fst a b history.candles

variable {history}

variable {count : ℕ}

variable {a : ℤ}

theorem mem_page {e : ℤ × RawCandle} (h : e ∈ history.page count a) :
    e ∈ history.candles ∧ a ≤ e.1 := by
  simpa using List.mem_of_mem_take h

theorem increasing_page (count : ℕ) (a : ℤ) : Increasing Prod.fst (history.page count a) :=
  history.increasing.sublist ((List.take_sublist _ _).trans List.filter_sublist)

theorem mem_page_of_le {x e : ℤ × RawCandle} (hx : x ∈ history.candles) (ha : a ≤ x.1)
    (he : e ∈ history.page count a) (hle : x.1 ≤ e.1) : x ∈ history.page count a := by
  have hfilter : Increasing Prod.fst (history.candles.filter fun e => a ≤ e.1) :=
    history.increasing.sublist List.filter_sublist
  exact hfilter.mem_take (by simpa using ⟨hx, ha⟩) he hle

theorem mem_page_of_short {x : ℤ × RawCandle} (hx : x ∈ history.candles) (ha : a ≤ x.1)
    (hshort : (history.page count a).length < count) : x ∈ history.page count a := by
  unfold page at hshort ⊢
  rw [List.length_take] at hshort
  rw [List.take_of_length_le (by omega)]
  simpa using ⟨hx, ha⟩

theorem readTimes_page (count : ℕ) (a : ℤ) :
    BackfillJob.readTimes ((history.page count a).map Prod.snd) = .ok (history.page count a) := by
  have hread : ∀ es : List (ℤ × RawCandle), (∀ e ∈ es, e.2.time = some e.1) →
      (es.map Prod.snd).mapM (fun c => c.time.map fun t => (t, c)) = some es := by
    intro es hes
    induction es with
    | nil => rfl
    | cons e es ih =>
      rw [List.map_cons, List.mapM_cons, hes e List.mem_cons_self,
        ih fun e' he' => hes e' (List.mem_cons_of_mem _ he')]
      rfl
  unfold BackfillJob.readTimes
  rw [hread _ fun e he => history.timed e (mem_page he).1]
  exact if_pos (increasing_page count a)

theorem span_le {es : List (ℤ × RawCandle)} (hincreasing : Increasing Prod.fst es)
    (haligned : ∀ e ∈ es, e.1 % g.bar = 0) {first last : ℤ × RawCandle}
    (hfirst : es.head? = some first) (hlast : es.getLast? = some last) :
    first.1 + ((es.length : ℤ) - 1) * g.bar ≤ last.1 := by
  induction es generalizing first with
  | nil => cases hfirst
  | cons e es ih =>
    cases hfirst
    cases es with
    | nil =>
      cases hlast
      simp
    | cons e' es =>
      have hpair := List.pairwise_cons.1 hincreasing
      have hnext := add_bar_le (haligned e List.mem_cons_self)
        (haligned e' (List.mem_cons_of_mem _ List.mem_cons_self)) (hpair.1 e' List.mem_cons_self)
      have hrest := ih hpair.2 (fun x hx => haligned x (List.mem_cons_of_mem _ hx)) rfl
        (by rwa [List.getLast?_cons_cons] at hlast)
      simp only [List.length_cons, Nat.cast_add, Nat.cast_one] at hrest ⊢
      linarith

end History

section Served

variable {g : Granularity} {job : BackfillJob} {history : History g job.stop}

def KeptTo (history : History g job.stop) (b : ℤ) (f : Fetched) : Prop :=
  f.kept = history.between job.start (min job.stop b)

variable {e : ℤ × RawCandle}

theorem mem_between {a b : ℤ} :
    e ∈ history.between a b ↔ e ∈ history.candles ∧ a ≤ e.1 ∧ e.1 < b :=
  mem_slice

variable {f : Fetched}

theorem KeptTo.later {b b' : ℤ} (h : KeptTo history b f) (hle : b ≤ b')
    (hgap : ∀ e ∈ history.candles, job.start ≤ e.1 → e.1 < job.stop → b ≤ e.1 → b' ≤ e.1) :
    KeptTo history b' f := by
  unfold KeptTo at h ⊢
  rw [h]
  apply (increasing_slice history.increasing _ _).eq_of_mem_iff
    (increasing_slice history.increasing _ _)
  intro e
  rw [mem_slice, mem_slice]
  constructor
  · rintro ⟨he, hstart, hlt⟩
    exact ⟨he, hstart, by omega⟩
  · rintro ⟨he, hstart, hlt⟩
    refine ⟨he, hstart, ?_⟩
    by_contra hge
    have := hgap e he hstart (by omega) (by omega)
    omega

variable {b : ℤ}

theorem KeptTo.takeCandle (h : KeptTo history b f)
    (he : e ∈ history.candles) (hgap : ∀ x ∈ history.candles, b ≤ x.1 → e.1 ≤ x.1) :
    ∃ f', job.takeCandle f e.1 e.2 = .ok f' ∧ KeptTo history (max b (e.1 + 1)) f' ∧
      f'.pages = f.pages := by
  have hunique : ∀ x ∈ history.candles, x.1 = e.1 → x = e :=
    fun x hx heq => history.increasing.unique hx he heq
  unfold BackfillJob.takeCandle
  by_cases hcomplete : e.2.complete = false
  · -- a candle that is still forming is at or after the end
    rw [if_pos hcomplete]
    have hend : job.stop ≤ e.1 := by
      by_contra hlt
      rw [history.complete e he (not_le.1 hlt)] at hcomplete
      cases hcomplete
    refine ⟨_, rfl, KeptTo.later h (le_max_left _ _) fun x hx _ hstop hb => ?_, rfl⟩
    have hle := hgap x hx hb
    omega
  rw [if_neg hcomplete]
  by_cases houtside : e.1 < job.start ∨ job.stop ≤ e.1
  · rw [if_pos houtside]
    refine ⟨_, rfl, KeptTo.later h (le_max_left _ _) fun x hx hstart hstop hb => ?_, rfl⟩
    have hle := hgap x hx hb
    omega
  rw [if_neg houtside]
  have hbefore : ∀ k ∈ f.kept, k ∈ history.candles ∧ k.1 < b := by
    intro k hk
    rw [h] at hk
    obtain ⟨hmem, -, hlt⟩ := mem_between.1 hk
    exact ⟨hmem, by omega⟩
  rcases lt_or_ge e.1 b with hold | hnew
  · have hkept : e ∈ f.kept := by
      rw [h]
      exact mem_between.2 ⟨he, by omega, by omega⟩
    have hfind : f.kept.find? (fun k => k.1 = e.1) = some e := by
      cases hfound : f.kept.find? (fun k => k.1 = e.1) with
      | none => simpa using List.find?_eq_none.1 hfound e hkept
      | some k =>
        have htime : k.1 = e.1 := by simpa using List.find?_some hfound
        rw [hunique k (hbefore k (List.mem_of_find?_eq_some hfound)).1 htime]
    rw [hfind]
    refine ⟨_, if_neg (not_not_intro rfl), ?_, rfl⟩
    exact KeptTo.later h (le_max_left _ _) fun x _ _ _ hb => by omega
  · have hfind : f.kept.find? (fun k => k.1 = e.1) = none := by
      refine List.find?_eq_none.2 fun k hk => ?_
      have hlt := (hbefore k hk).2
      simp only [decide_eq_true_eq]
      omega
    have hback : ¬ f.kept.getLast?.any (fun k => e.1 ≤ k.1) = true := by
      cases hlast : f.kept.getLast? with
      | none => simp
      | some k =>
        have hlt := (hbefore k (List.mem_of_getLast? hlast)).2
        simp only [Option.any_some, decide_eq_true_eq]
        omega
    rw [hfind]
    refine ⟨_, if_neg hback, ?_, rfl⟩
    change f.kept ++ [e] = _
    have hincreasing : Increasing Prod.fst (f.kept ++ [e]) := by
      rw [h]
      apply (increasing_slice history.increasing _ _).append (List.pairwise_singleton _ _)
      intro x hx y hy
      rw [List.mem_singleton.1 hy]
      have hlt := (mem_slice.1 hx).2.2
      omega
    apply hincreasing.eq_of_mem_iff (increasing_slice history.increasing _ _)
    intro x
    rw [List.mem_append, List.mem_singleton, h, mem_between, mem_slice]
    constructor
    · rintro (⟨hx, hstart, hlt⟩ | rfl)
      · exact ⟨hx, hstart, by omega⟩
      · exact ⟨he, by omega, by omega⟩
    · rintro ⟨hx, hstart, hlt⟩
      rcases lt_or_ge x.1 b with hxb | hxb
      · exact .inl ⟨hx, hstart, by omega⟩
      · have hle := hgap x hx hxb
        exact .inr (hunique x hx (by omega))

theorem KeptTo.takeCandles {es : List (ℤ × RawCandle)} (h : KeptTo history b f)
    (hincreasing : Increasing Prod.fst es)
    (hmem : ∀ e ∈ es, e ∈ history.candles)
    (hwhole : ∀ e ∈ es, ∀ x ∈ history.candles, b ≤ x.1 → x.1 ≤ e.1 → x ∈ es) :
    ∃ f', job.takeCandles f es = .ok f' ∧ f'.pages = f.pages ∧ (es = [] → f' = f) ∧
      ∀ last, es.getLast? = some last → KeptTo history (max b (last.1 + 1)) f' := by
  induction es generalizing b f with
  | nil => exact ⟨f, rfl, rfl, fun _ => rfl, fun last hlast => by cases hlast⟩
  | cons e es ih =>
    have hpair := List.pairwise_cons.1 hincreasing
    have hgap : ∀ x ∈ history.candles, b ≤ x.1 → e.1 ≤ x.1 := by
      intro x hx hb
      by_contra hlt
      have hin := hwhole e List.mem_cons_self x hx hb (by omega)
      rcases List.mem_cons.1 hin with rfl | hin
      · exact hlt le_rfl
      · have := hpair.1 x hin
        omega
    obtain ⟨f₁, hone, hkept, hpages⟩ := h.takeCandle (hmem e List.mem_cons_self) hgap
    have hrest : ∀ e' ∈ es, ∀ x ∈ history.candles, max b (e.1 + 1) ≤ x.1 → x.1 ≤ e'.1 → x ∈ es := by
      intro e' he' x hx hb hle
      rcases List.mem_cons.1 (hwhole e' (List.mem_cons_of_mem _ he') x hx (by omega) hle) with
        rfl | hin
      · omega
      · exact hin
    obtain ⟨f₂, htwo, hpages', hnil, hlast⟩ :=
      ih hkept hpair.2 (fun x hx => hmem x (List.mem_cons_of_mem _ hx)) hrest
    refine ⟨f₂, ?_, hpages'.trans hpages, by simp, ?_⟩
    · rw [BackfillJob.takeCandles, hone]
      exact htwo
    · intro last hl
      cases es with
      | nil =>
        cases hl
        rw [hnil rfl]
        exact hkept
      | cons e' es =>
        have hkept' := hlast last (by rwa [List.getLast?_cons_cons] at hl)
        have hlt := hpair.1 last (List.mem_of_getLast? (by rwa [List.getLast?_cons_cons] at hl))
        have hmax : max (max b (e.1 + 1)) (last.1 + 1) = max b (last.1 + 1) := by omega
        rwa [hmax] at hkept'

theorem KeptTo.whole (h : KeptTo history b f)
    (hend : ∀ e ∈ history.candles, e.1 < job.stop → e.1 < b) :
    f.kept = history.between job.start job.stop := by
  have hgap : ∀ e ∈ history.candles, job.start ≤ e.1 → e.1 < job.stop → b ≤ e.1 →
      max b job.stop ≤ e.1 := fun e he _ hstop hb => by
    have := hend e he hstop
    omega
  have hlater := h.later (le_max_left _ _) hgap
  unfold KeptTo at hlater
  rwa [min_eq_left (le_max_right _ _)] at hlater

/-- The pages after `n` full ones have left that much of the window behind them. -/
def Behind (history : History g job.stop) (page n : ℕ) (cursor : ℤ) : Prop :=
  ∀ e ∈ history.candles, cursor ≤ e.1 → ceil job.start g.bar + n * ((page : ℤ) - 1) * g.bar ≤ e.1

theorem Behind.next {page n : ℕ} {cursor : ℤ} (h : Behind history page n cursor) (hpage : 2 ≤ page)
    {last : ℤ × RawCandle} (hlast : (history.page page cursor).getLast? = some last)
    (hfull : ¬ (history.page page cursor).length < page) :
    cursor < last.1 ∧ Behind history page (n + 1) last.1 := by
  have hlength : (history.page page cursor).length = page := by
    have hle : (history.page page cursor).length ≤ page := List.length_take_le _ _
    omega
  obtain ⟨first, hfirst⟩ : ∃ first, (history.page page cursor).head? = some first := by
    cases hhead : (history.page page cursor).head? with
    | none =>
      rw [List.head?_eq_none_iff] at hhead
      rw [hhead, List.length_nil] at hlength
      omega
    | some first => exact ⟨first, rfl⟩
  have hmem := History.mem_page (List.mem_of_head? hfirst)
  have hspan := History.span_le (g := g) (History.increasing_page page cursor)
    (fun e he => history.aligned e (History.mem_page he).1) hfirst hlast
  rw [hlength] at hspan
  have hbehind := h first hmem.1 hmem.2
  have hbar := g.bar_pos
  have hstep : g.bar ≤ ((page : ℤ) - 1) * g.bar := by
    have hone : (1 : ℤ) ≤ (page : ℤ) - 1 := by omega
    simpa using mul_le_mul_of_nonneg_right hone hbar.le
  refine ⟨by omega, fun e he hle => ?_⟩
  push_cast
  linarith

theorem fetchFrom_serve {oandaName : String} {page : ℕ} (hfetches : job.fetches = true)
    (hpage : 2 ≤ page) (haligned : job.stop % g.bar = 0) {cursor b : ℤ}
    (h : KeptTo history b f) (hle : cursor ≤ b) (hb : b ≤ cursor + 1)
    (hbehind : Behind history page f.pages cursor)
    (hroom : (f.pages : ℤ) + 1 ≤ job.estimatedRequests g page) :
    ∃ f', job.fetchFrom g oandaName page (history.serve oandaName page) cursor f = .ok f' ∧
      f'.kept = history.between job.start job.stop ∧
      (f'.pages : ℤ) ≤ job.estimatedRequests g page := by
  induction hn : (job.stop - cursor).toNat using Nat.strong_induction_on
    generalizing cursor b f with
  | h n ih =>
    have hreply : BackfillJob.readReply g oandaName ⟨some oandaName, some g.name,
        some ((history.page page cursor).map Prod.snd)⟩ =
        .ok ((history.page page cursor).map Prod.snd) := by
      simp [BackfillJob.readReply]
    rw [BackfillJob.fetchFrom]
    unfold History.serve
    dsimp only
    rw [hreply]
    dsimp only
    rw [History.readTimes_page]
    dsimp only
    generalize hcounted : ({ f with
      pages := f.pages + 1
      counters := { f.counters with
        candlesReceived := f.counters.candlesReceived +
          ((history.page page cursor).map Prod.snd).length } } : Fetched) = f₀
    have hkept : KeptTo history b f₀ := by rw [← hcounted]; exact h
    have hpages : f₀.pages = f.pages + 1 := by rw [← hcounted]
    obtain ⟨f₁, htaken, hpages₁, -, hlast₁⟩ := hkept.takeCandles
      (History.increasing_page page cursor) (fun e he => (History.mem_page he).1)
      (fun e he x hx hbx hxe => History.mem_page_of_le hx (by omega) he hxe)
    have hcount : (f₁.pages : ℤ) ≤ job.estimatedRequests g page := by
      rw [hpages₁, hpages]
      exact_mod_cast hroom
    cases hlast : (history.page page cursor).getLast? with
    | none =>
      -- an empty page ends the history
      have hnil := List.getLast?_eq_none_iff.1 hlast
      refine ⟨f₀, rfl, hkept.whole fun e he _ => ?_, by rw [hpages]; exact_mod_cast hroom⟩
      by_contra hge
      have hshort : (history.page page cursor).length < page := by
        rw [hnil, List.length_nil]
        omega
      have hin := History.mem_page_of_short he (by omega : cursor ≤ e.1) hshort
      rw [hnil] at hin
      cases hin
    | some last =>
      have hkept₁ := hlast₁ last hlast
      dsimp only
      rw [htaken]
      dsimp only
      rw [List.length_map]
      have hlastmem := History.mem_page (List.mem_of_getLast? hlast)
      by_cases hshort : (history.page page cursor).length < page
      · rw [if_pos hshort]
        refine ⟨f₁, rfl, hkept₁.whole fun e he _ => ?_, hcount⟩
        rcases lt_or_ge e.1 cursor with hlt | hge
        · omega
        · have hin := History.mem_page_of_short he hge hshort
          have hmax := (History.increasing_page page cursor).le_getLast hin hlast
          omega
      rw [if_neg hshort]
      by_cases hend : job.stop ≤ last.1 + g.bar
      · rw [dif_pos hend]
        refine ⟨f₁, rfl, hkept₁.whole fun e he hstop => ?_, hcount⟩
        by_contra hge
        have hnext := add_bar_le (history.aligned last hlastmem.1) (history.aligned e he) (by omega)
        omega
      rw [dif_neg hend]
      obtain ⟨hmore, hbehind'⟩ := hbehind.next hpage hlast hshort
      rw [dif_neg (not_le.2 hmore)]
      have hbar := g.bar_pos
      have hmax : max b (last.1 + 1) = last.1 + 1 := by omega
      rw [hmax] at hkept₁
      have hpos := hbehind' last hlastmem.1 le_rfl
      push_cast at hpos
      have hnext := BackfillJob.succ_le_estimatedRequests (n := f.pages) hfetches hpage haligned
        (by omega)
      exact ih _ (by omega) hkept₁ (by omega) le_rfl (by rw [hpages₁, hpages]; exact hbehind')
        (by rw [hpages₁, hpages]; push_cast; omega) rfl

end Served

namespace BackfillJob

variable (job : BackfillJob)

def pagesFrom (g : Granularity) (oandaName : String) (page : ℕ) (fetch : ℕ → ℤ → Option Reply)
    (k : ℕ) (cursor : ℤ) : List (List (ℤ × RawCandle)) :=
  match (fetch k cursor).map (readReply g oandaName) with
  | some (.ok candles) =>
    match candles.mapM fun c => c.time.map fun t => (t, c) with
    | none => []
    | some timed =>
      match timed.getLast? with
      | none => []
      | some (last, _) =>
        timed ::
          if candles.length < page then []
          else if _hend : job.stop ≤ last + g.bar then []
          else if _hstuck : last ≤ cursor then []
          else pagesFrom g oandaName page fetch (k + 1) last
  | _ => []
termination_by (job.stop - cursor).toNat
decreasing_by
  have hbar := g.bar_pos
  omega

def Counts (e : ℤ × RawCandle) : Prop := e.2.complete = true ∧ job.start ≤ e.1 ∧ e.1 < job.stop

def Changes (before : List (ℤ × RawCandle)) (e : ℤ × RawCandle) : Prop :=
  ∃ k ∈ before, job.Counts k ∧ k.1 = e.1 ∧ fingerprint k.2 ≠ fingerprint e.2

def GoesBack (before : List (ℤ × RawCandle)) (e : ℤ × RawCandle) : Prop :=
  (∃ k ∈ before, job.Counts k ∧ e.1 < k.1) ∧ ∀ k ∈ before, job.Counts k → k.1 ≠ e.1

def Orderly (es : List (ℤ × RawCandle)) : Prop :=
  ∀ before e after, es = before ++ e :: after → job.Counts e →
    ¬ job.Changes before e ∧ ¬ job.GoesBack before e

variable {job}

theorem orderly_of_increasing {es : List (ℤ × RawCandle)} (h : Increasing Prod.fst es) :
    job.Orderly es := by
  rintro before e after rfl -
  have hlt : ∀ k ∈ before, k.1 < e.1 := fun k hk =>
    (List.pairwise_append.1 h).2.2 k hk e List.mem_cons_self
  constructor
  · rintro ⟨k, hk, -, htime, -⟩
    exact (hlt k hk).ne htime
  · rintro ⟨⟨k, hk, -, htime⟩, -⟩
    exact (hlt k hk).not_gt htime

variable {es : List (ℤ × RawCandle)} {e : ℤ × RawCandle}

theorem Orderly.snoc (h : job.Orderly es)
    (he : job.Counts e → ¬ job.Changes es e ∧ ¬ job.GoesBack es e) : job.Orderly (es ++ [e]) := by
  intro before x after heq hx
  rcases List.eq_nil_or_concat after with rfl | ⟨after, y, rfl⟩
  · obtain ⟨rfl, hsingle⟩ := List.append_inj' heq rfl
    cases hsingle
    exact he hx
  · rw [List.concat_eq_append, ← List.cons_append, ← List.append_assoc] at heq
    exact h before x after (List.append_inj' heq rfl).1 hx

structure KeptOf (job : BackfillJob) (es : List (ℤ × RawCandle)) (f : Fetched) : Prop where
  orderly : job.Orderly es
  increasing : Increasing Prod.fst f.kept
  source : ∀ k ∈ f.kept, k ∈ es ∧ job.Counts k
  covers : ∀ e ∈ es, job.Counts e → ∃ k ∈ f.kept, k.1 = e.1 ∧ fingerprint k.2 = fingerprint e.2

variable {f f' : Fetched}

theorem KeptOf.of_kept (h : KeptOf job es f) (hkept : f'.kept = f.kept) : KeptOf job es f' :=
  ⟨h.orderly, by rw [hkept]; exact h.increasing, by rw [hkept]; exact h.source,
    by rw [hkept]; exact h.covers⟩

theorem KeptOf.drop (h : KeptOf job es f) (he : ¬ job.Counts e) (hkept : f'.kept = f.kept) :
    KeptOf job (es ++ [e]) f' := by
  refine ⟨h.orderly.snoc fun hcounts => absurd hcounts he, by rw [hkept]; exact h.increasing,
    fun k hk => ?_, fun x hx hcounts => ?_⟩
  · rw [hkept] at hk
    obtain ⟨hmem, hcounts⟩ := h.source k hk
    exact ⟨List.mem_append_left _ hmem, hcounts⟩
  · rw [hkept]
    rcases List.mem_append.1 hx with hx | hx
    · exact h.covers x hx hcounts
    · rw [List.mem_singleton.1 hx] at hcounts
      exact absurd hcounts he

theorem KeptOf.takeCandle (h : KeptOf job es f)
    (hok : job.takeCandle f e.1 e.2 = .ok f') : KeptOf job (es ++ [e]) f' := by
  unfold BackfillJob.takeCandle at hok
  by_cases hcomplete : e.2.complete = false
  · rw [if_pos hcomplete] at hok
    cases hok
    refine h.drop (fun hcounts => ?_) rfl
    rw [hcounts.1] at hcomplete
    cases hcomplete
  rw [if_neg hcomplete] at hok
  by_cases houtside : e.1 < job.start ∨ job.stop ≤ e.1
  · rw [if_pos houtside] at hok
    cases hok
    refine h.drop (fun hcounts => ?_) rfl
    have hstart := hcounts.2.1
    have hstop := hcounts.2.2
    omega
  rw [if_neg houtside] at hok
  have hcounts : job.Counts e := ⟨by simpa using hcomplete, by omega, by omega⟩
  cases hfind : f.kept.find? fun k => k.1 = e.1 with
  | some k =>
    -- seen before, with these values
    rw [hfind] at hok
    dsimp only at hok
    split_ifs at hok with hchanged
    cases hok
    have hk := List.mem_of_find?_eq_some hfind
    have htime : k.1 = e.1 := by simpa using List.find?_some hfind
    have hsame : fingerprint k.2 = fingerprint e.2 := not_not.1 hchanged
    refine ⟨h.orderly.snoc fun _ => ⟨?_, ?_⟩, h.increasing, fun x hx => ?_, fun x hx hx' => ?_⟩
    · rintro ⟨x, hx, hxcounts, hxtime, hxchanged⟩
      obtain ⟨k', hk', htime', hsame'⟩ := h.covers x hx hxcounts
      have hone : k' = k := h.increasing.unique hk' hk (by rw [htime', hxtime, htime])
      rw [hone] at hsame'
      exact hxchanged (hsame'.symm.trans hsame)
    · rintro ⟨-, hnone⟩
      obtain ⟨hmem, hkcounts⟩ := h.source k hk
      exact hnone k hmem hkcounts htime
    · obtain ⟨hmem, hxcounts⟩ := h.source x hx
      exact ⟨List.mem_append_left _ hmem, hxcounts⟩
    · rcases List.mem_append.1 hx with hx | hx
      · exact h.covers x hx hx'
      · rw [List.mem_singleton.1 hx]
        exact ⟨k, hk, htime, hsame⟩
  | none =>
    -- new, and after all that was kept
    rw [hfind] at hok
    dsimp only at hok
    split_ifs at hok with hback
    cases hok
    have hlater : ∀ k ∈ f.kept, k.1 < e.1 := by
      intro k hk
      cases hlast : f.kept.getLast? with
      | none =>
        rw [List.getLast?_eq_none_iff.1 hlast] at hk
        cases hk
      | some last =>
        have hle := h.increasing.le_getLast hk hlast
        simp only [hlast, Option.any_some, decide_eq_true_eq] at hback
        omega
    refine ⟨h.orderly.snoc fun _ => ⟨?_, ?_⟩, ?_, fun x hx => ?_, fun x hx hx' => ?_⟩
    · rintro ⟨x, hx, hxcounts, hxtime, -⟩
      obtain ⟨k, hk, htime, -⟩ := h.covers x hx hxcounts
      have := hlater k hk
      omega
    · rintro ⟨⟨x, hx, hxcounts, hxtime⟩, -⟩
      obtain ⟨k, hk, htime, -⟩ := h.covers x hx hxcounts
      have := hlater k hk
      omega
    · apply h.increasing.append (List.pairwise_singleton _ _)
      intro k hk x hx
      rw [List.mem_singleton.1 hx]
      exact hlater k hk
    · rcases List.mem_append.1 hx with hx | hx
      · obtain ⟨hmem, hxcounts⟩ := h.source x hx
        exact ⟨List.mem_append_left _ hmem, hxcounts⟩
      · rw [List.mem_singleton.1 hx]
        exact ⟨List.mem_append_right _ (List.mem_singleton.2 rfl), hcounts⟩
    · rcases List.mem_append.1 hx with hx | hx
      · obtain ⟨k, hk, htime, hsame⟩ := h.covers x hx hx'
        exact ⟨k, List.mem_append_left _ hk, htime, hsame⟩
      · rw [List.mem_singleton.1 hx]
        exact ⟨e, List.mem_append_right _ (List.mem_singleton.2 rfl), rfl, rfl⟩

theorem KeptOf.takeCandles {timed es : List (ℤ × RawCandle)} (h : KeptOf job es f)
    (hok : job.takeCandles f timed = .ok f') : KeptOf job (es ++ timed) f' := by
  induction timed generalizing es f with
  | nil =>
    cases hok
    rwa [List.append_nil]
  | cons e timed ih =>
    obtain ⟨t, c⟩ := e
    unfold BackfillJob.takeCandles at hok
    split at hok
    · cases hok
    · rename_i f₁ hone
      have hrest := ih (h.takeCandle (e := (t, c)) hone) hok
      rwa [List.append_assoc, List.singleton_append] at hrest

theorem takeCandle_pages {t : ℤ} {c : RawCandle}
    (h : job.takeCandle f t c = .ok f') : f'.pages = f.pages := by
  unfold BackfillJob.takeCandle at h
  split at h
  · cases h
    rfl
  split at h
  · cases h
    rfl
  split at h
  · split at h
    · cases h
    · cases h
      rfl
  · split at h
    · cases h
    · cases h
      rfl

theorem takeCandles_pages {timed : List (ℤ × RawCandle)}
    (h : job.takeCandles f timed = .ok f') : f'.pages = f.pages := by
  induction timed generalizing f with
  | nil =>
    cases h
    rfl
  | cons e timed ih =>
    obtain ⟨t, c⟩ := e
    unfold BackfillJob.takeCandles at h
    split at h
    · cases h
    · rename_i f₁ hone
      exact (ih h).trans (takeCandle_pages hone)

theorem KeptOf.fetchFrom {g : Granularity} {oandaName : String} {page : ℕ}
    {fetch : ℕ → ℤ → Option Reply} {cursor : ℤ}
    (h : KeptOf job es f) (hok : job.fetchFrom g oandaName page fetch cursor f = .ok f') :
    KeptOf job (es ++ (job.pagesFrom g oandaName page fetch f.pages cursor).flatten) f' := by
  induction hn : (job.stop - cursor).toNat using Nat.strong_induction_on
    generalizing cursor es f with
  | h n ih =>
    rw [BackfillJob.fetchFrom] at hok
    rw [pagesFrom]
    cases hfetch : fetch f.pages cursor with
    | none => simp [hfetch] at hok
    | some reply =>
      simp only [hfetch] at hok
      rw [Option.map_some]
      cases hread : readReply g oandaName reply with
      | error e => simp [hread] at hok
      | ok candles =>
        simp only [hread] at hok
        unfold readTimes at hok
        dsimp only
        cases htimes : candles.mapM fun c => c.time.map fun t => (t, c) with
        | none => simp [htimes] at hok
        | some timed =>
          simp only [htimes] at hok
          have hsorted : timed.Pairwise fun a b => a.1 < b.1 := by
            by_contra hnot
            rw [if_neg hnot] at hok
            cases hok
          rw [if_pos hsorted] at hok
          dsimp only at hok ⊢
          cases hlast : timed.getLast? with
          | none =>
            simp only [hlast] at hok
            cases hok
            rw [List.flatten_nil, List.append_nil]
            exact h.of_kept rfl
          | some entry =>
            obtain ⟨last, c⟩ := entry
            simp only [hlast] at hok
            split at hok
            · cases hok
            rename_i f₁ htaken
            have hkept : KeptOf job (es ++ timed) f₁ := by
              refine KeptOf.takeCandles ?_ htaken
              exact h.of_kept rfl
            dsimp only
            rw [List.flatten_cons, ← List.append_assoc]
            split_ifs at hok ⊢ with hshort hend hstuck
            · cases hok
              rwa [List.flatten_nil, List.append_nil]
            · cases hok
              rwa [List.flatten_nil, List.append_nil]
            · have hbar := g.bar_pos
              have hpages : f₁.pages = f.pages + 1 := takeCandles_pages htaken
              have hnext := ih (job.stop - last).toNat (by omega) hkept hok rfl
              rwa [hpages] at hnext

def threeBars : BackfillJob := ⟨0, 3 * Granularity.h1.bar, .fetch, 0, none, none, none⟩

def threeCandles : List (ℤ × RawCandle) :=
  ([0, 1, 2].map fun k : ℤ => k * Granularity.h1.bar).map fun t => (t, ⟨some t, true, none, 0⟩)

theorem timed_threeCandles : ∀ e ∈ threeCandles, e.2.time = some e.1 := by decide

theorem increasing_threeCandles : Increasing Prod.fst threeCandles := by
  unfold Increasing
  decide

theorem aligned_threeCandles : ∀ e ∈ threeCandles, e.1 % Granularity.h1.bar = 0 := by decide

theorem complete_threeCandles : ∀ e ∈ threeCandles, e.1 < threeBars.stop → e.2.complete = true := by
  decide

def threeBarHistory : History .h1 threeBars.stop where
  candles := threeCandles
  timed := timed_threeCandles
  increasing := increasing_threeCandles
  aligned := aligned_threeCandles
  complete := complete_threeCandles

end BackfillJob

end Fiboki.Backfill
