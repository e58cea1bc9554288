import Fiboki.Data.BackfillPaging
import Fiboki.Lib.Run

/-!
Runs of plans and jobs over one store, against a venue whose closed candles never change.

Jobs run in any order and any number of times after their plan, other sources write between
them, and a process can die between the two writes of a job.
-/

namespace Fiboki.Backfill

open Runs Timeline

/-- All the candles that the venue ever closes, on the bars of the granularity. -/
structure Venue (g : Granularity) where
  history : List Bar
  increasing : Increasing Bar.time history
  aligned : ∀ b ∈ history, b.time % g.bar = 0

/-- A request fails, or is answered at some time, when a candle may be forming. -/
inductive Request where
  | failed
  | answered (now : ℤ) (forming : Option (Option Prices × ℤ))

def rawOf (b : Bar) : RawCandle := ⟨some b.time, true, some b.prices, b.tickVolume⟩

def timedOf (b : Bar) : ℤ × RawCandle := (b.time, rawOf b)

namespace Venue

variable {g : Granularity} (venue : Venue g)

/-- The candles in `[a, b)`. -/
def between (a b : ℤ) : Frame := slice Bar.time a b venue.history

def closed (a now : ℤ) : List Bar := venue.history.filter fun b => a ≤ b.time ∧ b.time + g.bar ≤ now

def formingFrom (a now : ℤ) (forming : Option (Option Prices × ℤ)) : List RawCandle :=
  match forming with
  | none => []
  | some (mid, volume) =>
    if a ≤ floor now g.bar then [⟨some (floor now g.bar), false, mid, volume⟩] else []

def page (count : ℕ) (a now : ℤ) (forming : Option (Option Prices × ℤ)) : List RawCandle :=
  ((venue.closed a now).map rawOf ++ formingFrom (g := g) a now forming).take count

/-- The answers to the requests of a job that runs at `clock`. -/
def respond (oandaName : String) (count : ℕ) (clock : ℤ) (requests : ℕ → Request) (k : ℕ)
    (a : ℤ) : Option Reply :=
  match requests k with
  | .failed => none
  | .answered now forming =>
    some ⟨some oandaName, some g.name, some (venue.page count a (max clock now) forming)⟩

end Venue

structure BackfillSystem where
  store : Store
  planned : List BackfillJob
  clock : ℤ

inductive BackfillEvent where
  | plan (start stop : Option ℤ) (now : ℤ)
  /-- A planned job runs, with so many candles to a page. -/
  | run (job : ℕ) (page : ℕ) (requests : ℕ → Request) (dies : Bool) (now : ℤ)
  /-- Another source registers a version. -/
  | ingest (version : DatasetVersion) (now : ℤ)

namespace BackfillSystem

def fresh (clock : ℤ) : BackfillSystem := ⟨⟨[]⟩, [], clock⟩

variable {g : Granularity} (venue : Venue g) (oandaName : String)

def runJob (s : BackfillSystem) (job : BackfillJob) (page : ℕ) (requests : ℕ → Request)
    (dies : Bool) (now : ℤ) : Except Refusal BackfillOutcome × Store :=
  job.runOne g oandaName page (venue.respond oandaName page (max s.clock now) requests)
    (max s.clock now) dies s.store

def step (s : BackfillSystem) : BackfillEvent → BackfillSystem
  | .plan start stop now =>
    let clock := max s.clock now
    { s with clock, planned := s.planned ++ [planBackfill g s.store start stop clock] }
  | .run i page requests dies now =>
    match s.planned[i]? with
    | none => s
    | some job =>
      if 2 ≤ page ∧ page ≤ 5000 then
        { s with
          clock := max s.clock now
          store := (s.runJob venue oandaName job page requests dies now).2 }
      else s
  | .ingest version now =>
    if version.isOanda then s
    else
      let clock := max s.clock now
      { s with clock, store := (s.store.register { version with createdAt := clock }).1 }

end BackfillSystem

def Venue.Exact {g : Granularity} (venue : Venue g) (v : DatasetVersion) : Prop :=
  ∃ p, v.backfill = some p ∧ v.frame = venue.between p.requestedFrom p.stop

def Store.newest (s : Store) : Option (DatasetVersion × ℕ) :=
  (s.listVersions fun v => v.kind = .validated && v.isOanda).head?

def Store.Whole (s : Store) : Prop :=
  ∀ w id, s.newest = some (w, id) → ∀ k < id, ∀ v, s.rows[k]? = some v → v.isOanda = true →
    v.frame ⊆ w.frame

def BackfillJob.Reaches (job : BackfillJob) (t : ℤ) : Prop :=
  match job.action with
  | .current => True
  | .validateOnly => job.requestedFrom ≤ t ∧ ∃ last, job.priorLast = some last ∧ t ≤ last
  | _ => job.requestedFrom ≤ t ∧ t < job.stop

def Covers (s : BackfillSystem) : BackfillEvent → Prop
  | .run i _ _ _ _ => ∀ job, s.planned[i]? = some job →
      ∀ v ∈ s.store.rows, v.isOanda = true → ∀ b ∈ v.frame, job.Reaches b.time
  | _ => True

section Page

variable {g : Granularity} {venue : Venue g}

variable {a now : ℤ}

variable {b : Bar}

theorem mem_closed :
    b ∈ venue.closed a now ↔ b ∈ venue.history ∧ a ≤ b.time ∧ b.time + g.bar ≤ now := by
  unfold Venue.closed
  rw [List.mem_filter, decide_eq_true_eq]

theorem increasing_closed (a now : ℤ) : Increasing Bar.time (venue.closed a now) :=
  venue.increasing.sublist List.filter_sublist

theorem rawOf_injective {b b' : Bar} (h : rawOf b = rawOf b') : b = b' := by
  cases b
  cases b'
  simp only [rawOf, RawCandle.mk.injEq, Option.some.injEq, true_and] at h
  obtain ⟨ht, hp, hv⟩ := h
  rw [ht, hp, hv]

variable {forming : Option (Option Prices × ℤ)} {count : ℕ}

variable {c : RawCandle}

theorem of_mem_page (h : c ∈ venue.page count a now forming)
    (hcomplete : c.complete = true) : ∃ b ∈ venue.history, c = rawOf b := by
  have hin := List.mem_of_mem_take h
  rcases List.mem_append.1 hin with hin | hin
  · obtain ⟨b, hb, rfl⟩ := List.mem_map.1 hin
    exact ⟨b, (mem_closed.1 hb).1, rfl⟩
  · unfold Venue.formingFrom at hin
    split at hin
    · cases hin
    · split_ifs at hin
      · rw [List.mem_singleton.1 hin] at hcomplete
        cases hcomplete
      · cases hin

theorem mem_page_of_short (hb : b ∈ venue.closed a now)
    (hshort : (venue.page count a now forming).length < count) :
    rawOf b ∈ venue.page count a now forming := by
  unfold Venue.page at hshort ⊢
  rw [List.length_take] at hshort
  rw [List.take_of_length_le (by omega)]
  exact List.mem_append_left _ (List.mem_map_of_mem hb)

theorem mem_page_of_le {a now last : ℤ} (hb : b ∈ venue.closed a now)
    (hlast : (venue.page count a now forming).getLast? = some c) (htime : c.time = some last)
    (hle : ∀ l ∈ venue.history, l.time = last → b.time ≤ l.time) :
    rawOf b ∈ venue.page count a now forming := by
  unfold Venue.page at hlast ⊢
  rw [List.take_append] at hlast ⊢
  apply List.mem_append_left
  by_cases hcut : count ≤ (venue.closed a now).length
  · rw [List.length_map, Nat.sub_eq_zero_of_le hcut, List.take_zero, List.append_nil,
      ← List.map_take, List.getLast?_map] at hlast
    obtain ⟨l, hl, rfl⟩ := Option.map_eq_some_iff.1 hlast
    have hmem : l ∈ (venue.closed a now).take count := List.mem_of_getLast? hl
    have hhist := (mem_closed.1 (List.mem_of_mem_take hmem)).1
    rw [← List.map_take]
    apply List.mem_map_of_mem
    exact (increasing_closed a now).mem_take hb hmem (hle l hhist (Option.some.inj htime))
  · rw [List.take_of_length_le (by rw [List.length_map]; omega)]
    exact List.mem_map_of_mem hb

end Page

section Window

variable {g : Granularity} {venue : Venue g} {job : BackfillJob}

/-- What was kept so far is of the venue, in the window of the job. -/
structure Keeps (venue : Venue g) (job : BackfillJob) (f : Fetched) (bars : Frame) : Prop where
  kept : f.kept = bars.map timedOf
  increasing : Increasing Bar.time bars
  window : ∀ b ∈ bars, b ∈ venue.history ∧ job.start ≤ b.time ∧ b.time < job.stop

variable {f f' : Fetched} {bars : Frame}

theorem Keeps.of_kept (h : Keeps venue job f bars)
    (hkept : f'.kept = f.kept) : Keeps venue job f' bars :=
  ⟨hkept.trans h.kept, h.increasing, h.window⟩

theorem Keeps.keptOf (h : Keeps venue job f bars) : BackfillJob.KeptOf job f.kept f := by
  have hincreasing : Increasing Prod.fst f.kept := by
    rw [h.kept]
    exact List.pairwise_map.2 h.increasing
  refine ⟨BackfillJob.orderly_of_increasing hincreasing, hincreasing, fun k hk => ⟨hk, ?_⟩,
    fun e he _ => ⟨e, he, rfl, rfl⟩⟩
  rw [h.kept] at hk
  obtain ⟨b, hb, rfl⟩ := List.mem_map.1 hk
  exact ⟨rfl, (h.window b hb).2⟩

theorem timedOf_injective {b b' : Bar} (h : timedOf b = timedOf b') : b = b' :=
  rawOf_injective (Prod.mk.inj h).2

variable {timed : List (ℤ × RawCandle)}

theorem Keeps.takeCandles (h : Keeps venue job f bars)
    (hvenue : ∀ e ∈ timed, e.2.complete = true → ∃ b ∈ venue.history, e = timedOf b)
    (hok : job.takeCandles f timed = .ok f') :
    ∃ bars', Keeps venue job f' bars' ∧ bars ⊆ bars' ∧
      ∀ b ∈ venue.history, timedOf b ∈ timed → job.start ≤ b.time → b.time < job.stop →
        b ∈ bars' := by
  have hkept := h.keptOf.takeCandles hok
  have hbar : ∀ k ∈ f'.kept, ∃ b ∈ venue.history, k = timedOf b := by
    intro k hk
    obtain ⟨hmem, hcounts⟩ := hkept.source k hk
    rcases List.mem_append.1 hmem with hmem | hmem
    · rw [h.kept] at hmem
      obtain ⟨b, hb, rfl⟩ := List.mem_map.1 hmem
      exact ⟨b, (h.window b hb).1, rfl⟩
    · exact hvenue k hmem hcounts.1
  obtain ⟨bars', hbars⟩ : f'.kept ∈ Set.range (List.map timedOf) := by
    rw [Set.range_list_map]
    exact fun k hk => (hbar k hk).imp fun b hb => hb.2.symm
  have hcovers : ∀ b ∈ venue.history, timedOf b ∈ f.kept ++ timed → job.start ≤ b.time →
      b.time < job.stop → b ∈ bars' := by
    intro b hb hmem hstart hstop
    obtain ⟨k, hk, htime, -⟩ := hkept.covers _ hmem ⟨rfl, hstart, hstop⟩
    obtain ⟨b', hb', rfl⟩ := hbar k hk
    rw [← hbars, venue.increasing.unique hb' hb htime] at hk
    obtain ⟨d, hd, heq⟩ := List.mem_map.1 hk
    rwa [← timedOf_injective heq]
  refine ⟨bars', ⟨hbars.symm, ?_, fun b hb => ?_⟩, fun b hb => ?_, fun b hb hmem => ?_⟩
  · have hincreasing := hkept.increasing
    rwa [← hbars, Increasing, List.pairwise_map] at hincreasing
  · have hk : timedOf b ∈ f'.kept := hbars ▸ List.mem_map_of_mem hb
    obtain ⟨b', hb', heq⟩ := hbar _ hk
    exact ⟨timedOf_injective heq ▸ hb', (hkept.source _ hk).2.2⟩
  · obtain ⟨hmem, hstart, hstop⟩ := h.window b hb
    exact hcovers b hmem (List.mem_append_left _ (h.kept ▸ List.mem_map_of_mem hb)) hstart hstop
  · exact hcovers b hb (List.mem_append_right _ hmem)

theorem readTimes_ok {candles : List RawCandle} (h : BackfillJob.readTimes candles = .ok timed) :
    timed.map Prod.snd = candles ∧ ∀ e ∈ timed, e.2.time = some e.1 := by
  unfold BackfillJob.readTimes at h
  split at h
  · cases h
  · rename_i read hread
    split_ifs at h
    cases h
    clear * - hread
    induction candles generalizing timed with
    | nil =>
      cases hread
      exact ⟨rfl, fun e he => absurd he List.not_mem_nil⟩
    | cons c rest ih =>
      rw [List.mapM_cons] at hread
      cases ht : c.time with
      | none => simp [ht] at hread
      | some t =>
        cases hrest : rest.mapM fun c => c.time.map fun t => (t, c) with
        | none => simp [ht, hrest] at hread
        | some tail =>
          simp only [ht, hrest, Option.map_some, Option.bind_eq_bind, Option.bind_some,
            Option.pure_def, Option.some.injEq] at hread
          obtain ⟨hsnd, htimes⟩ := ih hrest
          rw [← hread]
          refine ⟨by rw [List.map_cons, hsnd], fun e he => ?_⟩
          rcases List.mem_cons.1 he with rfl | he
          · exact ht
          · exact htimes e he

def Seen (venue : Venue g) (job : BackfillJob) (bars : Frame) (t : ℤ) : Prop :=
  ∀ b ∈ venue.history, job.start ≤ b.time → b.time < job.stop → b.time < t → b ∈ bars

variable {count : ℕ}

theorem Keeps.page {a now : ℤ} {forming : Option (Option Prices × ℤ)} (h : Keeps venue job f bars)
    (hseen : Seen venue job bars a) (halign : job.stop % g.bar = 0) (hnow : job.stop ≤ now)
    (hread : BackfillJob.readTimes (venue.page count a now forming) = .ok timed)
    (hok : job.takeCandles f timed = .ok f') :
    ∃ bars', Keeps venue job f' bars' ∧
      ((venue.page count a now forming).length < count → Seen venue job bars' job.stop) ∧
      ∀ last c, timed.getLast? = some (last, c) → Seen venue job bars' (last + 1) ∧
          (job.stop ≤ last + g.bar → Seen venue job bars' job.stop) := by
  obtain ⟨hsnd, htimes⟩ := readTimes_ok hread
  have hvenue : ∀ e ∈ timed, e.2.complete = true → ∃ b ∈ venue.history, e = timedOf b := by
    intro e he hcomplete
    have hpage : e.2 ∈ venue.page count a now forming := by
      rw [← hsnd]
      exact List.mem_map_of_mem he
    obtain ⟨b, hb, heq⟩ := of_mem_page hpage hcomplete
    have htime := htimes e he
    rw [heq] at htime
    exact ⟨b, hb, Prod.ext (Option.some.inj htime).symm heq⟩
  obtain ⟨bars', h', hsub, hin⟩ := h.takeCandles hvenue hok
  have hkept : ∀ b ∈ venue.history, job.start ≤ b.time → b.time < job.stop →
      rawOf b ∈ venue.page count a now forming → b ∈ bars' := by
    intro b hb hstart hstop hpage
    rw [← hsnd] at hpage
    obtain ⟨e, he, heq⟩ := List.mem_map.1 hpage
    have htime := htimes e he
    rw [heq] at htime
    have hentry : e = timedOf b := Prod.ext (Option.some.inj htime).symm heq
    rw [hentry] at he
    exact hin b hb he hstart hstop
  have hclosed : ∀ b ∈ venue.history, b.time < job.stop → a ≤ b.time → b ∈ venue.closed a now := by
    intro b hb hstop ha
    have hle := add_bar_le (venue.aligned b hb) halign hstop
    exact mem_closed.2 ⟨hb, ha, hle.trans hnow⟩
  have hall : (∀ b ∈ venue.closed a now, b.time < job.stop →
      rawOf b ∈ venue.page count a now forming) → Seen venue job bars' job.stop := by
    intro hpage b hb hstart hstop _
    rcases lt_or_ge b.time a with hlt | hge
    · exact hsub (hseen b hb hstart hstop hlt)
    · have hin := hclosed b hb hstop hge
      exact hkept b hb hstart hstop (hpage b hin hstop)
  refine ⟨bars', h', fun hshort => hall fun b hb _ => mem_page_of_short hb hshort, ?_⟩
  intro last c hlast
  have hlast' : (venue.page count a now forming).getLast? = some c := by
    rw [← hsnd, List.getLast?_map, hlast]
    rfl
  have htime : c.time = some last := htimes _ (List.mem_of_getLast? hlast)
  refine ⟨?_, fun hend => hall fun b hb hstop => ?_⟩
  · intro b hb hstart hstop hle
    rcases lt_or_ge b.time a with hlt | hge
    · exact hsub (hseen b hb hstart hstop hlt)
    · apply hkept b hb hstart hstop
      apply mem_page_of_le (hclosed b hb hstop hge) hlast' htime
      intro l _ hl
      omega
  · apply mem_page_of_le hb hlast' htime
    intro l hl heq
    by_contra hlt
    have hnext := add_bar_le (venue.aligned l hl) (venue.aligned b (mem_closed.1 hb).1) (by omega)
    omega

variable {requests : ℕ → Request}

variable {oandaName : String} {clock : ℤ}

theorem Keeps.fetchFrom (halign : job.stop % g.bar = 0)
    (hclock : job.stop ≤ clock) {cursor : ℤ}
    (hcount : 0 < count) (h : Keeps venue job f bars)
    (hseen : Seen venue job bars cursor)
    (hok : job.fetchFrom g oandaName count (venue.respond oandaName count clock requests) cursor f =
      .ok f') : ∃ bars', Keeps venue job f' bars' ∧ Seen venue job bars' job.stop := by
  induction hn : (job.stop - cursor).toNat using Nat.strong_induction_on
    generalizing cursor f bars with
  | h n ih =>
    rw [BackfillJob.fetchFrom] at hok
    unfold Venue.respond at hok
    split at hok
    · cases hok
    rename_i reply hreply
    split at hreply
    · cases hreply
    rename_i now forming hrequest
    cases hreply
    have hreply : BackfillJob.readReply g oandaName ⟨some oandaName, some g.name,
        some (venue.page count cursor (max clock now) forming)⟩ =
        .ok (venue.page count cursor (max clock now) forming) := by
      simp [BackfillJob.readReply]
    rw [hreply] at hok
    dsimp only at hok
    split at hok
    · cases hok
    rename_i timed hread
    have hstop : job.stop ≤ max clock now := hclock.trans (le_max_left _ _)
    split at hok
    · -- an empty page ends the history
      rename_i hlast
      cases hok
      have hnil := List.getLast?_eq_none_iff.1 hlast
      have htake : job.takeCandles f timed = .ok f := by rw [hnil]; rfl
      obtain ⟨bars', h', hshort, -⟩ := h.page hseen halign hstop hread htake
      refine ⟨bars', h'.of_kept rfl, hshort ?_⟩
      rw [← (readTimes_ok hread).1, hnil]
      exact hcount
    · rename_i last c hlast
      split at hok
      · cases hok
      rename_i f₁ htake
      have hbase : Keeps venue job { f with
          pages := f.pages + 1
          counters := { f.counters with
            candlesReceived := f.counters.candlesReceived +
              (venue.page count cursor (max clock now) forming).length } } bars := h.of_kept rfl
      obtain ⟨bars', h', hshort, hpage⟩ := hbase.page hseen halign hstop hread htake
      obtain ⟨hnext, hend⟩ := hpage last c hlast
      split_ifs at hok with hlength hwindow hstuck
      · cases hok
        exact ⟨bars', h', hshort hlength⟩
      · cases hok
        exact ⟨bars', h', hend hwindow⟩
      · have hbar := g.bar_pos
        have hseen' : Seen venue job bars' last :=
          fun b hb hstart hstop hlt => hnext b hb hstart hstop (by omega)
        exact ih (job.stop - last).toNat (by omega) h' hseen' hok rfl

theorem fetchWindow_eq {f : Fetched} (hcount : 0 < count)
    (halign : job.stop % g.bar = 0) (hclock : job.stop ≤ clock)
    (hok : job.fetchWindow g oandaName count (venue.respond oandaName count clock requests) =
      .ok f) : f.kept = (venue.between job.start job.stop).map timedOf := by
  have hnone : Keeps venue job Fetched.none [] :=
    ⟨rfl, List.Pairwise.nil, fun b hb => absurd hb List.not_mem_nil⟩
  have hseen : Seen venue job [] job.start := by
    intro b _ hstart _ hlt
    omega
  obtain ⟨bars, h, hall⟩ := Keeps.fetchFrom halign hclock hcount hnone hseen hok
  have heq : bars = venue.between job.start job.stop := by
    apply h.increasing.eq_of_mem_iff (increasing_slice venue.increasing _ _)
    intro b
    rw [mem_slice]
    constructor
    · exact h.window b
    · rintro ⟨hb, hstart, hstop⟩
      exact hall b hb hstart hstop hstop
  rw [h.kept, heq]

theorem frameFromCandles_map (bars : Frame) : frameFromCandles (bars.map timedOf) = .ok bars := by
  induction bars with
  | nil => rfl
  | cons b bars ih =>
    rw [List.map_cons, timedOf]
    simp only [frameFromCandles, ih]
    rfl

end Window

section Invariants

variable {g : Granularity}

def RowOk (venue : Venue g) (clock : ℤ) (v : DatasetVersion) : Prop :=
  ∃ p, v.backfill = some p ∧ v.frame = venue.between p.requestedFrom p.stop ∧ v.frame ≠ [] ∧
    p.stop % g.bar = 0 ∧ p.stop ≤ clock

/-- The prior of a job is there: the job starts after its last bar. -/
structure PriorOk (venue : Venue g) (clock : ℤ) (rows : List DatasetVersion) (job : BackfillJob)
    (v : DatasetVersion) (last : ℤ) : Prop where
  found : (job.priorRawId.bind fun id => rows[id]?) = some v
  oanda : v.isOanda = true
  window : ∃ p, v.backfill = some p ∧ job.requestedFrom = p.requestedFrom
  lastBar : v.lastTimestamp = some last
  priorLast : job.priorLast = some last
  start : job.start = last + g.bar

structure JobOk (venue : Venue g) (clock : ℤ) (rows : List DatasetVersion) (job : BackfillJob) :
    Prop where
  aligned : job.stop % g.bar = 0
  closed : job.stop ≤ clock
  whole : job.action = .fetch ∨ job.action = .refetch → job.requestedFrom = job.start
  resume : job.action = .resume → (∃ v last, PriorOk venue clock rows job v last) ∧
    job.start < job.stop
  validate : job.action = .validateOnly → ∃ v last, PriorOk venue clock rows job v last

variable {venue : Venue g} {clock clock' : ℤ} {rows more : List DatasetVersion} {job : BackfillJob}

variable {v : DatasetVersion}

theorem RowOk.later (h : RowOk venue clock v) (hclock : clock ≤ clock') : RowOk venue clock' v := by
  obtain ⟨p, hp, hframe, hne, halign, hstop⟩ := h
  exact ⟨p, hp, hframe, hne, halign, hstop.trans hclock⟩

variable {last : ℤ}

theorem PriorOk.later (h : PriorOk venue clock rows job v last) :
    PriorOk venue clock' (rows ++ more) job v last := by
  refine ⟨?_, h.oanda, h.window, h.lastBar, h.priorLast, h.start⟩
  obtain ⟨id, hid, hrow⟩ := Option.bind_eq_some_iff.1 h.found
  have hlt : id < rows.length := (List.getElem?_eq_some_iff.1 hrow).1
  rw [hid, Option.bind_some, List.getElem?_append_left hlt]
  exact hrow

theorem JobOk.later (h : JobOk venue clock rows job) (hclock : clock ≤ clock')
    (more : List DatasetVersion) : JobOk venue clock' (rows ++ more) job := by
  refine ⟨h.aligned, h.closed.trans hclock, h.whole, fun hresume => ?_, fun hvalidate => ?_⟩
  · obtain ⟨⟨v, last, hprior⟩, hlt⟩ := h.resume hresume
    exact ⟨⟨v, last, hprior.later⟩, hlt⟩
  · obtain ⟨v, last, hprior⟩ := h.validate hvalidate
    exact ⟨v, last, hprior.later⟩

theorem between_append {a b c : ℤ} {l : Bar} (hlast : (venue.between a c).getLast? = some l)
    (hstop : l.time + g.bar < b) :
    venue.between a c ++ venue.between (l.time + g.bar) b = venue.between a b := by
  have hbar := g.bar_pos
  have hl : l ∈ venue.history ∧ a ≤ l.time ∧ l.time < c := mem_slice.1 (List.mem_of_getLast? hlast)
  have hle : ∀ d ∈ venue.between a c, d.time ≤ l.time := fun d hd =>
    (increasing_slice venue.increasing a c).le_getLast hd hlast
  have hincreasing : Increasing Bar.time
      (venue.between a c ++ venue.between (l.time + g.bar) b) := by
    apply (increasing_slice venue.increasing a c).append (increasing_slice venue.increasing _ b)
    intro d hd d' hd'
    have hd₁ := hle d hd
    have hd₂ := (mem_slice.1 hd').2.1
    omega
  apply hincreasing.eq_of_mem_iff (increasing_slice venue.increasing a b)
  intro d
  rw [List.mem_append, Venue.between, Venue.between, mem_slice, mem_slice, mem_slice]
  constructor
  · rintro (hd | ⟨hd, hstart, hlt⟩)
    · have hd' := hle d (mem_slice.2 hd)
      exact ⟨hd.1, hd.2.1, by omega⟩
    · exact ⟨hd, by omega, hlt⟩
  · rintro ⟨hd, hstart, hlt⟩
    rcases le_or_gt d.time l.time with hbefore | hafter
    · exact .inl ⟨hd, hstart, by omega⟩
    · have hnext := add_bar_le (venue.aligned l hl.1) (venue.aligned d hd) hafter
      exact .inr ⟨hd, hnext, hlt⟩

theorem PriorOk.mem (h : PriorOk venue clock rows job v last) : v ∈ rows := by
  obtain ⟨id, -, hrow⟩ := Option.bind_eq_some_iff.1 h.found
  exact List.mem_of_getElem? hrow

variable {count : ℕ} {frame : Frame}

theorem combine_eq (h : JobOk venue clock rows job)
    (hrows : ∀ v ∈ rows, v.isOanda = true → RowOk venue clock v)
    (haction : job.action ≠ .current ∧ job.action ≠ .validateOnly)
    (hok : job.combine ⟨rows⟩ (venue.between job.start job.stop) = .ok (frame, count)) :
    frame = venue.between job.requestedFrom job.stop := by
  unfold BackfillJob.combine at hok
  by_cases hresume : job.action = .resume
  · rw [if_pos hresume] at hok
    obtain ⟨⟨v, last, hprior⟩, hlt⟩ := h.resume hresume
    rw [show (job.priorRawId.bind fun id => rows[id]?) = some v from hprior.found] at hok
    dsimp only at hok
    split_ifs at hok
    cases hok
    obtain ⟨p, hp, hframe, -⟩ := hrows v hprior.mem hprior.oanda
    obtain ⟨p', hp', hfrom⟩ := hprior.window
    rw [hp] at hp'
    cases hp'
    obtain ⟨l, hl, hltime⟩ := Option.map_eq_some_iff.1 hprior.lastBar
    have hstart := hprior.start
    rw [hframe] at hl ⊢
    rw [hfrom, hstart, ← hltime]
    exact between_append hl (by omega)
  · rw [if_neg hresume] at hok
    cases hok
    have hwhole : job.action = .fetch ∨ job.action = .refetch := by
      cases haction' : job.action with
      | fetch => exact .inl rfl
      | refetch => exact .inr rfl
      | resume => exact absurd haction' hresume
      | current => exact absurd haction' haction.1
      | validateOnly => exact absurd haction' haction.2
    rw [h.whole hwhole]

variable {p : BackfillParameters}

variable {oandaName : String}

theorem prepare_spec {requests : ℕ → Request} (hcount : 0 < count)
    (h : JobOk venue clock rows job)
    (hrows : ∀ v ∈ rows, v.isOanda = true → RowOk venue clock v)
    (haction : job.action ≠ .current ∧ job.action ≠ .validateOnly) {n : ℕ}
    (hok : job.prepare g oandaName count (venue.respond oandaName count clock requests) ⟨rows⟩ =
      .ok (some (frame, n, p))) :
    p.requestedFrom = job.requestedFrom ∧ p.stop = job.stop ∧
      frame = venue.between job.requestedFrom job.stop ∧ frame ≠ [] := by
  unfold BackfillJob.prepare at hok
  split at hok
  · cases hok
  rename_i f hfetch
  have hkept := fetchWindow_eq hcount h.aligned h.closed hfetch
  by_cases hnil : f.kept = []
  · rw [if_pos hnil] at hok
    split_ifs at hok
    cases hok
  rw [if_neg hnil] at hok
  rw [hkept, frameFromCandles_map] at hok
  dsimp only at hok
  split at hok
  · cases hok
  rename_i frame' rowsFromPrior hcombine
  split_ifs at hok
  cases hok
  have heq := combine_eq h hrows haction hcombine
  refine ⟨rfl, rfl, heq, ?_⟩
  rw [hkept, List.map_eq_nil_iff] at hnil
  unfold BackfillJob.combine at hcombine
  by_cases hresume : job.action = .resume
  · rw [if_pos hresume] at hcombine
    split at hcombine
    · cases hcombine
    split_ifs at hcombine
    cases hcombine
    exact List.append_ne_nil_of_right_ne_nil _ hnil
  · rw [if_neg hresume] at hcombine
    cases hcombine
    exact hnil

theorem register_cases (s : Store) (v : DatasetVersion) :
    (s.register v).1 = s ∨ (s.register v).1 = ⟨s.rows ++ [v]⟩ := by
  unfold Store.register
  split
  · exact .inl rfl
  · exact .inr rfl

variable {raw : DatasetVersion}

theorem backfill_validatedOf (rawId : ℕ) (now : ℤ)
    (h : raw.backfill = some p) : (validatedOf rawId raw now).backfill = some p := by
  unfold DatasetVersion.backfill validatedOf
  rw [List.findSome?_append]
  unfold DatasetVersion.backfill at h
  rw [h]
  rfl

/-- Versions that a job may add: of one content, with all the candles that the job reaches. -/
structure Added (venue : Venue g) (clock : ℤ) (job : BackfillJob) (frame : Frame)
    (v : DatasetVersion) : Prop where
  content : v.frame = frame
  oanda : v.isOanda = true
  ok : RowOk venue clock v
  reaches : ∀ b ∈ venue.history, job.Reaches b.time → b ∈ frame

theorem Added.validated (h : Added venue clock job frame raw) (rawId : ℕ) (now : ℤ) :
    Added venue clock job frame (validatedOf rawId raw now) := by
  obtain ⟨p, hp, hok⟩ := h.ok
  exact ⟨h.content, h.oanda, ⟨p, backfill_validatedOf rawId now hp, hok⟩, h.reaches⟩

theorem added_prior (h : JobOk venue clock rows job)
    (hrows : ∀ v ∈ rows, v.isOanda = true → RowOk venue clock v)
    (haction : job.action = .validateOnly) {id : ℕ}
    (hfound : (job.priorRawId.bind fun id => rows[id]?.map fun v => (id, v)) = some (id, raw)) :
    Added venue clock job raw.frame raw := by
  obtain ⟨v, last, hprior⟩ := h.validate haction
  obtain ⟨id', hid, hrow⟩ := Option.bind_eq_some_iff.1 hprior.found
  rw [hid, Option.bind_some, hrow] at hfound
  cases hfound
  obtain ⟨p, hp, hframe, hok⟩ := hrows _ hprior.mem hprior.oanda
  refine ⟨rfl, hprior.oanda, ⟨p, hp, hframe, hok⟩, fun b hb hreaches => ?_⟩
  obtain ⟨p', hp', hfrom⟩ := hprior.window
  rw [hp] at hp'
  cases hp'
  unfold BackfillJob.Reaches at hreaches
  rw [haction] at hreaches
  obtain ⟨hstart, last', hlast', hle⟩ := hreaches
  rw [hprior.priorLast] at hlast'
  cases hlast'
  obtain ⟨l, hl, hltime⟩ := Option.map_eq_some_iff.1 hprior.lastBar
  have hmem := List.mem_of_getLast? hl
  rw [hframe] at hmem ⊢
  have hlt := (mem_slice.1 hmem).2.2
  exact mem_slice.2 ⟨hb, by omega, by omega⟩

theorem runOne_adds (oandaName : String) (requests : ℕ → Request) (dies : Bool) (hcount : 0 < count)
    (h : JobOk venue clock rows job)
    (hrows : ∀ v ∈ rows, v.isOanda = true → RowOk venue clock v) :
    ∃ added frame, (job.runOne g oandaName count
        (venue.respond oandaName count clock requests) clock dies ⟨rows⟩).2.rows =
      rows ++ added ∧ ∀ v ∈ added, Added venue clock job frame v := by
  have hnothing : ∃ added frame, rows = rows ++ added ∧
      ∀ v ∈ added, Added venue clock job frame v :=
    ⟨[], [], (List.append_nil rows).symm, fun v hv => absurd hv List.not_mem_nil⟩
  have hregister : ∀ (base : List DatasetVersion) (v : DatasetVersion) (frame : Frame),
      (∀ u ∈ base, Added venue clock job frame u) → Added venue clock job frame v →
      ∃ added, ((⟨rows ++ base⟩ : Store).register v).1.rows = rows ++ added ∧
        ∀ u ∈ added, Added venue clock job frame u := by
    intro base v frame hbase hv
    rcases register_cases ⟨rows ++ base⟩ v with hsame | hadded
    · rw [hsame]
      exact ⟨base, rfl, hbase⟩
    · rw [hadded]
      refine ⟨base ++ [v], List.append_assoc _ _ _, fun u hu => ?_⟩
      rcases List.mem_append.1 hu with hu | hu
      · exact hbase u hu
      · rwa [List.mem_singleton.1 hu]
  unfold BackfillJob.runOne
  split
  · exact hnothing
  · rename_i haction
    split
    · exact hnothing
    · rename_i id raw hfound
      have hraw := added_prior h hrows haction hfound
      obtain ⟨added, hadded, hall⟩ := hregister [] _ raw.frame
        (fun u hu => absurd hu List.not_mem_nil) (hraw.validated id clock)
      rw [List.append_nil] at hadded
      exact ⟨added, raw.frame, hadded, hall⟩
  · rename_i hcurrent hvalidate
    split
    · exact hnothing
    · exact hnothing
    · rename_i frame newBars p hprepare
      obtain ⟨hfrom, hstop, hframe, hne⟩ :=
        prepare_spec hcount h hrows ⟨hcurrent, hvalidate⟩ hprepare
      have hraw : Added venue clock job frame
          ⟨frame, [.oandaV20CandlesBackfill p], .raw, oandaBackfillSource, [], clock⟩ := by
        refine ⟨rfl, rfl, ⟨p, rfl, ?_, hne, ?_, ?_⟩, fun b hb hreaches => ?_⟩
        · rw [hfrom, hstop]
          exact hframe
        · rw [hstop]
          exact h.aligned
        · rw [hstop]
          exact h.closed
        · unfold BackfillJob.Reaches at hreaches
          split at hreaches
          · exact absurd ‹_› hcurrent
          · exact absurd ‹_› hvalidate
          · rw [hframe]
            exact mem_slice.2 ⟨hb, hreaches⟩
      obtain ⟨added, hadded, hall⟩ := hregister [] _ frame
        (fun u hu => absurd hu List.not_mem_nil) hraw
      rw [List.append_nil] at hadded
      dsimp only
      split_ifs
      · exact ⟨added, frame, hadded, hall⟩
      · obtain ⟨added', hadded', hall'⟩ := hregister added _ frame hall (hraw.validated _ clock)
        rw [← hadded] at hadded'
        exact ⟨added', frame, hadded', hall'⟩

theorem floor_emod (t : ℤ) : floor t g.bar % g.bar = 0 := by
  unfold floor
  rw [Int.sub_emod, Int.emod_emod_of_dvd t (dvd_refl g.bar), sub_self, Int.zero_emod]

theorem floor_le (t : ℤ) : floor t g.bar ≤ t := by
  have hnonneg := Int.emod_nonneg t g.bar_pos.ne'
  unfold floor
  omega

theorem windowEnd_spec (stop : Option ℤ) (now : ℤ) :
    stop.elim (floor now g.bar) (fun stop => min (floor stop g.bar) (floor now g.bar)) % g.bar = 0 ∧
      stop.elim (floor now g.bar) (fun stop => min (floor stop g.bar) (floor now g.bar)) ≤ now := by
  cases stop with
  | none => exact ⟨floor_emod now, floor_le now⟩
  | some stop =>
    refine ⟨?_, (min_le_right _ _).trans (floor_le now)⟩
    rcases min_choice (floor stop g.bar) (floor now g.bar) with heq | heq
    · exact (congrArg (· % g.bar) heq).trans (floor_emod stop)
    · exact (congrArg (· % g.bar) heq).trans (floor_emod now)

theorem mem_listVersions {s : Store} {p : DatasetVersion → Bool} {id : ℕ} :
    (v, id) ∈ s.listVersions p ↔ s.rows[id]? = some v ∧ p v = true := by
  unfold Store.listVersions StableSort.sortBy
  rw [List.mem_insertionSort, List.mem_filter, List.mem_zipIdx_iff_getElem?]

theorem pickPrior_spec {found : List (DatasetVersion × ℕ)} {r : DatasetVersion × ℕ}
    (h : pickPrior found = some (r, last)) : r ∈ found ∧ r.1.lastTimestamp = some last := by
  induction found generalizing r last with
  | nil => cases h
  | cons a rest ih =>
    unfold pickPrior at h
    split at h
    · obtain ⟨hin, hlast⟩ := ih h
      exact ⟨List.mem_cons_of_mem _ hin, hlast⟩
    · rename_i hlast _
      cases h
      exact ⟨List.mem_cons_self, hlast⟩
    · rename_i hlast hbest
      split_ifs at h
      · cases h
        obtain ⟨hin, hlast'⟩ := ih hbest
        exact ⟨List.mem_cons_of_mem _ hin, hlast'⟩
      · cases h
        exact ⟨List.mem_cons_self, hlast⟩

theorem jobOk_plan (start stop : Option ℤ) :
    JobOk venue clock rows (planBackfill g ⟨rows⟩ start stop clock) := by
  obtain ⟨haligned, hclosed⟩ := windowEnd_spec (g := g) stop clock
  unfold planBackfill
  dsimp only
  split
  · exact ⟨haligned, hclosed, fun _ => rfl, by rintro ⟨⟩, by rintro ⟨⟩⟩
  rename_i prior last hprior
  obtain ⟨hmem, hlast⟩ := pickPrior_spec hprior
  obtain ⟨hrow, hkind⟩ := mem_listVersions.1 hmem
  rw [Bool.and_eq_true] at hkind
  split
  · exact ⟨haligned, hclosed, fun _ => rfl, by rintro ⟨⟩, by rintro ⟨⟩⟩
  rename_i priorFrom hfrom
  obtain ⟨p, hp, rfl⟩ := Option.map_eq_some_iff.1 hfrom
  have hok : ∀ job : BackfillJob, job.priorRawId = some prior.2 → job.priorLast = some last →
      job.start = last + g.bar → job.requestedFrom = p.requestedFrom →
      ∃ v last, PriorOk venue clock rows job v last := by
    intro job hid hpriorLast hstart hrequested
    refine ⟨prior.1, last, ?_, hkind.2, ⟨p, hp, hrequested⟩, hlast, hpriorLast, hstart⟩
    rw [hid]
    exact hrow
  split_ifs with hearlier hcurrent hchild
  · exact ⟨haligned, hclosed, fun _ => rfl, by rintro ⟨⟩, by rintro ⟨⟩⟩
  · exact ⟨haligned, hclosed, by rintro (⟨⟨⟩⟩ | ⟨⟨⟩⟩), by rintro ⟨⟩, by rintro ⟨⟩⟩
  · refine ⟨haligned, hclosed, by rintro (⟨⟨⟩⟩ | ⟨⟨⟩⟩), by rintro ⟨⟩, fun _ => ?_⟩
    exact hok _ rfl rfl rfl rfl
  · refine ⟨haligned, hclosed, by rintro (⟨⟨⟩⟩ | ⟨⟨⟩⟩), fun _ => ⟨?_, not_le.1 hcurrent⟩,
      by rintro ⟨⟩⟩
    exact hok _ rfl rfl rfl rfl

theorem store_of_refused {fetch : ℕ → ℤ → Option Reply} {now : ℤ} {dies : Bool}
    {s s' : Store} {e : Refusal}
    (h : job.runOne g oandaName count fetch now dies s = (.error e, s')) : s' = s := by
  unfold BackfillJob.runOne at h
  split at h
  · cases h
  · split at h
    · exact (Prod.mk.inj h).2.symm
    · cases (Prod.mk.inj h).1
  · split at h
    · exact (Prod.mk.inj h).2.symm
    · cases (Prod.mk.inj h).1
    · dsimp only at h
      split_ifs at h
      · cases (Prod.mk.inj h).1
      · cases (Prod.mk.inj h).1

end Invariants

namespace BackfillSystem

variable {g : Granularity} {venue : Venue g} {s : BackfillSystem}

structure Inv (venue : Venue g) (s : BackfillSystem) : Prop where
  rows : ∀ v ∈ s.store.rows, v.isOanda = true → RowOk venue s.clock v
  jobs : ∀ job ∈ s.planned, JobOk venue s.clock s.store.rows job

def Nested (rows : List DatasetVersion) : Prop :=
  rows.Pairwise fun v w => v.isOanda = true → w.isOanda = true → v.frame ⊆ w.frame

theorem Inv.add (h : s.Inv venue) {clock : ℤ} (hclock : s.clock ≤ clock)
    (added : List DatasetVersion) (hadded : ∀ v ∈ added, v.isOanda = true → RowOk venue clock v)
    (planned : List BackfillJob) (hplanned : ∀ job ∈ planned, job ∈ s.planned ∨
      JobOk venue clock (s.store.rows ++ added) job) :
    Inv venue ⟨⟨s.store.rows ++ added⟩, planned, clock⟩ where
  rows v hv hoanda := by
    rcases List.mem_append.1 hv with hv | hv
    · exact (h.rows v hv hoanda).later hclock
    · exact hadded v hv hoanda
  jobs job hjob := by
    rcases hplanned job hjob with hold | hnew
    · exact (h.jobs job hold).later hclock added
    · exact hnew

theorem Inv.subset_history (h : s.Inv venue) {v : DatasetVersion} (hv : v ∈ s.store.rows)
    (hoanda : v.isOanda = true) : v.frame ⊆ venue.history := by
  obtain ⟨p, -, hframe, -⟩ := h.rows v hv hoanda
  rw [hframe]
  exact fun b hb => (mem_slice.1 hb).1

/-- What an event adds to the rows, `job` being the job that it runs. -/
def Adds (venue : Venue g) (s s' : BackfillSystem) (e : BackfillEvent) : Prop :=
  s'.Inv venue ∧ (Covers s e → Nested s.store.rows → Nested s'.store.rows)

theorem Inv.plan (h : s.Inv venue) (oandaName : String) (start stop : Option ℤ) (now : ℤ) :
    Adds venue s (s.step venue oandaName (.plan start stop now)) (.plan start stop now) := by
  refine ⟨?_, fun _ hnested => hnested⟩
  have hadd := h.add (le_max_left s.clock now) [] (fun v hv => absurd hv List.not_mem_nil)
    (s.planned ++ [planBackfill g s.store start stop (max s.clock now)]) ?_
  · rw [List.append_nil] at hadd
    exact hadd
  · intro job hjob
    rcases List.mem_append.1 hjob with hjob | hjob
    · exact .inl hjob
    · right
      rw [List.mem_singleton.1 hjob, List.append_nil]
      exact jobOk_plan start stop

theorem Inv.run (h : s.Inv venue) (oandaName : String) (i page : ℕ) (requests : ℕ → Request)
    (dies : Bool) (now : ℤ) :
    Adds venue s (s.step venue oandaName (.run i page requests dies now))
      (.run i page requests dies now) := by
  unfold step
  dsimp only
  split
  · exact ⟨h, fun _ hnested => hnested⟩
  rename_i job hjob
  split_ifs with hpage
  · have hclock : s.clock ≤ max s.clock now := le_max_left _ _
    have hjobOk := (h.jobs job (List.mem_of_getElem? hjob)).later hclock []
    rw [List.append_nil] at hjobOk
    obtain ⟨added, frame, hadded, hall⟩ := runOne_adds oandaName requests dies
      (show 0 < page by omega) hjobOk fun v hv hoanda => (h.rows v hv hoanda).later hclock
    have hstore : (s.runJob venue oandaName job page requests dies now).2 =
        ⟨s.store.rows ++ added⟩ := congrArg Store.mk hadded
    rw [hstore]
    refine ⟨h.add hclock added (fun v hv _ => (hall v hv).ok) s.planned fun job hjob => .inl hjob,
      fun hcovers hnested => List.pairwise_append.2 ⟨hnested, ?_, ?_⟩⟩
    · apply List.pairwise_of_forall_mem_list
      intro v hv w hw _ _
      rw [(hall v hv).content, (hall w hw).content]
      exact List.Subset.refl _
    · intro v hv w hw hoanda _ b hb
      have hreaches := hcovers job hjob v hv hoanda b hb
      rw [(hall w hw).content]
      exact (hall w hw).reaches b (h.subset_history hv hoanda hb) hreaches
  · exact ⟨h, fun _ hnested => hnested⟩

theorem Inv.ingest (h : s.Inv venue) (oandaName : String) (version : DatasetVersion)
    (now : ℤ) : Adds venue s (s.step venue oandaName (.ingest version now))
    (.ingest version now) := by
  unfold step
  dsimp only
  split_ifs with hoanda
  · exact ⟨h, fun _ hnested => hnested⟩
  · have hclock : s.clock ≤ max s.clock now := le_max_left _ _
    have hforeign : ∀ v ∈ [{ version with createdAt := max s.clock now }],
        v.isOanda = true → RowOk venue (max s.clock now) v := by
      intro v hv hv'
      rw [List.mem_singleton.1 hv] at hv'
      exact absurd hv' hoanda
    rcases register_cases s.store { version with createdAt := max s.clock now } with hsame | hadded
    · rw [hsame]
      have hadd := h.add hclock [] (fun v hv => absurd hv List.not_mem_nil) s.planned
        fun job hjob => .inl hjob
      rw [List.append_nil] at hadd
      exact ⟨hadd, fun _ hnested => hnested⟩
    · rw [hadded]
      refine ⟨h.add hclock _ hforeign s.planned fun job hjob => .inl hjob, fun _ hnested => ?_⟩
      apply List.pairwise_append.2
      refine ⟨hnested, List.pairwise_singleton _ _, fun v _ w hw _ hw' => ?_⟩
      rw [List.mem_singleton.1 hw] at hw'
      exact absurd hw' hoanda

theorem inv_exec (venue : Venue g) (oandaName : String) (clock : ℤ) (events : List BackfillEvent) :
    (exec (step venue oandaName) (fresh clock) events).Inv venue := by
  apply exec_invariant
  · intro s e h
    cases e with
    | plan start stop now => exact (h.plan oandaName start stop now).1
    | run i page requests dies now => exact (h.run oandaName i page requests dies now).1
    | ingest version now => exact (h.ingest oandaName version now).1
  · exact ⟨fun v hv => absurd hv List.not_mem_nil, fun job hjob => absurd hjob List.not_mem_nil⟩

theorem nested_exec (venue : Venue g) (oandaName : String) (clock : ℤ) {events : List BackfillEvent}
    (h : Along Covers (step venue oandaName) (fresh clock) events) :
    Nested (exec (step venue oandaName) (fresh clock) events).store.rows := by
  have hinv : (exec (step venue oandaName) (fresh clock) events).Inv venue ∧
      Nested (exec (step venue oandaName) (fresh clock) events).store.rows := by
    apply Along.invariant (I := fun s => s.Inv venue ∧ Nested s.store.rows) _ _ h
    · rintro s e ⟨hs, hnested⟩ hcovers
      cases e with
      | plan start stop now =>
        have hadds := hs.plan oandaName start stop now
        exact ⟨hadds.1, hadds.2 hcovers hnested⟩
      | run i page requests dies now =>
        have hadds := hs.run oandaName i page requests dies now
        exact ⟨hadds.1, hadds.2 hcovers hnested⟩
      | ingest version now =>
        have hadds := hs.ingest oandaName version now
        exact ⟨hadds.1, hadds.2 hcovers hnested⟩
    · exact ⟨inv_exec venue oandaName clock [], List.Pairwise.nil⟩
  exact hinv.2

theorem whole_of_nested {s : Store} (h : Nested s.rows) : s.Whole := by
  intro w id hnewest k hk v hv hoanda
  obtain ⟨hrow, hkind⟩ := mem_listVersions.1 (List.mem_of_head? hnewest)
  rw [Bool.and_eq_true] at hkind
  obtain ⟨hid, rfl⟩ := List.getElem?_eq_some_iff.1 hrow
  obtain ⟨hk', rfl⟩ := List.getElem?_eq_some_iff.1 hv
  exact List.pairwise_iff_getElem.1 h k id hk' hid hk hoanda hkind.2

/-- What research reads never shrinks where every job reaches what is there; every version is
exact, and a refused job changes nothing, in every run. -/
theorem never_shrinks (venue : Venue g) (oandaName : String) (clock : ℤ)
    (events : List BackfillEvent) :
    (Along Covers (step venue oandaName) (fresh clock) events →
        (exec (step venue oandaName) (fresh clock) events).store.Whole) ∧
      (∀ v ∈ (exec (step venue oandaName) (fresh clock) events).store.rows,
        v.isOanda = true → venue.Exact v) ∧
      ∀ job page requests dies now e s',
        (exec (step venue oandaName) (fresh clock) events).runJob venue oandaName job page requests
            dies now = (.error e, s') →
          s' = (exec (step venue oandaName) (fresh clock) events).store := by
  refine ⟨fun h => whole_of_nested (nested_exec venue oandaName clock h), ?_, ?_⟩
  · intro v hv hoanda
    obtain ⟨p, hp, hframe, -⟩ := (inv_exec venue oandaName clock events).rows v hv hoanda
    exact ⟨p, hp, hframe⟩
  · intro job page requests dies now e s' hrefused
    exact store_of_refused hrefused

def hour : ℤ := 3600 * 10 ^ 9

def hourBar (k : ℕ) : Bar := ⟨k * hour, ⟨1, 1, 1, 1⟩, 1⟩

def sixHours : Venue .h1 where
  history := (List.range 6).map hourBar
  increasing := by
    unfold Increasing
    decide
  aligned := by decide

def answers : ℕ → Request := fun _ => .answered (6 * hour) none

def shortRefetch : List BackfillEvent :=
  [.plan (some (2 * hour)) none (6 * hour), .run 0 5000 answers false (6 * hour),
    .plan (some 0) (some (3 * hour)) (7 * hour), .run 1 5000 answers false (7 * hour)]

def firstJob : BackfillJob := ⟨2 * hour, 6 * hour, .fetch, 2 * hour, none, none, none⟩

def secondJob : BackfillJob := ⟨0, 3 * hour, .refetch, 0, some 0, some (5 * hour), none⟩

theorem fetch_first : firstJob.fetchWindow .h1 "EUR_USD" 5000
    (sixHours.respond "EUR_USD" 5000 (6 * hour) answers) =
      .ok ⟨[2, 3, 4, 5].map fun k => timedOf (hourBar k), ⟨4, 0, 0, 0⟩, 1⟩ := by
  unfold BackfillJob.fetchWindow
  rw [BackfillJob.fetchFrom]
  rfl

theorem fetch_second : secondJob.fetchWindow .h1 "EUR_USD" 5000
    (sixHours.respond "EUR_USD" 5000 (7 * hour) answers) =
      .ok ⟨[0, 1, 2].map fun k => timedOf (hourBar k), ⟨6, 0, 0, 3⟩, 1⟩ := by
  unfold BackfillJob.fetchWindow
  rw [BackfillJob.fetchFrom]
  rfl

def firstRaw : DatasetVersion where
  frame := [2, 3, 4, 5].map hourBar
  lineage := [.oandaV20CandlesBackfill
    ⟨5000, 2 * hour, 6 * hour, 2 * hour, 1, ⟨4, 0, 0, 0⟩, none, 0⟩]
  kind := .raw
  source := oandaBackfillSource
  parentIds := []
  createdAt := 6 * hour

def secondRaw : DatasetVersion where
  frame := [0, 1, 2].map hourBar
  lineage := [.oandaV20CandlesBackfill ⟨5000, 0, 3 * hour, 0, 1, ⟨6, 0, 0, 3⟩, none, 0⟩]
  kind := .raw
  source := oandaBackfillSource
  parentIds := []
  createdAt := 7 * hour

def firstStore : Store := ⟨[firstRaw, validatedOf 0 firstRaw (6 * hour)]⟩

def secondStore : Store := ⟨firstStore.rows ++ [secondRaw, validatedOf 2 secondRaw (7 * hour)]⟩

theorem run_first : (BackfillJob.runOne firstJob .h1 "EUR_USD" 5000
    (sixHours.respond "EUR_USD" 5000 (6 * hour) answers) (6 * hour) false ⟨[]⟩).2 =
      firstStore := by
  unfold BackfillJob.runOne BackfillJob.prepare
  rw [fetch_first]
  rfl

theorem run_second : (BackfillJob.runOne secondJob .h1 "EUR_USD" 5000
    (sixHours.respond "EUR_USD" 5000 (7 * hour) answers) (7 * hour) false firstStore).2 =
      secondStore := by
  unfold BackfillJob.runOne BackfillJob.prepare
  rw [fetch_second]
  rfl

theorem exec_first : exec (step sixHours "EUR_USD") (fresh 0)
    [.plan (some (2 * hour)) none (6 * hour), .run 0 5000 answers false (6 * hour)] =
      ⟨firstStore, [firstJob], 6 * hour⟩ :=
  congrArg (fun store => (⟨store, [firstJob], 6 * hour⟩ : BackfillSystem)) run_first

theorem exec_second : exec (step sixHours "EUR_USD") ⟨firstStore, [firstJob], 6 * hour⟩
    [.plan (some 0) (some (3 * hour)) (7 * hour), .run 1 5000 answers false (7 * hour)] =
      ⟨secondStore, [firstJob, secondJob], 7 * hour⟩ :=
  congrArg (fun store => (⟨store, [firstJob, secondJob], 7 * hour⟩ : BackfillSystem)) run_second

/-- The same window planned again an hour later: the second job resumes from the last bar. -/
def resumed : List BackfillEvent :=
  [.plan (some (2 * hour)) none (6 * hour), .run 0 5000 answers false (6 * hour)] ++
    [.plan (some (2 * hour)) none (7 * hour), .run 1 5000 answers false (7 * hour)]

theorem whole_resumed : (exec (step sixHours "EUR_USD") (fresh 0) resumed).store.Whole := by
  refine (never_shrinks sixHours "EUR_USD" 0 resumed).1 ((along_append _ _ _).2 ⟨?_, ?_⟩)
  · exact ⟨trivial, fun job _ v hv => absurd hv List.not_mem_nil, trivial⟩
  rw [exec_first]
  refine ⟨trivial, fun job hjob v hv _ b hb => ?_, trivial⟩
  have hresumes : job = ⟨6 * hour, 7 * hour, .resume, 2 * hour, some 0, some (5 * hour), none⟩ :=
    (Option.some.inj hjob).symm
  have hwindow : ∀ v ∈ firstStore.rows, ∀ b ∈ v.frame, 2 * hour ≤ b.time ∧ b.time < 7 * hour := by
    decide
  rw [hresumes]
  exact hwindow v hv b hb

/-- The refetch of an earlier window is the newest version, and lacks the bars after it. -/
theorem short_refetch_shrinks :
    ¬ (exec (step sixHours "EUR_USD") (fresh 0) shortRefetch).store.Whole := by
  have hexec : exec (step sixHours "EUR_USD") (fresh 0) shortRefetch =
      ⟨secondStore, [firstJob, secondJob], 7 * hour⟩ := by
    unfold shortRefetch
    rw [← exec_second, ← exec_first]
    rfl
  rw [hexec]
  intro h
  have hnewest : secondStore.newest = some (validatedOf 2 secondRaw (7 * hour), 3) := by
    decide
  have hsub := h _ 3 hnewest 0 (by omega) firstRaw rfl rfl
  have hfive : hourBar 5 ∈ (validatedOf 2 secondRaw (7 * hour)).frame := by
    apply hsub
    decide
  exact absurd hfive (by decide)

end BackfillSystem

end Fiboki.Backfill
