import Fiboki.Core.Text
import Fiboki.Lib.StableSort
import Fiboki.Lib.Timeline

/-!
The candle backfill of one instrument and granularity: the catalogue of dataset versions, the
plan of a job, the paging over the venue's candles and the run of a job.

Instants are nanoseconds of the UTC clock.  A version id is the number of the catalogue row: a
version is registered again exactly where its content and its lineage are those of a row.
-/

namespace Fiboki.Backfill

inductive Granularity where
  | h1
  | h4
  | d

namespace Granularity

def name : Granularity → String
  | h1 => "H1"
  | h4 => "H4"
  | d => "D"

def minutes : Granularity → ℤ
  | h1 => 60
  | h4 => 240
  | d => 1440

def bar (g : Granularity) : ℤ := g.minutes * (60 * 10 ^ 9)

theorem bar_pos (g : Granularity) : 0 < g.bar := by
  cases g <;> decide

end Granularity

def floor (t bar : ℤ) : ℤ := t - t % bar

theorem add_bar_le {g : Granularity} {a b : ℤ} (ha : a % g.bar = 0) (hb : b % g.bar = 0)
    (hlt : a < b) : a + g.bar ≤ b := by
  have hdvd : g.bar ∣ b - a := Int.dvd_sub (Int.dvd_of_emod_eq_zero hb) (Int.dvd_of_emod_eq_zero ha)
  have hle := Int.le_of_dvd (by omega) hdvd
  omega

structure Prices where
  o : ℚ
  h : ℚ
  l : ℚ
  c : ℚ
  deriving DecidableEq

/-- A candle of a response.  The time is missing where it does not parse. -/
structure RawCandle where
  time : Option ℤ
  complete : Bool
  mid : Option Prices
  volume : ℤ
  deriving DecidableEq

def fingerprint (c : RawCandle) : Option Prices × ℤ := (c.mid, c.volume)

structure Reply where
  instrument : Option String
  granularity : Option String
  candles : Option (List RawCandle)

structure Bar where
  time : ℤ
  prices : Prices
  tickVolume : ℤ
  deriving DecidableEq

abbrev Frame := List Bar

structure Counters where
  candlesReceived : ℕ
  incompleteDropped : ℕ
  duplicatesDropped : ℕ
  outsideWindow : ℕ
  deriving DecidableEq

structure BackfillParameters where
  page : ℕ
  start : ℤ
  stop : ℤ
  requestedFrom : ℤ
  pageCount : ℕ
  counters : Counters
  extendsVersion : Option ℕ
  rowsFromPrior : ℕ
  deriving DecidableEq

inductive TransformationStep where
  | oandaV20CandlesBackfill (parameters : BackfillParameters)
  | validate (input : ℕ)
  | other (operation : String)
  deriving DecidableEq

inductive DatasetKind where
  | raw
  | validated
  | repaired
  | resampled
  | feature
  deriving DecidableEq

structure DatasetVersion where
  frame : Frame
  lineage : List TransformationStep
  kind : DatasetKind
  source : String
  parentIds : List ℕ
  createdAt : ℤ
  deriving DecidableEq

def oandaBackfillSource : String := "oanda_practice"

namespace DatasetVersion

def isOanda (v : DatasetVersion) : Bool := v.source = oandaBackfillSource

def lastTimestamp (v : DatasetVersion) : Option ℤ := v.frame.getLast?.map Bar.time

def backfill (v : DatasetVersion) : Option BackfillParameters :=
  v.lineage.findSome? fun
    | .oandaV20CandlesBackfill p => some p
    | _ => none

end DatasetVersion

/-- The versions of one instrument and timeframe, in the order they were registered. -/
structure Store where
  rows : List DatasetVersion

namespace Store

def register (s : Store) (v : DatasetVersion) : Store × ℕ :=
  match s.rows.findIdx? fun r => r.frame = v.frame && r.lineage = v.lineage with
  | some id => (s, id)
  | none => (⟨s.rows ++ [v]⟩, s.rows.length)

def listVersions (s : Store) (p : DatasetVersion → Bool) : List (DatasetVersion × ℕ) :=
  StableSort.sortBy (fun r => -r.1.createdAt) (s.rows.zipIdx.filter fun r => p r.1)

def latest (s : Store) (kind : DatasetKind) : Option (DatasetVersion × ℕ) :=
  (s.listVersions fun v => v.kind = kind).head?

def hasValidatedChild (s : Store) (id : ℕ) : Bool :=
  s.rows.any fun v => v.kind = .validated && id ∈ v.parentIds

end Store

inductive JobAction where
  | fetch
  | resume
  | refetch
  | current
  | validateOnly
  deriving DecidableEq

/-- A window, `stop` exclusive. -/
structure BackfillJob where
  start : ℤ
  stop : ℤ
  action : JobAction
  requestedFrom : ℤ
  priorRawId : Option ℕ
  priorLast : Option ℤ
  /-- The version of another source that research reads now. -/
  shadows : Option ℕ

/-- `2005-01-01T00:00:00Z`. -/
def defaultStart : ℤ := 1104537600 * 10 ^ 9

def pickPrior : List (DatasetVersion × ℕ) → Option ((DatasetVersion × ℕ) × ℤ)
  | [] => none
  | r :: rest =>
    match r.1.lastTimestamp, pickPrior rest with
    | none, best => best
    | some last, none => some (r, last)
    | some last, some (b, bLast) =>
      if last < bLast ∨ (last = bLast ∧ r.1.createdAt < b.1.createdAt) then some (b, bLast)
      else some (r, last)

def planBackfill (g : Granularity) (s : Store) (start stop : Option ℤ) (now : ℤ) : BackfillJob :=
  let requested := start.getD defaultStart
  let cap := floor now g.bar
  let windowEnd := stop.elim cap fun stop => min (floor stop g.bar) cap
  let shadows := (s.latest .validated).bind fun r => if r.1.isOanda then none else some r.2
  match pickPrior (s.listVersions fun v => v.kind = .raw && v.isOanda) with
  | none => ⟨requested, windowEnd, .fetch, requested, none, none, shadows⟩
  | some (prior, last) =>
    match prior.1.backfill.map BackfillParameters.requestedFrom with
    | none => ⟨requested, windowEnd, .refetch, requested, some prior.2, some last, shadows⟩
    | some priorFrom =>
      if requested < priorFrom then
        ⟨requested, windowEnd, .refetch, requested, some prior.2, some last, shadows⟩
      else if windowEnd ≤ last + g.bar then
        let action := if s.hasValidatedChild prior.2 then .current else .validateOnly
        ⟨last + g.bar, windowEnd, action, priorFrom, some prior.2, some last, shadows⟩
      else ⟨last + g.bar, windowEnd, .resume, priorFrom, some prior.2, some last, shadows⟩

inductive Refusal where
  /-- The request failed after its retries. -/
  | request
  /-- The response is of another instrument or granularity. -/
  | otherSeries
  | noCandlesList
  | unparseableTime
  | timesNotIncreasing
  /-- A closed candle arrived with other values. -/
  | changedCandle (time : ℤ)
  | backInTime (time : ℤ)
  | noProgress
  | noCompleteCandles
  /-- A complete candle has no mid prices. -/
  | missingSide
  | overlapsPrior
  | indexNotIncreasing
  /-- The prior is not in the catalogue: `plan_backfill` makes no such job. -/
  | versionNotFound

structure Fetched where
  kept : List (ℤ × RawCandle)
  counters : Counters
  pages : ℕ

def Fetched.none : Fetched := ⟨[], ⟨0, 0, 0, 0⟩, 0⟩

namespace BackfillJob

variable (job : BackfillJob)

def takeCandle (f : Fetched) (t : ℤ) (candle : RawCandle) : Except Refusal Fetched :=
  if candle.complete = false then
    .ok { f with counters.incompleteDropped := f.counters.incompleteDropped + 1 }
  else if t < job.start ∨ job.stop ≤ t then
    .ok { f with counters.outsideWindow := f.counters.outsideWindow + 1 }
  else
    match f.kept.find? fun k => k.1 = t with
    | some k =>
      if fingerprint k.2 ≠ fingerprint candle then .error (.changedCandle t)
      else .ok { f with counters.duplicatesDropped := f.counters.duplicatesDropped + 1 }
    | none =>
      if f.kept.getLast?.any fun k => t ≤ k.1 then .error (.backInTime t)
      else .ok { f with kept := f.kept ++ [(t, candle)] }

def takeCandles : Fetched → List (ℤ × RawCandle) → Except Refusal Fetched
  | f, [] => .ok f
  | f, (t, candle) :: rest =>
    match job.takeCandle f t candle with
    | .error e => .error e
    | .ok f' => takeCandles f' rest

def readTimes (candles : List RawCandle) : Except Refusal (List (ℤ × RawCandle)) :=
  match candles.mapM fun c => c.time.map fun t => (t, c) with
  | none => .error .unparseableTime
  | some timed =>
    if timed.Pairwise fun a b => a.1 < b.1 then .ok timed else .error .timesNotIncreasing

def readReply (g : Granularity) (oandaName : String) (reply : Reply) :
    Except Refusal (List RawCandle) :=
  if reply.instrument.any (· ≠ oandaName) || reply.granularity.any (· ≠ g.name) then
    .error .otherSeries
  else reply.candles.elim (.error .noCandlesList) .ok

/-- Page after page from the cursor.  `fetch` answers the numbered request at a cursor. -/
def fetchFrom (g : Granularity) (oandaName : String) (page : ℕ)
    (fetch : ℕ → ℤ → Option Reply) (cursor : ℤ) (f : Fetched) : Except Refusal Fetched :=
  match fetch f.pages cursor with
  | none => .error .request
  | some reply =>
    match readReply g oandaName reply with
    | .error e => .error e
    | .ok candles =>
      match readTimes candles with
      | .error e => .error e
      | .ok timed =>
        let received := f.counters.candlesReceived + candles.length
        let f := { f with
          pages := f.pages + 1, counters := { f.counters with candlesReceived := received } }
        match timed.getLast? with
        | none => .ok f
        | some (last, _) =>
          match job.takeCandles f timed with
          | .error e => .error e
          | .ok f =>
            if candles.length < page then .ok f
            else if _hend : job.stop ≤ last + g.bar then .ok f
            else if _hstuck : last ≤ cursor then .error .noProgress
            else fetchFrom g oandaName page fetch last f
termination_by (job.stop - cursor).toNat
decreasing_by
  have hbar := g.bar_pos
  omega

def fetchWindow (g : Granularity) (oandaName : String) (page : ℕ)
    (fetch : ℕ → ℤ → Option Reply) : Except Refusal Fetched :=
  job.fetchFrom g oandaName page fetch job.start Fetched.none

end BackfillJob

def frameFromCandles : List (ℤ × RawCandle) → Except Refusal Frame
  | [] => .ok []
  | (t, c) :: rest =>
    match c.mid with
    | none => .error .missingSide
    | some prices =>
      match frameFromCandles rest with
      | .error e => .error e
      | .ok frame => .ok (⟨t, prices, c.volume⟩ :: frame)

inductive Status where
  | written
  | skipped
  /-- The process died between the raw version and the validated one. -/
  | died

structure BackfillOutcome where
  status : Status
  newBars : ℕ
  totalRows : ℕ
  pages : ℕ
  rawVersionId : Option ℕ
  validatedVersionId : Option ℕ

def validatedOf (rawId : ℕ) (raw : DatasetVersion) (now : ℤ) : DatasetVersion where
  frame := raw.frame
  lineage := raw.lineage ++ [.validate rawId]
  kind := .validated
  source := raw.source
  parentIds := [rawId]
  createdAt := now

namespace BackfillJob

variable (job : BackfillJob)

def parametersOf (page : ℕ) (f : Fetched) (rowsFromPrior : ℕ) : BackfillParameters where
  page := page
  start := job.start
  stop := job.stop
  requestedFrom := job.requestedFrom
  pageCount := f.pages
  counters := f.counters
  extendsVersion := if job.action = .resume then job.priorRawId else none
  rowsFromPrior := rowsFromPrior

def combine (s : Store) (new : Frame) : Except Refusal (Frame × ℕ) :=
  if job.action = .resume then
    match job.priorRawId.bind fun id => s.rows[id]? with
    | none => .error .versionNotFound
    | some prior =>
      if prior.frame.any fun b => new.any fun b' => b'.time ≤ b.time then .error .overlapsPrior
      else .ok (prior.frame ++ new, prior.frame.length)
  else .ok (new, 0)

def prepare (g : Granularity) (oandaName : String) (page : ℕ)
    (fetch : ℕ → ℤ → Option Reply) (s : Store) :
    Except Refusal (Option (Frame × ℕ × BackfillParameters)) :=
  match job.fetchWindow g oandaName page fetch with
  | .error e => .error e
  | .ok f =>
    if f.kept = [] then
      if job.action = .resume then .ok none else .error .noCompleteCandles
    else
      match frameFromCandles f.kept with
      | .error e => .error e
      | .ok new =>
        match job.combine s new with
        | .error e => .error e
        | .ok (frame, rowsFromPrior) =>
          if frame.Pairwise fun a b => a.time < b.time then
            .ok (some (frame, new.length, job.parametersOf page f rowsFromPrior))
          else .error .indexNotIncreasing

/-- One job: its outcome or refusal, and the store after it.  `now` is the clock of the writes,
and the process may die between them. -/
def runOne (g : Granularity) (oandaName : String) (page : ℕ) (fetch : ℕ → ℤ → Option Reply)
    (now : ℤ) (dies : Bool) (s : Store) : Except Refusal BackfillOutcome × Store :=
  match job.action with
  | .current => (.ok ⟨.skipped, 0, 0, 0, none, none⟩, s)
  | .validateOnly =>
    match job.priorRawId.bind fun id => s.rows[id]?.map fun v => (id, v) with
    | none => (.error .versionNotFound, s)
    | some (rawId, raw) =>
      let (s, id) := s.register (validatedOf rawId raw now)
      (.ok ⟨.written, 0, raw.frame.length, 0, some rawId, some id⟩, s)
  | _ =>
    match job.prepare g oandaName page fetch s with
    | .error e => (.error e, s)
    | .ok none => (.ok ⟨.skipped, 0, 0, 0, none, none⟩, s)
    | .ok (some (frame, newBars, parameters)) =>
      let raw : DatasetVersion :=
        ⟨frame, [.oandaV20CandlesBackfill parameters], .raw, oandaBackfillSource, [], now⟩
      let (s, rawId) := s.register raw
      if dies then
        (.ok ⟨.died, newBars, frame.length, parameters.pageCount, some rawId, none⟩, s)
      else
        let (s, id) := s.register (validatedOf rawId raw now)
        (.ok ⟨.written, newBars, frame.length, parameters.pageCount, some rawId, some id⟩, s)

end BackfillJob

end Fiboki.Backfill
