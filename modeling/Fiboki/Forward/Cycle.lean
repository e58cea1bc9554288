import Fiboki.Broker.Driver
import Fiboki.Forward.Feeds
import Fiboki.Lib.Run

/-!
The paper-forward cycle as a machine: the venue publishes candles, the feed polls them, the
book catches up and steps, the worker is offered the newest bars, the snapshot is written,
and the process may fail at any point or die and restart from the snapshot.
-/

namespace Fiboki.Forward

/-- What `advance` does to the driver, whatever the book does with the bar. -/
def rolled (d : BookDriver) (bars : BarMap) (barIndex : ℤ) (timestamp : Timestamp) : BookDriver :=
  if barIndex ≤ d.barIndex then d
  else { d with barIndex := barIndex, now := some timestamp }.roll bars

def barMap (bars : Dict String Bar) : BarMap := ⟨bars.entries, bars.nodup_keys⟩

def lastSeen (d : BookDriver) (symbol : String) : Option Timestamp :=
  (d.lastBars.get symbol).map Bar.timestamp

/-- A held bar that the book has not seen, and what becomes of it. -/
inductive Missed where
  | apply (symbol : String) (bar : Bar)
  | notModelled (symbol : String) (start : Timestamp)

def missedRow (symbol : String) (now : Timestamp) (e : Timestamp × Row) : Missed :=
  match e.2.bar e.1 with
  | none => .notModelled symbol e.1
  | some bar => if e.1 ≤ now then .notModelled symbol e.1 else .apply symbol bar

def missedOf (feed : BarFeed) (d : BookDriver) (now : Timestamp) (e : String × Bar) : List Missed :=
  let after := (lastSeen d e.1).getD now
  (feed.barsBetween e.1 after e.2.timestamp).entries.map (missedRow e.1 now)

def Missed.report : Missed → Option Report
  | apply _ _ => none
  | notModelled symbol start => some (.notModelled symbol start)

/-- `missed.setdefault(ts, {})[sym] = bar`. -/
def Missed.collect (steps : Dict Timestamp (Dict String Bar)) : Missed →
    Dict Timestamp (Dict String Bar)
  | apply symbol bar =>
    steps.set bar.timestamp (((steps.get bar.timestamp).getD .empty).set symbol bar)
  | notModelled _ _ => steps

def missed (feed : BarFeed) (d : BookDriver) (frames : Dict String Bar) : List Missed :=
  match d.now with
  | none => []
  | some now => frames.entries.flatMap (missedOf feed d now)

/-- `max(bar.timestamp for bar in batch.frames.values())`. -/
def stampOf (frames : Dict String Bar) : Timestamp :=
  match frames.entries with
  | [] => 0
  | e :: rest => rest.foldl (fun stamp e => max stamp e.2.timestamp) e.2.timestamp

def plan (feed : BarFeed) (d : BookDriver) (frames : Dict String Bar) :
    List (Timestamp × Dict String Bar) :=
  if frames.entries.isEmpty then []
  else ((missed feed d frames).foldl Missed.collect .empty).entries ++ [(stampOf frames, frames)]

structure PollProgress where
  boundary : Timestamp
  firstRound : List String
  attempt : ℕ
  pending : List String
  stillMissing : List String
  /-- The instruments of `report.errors`. -/
  errors : List String

inductive Phase where
  | idle
  | fetching (p : PollProgress)
  | fetched (boundary : Timestamp) (missing : List String)
  | delivered (frames : Dict String Bar)
  | planning (frames : Dict String Bar)
  | stepping (steps : List (Timestamp × Dict String Bar)) (frames : Dict String Bar)
  | ended

/-- The position book, as far as the feed sees it: its driver, and which bars it was stepped
through at which times. -/
structure Stepped where
  driver : BookDriver
  barIndex : ℤ
  applied : List (String × Timestamp)
  steps : List Timestamp

structure Snapshot where
  feed : BarFeed.State
  book : Stepped

/-- The process, its snapshot and the venue, with what the feed has first delivered of each
instrument, what the worker has been offered and what has been reported. -/
structure ForwardState where
  phase : Phase
  feed : BarFeed
  book : Stepped
  snapshot : Option Snapshot
  venue : String → Frame
  firstDelivered : Dict String Timestamp
  offered : List (String × Timestamp)
  reports : List Report

def ForwardState.start : ForwardState where
  phase := .idle
  feed := .fresh
  book := ⟨.fresh, -1, [], []⟩
  snapshot := none
  venue _ := .empty
  firstDelivered := .empty
  offered := []
  reports := []

inductive FetchAnswer where
  /-- Its newest candles, some of them incomplete. -/
  | candles (incomplete : List Timestamp)
  /-- A `ProviderError`: an answer with nothing closed in it. -/
  | nothing
  /-- Any other error, once the retries are exhausted. -/
  | failed

inductive FeedEvent where
  | publish (symbol : String) (start : Timestamp) (row : Row)
  | poll (now : Timestamp)
  | fetch (reply : FetchAnswer)
  | deliver (after : Timestamp)
  | reportShortfall
  | catchUp
  | advance
  | finish
  | fail (counted : Bool)
  | persist
  | unpersisted
  | restart

namespace PollProgress

variable (config : PollingFeedConfig)

def expectedStart (p : PollProgress) : Timestamp := p.boundary - config.tf

def begin_ (feed : BarFeed) (now : Timestamp) : PollProgress :=
  let boundary := now / config.tf * config.tf
  let pending := config.instruments.filter fun symbol =>
    BarFeed.barExpected config symbol (boundary - config.tf) || (feed.history.get symbol).isNone
  ⟨boundary, pending, 0, pending, [], []⟩

def settle (p : PollProgress) : Phase :=
  match p.pending with
  | _ :: _ => .fetching p
  | [] =>
    if p.attempt = 0 ∧ p.firstRound ≠ [] ∧ ∀ symbol ∈ p.firstRound, symbol ∈ p.errors then .ended
    else if p.stillMissing = [] ∨ p.attempt = config.repollAttempts then
      .fetched p.boundary p.stillMissing
    else
      .fetching { p with attempt := p.attempt + 1, pending := p.stillMissing, stillMissing := [] }

def next (p : PollProgress) (symbol : String) (rest : List String) (ok failed : Bool) :
    PollProgress :=
  { p with
    pending := rest
    stillMissing :=
      if !ok && BarFeed.barExpected config symbol (p.expectedStart config) then
        p.stillMissing ++ [symbol]
      else p.stillMissing
    errors := if failed then symbol :: p.errors else p.errors.filter (· ≠ symbol) }

end PollProgress

namespace ForwardState

variable (config : PollingFeedConfig)

def publish (σ : ForwardState) (symbol : String) (start : Timestamp) (row : Row) : ForwardState :=
  { σ with venue := Function.update σ.venue symbol ((σ.venue symbol).set start row) }

def fetch (σ : ForwardState) (p : PollProgress) (symbol : String) (rest : List String) :
    FetchAnswer → ForwardState
  | .failed => { σ with phase := (p.next config symbol rest false true).settle config }
  | .nothing => { σ with phase := (p.next config symbol rest false false).settle config }
  | .candles incomplete =>
    let count := σ.feed.requestCount config symbol (p.expectedStart config)
    let fetched := answer (σ.venue symbol) incomplete count
    if fetched.isEmpty then
      { σ with phase := (p.next config symbol rest false false).settle config }
    else
      let feed := σ.feed.keep config symbol fetched
      let ok := (feed.heldNewest symbol).any (p.expectedStart config ≤ ·)
      { σ with feed, phase := (p.next config symbol rest ok false).settle config }

def lateCandles (boundary : Timestamp) (missing : List String) (after : Timestamp) : List Report :=
  if config.alerts && config.lateCandleGrace ≤ after - boundary then
    missing.map fun symbol => .lateCandle symbol (boundary - config.tf)
  else []

def firstOf (firstDelivered : Dict String Timestamp) (e : String × Bar) : Dict String Timestamp :=
  match firstDelivered.get e.1 with
  | some _ => firstDelivered
  | none => firstDelivered.set e.1 e.2.timestamp

def deliver (σ : ForwardState) (boundary : Timestamp) (missing : List String) (after : Timestamp) :
    ForwardState :=
  let batch := Batch.of config σ.feed
  { σ with
    phase := .delivered batch.frames
    feed := { σ.feed with delivered := batch.delivered }
    firstDelivered := batch.frames.entries.foldl firstOf σ.firstDelivered
    reports := σ.reports ++ lateCandles config boundary missing after ++ batch.reports }

/-- `_report_window_shortfall`. -/
def reportShortfall (σ : ForwardState) (frames : Dict String Bar) : ForwardState :=
  { σ with
    phase := .planning frames
    feed := { σ.feed with floorShortfall := .empty }
    reports := σ.reports ++
      if config.alerts then
        σ.feed.floorShortfall.entries.map fun e => .windowShortfall e.1 e.2.1 e.2.2
      else [] }

def catchUp (σ : ForwardState) (frames : Dict String Bar) : ForwardState :=
  { σ with
    phase := .stepping (plan σ.feed σ.book.driver frames) frames
    reports := σ.reports ++ (missed σ.feed σ.book.driver frames).filterMap Missed.report }

def advance (σ : ForwardState) (at_ : Timestamp) (bars : Dict String Bar)
    (rest : List (Timestamp × Dict String Bar)) (frames : Dict String Bar) : ForwardState :=
  let index := σ.book.barIndex + 1
  if index ≤ σ.book.driver.barIndex then
    { σ with phase := .ended, book := { σ.book with barIndex := index } }
  else
    { σ with
      phase := .stepping rest frames
      book :=
        { driver := rolled σ.book.driver (barMap bars) index at_
          barIndex := index
          applied := σ.book.applied ++ bars.entries.map fun e => (e.1, e.2.timestamp)
          steps := σ.book.steps ++ [at_] } }

def finish (σ : ForwardState) (frames : Dict String Bar) : ForwardState :=
  { σ with
    phase := .ended
    offered := σ.offered ++ frames.entries.map fun e => (e.1, e.2.timestamp) }

def capture (σ : ForwardState) : Snapshot := ⟨σ.feed.exportState config, σ.book⟩

def persist (σ : ForwardState) : ForwardState :=
  { σ with phase := .idle, snapshot := some (σ.capture config) }

def restore (σ : ForwardState) (snapshot : Snapshot) : ForwardState :=
  { σ with phase := .idle, feed := .restoreState snapshot.feed, book := snapshot.book }

def fail (σ : ForwardState) (counted : Bool) : ForwardState :=
  { σ with
    phase := .ended
    book := if counted then { σ.book with barIndex := σ.book.barIndex + 1 } else σ.book }

def step (σ : ForwardState) : FeedEvent → ForwardState
  | .publish symbol start row => σ.publish symbol start row
  | .poll now =>
    match σ.phase with
    | .idle => { σ with phase := (PollProgress.begin_ config σ.feed now).settle config }
    | _ => σ
  | .fetch reply =>
    match σ.phase with
    | .fetching p =>
      match p.pending with
      | symbol :: rest => σ.fetch config p symbol rest reply
      | [] => σ
    | _ => σ
  | .deliver after =>
    match σ.phase with
    | .fetched boundary missing => σ.deliver config boundary missing after
    | _ => σ
  | .reportShortfall =>
    match σ.phase with
    | .delivered frames => σ.reportShortfall config frames
    | _ => σ
  | .catchUp =>
    match σ.phase with
    | .planning frames => σ.catchUp frames
    | _ => σ
  | .advance =>
    match σ.phase with
    | .stepping ((at_, bars) :: rest) frames => σ.advance at_ bars rest frames
    | _ => σ
  | .finish =>
    match σ.phase with
    | .stepping [] frames => σ.finish frames
    | _ => σ
  | .fail counted =>
    match σ.phase with
    | .idle | .ended => σ
    | _ => σ.fail counted
  | .persist =>
    match σ.phase with
    | .idle | .ended => σ.persist config
    | _ => σ
  | .unpersisted =>
    match σ.phase with
    | .ended => { σ with phase := .idle }
    | _ => σ
  | .restart =>
    match σ.snapshot with
    | none => σ
    | some snapshot => σ.restore snapshot

end ForwardState

end Fiboki.Forward
