import Fiboki.Lib.Frame
import Fiboki.Sim.Fills
import Mathlib.Data.String.Basic

/-!
The polling bar feed: what it asks the venue for, what it keeps of the answer, and which bar
of each instrument it delivers.

The venue answers a request for `count` candles with its newest `count`, those still forming
included, and the provider drops the ones that are not complete.
-/

namespace Fiboki.Forward

structure Row where
  open_ : ℚ
  high : ℚ
  low : ℚ
  close : ℚ

abbrev Frame := Dict Timestamp Row

/-- `Bar(...)`, or `none` where it raises. -/
def Row.bar (row : Row) (at_ : Timestamp) : Option Bar :=
  if h : row.low ≤ row.open_ ∧ row.open_ ≤ row.high ∧ row.low ≤ row.close ∧ row.close ≤ row.high
  then some ⟨at_, row.open_, row.high, row.low, row.close, h⟩
  else none

def later (complete : Frame) (incomplete : List Timestamp) (at_ : Timestamp) : ℕ :=
  complete.keys.countP (at_ < ·) + incomplete.countP (at_ < ·)

/-- The complete candles among the newest `count`. -/
def answer (complete : Frame) (incomplete : List Timestamp) (count : ℕ) : List (Timestamp × Row) :=
  complete.entries.filter fun e => later complete incomplete e.1 < count

structure PollingFeedConfig where
  instruments : List String
  tf : Timedelta
  lateCandleGrace : Timedelta
  repollAttempts : ℕ
  warmupBars : ℕ
  historyBars : ℕ
  maxRequestBars : ℕ
  /-- The session calendar of each instrument. -/
  isOpen : String → Timestamp → Bool
  /-- An alert dispatcher is wired. -/
  alerts : Bool
  instruments_ne : instruments ≠ []
  tf_pos : 0 < tf
  grace_nonneg : 0 ≤ lateCandleGrace
  warmup_ok : 2 ≤ warmupBars ∧ warmupBars ≤ maxRequestBars
  history_ok : warmupBars ≤ historyBars

structure BarFeed where
  history : Dict String Frame
  delivered : Dict String Timestamp
  /-- The first bar of the window to rebuild, set by `restoreState`. -/
  floor : Dict String Timestamp
  /-- The floor wanted and the first bar obtained, where the two differ. -/
  floorShortfall : Dict String (Timestamp × Timestamp)

namespace BarFeed

variable (config : PollingFeedConfig)

def fresh : BarFeed := ⟨.empty, .empty, .empty, .empty⟩

def heldNewest (feed : BarFeed) (symbol : String) : Option Timestamp :=
  (feed.history.get symbol).bind Dict.newest

/-- `frame.iloc[-history_bars:]`. -/
def window (frame : Frame) : Frame := frame.dropOldest (frame.entries.length - config.historyBars)

def barsBetween (feed : BarFeed) (symbol : String) (after before : Timestamp) : Frame :=
  match feed.history.get symbol with
  | none => .empty
  | some frame => frame.select fun t => after < t && t < before

/-- The first row that `_trim` keeps. -/
def trimStart (feed : BarFeed) (symbol : String) (frame : Frame) : ℕ :=
  let hb := config.historyBars
  if frame.entries.length ≤ hb then 0
  else
    match feed.delivered.get symbol with
    | none => frame.entries.length - hb
    | some last =>
      let firstUndelivered := frame.keys.countP (· ≤ last)
      min (frame.entries.length - hb) (firstUndelivered + 1 - hb)

structure State where
  delivered : Dict String Timestamp
  floor : Dict String Timestamp

def windowStarts (feed : BarFeed) : Dict String Timestamp :=
  feed.history.entries.foldl (fun out e =>
    match (window config e.2).oldest with
    | none => out
    | some first => out.set e.1 first) .empty

def exportState (feed : BarFeed) : State := ⟨feed.delivered, feed.windowStarts config⟩

def restoreState (state : State) : BarFeed := ⟨.empty, state.delivered, state.floor, .empty⟩

def pendingFloor (feed : BarFeed) (symbol : String) : Option Timestamp :=
  match feed.heldNewest symbol with
  | some _ => none
  | none => feed.floor.get symbol

def requestCount (feed : BarFeed) (symbol : String) (expectedStart : Timestamp) : ℕ :=
  match feed.heldNewest symbol with
  | some newest =>
    let behind := (expectedStart - newest).tdiv config.tf
    min config.maxRequestBars (max 2 (behind + 2)).toNat
  | none =>
    match feed.floor.get symbol with
    | some floor =>
      let span := (expectedStart - floor).tdiv config.tf + 2
      min config.maxRequestBars (max config.warmupBars span.toNat)
    | none => config.warmupBars

def merged (feed : BarFeed) (symbol : String) (fetched : List (Timestamp × Row)) : Frame :=
  ((feed.history.get symbol).getD .empty).addRows fetched

def cutAtFloor (feed : BarFeed) (symbol : String) (frame : Frame) : Frame :=
  match feed.pendingFloor symbol with
  | none => frame
  | some floor =>
    let cut := frame.select (floor ≤ ·)
    if cut.entries.isEmpty then frame else cut

def shortOf (floor : Timestamp) (frame : Frame) : Option (Timestamp × Timestamp) :=
  match frame.oldest with
  | none => none
  | some first => if floor < first then some (floor, first) else none

/-- What `_fetch_into_history` does with candles: merge, cut at the floor, trim. -/
def keep (feed : BarFeed) (symbol : String) (fetched : List (Timestamp × Row)) : BarFeed :=
  let frame := feed.merged symbol fetched
  let cut := feed.cutAtFloor symbol frame
  let held := cut.dropOldest (feed.trimStart config symbol cut)
  match feed.pendingFloor symbol with
  | none => { feed with history := feed.history.set symbol held }
  | some floor =>
    { feed with
      history := feed.history.set symbol held
      floor := feed.floor.erase symbol
      floorShortfall := match shortOf floor frame with
        | none => feed.floorShortfall
        | some short => feed.floorShortfall.set symbol short }

def minuteNs : ℤ := 60 * 10 ^ 9

def barExpected (symbol : String) (start : Timestamp) : Bool :=
  let step := min config.tf (15 * minuteNs)
  let probes := (List.range ((config.tf + step - 1) / step).toNat).map fun (i : ℕ) =>
    start + i * step
  (probes ++ [start + config.tf - 10 ^ 9]).any (config.isOpen symbol)

end BarFeed

/-- What is said of candles that are not applied: an alert, or the journal's
`bars_not_modelled`. -/
inductive Report where
  | lateCandle (symbol : String) (start : Timestamp)
  | incoherentCandle (symbol : String) (start : Timestamp)
  | windowShortfall (symbol : String) (wanted obtained : Timestamp)
  | notModelled (symbol : String) (start : Timestamp)

def Report.covers : Report → String → Timestamp → Bool
  | lateCandle s start, symbol, t => s = symbol && start = t
  | incoherentCandle s start, symbol, t => s = symbol && start = t
  | windowShortfall s wanted obtained, symbol, t => s = symbol && wanted ≤ t && t < obtained
  | notModelled s start, symbol, t => s = symbol && start = t

/-- What `_batch` has put together so far. -/
structure Batch where
  delivered : Dict String Timestamp
  frames : Dict String Bar
  reports : List Report

namespace Batch

def offer (alerts : Bool) (history : Dict String Frame) (b : Batch) (symbol : String) : Batch :=
  match (history.get symbol).bind fun frame => frame.entries.getLast? with
  | none => b
  | some (newest, row) =>
    if (b.delivered.get symbol).any (newest ≤ ·) then b
    else
      match row.bar newest with
      | none =>
        { b with
          delivered := b.delivered.set symbol newest
          reports := b.reports ++ if alerts then [.incoherentCandle symbol newest] else [] }
      | some bar =>
        { b with
          delivered := b.delivered.set symbol newest
          frames := b.frames.set symbol bar }

/-- `_batch`. -/
def of (config : PollingFeedConfig) (feed : BarFeed) : Batch :=
  config.instruments.foldl (offer config.alerts feed.history) ⟨feed.delivered, .empty, []⟩

end Batch

end Fiboki.Forward
