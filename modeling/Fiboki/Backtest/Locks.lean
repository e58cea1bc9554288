import Fiboki.Core.Instruments
import Fiboki.Lib.Dict
import Mathlib.Data.Nat.Count
import Mathlib.Data.Prod.Lex
import Mathlib.Data.String.Basic

/-!
Instrument locks, counted in session bars on the instrument's own calendar, and
the book of every lock armed so far.
-/

namespace Fiboki

open Text

inductive LockError where
  | unknownInstrument (symbol : String)
  | unknownSession (symbol tradingHours : String)
  | unknownCalendar (tradingHours : String)
  | beforeAnchor
  | noStreakRule
  deriving DecidableEq

def minuteNs : ℤ := 60 * 10 ^ 9

def weekMinutes : ℕ := 7 * 24 * 60

def lockAnchor : Timestamp := 4 * dayNs

/-- `ZoneInfo`: an hour of a local day, both counted from the anchor, to UTC minutes. -/
abbrev Zone := ℤ → ℕ → ℤ

/-- The weekend a session calendar closes for, if it closes at all. -/
inductive WeekCalendar where
  | fx (closeHour openHour : ℕ)
  | continuous
  deriving DecidableEq

def sessionClosures (tradingHours : String) : Option WeekCalendar :=
  if tradingHours ∈ ["fx_24_5", "index", "energy", "commodity_cfd", "bond_cfd"] then
    some (.fx 17 17)
  else if tradingHours = "crypto_24_7" then some .continuous
  else none

/-- What the clock reads of the instrument registry and of the zone database. -/
structure Sessions where
  zone : Zone
  tradingHours : String → Option String
  named : ∀ s, (tradingHours s).isSome → s ≠ "" ∧ s ≠ "*"

/-- `_week_closure`: minutes after the week's Monday midnight. -/
def weekClosure (zone : Zone) (calendar : WeekCalendar) (week : ℕ) : List (ℤ × ℤ) :=
  match calendar with
  | .continuous => []
  | .fx closeHour openHour =>
    [(zone (7 * week + 4) closeHour - weekMinutes * week,
      zone (7 * week + 6) openHour - weekMinutes * week)]

def isOpen (closures : List (ℤ × ℤ)) (slotMinutes k : ℕ) : Bool :=
  let start : ℤ := k * slotMinutes
  let stop : ℤ := (k + 1) * slotMinutes
  let closed := (closures.map fun c => max 0 (min stop c.2 - max start c.1)).sum
  (slotMinutes : ℤ) ≤ 2 * (slotMinutes - closed)

/-- `_template`'s `prefix[k]`: the in-session slots among the first `k` of a week. -/
def openPrefix (closures : List (ℤ × ℤ)) (slotMinutes k : ℕ) : ℕ :=
  Nat.count (fun j => isOpen closures slotMinutes j) k

def openSlotsBefore (zone : Zone) (calendar : WeekCalendar) (slotMinutes week : ℕ) : ℕ :=
  ((List.range week).map fun w =>
    openPrefix (weekClosure zone calendar w) slotMinutes (weekMinutes / slotMinutes)).sum

/-- The timeframe whose bar is exactly `interval`, if there is one. -/
def timeframeForInterval (interval : Timedelta) : Option Timeframe :=
  Timeframe.members.find? fun tf => (tf.minutes : ℤ) * minuteNs = interval

/-- Session-bar ordinals for one trading calendar and one timeframe. -/
structure SessionBarClock where
  tradingHours : String
  timeframe : Timeframe
  deriving DecidableEq

namespace SessionBarClock

def forInstrument (env : Sessions) (instrument : String) (timeframe : Timeframe) :
    Except LockError SessionBarClock :=
  match env.tradingHours instrument with
  | none => .error (.unknownInstrument instrument)
  | some hours =>
    match sessionClosures hours with
    | none => .error (.unknownSession instrument hours)
    | some _ => .ok ⟨hours, timeframe⟩

def slot (clock : SessionBarClock) (ts : Timestamp) : ℤ :=
  (ts - lockAnchor) / minuteNs / clock.timeframe.minutes

def perWeek (clock : SessionBarClock) : ℕ := weekMinutes / clock.timeframe.minutes

/-- The in-session slots that start at or before `ts`, minus one. -/
def index (env : Sessions) (clock : SessionBarClock) (ts : Timestamp) : Except LockError ℤ :=
  match sessionClosures clock.tradingHours with
  | none => .error (.unknownCalendar clock.tradingHours)
  | some calendar =>
    let week := clock.slot ts / clock.perWeek
    let r := clock.slot ts % clock.perWeek
    if week < 0 then .error .beforeAnchor
    else
      let minutes := clock.timeframe.minutes
      .ok (openSlotsBefore env.zone calendar minutes week.toNat +
        openPrefix (weekClosure env.zone calendar week.toNat) minutes (r.toNat + 1) - 1)

end SessionBarClock

inductive LockScope where
  | instrument
  | strategy
  | global
  deriving DecidableEq

def LockScope.value : LockScope → String
  | instrument => "instrument"
  | strategy => "strategy"
  | global => "global"

structure StopStreakRule where
  nStops : ℕ
  lookbackBars : ℕ
  lockBars : ℕ
  scope : LockScope
  two_le_nStops : 2 ≤ nStops
  lookback_pos : 1 ≤ lookbackBars
  lock_pos : 1 ≤ lockBars
  deriving DecidableEq

structure LockPolicy where
  cooldownBarsAfterClose : ℕ
  stopStreak : Option StopStreakRule
  deriving DecidableEq

def LockPolicy.active (p : LockPolicy) : Bool := 0 < p.cooldownBarsAfterClose || p.stopStreak.isSome

structure LockRegistration where
  policy : LockPolicy
  timeframe : Timeframe
  deriving DecidableEq

structure ClosedTrade where
  strategyId : String
  instrument : String
  exitTime : Timestamp
  exitReason : Option String

def ClosedTrade.isStopOut (c : ClosedTrade) : Bool :=
  c.exitReason == none || c.exitReason == some ExitReason.stopLoss.value

abbrev LockKey := String ×ₗ String ×ₗ String ×ₗ String

/-- One armed lock.  `untilIndex` is the last session bar it refuses. -/
structure LockReason where
  rule : String
  scope : LockScope
  strategyId : String
  instrument : Option String
  armedAt : Timestamp
  armedIndex : ℤ
  untilIndex : ℤ
  clock : SessionBarClock
  deriving DecidableEq

namespace LockReason

def covers (env : Sessions) (lock : LockReason) (barTime : Timestamp) : Except LockError Bool :=
  match lock.clock.index env barTime with
  | .error e => .error e
  | .ok idx => .ok (lock.armedIndex ≤ idx && idx ≤ lock.untilIndex)

def appliesTo (lock : LockReason) (instrument strategyId : String) : Bool :=
  if lock.scope = .global then true
  else if lock.strategyId ≠ strategyId then false
  else lock.scope = .strategy || lock.instrument == some instrument

def key (lock : LockReason) : LockKey :=
  match lock.scope with
  | .global => toLex (lock.rule, toLex (lock.scope.value, toLex ("*", "*")))
  | _ =>
    toLex (lock.rule, toLex (lock.scope.value, toLex (lock.strategyId,
      (pyOr lock.instrument (some "*")).getD "*")))

end LockReason

structure StopEvent where
  seq : ℕ
  strategyId : String
  instrument : String
  exitTime : Timestamp

abbrev ConsumeKey := String ×ₗ String ×ₗ String

structure LockBook where
  registrations : Dict String LockRegistration
  default : Option LockRegistration
  active : Dict LockKey LockReason
  history : List LockReason
  stops : List StopEvent
  consumed : Dict ConsumeKey ℕ
  seen : List String
  seq : ℕ

namespace LockBook

def fresh (registrations : Dict String LockRegistration) (default : Option LockRegistration) :
    LockBook :=
  { registrations, default, active := .empty, history := [], stops := [], consumed := .empty,
    seen := [], seq := 0 }

def registrationFor (b : LockBook) (strategyId : String) : Option LockRegistration :=
  match b.registrations.get strategyId with
  | some reg => some reg
  | none => b.default

def firstLock (env : Sessions) (symbol strategyId : String) (barTime : Timestamp) :
    List (LockKey × LockReason) → Except LockError (Option LockReason)
  | [] => .ok none
  | (_, lock) :: rest =>
    if lock.appliesTo symbol strategyId then
      match lock.covers env barTime with
      | .error e => .error e
      | .ok true => .ok (some lock)
      | .ok false => firstLock env symbol strategyId barTime rest
    else firstLock env symbol strategyId barTime rest

/-- The lock refusing a new entry decided on `barTime`, or `none`. -/
def isLocked (env : Sessions) (b : LockBook) (instrument strategyId : String)
    (barTime : Timestamp) : Except LockError (Option LockReason) :=
  firstLock env (upper instrument) strategyId barTime b.active.entries

def arm (b : LockBook) (lock : LockReason) : LockBook :=
  { b with active := b.active.set lock.key lock, history := b.history ++ [lock] }

/-- `_streak_declarers`: every strategy whose stop-streak rule counts this stop-out. -/
def streakDeclarers (b : LockBook) (closed : ClosedTrade) : List (String × LockRegistration) :=
  let candidates :=
    match b.default with
    | none => b.registrations
    | some reg =>
      b.seen.foldl (fun d sid => if (d.get sid).isSome then d else d.set sid reg)
        b.registrations
  candidates.entries.filter fun e =>
    match e.2.policy.stopStreak with
    | none => false
    | some rule => rule.scope = .global || e.1 == closed.strategyId

def consumeKey (scope : LockScope) (declarer instrument : String) : ConsumeKey :=
  match scope with
  | .instrument => toLex (declarer, toLex (scope.value, instrument))
  | .strategy => toLex (declarer, toLex (scope.value, "*"))
  | .global => toLex ("*", toLex (scope.value, "*"))

def countsFor (scope : LockScope) (declarer instrument : String) (event : StopEvent) : Bool :=
  match scope with
  | .instrument => event.strategyId = declarer && event.instrument == instrument
  | .strategy => event.strategyId = declarer
  | .global => true

/-- The count of `_evaluate_streak`, over the stop-outs latest first. -/
def countStops (env : Sessions) (clock : SessionBarClock) (scope : LockScope)
    (declarer instrument : String) (consumed : ℕ) (floor : ℤ) :
    List StopEvent → Except LockError ℕ
  | [] => .ok 0
  | event :: rest =>
    if event.seq ≤ consumed then .ok 0
    else
      match clock.index env event.exitTime with
      | .error e => .error e
      | .ok idx =>
        if idx ≤ floor then .ok 0
        else
          match countStops env clock scope declarer instrument consumed floor rest with
          | .error e => .error e
          | .ok n => .ok (if countsFor scope declarer instrument event then n + 1 else n)

def streakCount (env : Sessions) (b : LockBook) (clock : SessionBarClock) (rule : StopStreakRule)
    (declarer instrument : String) (nowIdx : ℤ) : Except LockError ℕ :=
  countStops env clock rule.scope declarer instrument
    ((b.consumed.get (consumeKey rule.scope declarer instrument)).getD 0)
    (nowIdx - rule.lookbackBars) b.stops.reverse

def streakLock (clock : SessionBarClock) (rule : StopStreakRule) (declarer : String)
    (closed : ClosedTrade) (nowIdx : ℤ) : LockReason :=
  { rule := "stop_streak"
    scope := rule.scope
    strategyId := if rule.scope = .global then "*" else declarer
    instrument := if rule.scope = .instrument then some closed.instrument else none
    armedAt := closed.exitTime
    armedIndex := nowIdx
    untilIndex := nowIdx + rule.lockBars - 1
    clock }

/-- The stop-outs up to now no longer count under `key`. -/
def consume (b : LockBook) (key : ConsumeKey) : LockBook :=
  { b with consumed := b.consumed.set key b.seq }

def evaluateStreak (env : Sessions) (b : LockBook) (declarer : String) (reg : LockRegistration)
    (closed : ClosedTrade) : Except LockError (Option LockReason) × LockBook :=
  match reg.policy.stopStreak with
  | none => (.error .noStreakRule, b)
  | some rule =>
    match SessionBarClock.forInstrument env closed.instrument reg.timeframe with
    | .error e => (.error e, b)
    | .ok clock =>
      match clock.index env closed.exitTime with
      | .error e => (.error e, b)
      | .ok nowIdx =>
        match b.streakCount env clock rule declarer closed.instrument nowIdx with
        | .error e => (.error e, b)
        | .ok count =>
          if count < rule.nStops then (.ok none, b)
          else
            let lock := streakLock clock rule declarer closed nowIdx
            let key := consumeKey rule.scope declarer closed.instrument
            (.ok (some lock), (b.consume key).arm lock)

def runStreaks (env : Sessions) (closed : ClosedTrade) :
    List (String × LockRegistration) → List LockReason → LockBook →
      Except LockError (List LockReason) × LockBook
  | [], armed, b => (.ok armed, b)
  | d :: ds, armed, b =>
    match b.evaluateStreak env d.1 d.2 closed with
    | (.error e, b') => (.error e, b')
    | (.ok lock, b') => runStreaks env closed ds (armed ++ lock.toList) b'

def cooldownLock (clock : SessionBarClock) (policy : LockPolicy) (closed : ClosedTrade)
    (idx : ℤ) : LockReason :=
  { rule := "cooldown"
    scope := .instrument
    strategyId := closed.strategyId
    instrument := some closed.instrument
    armedAt := closed.exitTime
    armedIndex := idx
    untilIndex := idx + policy.cooldownBarsAfterClose - 1
    clock }

def noteClose (b : LockBook) (closed : ClosedTrade) : LockBook :=
  { b with
    seen := if closed.strategyId ∈ b.seen then b.seen else b.seen ++ [closed.strategyId]
    seq := b.seq + 1 }

/-- `on_close` up to the streaks: the cooldown of the strategy that closed. -/
def coolDown (env : Sessions) (b : LockBook) (closed : ClosedTrade) :
    Except LockError (List LockReason) × LockBook :=
  match b.registrationFor closed.strategyId with
  | none => (.ok [], b)
  | some own =>
    if own.policy.cooldownBarsAfterClose = 0 then (.ok [], b)
    else
      match SessionBarClock.forInstrument env closed.instrument own.timeframe with
      | .error e => (.error e, b)
      | .ok clock =>
        match clock.index env closed.exitTime with
        | .error e => (.error e, b)
        | .ok idx =>
          let lock := cooldownLock clock own.policy closed idx
          (.ok [lock], b.arm lock)

def noteStop (b : LockBook) (closed : ClosedTrade) : LockBook :=
  { b with stops := b.stops ++ [⟨b.seq, closed.strategyId, closed.instrument, closed.exitTime⟩] }

def onClose (env : Sessions) (b : LockBook) (closed : ClosedTrade) :
    Except LockError (List LockReason) × LockBook :=
  match (b.noteClose closed).coolDown env closed with
  | (.error e, b) => (.error e, b)
  | (.ok armed, b) =>
    if closed.isStopOut then
      let b := b.noteStop closed
      runStreaks env closed (b.streakDeclarers closed) armed b
    else (.ok armed, b)

end LockBook

end Fiboki
