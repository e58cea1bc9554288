import Fiboki.Backtest.Book

/-!
The backtest engine: one strategy over one or more instruments on a shared timeline.
-/

namespace Fiboki

open Text

structure FrameRow where
  bar : Bar
  series : String → Option ℚ

namespace FrameRow

def time (r : FrameRow) : Timestamp := r.bar.timestamp

end FrameRow

def medianInterval (times : List Timestamp) : Timedelta :=
  if times.length < 3 then hourNs
  else
    let deltas := (times.tail.zipWith (fun t' t => t' - t) times).insertionSort (· ≤ ·)
    let half := deltas.length / 2
    if deltas.length % 2 = 1 then deltas.getD half 0
    else (deltas.getD (half - 1) 0 + deltas.getD half 0) / 2

/-- What `_validate_frame` lets through. -/
structure Frame where
  rows : List FrameRow
  nonempty : rows ≠ []
  increasing : rows.Pairwise fun r r' => r.time < r'.time

namespace Frame

def times (f : Frame) : List Timestamp := f.rows.map FrameRow.time

def interval (f : Frame) : Timedelta := medianInterval f.times

/-- The rows at or before an instant: what `searchsorted` counts. -/
def upTo (f : Frame) (ts : Timestamp) : List FrameRow := f.rows.takeWhile fun r => r.time ≤ ts

def current (f : Frame) (ts : Timestamp) : Option FrameRow := (f.upTo ts).getLast?

def previousTime (f : Frame) (ts : Timestamp) : Option Timestamp :=
  (f.upTo ts).dropLast.getLast?.map FrameRow.time

def bar (f : Frame) (ts : Timestamp) : Option Bar :=
  (f.current ts).map fun r => { r.bar with timestamp := ts }

def exactBar (f : Frame) (ts : Timestamp) : Option Bar :=
  ((f.current ts).filter fun r => r.time = ts).map fun r => { r.bar with timestamp := ts }

end Frame

structure TimedSignal extends Signal where
  timeframe : String

/-- What a strategy is shown: everything up to and including now. -/
structure BarContext where
  timestamp : Timestamp
  barIndex : ℕ
  account : AccountState
  openPositions : List Position
  instruments : List String
  history : String → List Bar

abbrev Strategy := BarContext → List TimedSignal

/-- `size_for`: the size of a signal, at a rate of its quote to the account currency. -/
abbrev SizeFor := TimedSignal → Instrument → AccountState → ℚ → ℚ

structure Sizer where
  riskFraction : Option ℚ
  sizeFor : SizeFor
  allocated : (riskFraction portfolioWeight : ℚ) → SizeFor

structure ConstructionRequest where
  asOf : Timestamp
  account : AccountState
  openPositions : List Position
  signals : List TimedSignal
  accountCcy : String
  riskCeilingFraction : Option ℚ
  rate : String → ℚ
  history : String → List Bar
  equityCurve : List (Timestamp × ℚ)
  view : BarSlice

structure AllocationDecision where
  signalId : String
  baseRiskPct : ℚ
  weight : ℚ
  dropped : Bool

abbrev ConstructionPolicy := ConstructionRequest → List AllocationDecision

inductive EngineError where
  | intervalUnregistered (interval : Timedelta)
  | timeframes (found : List Timeframe)
  | noMark (symbol : String)
  | unmarked
  | lock (error : LockError)
  | signalDated (barTime ts : Timestamp)
  | unknownInstrument (symbol : String)
  | signalTimeframe (found expected : String)
  | noDecision (symbol : String) (ts : Timestamp)
  deriving DecidableEq

structure EngineSetup where
  book : BookSetup
  initialBalance : ℚ
  bankruptcyEquity : ℚ
  closeAtEndOfData : Bool
  construction : Option ConstructionPolicy
  strategy : Strategy
  sizer : Sizer
  instruments : Registry
  sessions : Sessions
  data : Dict String Frame
  data_nonempty : data.entries ≠ []

structure EngineLocks where
  registration : LockRegistration
  book : LockBook

structure LockBlock where
  barTime : Timestamp
  instrument : String
  strategyId : String
  direction : Direction
  lock : LockReason

structure EngineRun where
  book : PositionBook
  locks : Option EngineLocks
  lockBlocks : List LockBlock
  peakEquity : ℚ
  signalsSeen : ℕ
  ordersSubmitted : ℕ
  equityCurve : List EquityRow
  previous : Option Timestamp
  bankrupt : Bool

def EngineRun.bump (s : EngineRun) (key : String) : EngineRun := { s with book := s.book.bump key }

structure Observed where
  view : BarSlice
  unrealised : ℚ
  equity : ℚ

structure Decision where
  index : ℕ
  view : BarSlice
  account : AccountState

namespace EngineSetup

variable (env : EngineSetup)

def timeline : List Timestamp :=
  ((env.data.entries.flatMap fun e => e.2.times).dedup).insertionSort (· ≤ ·)

def slice (i : ℕ) (ts : Timestamp) (previous : Option Timestamp) : BarSlice where
  index := i
  timestamp := ts
  bars s := (env.data.get s).bind fun f => f.exactBar ts
  previousTimestamp := previous
  previousTimes s := (env.data.get s).bind fun f => f.previousTime ts
  intervals s := (env.data.get s).bind fun f => (f.current ts).map fun _ => f.interval
  lastCloses s := (env.data.get s).bind fun f => (f.bar ts).map Bar.close
  carriedBars s := (env.data.get s).bind fun f => f.bar ts
  series s column := (env.data.get s).bind fun f => (f.current ts).bind fun r => r.series column

/-- The timeframe of every frame, as `timeframe_for_interval` reads it. -/
def timeframes : List Frame → Except EngineError (List Timeframe)
  | [] => .ok []
  | f :: rest =>
    match timeframeForInterval f.interval, timeframes rest with
    | none, _ => .error (.intervalUnregistered f.interval)
    | some _, .error e => .error e
    | some tf, .ok tfs => .ok (tf :: tfs)

def lockRegistration : Except EngineError (Option LockRegistration) :=
  match env.book.policy.locks with
  | none => .ok none
  | some locks =>
    if locks.active then
      match timeframes (env.data.entries.map Prod.snd) with
      | .error e => .error e
      | .ok tfs =>
        match tfs.dedup with
        | [tf] => .ok (some ⟨locks, tf⟩)
        | found => .error (.timeframes found)
    else .ok none

end EngineSetup

def ClosedTrade.of (t : Trade) : ClosedTrade where
  strategyId := t.strategyId
  instrument := upper t.instrument
  exitTime := t.exitTime
  exitReason := some t.exitReason.value

namespace LockBook

def tell (env : Sessions) : LockBook → List ClosedTrade → Except LockError LockBook
  | b, [] => .ok b
  | b, c :: rest =>
    match b.onClose env c with
    | (.error e, _) => .error e
    | (.ok _, b') => tell env b' rest

end LockBook

namespace EngineSetup

variable (env : EngineSetup)

def tellLocks (locks : Option EngineLocks) (trades : List Trade) :
    Except EngineError (Option EngineLocks) :=
  match locks with
  | none => .ok none
  | some l =>
    match l.book.tell env.sessions (trades.map ClosedTrade.of) with
    | .error e => .error (.lock e)
    | .ok b => .ok (some { l with book := b })

def observe (i : ℕ) (ts : Timestamp) (s : EngineRun) : Except EngineError (Observed × EngineRun) :=
  let view := env.slice i ts s.previous
  match env.book.advance view s.book with
  | (.error symbol, _) => .error (.noMark symbol)
  | (.ok advanced, book) =>
    match env.tellLocks s.locks advanced.trades with
    | .error e => .error e
    | .ok locks =>
      match env.book.markToMarket view book.open_ with
      | none => .error .unmarked
      | some (unrealised, exposure) =>
        let equity := book.balance + unrealised
        .ok (⟨view, unrealised, equity⟩,
          { s with
            book := book
            locks := locks
            peakEquity := max s.peakEquity equity
            equityCurve := s.equityCurve ++
              [⟨ts, book.balance, equity, unrealised, exposure, book.open_.length⟩]
            previous := some ts })

def marginCall (view : BarSlice) (s : EngineRun) : EngineRun :=
  let (_, book) := env.book.flatten view .marginCall (fun _ => true) s.book
  { s with book := { book with pending := [], pendingCloses := [] }, bankrupt := true }

def account (o : Observed) (s : EngineRun) : AccountState where
  balance := s.book.balance
  equity := o.equity
  currency := env.book.config.accountCcy
  marginUsed := 0
  openPositions := s.book.open_.length
  realisedPnl := s.book.realised
  unrealisedPnl := o.unrealised
  peakEquity := s.peakEquity

def history (ts : Timestamp) (symbol : String) : List Bar :=
  match env.data.get symbol with
  | none => []
  | some f => (f.upTo ts).map FrameRow.bar

def context (d : Decision) (s : EngineRun) : BarContext where
  timestamp := d.view.timestamp
  barIndex := d.index
  account := d.account
  openPositions := s.book.open_.map ManagedPosition.position
  instruments := env.data.keys
  history := env.history d.view.timestamp

def queue (b : PositionBook) (signal : TimedSignal) (instr : Instrument) (size : ℚ) (i : ℕ) :
    PositionBook :=
  let b' := b.nextSeq
  b'.queueEntry
    { seq := b'.seq
      instrument := instr
      direction := signal.direction
      size := size
      stopPrice := signal.stopPrice
      takeProfitPrices := signal.takeProfitPrices
      takeProfitAllocations := signal.takeProfitAllocations
      strategyId := signal.strategyId
      actionableIndex := i + 1 + env.book.latencyBars
      createdIndex := i
      ref := none
      allocations_aligned := fun h => (signal.allocations_ok h).aligned }

def place (sizeFor : SizeFor) (d : Decision) (signal : TimedSignal) (s : EngineRun) : EngineRun :=
  let instr := env.instruments.get signal.instrument
  let size := sizeFor signal instr d.account (env.book.rate instr.quote d.view.timestamp)
  if size ≤ 0 then s.bump "sized_to_zero"
  else { s with
    book := env.queue s.book signal instr size d.index
    ordersSubmitted := s.ordersSubmitted + 1 }

def lockOf (d : Decision) (signal : TimedSignal) (locks : Option EngineLocks) :
    Except EngineError (Option LockReason) :=
  match locks with
  | none => .ok none
  | some l =>
    if signal.timeframe ≠ l.registration.timeframe.value then
      .error (.signalTimeframe signal.timeframe l.registration.timeframe.value)
    else
      match l.book.isLocked env.sessions signal.instrument signal.strategyId d.view.timestamp with
      | .error e => .error (.lock e)
      | .ok lock => .ok lock

def screen (d : Decision) (signal : TimedSignal) (s : EngineRun) :
    Except EngineError (EngineRun × Bool) :=
  if signal.barTime ≠ d.view.timestamp then
    .error (.signalDated signal.barTime d.view.timestamp)
  else if env.data.get signal.instrument = none then .error (.unknownInstrument signal.instrument)
  else
    let (scheduled, book) :=
      s.book.scheduleReversal env.book signal.instrument signal.direction d.index
    let s := { s with book := book }
    if scheduled ≠ [] ∧ env.book.policy.reversal = .closeOnly then
      .ok (s.bump "reversal_close_only", false)
    else if signal.direction = .short ∧
        (env.instruments.get signal.instrument).shortable = false then
      .ok (s.bump "short_not_permitted", false)
    else
      match env.lockOf d signal s.locks with
      | .error e => .error e
      | .ok none => .ok (s, true)
      | .ok (some lock) =>
        .ok ({ s.bump "instrument_lock" with
          lockBlocks := s.lockBlocks ++
            [⟨d.view.timestamp, signal.instrument, signal.strategyId, signal.direction, lock⟩] },
          false)

def takeSignals (d : Decision) : List TimedSignal → EngineRun → List TimedSignal →
    Except EngineError (EngineRun × List TimedSignal)
  | [], s, batch => .ok (s, batch)
  | signal :: rest, s, batch =>
    match env.screen d signal { s with signalsSeen := s.signalsSeen + 1 } with
    | .error e => .error e
    | .ok (s', false) => takeSignals d rest s' batch
    | .ok (s', true) =>
      if env.construction.isSome then takeSignals d rest s' (batch ++ [signal])
      else takeSignals d rest (env.place env.sizer.sizeFor d signal s') batch

def marginUsed (view : BarSlice) (ops : List ManagedPosition) : ℚ :=
  (ops.map fun op =>
    let leverage := if op.instrument.retailLeverage = 0 then 1 else op.instrument.retailLeverage
    let price := (view.lastCloses op.position.instrument).getD op.entryMid
    |price * op.position.size * op.instrument.contractSize * op.entryFx| / leverage).sum

def constructionRequest (d : Decision) (s : EngineRun) (openPositions : List Position)
    (signals : List TimedSignal) : ConstructionRequest where
  asOf := d.view.timestamp
  account := { d.account with marginUsed := marginUsed d.view s.book.open_ }
  openPositions := openPositions
  signals := signals
  accountCcy := env.book.config.accountCcy
  riskCeilingFraction := env.sizer.riskFraction
  rate ccy := env.book.rate ccy d.view.timestamp
  history := env.history d.view.timestamp
  equityCurve := s.equityCurve.map fun row => (row.timestamp, row.equity)
  view := d.view

def decisionFor (decisions : List AllocationDecision) (signalId : String) :
    Option AllocationDecision :=
  decisions.reverse.find? fun a => a.signalId = signalId

def takeBatch (d : Decision) (decisions : List AllocationDecision) :
    List TimedSignal → EngineRun → Except EngineError EngineRun
  | [], s => .ok s
  | signal :: rest, s =>
    match decisionFor decisions signal.signalId with
    | none => .error (.noDecision signal.instrument d.view.timestamp)
    | some a =>
      if a.dropped ∨ a.weight ≤ 0 then takeBatch d decisions rest (s.bump "allocation_dropped")
      else
        takeBatch d decisions rest
          (env.place (env.sizer.allocated (a.baseRiskPct / 100) a.weight) d signal s)

def decideBar (i : ℕ) (o : Observed) (s : EngineRun) : Except EngineError EngineRun :=
  let d : Decision := ⟨i, o.view, env.account o s⟩
  let ctx := env.context d s
  match env.takeSignals d (env.strategy ctx) s [] with
  | .error e => .error e
  | .ok (s', batch) =>
    match env.construction, batch with
    | none, _ => .ok s'
    | some _, [] => .ok s'
    | some policy, batch =>
      env.takeBatch d (policy (env.constructionRequest d s' (s'.book.open_.map
        ManagedPosition.position) batch)) batch s'

def step (i : ℕ) (ts : Timestamp) (s : EngineRun) : Except EngineError EngineRun :=
  match env.observe i ts s with
  | .error e => .error e
  | .ok (o, s') =>
    if o.equity ≤ env.bankruptcyEquity then .ok (env.marginCall o.view s')
    else env.decideBar i o s'

def runBars : List (Timestamp × ℕ) → EngineRun → Except EngineError EngineRun
  | [], s => .ok s
  | (ts, i) :: rest, s =>
    match env.step i ts s with
    | .error e => .error e
    | .ok s' => if s'.bankrupt then .ok s' else runBars rest s'

def start (registration : Option LockRegistration) : EngineRun where
  book := .fresh env.initialBalance
  locks := registration.map fun reg => ⟨reg, .fresh .empty (some reg)⟩
  lockBlocks := []
  peakEquity := env.initialBalance
  signalsSeen := 0
  ordersSubmitted := 0
  equityCurve := []
  previous := none
  bankrupt := false

def closeCurve (balance : ℚ) (curve : List EquityRow) : List EquityRow :=
  match curve.getLast? with
  | none => []
  | some row => curve.dropLast ++ [⟨row.timestamp, balance, balance, 0, 0, 0⟩]

def finish (s : EngineRun) : EngineRun :=
  match env.timeline.getLast? with
  | none => s
  | some ts =>
    if env.closeAtEndOfData ∧ s.book.open_ ≠ [] ∧ s.bankrupt = false then
      let (_, book) := env.book.flatten (env.slice (env.timeline.length - 1) ts s.previous)
        .endOfData (fun _ => true) s.book
      { s with book := book, equityCurve := closeCurve book.balance s.equityCurve }
    else s

/-- `run`, once the engine is built. -/
def run : Except EngineError EngineRun :=
  match env.lockRegistration with
  | .error e => .error e
  | .ok registration =>
    match env.runBars env.timeline.zipIdx (env.start registration) with
    | .error e => .error e
    | .ok s => .ok (env.finish s)

end EngineSetup

end Fiboki
