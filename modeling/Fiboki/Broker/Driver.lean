import Fiboki.Backtest.Book

/-!
The per-bar mechanics that every caller of a book shares: the bar counter, the
previous bar times, the declared intervals and the last bar of each instrument.
-/

namespace Fiboki

structure BarMap where
  entries : List (String × Bar)
  nodup : (entries.map Prod.fst).Nodup

namespace BarMap

def get (bars : BarMap) (symbol : String) : Option Bar := Dict.lookup symbol bars.entries

def empty : BarMap := ⟨[], List.nodup_nil⟩

end BarMap

abbrev Series := String → String → Option ℚ

def noSeries : Series := fun _ _ => none

structure BookDriver where
  barIndex : ℤ
  now : Option Timestamp
  lastBars : Dict String Bar
  previousTimes : Dict String Timestamp
  intervals : Dict String Timedelta

namespace BookDriver

def fresh : BookDriver := ⟨-1, none, .empty, .empty, .empty⟩

def setBarInterval (d : BookDriver) (symbol : String) (interval : Timedelta) : BookDriver :=
  { d with intervals := d.intervals.set symbol interval }

/-- `slice_for`, once its defaults are filled in. -/
def sliceFor (d : BookDriver) (bars : BarMap) (barIndex : ℤ) (timestamp : Timestamp)
    (previousTimestamp : Option Timestamp) (series : Series) : BarSlice where
  index := barIndex
  timestamp := timestamp
  bars := bars.get
  previousTimestamp := previousTimestamp
  previousTimes := d.previousTimes.get
  intervals := d.intervals.get
  lastCloses symbol := (d.lastBars.get symbol).map Bar.close
  carriedBars := d.lastBars.get
  series := series

def noTimestamp : String := "slice_for needs a timestamp; no bar has arrived yet"

/-- The slice of a call outside `advance`. -/
def sliceNow (d : BookDriver) (bars : BarMap) : Except String BarSlice :=
  match d.now with
  | none => .error noTimestamp
  | some ts => .ok (d.sliceFor bars d.barIndex ts none noSeries)

def rollBar (d : BookDriver) (entry : String × Bar) : BookDriver :=
  { d with
    previousTimes := match d.lastBars.get entry.1 with
      | some last => d.previousTimes.set entry.1 last.timestamp
      | none => d.previousTimes
    lastBars := d.lastBars.set entry.1 entry.2 }

def roll (d : BookDriver) (bars : BarMap) : BookDriver := bars.entries.foldl rollBar d

def notMonotonic (barIndex last : ℤ) : String :=
  "bars must advance monotonically; got " ++ toString barIndex ++ " after " ++ toString last ++
    ". Replaying a bar would double-charge financing."

def noBars : String := "advance needs either bars or an explicit timestamp"

def stepTime (bars : BarMap) (timestamp : Option Timestamp) : Option Timestamp :=
  timestamp <|> bars.entries.head?.map fun e => e.2.timestamp

/-- `advance`: the driver is rolled before anything is priced, and stays rolled
when the book raises. -/
def advance (env : BookSetup) (d : BookDriver) (b : PositionBook) (bars : BarMap) (barIndex : ℤ)
    (timestamp : Option Timestamp) (series : Series) :
    Except String (AdvanceResult × BarSlice) × BookDriver × PositionBook :=
  if barIndex ≤ d.barIndex then (.error (notMonotonic barIndex d.barIndex), d, b)
  else
    match stepTime bars timestamp with
    | none => (.error noBars, d, b)
    | some ts =>
      let d' := { d with barIndex := barIndex, now := some ts }.roll bars
      let view := d'.sliceFor bars barIndex ts d.now series
      let (outcome, b') := env.advance view b
      (outcome.map fun result => (result, view), d', b')

end BookDriver

/-- What `queue_pending_entry` is told of an order. -/
structure EntryTerms where
  instrument : String
  direction : Direction
  size : ℚ
  stopLoss : Option ℚ
  takeProfit : Option ℚ
  takeProfitPrices : List ℚ
  takeProfitAllocations : List ℚ
  allocations_aligned : takeProfitAllocations ≠ [] →
    takeProfitAllocations.length = takeProfitPrices.length

def Order.terms (order : Order) : EntryTerms where
  instrument := order.instrument
  direction := order.direction
  size := order.size
  stopLoss := order.stopLoss
  takeProfit := order.takeProfit
  takeProfitPrices := order.takeProfitPrices
  takeProfitAllocations := order.takeProfitAllocations
  allocations_aligned := order.allocations_aligned

namespace EntryTerms

/-- An order that names only `take_profit` has one full-size target. -/
def prices (terms : EntryTerms) : List ℚ :=
  if terms.takeProfitPrices = [] then terms.takeProfit.toList else terms.takeProfitPrices

theorem prices_aligned (terms : EntryTerms) (h : terms.takeProfitAllocations ≠ []) :
    terms.takeProfitAllocations.length = terms.prices.length := by
  have halign := terms.allocations_aligned h
  unfold prices
  by_cases hp : terms.takeProfitPrices = []
  · rw [hp, List.length_nil, List.length_eq_zero_iff] at halign
    exact absurd halign h
  · rw [if_neg hp]
    exact halign

def entry (terms : EntryTerms) (instruments : Registry) (barIndex : ℤ) (latencyBars : ℕ)
    (strategyId : String) (ref : Option String) (seq : ℕ) : PendingEntry where
  seq := seq
  instrument := instruments.get terms.instrument
  direction := terms.direction
  size := terms.size
  stopPrice := terms.stopLoss.getD 0
  takeProfitPrices := terms.prices
  takeProfitAllocations := terms.takeProfitAllocations
  strategyId := strategyId
  actionableIndex := barIndex + 1 + latencyBars
  createdIndex := barIndex
  ref := ref
  allocations_aligned := terms.prices_aligned

end EntryTerms

/-- `queue_pending_entry`: the number is the book's next one unless the caller has
taken it already. -/
def queuePendingEntry (instruments : Registry) (b : PositionBook) (terms : EntryTerms)
    (barIndex : ℤ) (latencyBars : ℕ) (strategyId : String) (ref : Option String)
    (seq : Option ℕ) : PendingEntry × PositionBook :=
  let b' := match seq with
    | none => b.nextSeq
    | some _ => b
  let entry := terms.entry instruments barIndex latencyBars strategyId ref (seq.getD b'.seq)
  (entry, b'.queueEntry entry)

namespace Frictionless

def instrumentOf (symbol : String) : Instrument where
  symbol := symbol
  assetClass := .fxMajor
  quote := "USD"
  pipSize := 1 / 10000
  contractSize := 1
  minSize := 1
  sizeStep := 1
  typicalSpreadPips := 1
  typicalSpreadBps := none
  retailLeverage := 30
  tradingHours := "24_7"
  shortable := true

def instruments : Registry where
  get := instrumentOf
  get_symbol _ := rfl

def profile : ExecutionProfile where
  spread := .fixedPip 0
  slippage := .noSlippage
  commission := ⟨0, 0, 0, 0, "quote"⟩
  financing := ⟨0, 0, 365, "quote"⟩
  minDealSize := 0
  minStopDistancePips := 0
  minStopByAssetClass := none
  minStopPolicy := .allow
  guaranteedStopPremiumPips := 0
  useGuaranteedStops := false
  partialFillProbability := 0
  partialFillMinFraction := 1
  rejectionProbability := 0
  latencyBars := 0
  stalePriceMaxGapMultiple := 3
  seed := 0
  entropy _ _ _ := ⟨fun _ => 0, fun _ low _ => low, 0⟩

def book : BookSetup where
  sim := ⟨profile, .stopFirst, alwaysOpenCalendar, false, 1⟩
  fx _ _ _ := 1
  config := ⟨"USD", 4, 4, false, 21, "s", .paper⟩
  policy := defaultExitPolicy
  blackout := none
  latencyBars := 0
  financing := none
  positionId _ := "pos"

def flatBar (timestamp : Timestamp) (price : ℚ) : Bar :=
  ⟨timestamp, price, price, price, price, le_rfl, le_rfl, le_rfl, le_rfl⟩

def barsAt (symbol : String) (timestamp : Timestamp) (price : ℚ) : BarMap :=
  ⟨[(symbol, flatBar timestamp price)], List.nodup_singleton symbol⟩

end Frictionless

end Fiboki
