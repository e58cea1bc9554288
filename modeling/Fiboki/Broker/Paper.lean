import Fiboki.Broker.Base
import Fiboki.Core.Durable
import Fiboki.Backtest.BookRun

/-!
The paper venue: the book of the backtest, driven one bar at a time as a venue, and what a run
of it does once its equity has reached the floor.
-/

namespace Fiboki

open Text Runs

/-- `PaperConfig`, with what its constructor checks. -/
structure PaperConfig where
  initialBalance : ℚ
  accountCcy : String
  profile : ExecutionProfile
  intrabarPolicy : IntrabarPolicy
  maxConcurrent : ℕ
  maxPerInstrument : ℕ
  chargeFinancing : Bool
  financingRolloverHourUtc : ℕ
  bankruptcyEquity : ℚ
  rejectOnStale : Bool
  strategyId : String
  provenance : Provenance
  exitPolicy : ExitPolicy
  balance_pos : 0 < initialBalance
  concurrent_pos : 1 ≤ maxConcurrent
  perInstrument_pos : 1 ≤ maxPerInstrument

/-- What a paper venue is built with, and the registry it reads; `listed` says which symbols the
registry has. -/
structure PaperSetup where
  config : PaperConfig
  fx : (fromCcy toCcy : String) → Timestamp → ℚ
  calendar : Option SessionCalendar
  blackout : Option BlackoutSource
  instruments : Registry
  listed : String → Bool
  positionId : ℕ → String

def PaperSetup.book (setup : PaperSetup) : BookSetup where
  sim :=
    { profile := setup.config.profile
      intrabarPolicy := setup.config.intrabarPolicy
      calendar := setup.calendar.getD alwaysOpenCalendar
      rejectOnStale := setup.config.rejectOnStale
      staleSpreadMultiple := 2 }
  fx := setup.fx
  config :=
    { accountCcy := setup.config.accountCcy
      maxConcurrent := setup.config.maxConcurrent
      maxPerInstrument := setup.config.maxPerInstrument
      chargeFinancing := setup.config.chargeFinancing
      financingRolloverHourUtc := setup.config.financingRolloverHourUtc
      strategyId := setup.config.strategyId
      provenance := setup.config.provenance }
  policy := setup.config.exitPolicy
  blackout := setup.blackout
  latencyBars := setup.config.profile.latencyBars
  financing := some setup.config.profile.financing
  positionId := setup.positionId

/-- `_PaperPending`: the venue-side record of a queued order. -/
structure PaperPending where
  entry : PendingEntry
  order : Order
  brokerRef : String
  ref_truthy : truthy (some brokerRef) = true

theorem PaperPending.ref_of_filled (pending : PaperPending) (status : OrderStatus) :
    status = .filled ∨ status = .partiallyFilled → truthy (some pending.brokerRef) = true :=
  fun _ => pending.ref_truthy

def PaperPending.ack (pending : PaperPending) (status : OrderStatus) (fill : Option Fill)
    (message : String) : OrderAck where
  status := status
  brokerRef := some pending.brokerRef
  clientRef := pending.order.clientRef
  orderId := pending.order.orderId
  fill := fill
  message := message
  rawFilledSize := none
  rawPrice := none
  ref_of_filled := pending.ref_of_filled status

/-- The state of a `PaperBroker`. -/
structure PaperBroker where
  book : PositionBook
  driver : BookDriver
  peakEquity : ℚ
  equity : ℚ
  unrealised : ℚ
  exposure : ℚ
  bankrupt : Bool
  fills : List Fill
  equityCurve : List EquityRow
  seenClientRefs : Dict String String
  planStrategies : Dict String String
  acks : Dict String OrderAck
  pendingBySeq : Dict ℕ PaperPending

def PaperBroker.fresh (initialBalance : ℚ) : PaperBroker :=
  { book := .fresh initialBalance, driver := .fresh, peakEquity := initialBalance
    equity := initialBalance, unrealised := 0, exposure := 0, bankrupt := false, fills := []
    equityCurve := [], seenClientRefs := .empty, planStrategies := .empty, acks := .empty
    pendingBySeq := .empty }

/-- `f"{n:08d}"`. -/
def eightDigits (n : ℕ) : String := String.ofList ((toString n).toList.leftpad 8 '0')

def paperRef (seq : ℕ) : String := "PAPER-" ++ eightDigits seq

def paperCloseRef (seq : ℕ) : String := "PAPER-CLOSE-" ++ eightDigits seq

theorem truthy_append {s : String} (hs : s ≠ "") (t : String) : truthy (some (s ++ t)) = true := by
  have hne : s ++ t ≠ "" := fun h => hs (String.append_eq_empty_iff.1 h).1
  simpa [truthy] using hne

theorem truthy_paperRef (seq : ℕ) : truthy (some (paperRef seq)) = true :=
  truthy_append (by decide) _

/-- `target.position.venue_ref or f"PAPER-CLOSE-{target.seq:08d}"`. -/
def closeRef (op : ManagedPosition) : String :=
  if truthy op.position.venueRef then op.position.venueRef.getD "" else paperCloseRef op.seq

theorem closeRef_of_filled (op : ManagedPosition) :
    OrderStatus.filled = .filled ∨ OrderStatus.filled = .partiallyFilled →
      truthy (some (closeRef op)) = true := by
  intro _
  unfold closeRef
  split_ifs with h
  · exact h
  · exact truthy_append (by decide) _

namespace PaperBroker

def attachRef (p : PaperBroker) (managed : Option ℕ) (brokerRef : String) : PaperBroker :=
  { p with
    book := { p.book with
      open_ := p.book.open_.map fun op =>
        if managed = some op.seq then
          { op with position := { op.position with venueRef := some brokerRef } }
        else op } }

def recordEntry (ts : Timestamp) (p : PaperBroker) (event : EntryEvent) : PaperBroker :=
  match p.pendingBySeq.get event.pending.seq with
  | none => p
  | some pending =>
    let p := { p with pendingBySeq := p.pendingBySeq.erase event.pending.seq }
    match event.fill with
    | none =>
      { p with
        acks := p.acks.set pending.order.clientRef
          (pending.ack .rejected none event.reason) }
    | some fill =>
      let p := p.attachRef event.managed pending.brokerRef
      let recorded : Fill := ⟨fill.filledSize, fill.filledPrice, ts⟩
      { p with
        fills := p.fills ++ [recorded]
        acks := p.acks.set pending.order.clientRef
          (pending.ack .filled (some recorded) "paper_filled") }

def recordEntries (ts : Timestamp) (p : PaperBroker) (entries : List EntryEvent) : PaperBroker :=
  entries.foldl (recordEntry ts) p

end PaperBroker

namespace PaperSetup

variable (setup : PaperSetup)

def unmarked (view : BarSlice) (ops : List ManagedPosition) : String :=
  ((ops.map fun op => op.position.instrument).find? fun s => (view.mark s).isNone).getD ""

def markToMarket (view : BarSlice) (p : PaperBroker) : Except String Unit × PaperBroker :=
  match setup.book.markToMarket view p.book.open_ with
  | none => (.error (unmarked view p.book.open_), p)
  | some (unrealised, exposure) =>
    let equity := p.book.balance + unrealised
    (.ok (), { p with
      unrealised := unrealised
      exposure := exposure
      equity := equity
      peakEquity := max p.peakEquity equity
      equityCurve := p.equityCurve ++ [⟨view.timestamp, p.book.balance, equity, unrealised,
        exposure, p.book.open_.length⟩] })

def noBarYet : String := "force_close_all called before any bar was delivered"

def forceCloseAll (p : PaperBroker) (bars : BarMap) (reason : ExitReason) :
    Except String (List Trade) × PaperBroker :=
  match p.driver.now with
  | none => (.error noBarYet, p)
  | some ts =>
    let view := p.driver.sliceFor bars p.driver.barIndex ts (some ts) noSeries
    let (result, book) := setup.book.flatten view reason (fun _ => true) p.book
    match setup.markToMarket view { p with book := book } with
    | (.error e, p) => (.error e, p)
    | (.ok _, p) => (.ok result.trades, p)

def finish (p : PaperBroker) (bars : BarMap) : Except String (List Trade) × PaperBroker :=
  if p.book.open_ = [] then (.ok [], p) else setup.forceCloseAll p bars .endOfData

def stepBook (p : PaperBroker) (bars : BarMap) (barIndex : ℤ) (timestamp : Option Timestamp)
    (series : Series) : Except String Unit × PaperBroker :=
  match BookDriver.advance setup.book p.driver p.book bars barIndex timestamp series with
  | (.error e, driver, book) => (.error e, { p with driver := driver, book := book })
  | (.ok (result, view), driver, book) =>
    setup.markToMarket view
      (PaperBroker.recordEntries view.timestamp { p with driver := driver, book := book }
        result.entries)

/-- The bankruptcy guard of `on_bar`. -/
def declareBankrupt (p : PaperBroker) (bars : BarMap) : Except String Unit × PaperBroker :=
  match setup.forceCloseAll { p with bankrupt := true } bars .marginCall with
  | (.error e, p) => (.error e, p)
  | (.ok _, p) =>
    (.ok (), { p with
      book := { p.book with pending := [], pendingCloses := [] }
      pendingBySeq := .empty })

def onBar (p : PaperBroker) (bars : BarMap) (barIndex : ℤ) (timestamp : Option Timestamp)
    (series : Series) : Except String Unit × PaperBroker :=
  match setup.stepBook p bars barIndex timestamp series with
  | (.error e, p) => (.error e, p)
  | (.ok _, p) =>
    if p.equity ≤ setup.config.bankruptcyEquity then setup.declareBankrupt p bars else (.ok (), p)

def alreadySubmitted (clientRef brokerRef : String) : Raised :=
  ⟨.duplicateClientRef, "client_ref " ++ pyRepr clientRef ++
    " already submitted to the paper venue as " ++ brokerRef⟩

def noPriceYet : Raised :=
  ⟨.other "ValueError", "place_order before the first bar: the venue has no price yet"⟩

def strategyFor (p : PaperBroker) (planId : String) : String :=
  if truthy (p.planStrategies.get planId) then (p.planStrategies.get planId).getD ""
  else setup.config.strategyId

/-- `place_order`.  The number and the reference are taken before the symbol is looked up. -/
def placeOrder (p : PaperBroker) (order : Order) : Except Raised OrderAck × PaperBroker :=
  match p.seenClientRefs.get order.clientRef with
  | some brokerRef => (.error (alreadySubmitted order.clientRef brokerRef), p)
  | none =>
    if p.driver.barIndex < 0 then (.error noPriceYet, p)
    else
      let book := p.book.nextSeq
      let p := { p with
        book := book
        seenClientRefs := p.seenClientRefs.set order.clientRef (paperRef book.seq) }
      if setup.listed order.instrument then
        let (entry, queued) := queuePendingEntry setup.instruments book order.terms
          p.driver.barIndex setup.config.profile.latencyBars (setup.strategyFor p order.planId)
          (some (paperRef book.seq)) (some book.seq)
        let pending : PaperPending := ⟨entry, order, paperRef book.seq, truthy_paperRef book.seq⟩
        let ack := pending.ack .accepted none "queued_for_next_bar_open"
        (.ok ack, { p with
          book := queued
          pendingBySeq := p.pendingBySeq.set book.seq pending
          acks := p.acks.set order.clientRef ack })
      else (.error ⟨.other "KeyError", pyRepr (unknownInstrument order.instrument)⟩, p)

def noOpenPosition (position : Position) : Raised :=
  ⟨.other "KeyError", pyRepr ("No open paper position " ++ position.positionId)⟩

def noBarToClose (symbol : String) : Raised :=
  ⟨.other "ValueError", "No bar available to close " ++ symbol⟩

def closeAck (op : ManagedPosition) (result : AdvanceResult) (ts : Timestamp)
    (clientRef reason : String) : OrderAck where
  status := .filled
  brokerRef := some (closeRef op)
  clientRef := clientRef
  orderId := clientRef
  fill := match result.legs.getLast?, result.fills.getLast? with
    | some leg, some fill => some ⟨leg.size, fill.exitPrice, ts⟩
    | _, _ => none
  message := if reason = "" then "closed" else reason
  rawFilledSize := none
  rawPrice := none
  ref_of_filled := closeRef_of_filled op

/-- `close_position`.  Where the instrument has a last bar the driver has a time as well. -/
def closePosition (p : PaperBroker) (position : Position) (clientRef reason : String) :
    Except Raised OrderAck × PaperBroker :=
  match p.book.open_.find? fun op => op.position.positionId = position.positionId with
  | none => (.error (noOpenPosition position), p)
  | some target =>
    match p.driver.lastBars.get target.position.instrument, p.driver.now with
    | some _, some ts =>
      let view := p.driver.sliceFor .empty p.driver.barIndex ts (some ts) noSeries
      let (result, book) := setup.book.flatten view .riskHalt (fun op => op.seq = target.seq) p.book
      match setup.markToMarket view { p with book := book } with
      | (.error e, p) => (.error ⟨.other "KeyError", e⟩, p)
      | (.ok _, p) => (.ok (closeAck target result ts clientRef reason), p)
    | _, _ => (.error (noBarToClose target.position.instrument), p)

/-- `close_partial`, which the paper venue inherits. -/
def closePartial (p : PaperBroker) : Except Raised OrderAck × PaperBroker :=
  (.error ⟨.amendNotSupported, "PaperBroker cannot partially close a position. A multi-leg " ++
    "scale-out cannot be managed on this venue."⟩, p)

/-- `amend_position`, which the paper venue inherits. -/
def amendPosition (p : PaperBroker) : Except Raised OrderAck × PaperBroker :=
  (.error ⟨.amendNotSupported, "PaperBroker cannot amend a resting stop or target. A strategy " ++
    "whose exit policy needs more than the one stop and one limit attached at entry cannot be " ++
    "managed on this venue."⟩, p)

def orders (p : PaperBroker) : List OrderAck :=
  p.pendingBySeq.entries.map fun e => e.2.ack .accepted none "working"

def adapter : BrokerAdapter PaperBroker where
  venueName := "paper"
  orders p := (.ok (orders p), p)
  positions p := (.ok (p.book.open_.map ManagedPosition.position), p)
  placeOrder order p := setup.placeOrder p order
  closePosition position clientRef reason p := setup.closePosition p position clientRef reason
  amendPosition _ _ _ _ _ p := amendPosition p
  closePartial _ _ _ _ p := closePartial p

end PaperSetup

inductive PaperCall where
  | onBar (bars : BarMap) (barIndex : ℤ) (timestamp : Option Timestamp) (series : Series)
  | placeOrder (order : Order)
  | closePosition (position : Position) (clientRef reason : String)
  | closePartial (position : Position) (size : ℚ) (clientRef reason : String)
  | amendPosition (position : Position) (stopLoss takeProfit : Option ℚ)
      (clientRef reason : String)
  | forceCloseAll (bars : BarMap) (reason : ExitReason)
  | finish (bars : BarMap)
  | registerPlan (planId strategyId : String)
  | setBarInterval (symbol : String) (interval : Timedelta)

namespace PaperSetup

variable (setup : PaperSetup)

def call (p : PaperBroker) : PaperCall → PaperBroker
  | .onBar bars barIndex timestamp series =>
    (setup.onBar p bars barIndex timestamp series).2
  | .placeOrder order => (setup.placeOrder p order).2
  | .closePosition position clientRef reason => (setup.closePosition p position clientRef reason).2
  | .closePartial _ _ _ _ => (closePartial p).2
  | .amendPosition _ _ _ _ _ => (amendPosition p).2
  | .forceCloseAll bars reason => (setup.forceCloseAll p bars reason).2
  | .finish bars => (setup.finish p bars).2
  | .registerPlan planId strategyId =>
    { p with planStrategies := p.planStrategies.set planId strategyId }
  | .setBarInterval symbol interval => { p with driver := p.driver.setBarInterval symbol interval }

def run (calls : List PaperCall) : PaperBroker :=
  exec setup.call (.fresh setup.config.initialBalance) calls

end PaperSetup

structure PositionBook.Flat (b : PositionBook) : Prop where
  open_nil : b.open_ = []
  closes_nil : b.pendingCloses = []

namespace BookSetup

variable (env : BookSetup)

variable (v : BarSlice) {b : PositionBook}

theorem chargeFinancing_nil (h : b.open_ = []) : env.chargeFinancing v b = (.ok (), b) := by
  cases hfinancing : env.financing with
  | none => simp only [chargeFinancing, hfinancing]
  | some financing =>
    simp only [chargeFinancing, hfinancing, h, chargeEach]
    split_ifs
    · rfl
    · rw [← h]

variable {t : Turn}

theorem runPendingCloses_flat (h : t.book.Flat) : env.runPendingCloses v t = t := by
  simp only [runPendingCloses, h.closes_nil, h.open_nil, runCloses]
  rw [← h.open_nil, ← h.closes_nil]

theorem fillEntries_nil (h : t.book.pending = []) : env.fillEntries v t = t := by
  simp only [fillEntries, h, fillEach]
  rw [← h]

theorem resolveExits_nil (h : t.book.open_ = []) : env.resolveExits v t = t := by
  simp only [resolveExits, h, resolveEach]
  rw [← h]

theorem advance_flat (h : b.Flat) (hpending : b.pending = []) :
    ∃ result, env.advance v b = (.ok result, b) ∧ result.entries = [] := by
  have hcloses : env.runPendingCloses v ⟨b, .empty⟩ = ⟨b, .empty⟩ := env.runPendingCloses_flat v h
  have hentries : env.fillEntries v ⟨b, .empty⟩ = ⟨b, .empty⟩ := env.fillEntries_nil v hpending
  have hexits : env.resolveExits v ⟨b, .empty⟩ = ⟨b, .empty⟩ := env.resolveExits_nil v h.open_nil
  simp only [advance, env.chargeFinancing_nil v h.open_nil, hcloses, hentries, hexits]
  exact ⟨_, rfl, rfl⟩

variable (reason : ExitReason)

theorem flatten_nil (which : ManagedPosition → Bool)
    (h : b.open_ = []) : (env.flatten v reason which b).2 = b := by
  simp only [flatten, h, List.filter_nil, flattenEach]

variable {op : ManagedPosition}

theorem flattenEach_left (t : Turn) (ops : List ManagedPosition)
    (h : op ∈ (env.flattenEach v reason t ops).book.open_) (hop : op ∈ ops) :
    v.barOrLast op.position.instrument = none := by
  induction ops generalizing t with
  | nil => cases hop
  | cons first rest ih =>
    simp only [flattenEach] at h
    cases hbar : v.barOrLast first.position.instrument with
    | none =>
      simp only [hbar] at h
      rcases List.mem_cons.1 hop with rfl | hrest
      · exact hbar
      · exact ih t h hrest
    | some bar =>
      simp only [hbar] at h
      rcases List.mem_cons.1 hop with rfl | hrest
      · have hkept := (env.flattenEach_keeps v reason _ rest).2.2.2.subset h
        simp at hkept
      · exact ih _ h hrest

theorem mark_of_markToMarket {v : BarSlice} {ops : List ManagedPosition}
    (h : env.markToMarket v ops ≠ none) (hop : op ∈ ops) :
    v.mark op.position.instrument ≠ none := by
  induction ops with
  | nil => cases hop
  | cons first rest ih =>
    simp only [markToMarket] at h
    cases hmark : v.mark first.position.instrument with
    | none => simp [hmark] at h
    | some mark =>
      cases hrest : env.markToMarket v rest with
      | none => simp [hmark, hrest] at h
      | some totals =>
        rcases List.mem_cons.1 hop with rfl | htail
        · simp [hmark]
        · exact ih (by simp [hrest]) htail

end BookSetup

theorem BookDriver.mark_eq_none_iff (d : BookDriver) (bars : BarMap) (barIndex : ℤ) (ts : Timestamp)
    (previous : Option Timestamp) (series : Series) (symbol : String) :
    (d.sliceFor bars barIndex ts previous series).mark symbol = none ↔
      (d.sliceFor bars barIndex ts previous series).barOrLast symbol = none := by
  unfold BarSlice.mark BarSlice.barOrLast BookDriver.sliceFor
  dsimp only
  cases bars.get symbol <;> simp

namespace PaperBroker

structure SameLedger (p q : PaperBroker) : Prop where
  trades : q.book.trades = p.book.trades
  exitLegs : q.book.exitLegs = p.book.exitLegs
  fills : q.fills = p.fills

theorem SameLedger.refl (p : PaperBroker) : SameLedger p p := ⟨rfl, rfl, rfl⟩

theorem SameLedger.trans {p q r : PaperBroker} (h : SameLedger p q) (h' : SameLedger q r) :
    SameLedger p r :=
  ⟨h'.trades.trans h.trades, h'.exitLegs.trans h.exitLegs, h'.fills.trans h.fills⟩

theorem SameLedger.of_book {p q : PaperBroker} (hbook : q.book = p.book)
    (hfills : q.fills = p.fills) :
    SameLedger p q :=
  ⟨congrArg PositionBook.trades hbook, congrArg PositionBook.exitLegs hbook, hfills⟩

def Quiet (p : PaperBroker) : PaperCall → Prop
  | .onBar _ _ _ _ => p.book.pending = []
  | _ => True

end PaperBroker

namespace PaperSetup

open PaperBroker

variable (setup : PaperSetup) {p : PaperBroker}

theorem markToMarket_keeps (view : BarSlice) (p : PaperBroker) :
    (setup.markToMarket view p).2.book = p.book ∧
      (setup.markToMarket view p).2.fills = p.fills := by
  unfold markToMarket
  split <;> exact ⟨rfl, rfl⟩

theorem forceCloseAll_flat (h : p.book.open_ = []) (bars : BarMap) (reason : ExitReason) :
    (setup.forceCloseAll p bars reason).2.book = p.book ∧
      (setup.forceCloseAll p bars reason).2.fills = p.fills := by
  unfold forceCloseAll
  split
  · exact ⟨rfl, rfl⟩
  · rename_i ts hnow
    have hbook := setup.book.flatten_nil (p.driver.sliceFor bars p.driver.barIndex ts (some ts)
      noSeries) reason (fun _ => true) h
    dsimp only
    rw [hbook]
    have hkeeps := setup.markToMarket_keeps (p.driver.sliceFor bars p.driver.barIndex ts (some ts)
      noSeries) { p with book := p.book }
    split <;> rename_i hmarked <;> rw [hmarked] at hkeeps <;> exact hkeeps

theorem stepBook_flat (h : p.book.Flat) (hpending : p.book.pending = []) (bars : BarMap)
    (barIndex : ℤ) (timestamp : Option Timestamp) (series : Series) :
    (setup.stepBook p bars barIndex timestamp series).2.book = p.book ∧
      (setup.stepBook p bars barIndex timestamp series).2.fills = p.fills := by
  unfold stepBook BookDriver.advance
  by_cases hindex : barIndex ≤ p.driver.barIndex
  · rw [if_pos hindex]
    exact ⟨rfl, rfl⟩
  rw [if_neg hindex]
  cases BookDriver.stepTime bars timestamp with
  | none => exact ⟨rfl, rfl⟩
  | some ts =>
    dsimp only
    generalize BookDriver.sliceFor _ bars barIndex ts p.driver.now series = view
    obtain ⟨result, hadvance, hentries⟩ := setup.book.advance_flat view h hpending
    rw [hadvance]
    dsimp only [Except.map]
    rw [hentries]
    exact setup.markToMarket_keeps view _

theorem onBar_flat (h : p.book.Flat) (hpending : p.book.pending = []) (bars : BarMap) (barIndex : ℤ)
    (timestamp : Option Timestamp) (series : Series) :
    (setup.onBar p bars barIndex timestamp series).2.book.Flat ∧
      SameLedger p (setup.onBar p bars barIndex timestamp series).2 := by
  obtain ⟨hbook, hfills⟩ := setup.stepBook_flat h hpending bars barIndex timestamp series
  unfold onBar
  generalize setup.stepBook p bars barIndex timestamp series = stepped at hbook hfills
  obtain ⟨outcome, q⟩ := stepped
  have hsame : SameLedger p q := .of_book hbook hfills
  have hflat : q.book.Flat := by rw [hbook]; exact h
  cases outcome with
  | error e => exact ⟨hflat, hsame⟩
  | ok _ =>
    dsimp only
    split_ifs with hfloor
    · have hclosed := setup.forceCloseAll_flat (p := { q with bankrupt := true }) hflat.open_nil
        bars .marginCall
      unfold declareBankrupt
      generalize setup.forceCloseAll { q with bankrupt := true } bars .marginCall = closed
        at hclosed
      obtain ⟨outcome, r⟩ := closed
      have hledger : SameLedger p r := hsame.trans (.of_book hclosed.1 hclosed.2)
      cases outcome with
      | error e =>
        refine ⟨?_, hledger⟩
        rw [hclosed.1]
        exact hflat
      | ok _ =>
        refine ⟨⟨?_, rfl⟩, ⟨hledger.trades, hledger.exitLegs, hledger.fills⟩⟩
        exact (congrArg PositionBook.open_ hclosed.1).trans hflat.open_nil
    · exact ⟨hflat, hsame⟩

theorem placeOrder_flat (h : p.book.Flat) (order : Order) :
    (setup.placeOrder p order).2.book.Flat ∧ SameLedger p (setup.placeOrder p order).2 := by
  unfold placeOrder
  split
  · exact ⟨h, .refl p⟩
  · split
    · exact ⟨h, .refl p⟩
    · dsimp only
      split
      · exact ⟨⟨h.open_nil, h.closes_nil⟩, ⟨rfl, rfl, rfl⟩⟩
      · exact ⟨⟨h.open_nil, h.closes_nil⟩, ⟨rfl, rfl, rfl⟩⟩

theorem closePosition_flat (h : p.book.open_ = []) (position : Position)
    (clientRef reason : String) : (setup.closePosition p position clientRef reason).2 = p := by
  simp only [closePosition, h, List.find?_nil]

theorem call_flat (h : p.book.Flat) (call : PaperCall) (hquiet : Quiet p call) :
    (setup.call p call).book.Flat ∧ SameLedger p (setup.call p call) := by
  cases call with
  | onBar bars barIndex timestamp series =>
    exact setup.onBar_flat h hquiet bars barIndex timestamp series
  | placeOrder order => exact setup.placeOrder_flat h order
  | closePosition position clientRef reason =>
    rw [PaperSetup.call, setup.closePosition_flat h.open_nil]
    exact ⟨h, .refl p⟩
  | closePartial | amendPosition => exact ⟨h, .refl p⟩
  | forceCloseAll bars reason =>
    obtain ⟨hbook, hfills⟩ := setup.forceCloseAll_flat h.open_nil bars reason
    refine ⟨?_, .of_book hbook hfills⟩
    rw [PaperSetup.call, hbook]
    exact h
  | finish bars =>
    have hidle : setup.finish p bars = (.ok [], p) := if_pos h.open_nil
    rw [PaperSetup.call, hidle]
    exact ⟨h, .refl p⟩
  | registerPlan | setBarInterval => exact ⟨⟨h.open_nil, h.closes_nil⟩, ⟨rfl, rfl, rfl⟩⟩

theorem exec_flat (h : p.book.Flat) {later : List PaperCall}
    (hquiet : Along Quiet setup.call p later) :
    (exec setup.call p later).book.Flat ∧ SameLedger p (exec setup.call p later) :=
  Along.invariant (I := fun q => q.book.Flat ∧ SameLedger p q)
    (fun _ call hq hcall =>
      have hstep := setup.call_flat hq.1 call hcall
      ⟨hstep.1, hq.2.trans hstep.2⟩)
    ⟨h, .refl p⟩ hquiet

variable (bars : BarMap)

theorem forceCloseAll_open (reason : ExitReason)
    (h : ∃ trades, (setup.forceCloseAll p bars reason).1 = .ok trades) :
    (setup.forceCloseAll p bars reason).2.book.open_ = [] := by
  unfold forceCloseAll at h ⊢
  cases hnow : p.driver.now with
  | none => simp [hnow] at h
  | some ts =>
    simp only [hnow] at h ⊢
    generalize hview : p.driver.sliceFor bars p.driver.barIndex ts (some ts) noSeries = view at h ⊢
    have hleft : ∀ op ∈ (setup.book.flatten view reason (fun _ => true) p.book).2.open_,
        view.barOrLast op.position.instrument = none := by
      intro op hop
      have hmem : op ∈ p.book.open_ :=
        (setup.book.flattenEach_keeps view reason _ _).2.2.2.subset hop
      refine setup.book.flattenEach_left view reason _ _ hop ?_
      simpa using hmem
    generalize setup.book.flatten view reason (fun _ => true) p.book = flattened at h hleft ⊢
    obtain ⟨result, book⟩ := flattened
    dsimp only at h hleft ⊢
    unfold markToMarket at h ⊢
    dsimp only at h ⊢
    cases hmarked : setup.book.markToMarket view book.open_ with
    | none => simp [hmarked] at h
    | some totals =>
      refine List.eq_nil_iff_forall_not_mem.2 fun op hop => ?_
      have hmark := setup.book.mark_of_markToMarket (by rw [hmarked]; simp) hop
      rw [← hview] at hmark hleft
      exact hmark ((p.driver.mark_eq_none_iff bars _ ts _ _ _).2 (hleft op hop))

theorem onBar_ruined (barIndex : ℤ) (timestamp : Option Timestamp) (series : Series)
    (hreturned : (setup.onBar p bars barIndex timestamp series).1 = .ok ())
    (hruined : (setup.onBar p bars barIndex timestamp series).2.equity ≤
      setup.config.bankruptcyEquity) :
    (setup.onBar p bars barIndex timestamp series).2.book.Flat := by
  unfold onBar at hreturned hruined ⊢
  generalize setup.stepBook p bars barIndex timestamp series = stepped at hreturned hruined ⊢
  obtain ⟨outcome, q⟩ := stepped
  cases outcome with
  | error e => cases hreturned
  | ok _ =>
    dsimp only at hreturned hruined ⊢
    split_ifs at hreturned hruined ⊢ with hfloor
    · unfold declareBankrupt at hreturned ⊢
      have hopen := setup.forceCloseAll_open (p := { q with bankrupt := true }) bars .marginCall
      generalize setup.forceCloseAll { q with bankrupt := true } bars .marginCall = closed
        at hreturned hopen ⊢
      obtain ⟨outcome, r⟩ := closed
      cases outcome with
      | error e => cases hreturned
      | ok trades => exact ⟨hopen ⟨trades, rfl⟩, rfl⟩
    · exact absurd hruined hfloor

/-- Once a bar has returned with the equity at or below the floor, a venue that takes no bar over a
pending entry holds no position, and writes no trade, leg or fill. -/
theorem bankruptcy_terminal {calls : List PaperCall} {bars : BarMap} {barIndex : ℤ}
    {timestamp : Option Timestamp} {series : Series} {later : List PaperCall}
    (hreturned : (setup.onBar (setup.run calls) bars barIndex timestamp series).1 = .ok ())
    (hruined : (setup.onBar (setup.run calls) bars barIndex timestamp series).2.equity ≤
      setup.config.bankruptcyEquity)
    (hquiet : Along Quiet setup.call
      (setup.run (calls ++ [.onBar bars barIndex timestamp series])) later) :
    (setup.run (calls ++ [.onBar bars barIndex timestamp series] ++ later)).book.open_ = [] ∧
      SameLedger (setup.run (calls ++ [.onBar bars barIndex timestamp series]))
        (setup.run (calls ++ [.onBar bars barIndex timestamp series] ++ later)) := by
  have hfired : setup.run (calls ++ [.onBar bars barIndex timestamp series]) =
      (setup.onBar (setup.run calls) bars barIndex timestamp series).2 :=
    exec_append _ _ _
  have hflat : (setup.run (calls ++ [.onBar bars barIndex timestamp series])).book.Flat := by
    rw [hfired]
    exact setup.onBar_ruined bars barIndex timestamp series hreturned hruined
  obtain ⟨hlater, hledger⟩ := setup.exec_flat hflat hquiet
  have hrun : setup.run (calls ++ [.onBar bars barIndex timestamp series] ++ later) =
      exec setup.call (setup.run (calls ++ [.onBar bars barIndex timestamp series])) later :=
    exec_append _ _ _
  rw [hrun]
  exact ⟨hlater.open_nil, hledger⟩

end PaperSetup

namespace PaperSample

open Frictionless PaperBroker

theorem hundred_pos : (0 : ℚ) < 100 := by norm_num

theorem one_each : 1 ≤ 1 := le_rfl

def config : PaperConfig where
  initialBalance := 100
  accountCcy := "USD"
  profile := profile
  intrabarPolicy := .stopFirst
  maxConcurrent := 1
  maxPerInstrument := 1
  chargeFinancing := true
  financingRolloverHourUtc := 21
  bankruptcyEquity := 0
  rejectOnStale := false
  strategyId := "s"
  provenance := .paper
  exitPolicy := defaultExitPolicy
  balance_pos := hundred_pos
  concurrent_pos := one_each
  perInstrument_pos := one_each

def setup : PaperSetup where
  config := config
  fx _ _ _ := 1
  calendar := none
  blackout := none
  instruments := instruments
  listed _ := true
  positionId _ := "pos"

def longOf (clientRef : String) (h : clientRef ≠ "") (size : ℚ) : Order where
  planId := "p"
  instrument := "EURUSD"
  direction := .long
  size := size
  orderType := .market
  mode := .paper
  clientRef := clientRef
  stopLoss := some (1 / 2)
  takeProfit := none
  takeProfitPrices := []
  takeProfitAllocations := []
  createdAt := 0
  orderId := "o"
  clientRef_nonempty := h
  allocations_aligned := BookSample.no_targets_aligned

theorem first_nonempty : "FBK-1" ≠ "" := by decide

theorem second_nonempty : "FBK-2" ≠ "" := by decide

def hourBar (index : ℕ) (price : ℚ) : PaperCall :=
  .onBar (barsAt "EURUSD" (index * hourNs) price) index none noSeries

def losing : List PaperCall :=
  [hourBar 0 2, .placeOrder (longOf "FBK-1" first_nonempty 100), hourBar 1 2]

theorem rising_coherent : (1 : ℚ) ≤ 1 ∧ (1 : ℚ) ≤ 2 ∧ (1 : ℚ) ≤ 2 ∧ (2 : ℚ) ≤ 2 := by norm_num

def risingBar (index : ℕ) : PaperCall :=
  .onBar ⟨[("EURUSD", BookSample.barOf (index * hourNs) 1 2 1 2 rising_coherent)],
    List.nodup_singleton "EURUSD"⟩ index none noSeries

/-- The price halves, and the account is gone; nothing is bought again. -/
theorem halved_terminal : (setup.run (losing ++ [hourBar 2 1] ++ [hourBar 3 1])).book.open_ = [] ∧
      SameLedger (setup.run (losing ++ [hourBar 2 1]))
        (setup.run (losing ++ [hourBar 2 1] ++ [hourBar 3 1])) := by
  have hquiet : (setup.run (losing ++ [hourBar 2 1])).book.pending = [] := by decide +kernel
  exact setup.bankruptcy_terminal (by decide +kernel) (by decide +kernel) ⟨hquiet, trivial⟩

/-- After the price has halved and the account is gone, the venue takes an order and opens it. -/
theorem bankrupt_reopens :
    ¬ ∀ (setup : PaperSetup) (calls later : List PaperCall) (bars : BarMap) (barIndex : ℤ)
      (timestamp : Option Timestamp) (series : Series),
      (setup.onBar (setup.run calls) bars barIndex timestamp series).1 = .ok () →
      (setup.onBar (setup.run calls) bars barIndex timestamp series).2.equity ≤
        setup.config.bankruptcyEquity →
      (setup.run (calls ++ [.onBar bars barIndex timestamp series] ++ later)).book.open_ = [] := by
  intro hclaim
  have hopen := hclaim setup losing [.placeOrder (longOf "FBK-2" second_nonempty 10), risingBar 3]
    (barsAt "EURUSD" ((2 : ℕ) * hourNs) 1) (2 : ℕ) none noSeries
    (by decide +kernel) (by decide +kernel)
  exact absurd hopen (by decide +kernel)

end PaperSample

end Fiboki
