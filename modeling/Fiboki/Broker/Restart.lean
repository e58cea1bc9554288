import Fiboki.Backtest.Snapshot
import Fiboki.Broker.BookFrames
import Fiboki.Broker.PendingCloses

/-!
The durable state of a manager: the book, the timeline and both pictures of
every position.

Restarts: a manager restored from what another wrote behaves as that one would
have gone on behaving.
-/

namespace Fiboki

open Wire

section

variable (iso : IsoFormat) (instruments : Registry)

def barToState (bar : Bar) : Value :=
  .list [tsToState iso bar.timestamp, .num bar.open_, .num bar.high, .num bar.low, .num bar.close]

def barFromState (v : Value) : Except String Bar := do
  match ← v.items with
  | [ts, o, h, l, c] =>
    let timestamp ← tsFromState iso ts
    let open_ ← o.float
    let high ← h.float
    let low ← l.float
    let close ← c.float
    if hc : low ≤ open_ ∧ open_ ≤ high ∧ low ≤ close ∧ close ≤ high then
      return ⟨timestamp, open_, high, low, close, hc⟩
    else throw "Incoherent bar"
  | _ => throw "a bar is a timestamp and four prices"

theorem barFromState_barToState (bar : Bar) : barFromState iso (barToState iso bar) = .ok bar := by
  unfold barFromState barToState
  simp only [Value.items, ok_bind, tsFromState_tsToState, Value.float_num]
  exact dif_pos bar.coherent

def intentToState (intent : VenueIntent) : Value :=
  .list [writeOption .num intent.stopLoss, writeOption .num intent.takeProfit]

def intentFromState (v : Value) : Except String VenueIntent := do
  match ← v.items with
  | [stop, limit] =>
    return ⟨← readOption Value.float stop, ← readOption Value.float limit⟩
  | _ => throw "an intent is a stop and a limit"

theorem intentFromState_intentToState (intent : VenueIntent) :
    intentFromState (intentToState intent) = .ok intent := by
  simp [intentFromState, intentToState, Value.items]

def orderToState (order : String × String) : Value := .list [.str order.1, .str order.2]

def orderFromState (v : Value) : Except String (String × String) := do
  match ← v.items with
  | [ref, symbol] => return (← ref.text, ← symbol.text)
  | _ => throw "a pending order is a reference and a symbol"

def closeToState (close : Position × String) : Value :=
  .list [positionToState iso close.1, .str close.2]

def closeFromState (v : Value) : Except String (Position × String) := do
  match ← v.items with
  | [position, reason] => return (← positionFromState iso position, ← reason.text)
  | _ => throw "a pending close is a position and a reason"

theorem closeFromState_closeToState (close : Position × String) :
    closeFromState iso (closeToState iso close) = .ok close := by
  simp [closeFromState, closeToState, Value.items]

namespace BookDriver

def exportState (d : BookDriver) : Value := .dict
  [("bar_index", .int d.barIndex),
    ("now", writeOption (tsToState iso) d.now),
    ("last_bars", writeDict id (barToState iso) d.lastBars),
    ("previous_times", writeDict id (tsToState iso) d.previousTimes),
    ("intervals", writeDict id .int d.intervals)]

/-- `dict.setdefault` of every entry in turn. -/
def declareMissing (intervals : Dict String Timedelta) (restored : Dict String Timedelta) :
    Dict String Timedelta :=
  restored.entries.foldl (fun d e => if (d.get e.1).isSome then d else d.set e.1 e.2) intervals

def restoreState (d : BookDriver) (v : Value) : Except String BookDriver := do
  return {
    barIndex := ← (← v.field "bar_index").integer
    now := ← readOption (tsFromState iso) (← v.field "now")
    lastBars := ← readDict plainKey (barFromState iso) (← v.field "last_bars")
    previousTimes := ← readDict plainKey (tsFromState iso) (← v.field "previous_times")
    intervals := declareMissing d.intervals
      (← readDict plainKey Value.integer (← v.field "intervals")) }

theorem restoreState_exportState (d fresh : BookDriver) :
    fresh.restoreState iso (d.exportState iso) =
      .ok { d with intervals := declareMissing fresh.intervals d.intervals } := by
  have hbars := readDict_writeDict plainKey id _ _ d.lastBars
    (fun _ => rfl) fun e _ => barFromState_barToState iso e.2
  have htimes := readDict_writeDict plainKey id _ _ d.previousTimes
    (fun _ => rfl) fun e _ => tsFromState_tsToState iso e.2
  have hintervals := readDict_writeDict plainKey id Value.integer .int d.intervals
    (fun _ => rfl) fun _ _ => rfl
  simp [restoreState, exportState, Value.field, Value.get?, Dict.lookup, hbars, htimes, hintervals]

end BookDriver

namespace VenuePositionManager

def exportState (m : VenuePositionManager) : Value := .dict
  [("book", m.book.exportState iso),
    ("driver", m.driver.exportState iso),
    ("venue_state", writeDict id intentToState m.venueState),
    ("venue_positions", writeDict id (positionToState iso) m.venuePositions),
    ("venue_entry", writeDict id .num m.venueEntry),
    ("pending_orders", writeDict Text.natText orderToState m.pendingOrders),
    ("ref_by_seq", writeDict Text.natText .str m.refBySeq),
    ("pending_closes", writeDict id (closeToState iso) m.pendingCloses),
    ("peak_equity", writeOption .num m.peakEquity)]

def hasRun (m : VenuePositionManager) : Bool :=
  0 ≤ m.driver.barIndex || m.venuePositions.entries ≠ [] || m.pendingCloses.entries ≠ []

/-- `restore_state`, into a manager that has seen no bar. -/
def restoreState (m : VenuePositionManager) (v : Value) : Except String VenuePositionManager := do
  if m.hasRun then
    throw "restore_state needs a fresh manager; this one has run"
  return {
    book := ← m.book.restoreState iso instruments (← v.field "book")
    driver := ← m.driver.restoreState iso (← v.field "driver")
    venueState := ← readDict plainKey intentFromState (← v.field "venue_state")
    venuePositions := ← readDict plainKey (positionFromState iso) (← v.field "venue_positions")
    venueEntry := ← readDict plainKey Value.float (← v.field "venue_entry")
    pendingOrders := ← readDict Text.natOfText orderFromState (← v.field "pending_orders")
    refBySeq := ← readDict Text.natOfText Value.text (← v.field "ref_by_seq")
    pendingCloses := ← readDict plainKey (closeFromState iso) (← v.field "pending_closes")
    peakEquity := (← v.fieldOr "peak_equity" none (readOption Value.float)) <|> m.peakEquity }

def freshWith (initialBalance : ℚ) (intervals : Dict String Timedelta) : VenuePositionManager :=
  { fresh initialBalance with driver := { BookDriver.fresh with intervals := intervals } }

def withoutHistory (m : VenuePositionManager) : VenuePositionManager :=
  { m with book := { m.book with trades := [], exitLegs := [] } }

theorem restoreState_exportState {m : VenuePositionManager} (h : m.book.Registered instruments)
    (initialBalance : ℚ) (intervals : Dict String Timedelta) :
    (freshWith initialBalance intervals).restoreState iso instruments (m.exportState iso) =
      .ok { m.withoutHistory with
        driver := { m.driver with
          intervals := BookDriver.declareMissing intervals m.driver.intervals } } := by
  have hrun : (freshWith initialBalance intervals).hasRun = false := rfl
  have hbook : (PositionBook.fresh initialBalance).restoreState iso instruments
      (m.book.exportState iso) = .ok { m.book with trades := [], exitLegs := [] } :=
    PositionBook.restoreState_exportState iso instruments h rfl
  have hdriver := BookDriver.restoreState_exportState iso m.driver
    { BookDriver.fresh with intervals := intervals }
  have hstate := readDict_writeDict plainKey id _ _ m.venueState
    (fun _ => rfl) fun e _ => intentFromState_intentToState e.2
  have hpositions := readDict_writeDict plainKey id _ _ m.venuePositions
    (fun _ => rfl) fun e _ => positionFromState_positionToState iso e.2
  have hentry := readDict_writeDict plainKey id Value.float .num m.venueEntry
    (fun _ => rfl) fun _ _ => rfl
  have horders := readDict_writeDict _ _ orderFromState orderToState m.pendingOrders
    Text.natOfText_natText fun _ _ => rfl
  have hrefs := readDict_writeDict _ _ Value.text .str m.refBySeq
    Text.natOfText_natText fun _ _ => rfl
  have hcloses := readDict_writeDict plainKey id _ _ m.pendingCloses
    (fun _ => rfl) fun e _ => closeFromState_closeToState iso e.2
  have hfields : (freshWith initialBalance intervals).book = .fresh initialBalance ∧
      (freshWith initialBalance intervals).driver =
        { BookDriver.fresh with intervals := intervals } ∧
      (freshWith initialBalance intervals).peakEquity = none := ⟨rfl, rfl, rfl⟩
  simp [restoreState, exportState, Value.field, Value.fieldOr, Value.get?, Dict.lookup, hrun,
    hfields, hbook, hdriver, hstate, hpositions, hentry, horders, hrefs, hcloses, withoutHistory]

end VenuePositionManager

end

namespace Restart

variable {σ : Type} (setup : ManagerSetup σ)

section Holds

variable {P : Instrument → Prop}

theorem keptByLabels_holds (P : Instrument → Prop) : KeptByLabels (PositionBook.Holds P) :=
  fun _ f hf h => h.mapOpen f fun op => (hf op).2

theorem holds_driver (env : BookSetup) (d : BookDriver) {b : PositionBook} (h : b.Holds P)
    (bars : BarMap) (barIndex : ℤ) (timestamp : Option Timestamp) (series : Series) :
    (d.advance env b bars barIndex timestamp series).2.2.Holds P := by
  unfold BookDriver.advance
  split_ifs
  · exact h
  · split
    · exact h
    · exact h.advance env _

end Holds

section Registered

variable {m : VenuePositionManager} {w : World σ}

theorem registered_call (h : m.book.Registered setup.instruments) (w : World σ) (c : ManagerCall) :
    (setup.call m w c).2.1.book.Registered setup.instruments := by
  cases c with
  | onBar bars barIndex timestamp series =>
    exact (keptByLabels_holds _).onBar setup bars barIndex timestamp series w
      (holds_driver setup.book m.driver h bars barIndex timestamp series)
  | flatten bars reason which =>
    exact (keptByLabels_holds _).flatten setup h bars reason which w
      fun v => PositionBook.Holds.flatten setup.book h v reason which
  | adopt order ack strategyId positionId =>
    have hentry := setup.instruments.get_symbol order.instrument
    unfold ManagerSetup.call VenuePositionManager.adopt
    dsimp only
    split_ifs
    · exact h
    · exact h
    · exact PositionBook.Holds.queueEntry ⟨h.open_, h.pending⟩ hentry
  | precheckEntry instrument bump =>
    unfold ManagerSetup.call VenuePositionManager.precheckEntry
    dsimp only
    split
    · exact h
    · cases bump with
      | true => exact ⟨h.open_, h.pending⟩
      | false => exact h
  | account =>
    unfold ManagerSetup.call VenuePositionManager.account
    cases m.markToMarket setup.book with
    | none | some marked => exact h
  | reconcile positions repair => exact (keptByLabels_holds _).reconcile setup h positions repair w
  | setBarInterval symbol interval => exact h

theorem registered_resume (h : m.book.Registered setup.instruments)
    (recovered : List RecoveredPosition) (barIndex : ℤ) (reattach : Bool) (w : World σ) :
    (setup.resume m recovered barIndex reattach w).manager.book.Registered setup.instruments := by
  apply (keptByLabels_holds _).resume setup h
  intro b item intent hb
  refine ⟨fun op hop => ?_, hb.pending⟩
  rcases List.mem_append.1 hop with hop | hop
  · exact hb.open_ op hop
  · rw [List.mem_singleton.1 hop]
    exact setup.instruments.get_symbol item.position.instrument

end Registered

section Sample

open Frictionless PendingCloses Text

def hourText (k : ℕ) : String := "1970-01-01T0" ++ natText k ++ ":00:00+00:00"

def morningHour (t : Timestamp) : Option ℕ := (List.range 10).find? fun k => t = k * hourNs

theorem find_hourText : ∀ k ∈ List.range 10,
    (List.range 10).find? (fun j => hourText k = hourText j) = some k := by
  decide

def morningIso : IsoFormat where
  isoformat t := match morningHour t with
    | some k => hourText k
    | none => if 0 ≤ t then "+" ++ natText t.toNat else "-" ++ natText (-t).toNat
  parse s := match (List.range 10).find? fun k => s = hourText k with
    | some k => .ok (k * hourNs)
    | none => match s.toList with
      | '+' :: count => do return (← natOfText (String.ofList count))
      | '-' :: count => do return -(← natOfText (String.ofList count))
      | _ => .error s
  parse_isoformat t := by
    have hother : ∀ (s : String) (c : Char) (rest : List Char), s.toList = c :: rest → c ≠ '1' →
        (List.range 10).find? (fun k => s = hourText k) = none := by
      intro s c rest hs hc
      refine List.find?_eq_none.2 fun k _ htext => hc ?_
      have hchars := congrArg String.toList (of_decide_eq_true htext)
      rw [hs, hourText, String.toList_append, String.toList_append] at hchars
      exact (List.cons.inj hchars).1
    have hplus : ∀ n, ("+" ++ natText n).toList = '+' :: (natText n).toList :=
      fun n => String.toList_append
    have hminus : ∀ n, ("-" ++ natText n).toList = '-' :: (natText n).toList :=
      fun n => String.toList_append
    cases hhour : morningHour t with
    | some k =>
      unfold morningHour at hhour
      have hfound := List.find?_some hhour
      have ht : t = k * hourNs := of_decide_eq_true hfound
      simp only [find_hourText k (List.mem_of_find?_eq_some hhour), ht]
    | none =>
      by_cases hsign : 0 ≤ t
      · simp only [hsign, if_true, hother _ _ _ (hplus t.toNat) (by decide), hplus,
          String.ofList_toList, natOfText_natText]
        exact congrArg Except.ok (Int.toNat_of_nonneg hsign)
      · simp only [hsign, if_false, hother _ _ _ (hminus (-t).toNat) (by decide), hminus,
          String.ofList_toList, natOfText_natText]
        have hneg : 0 ≤ -t := neg_nonneg.2 (not_le.1 hsign).le
        refine congrArg Except.ok ?_
        rw [Int.toNat_of_nonneg hneg, neg_neg]

def afterCalls (setup : ManagerSetup σ) (m : VenuePositionManager) (w : World σ)
    (calls : List ManagerCall) : VenuePositionManager × World σ :=
  calls.foldl (fun s c => (setup.call s.1 s.2 c).2) (m, w)

end Sample

end Restart

end Fiboki
