import Fiboki.Backtest.MissingRates
import Fiboki.Broker.VenueCalls

/-!
A manager whose calls raise.  The context of an instruction is built before the instruction is
guarded: where the factory refuses it, or where the book misses a rate, a call stops where it
stands, and what it did before stays done.
-/

namespace Fiboki

/-- A manager, the rates its book misses and the contexts its factory refuses.  The telemetry sink
and the alert callback are taken to return, as the dispatcher does. -/
structure RaisingSetup (σ : Type) extends ManagerSetup σ where
  rateRefusal : (fromCcy : String) → Timestamp → Option String
  contextRefusal : Position → (kind : String) → World σ → Option String

/-- A turn, and the error that ended it. -/
structure ManagerAttempt (σ : Type) where
  turn : ManagerTurn σ
  raised : Option String

namespace ManagerAttempt

variable {σ E : Type}

/-- One step of a loop: `stops` is the error that ends the step, with what it leaves.  Nothing
runs after an error. -/
def next (stops : ManagerTurn σ → E → Option (String × ManagerTurn σ))
    (f : ManagerTurn σ → E → ManagerTurn σ) (a : ManagerAttempt σ) (item : E) : ManagerAttempt σ :=
  match a.raised, stops a.turn item with
  | some _, _ => a
  | none, some (e, t) => ⟨t, some e⟩
  | none, none => ⟨f a.turn item, none⟩

def each (stops : ManagerTurn σ → E → Option (String × ManagerTurn σ))
    (f : ManagerTurn σ → E → ManagerTurn σ) (a : ManagerAttempt σ) (items : List E) :
      ManagerAttempt σ :=
  items.foldl (next stops f) a

variable {stops : ManagerTurn σ → E → Option (String × ManagerTurn σ)}
  {f : ManagerTurn σ → E → ManagerTurn σ}

theorem next_invariant {I : ManagerTurn σ → Prop} (hf : ∀ t item, I t → I (f t item))
    (hstops : ∀ t item e t', I t → stops t item = some (e, t') → I t')
    (a : ManagerAttempt σ) (item : E)
    (h : I a.turn) : I (a.next stops f item).turn := by
  unfold next
  cases a.raised with
  | some e => exact h
  | none =>
    cases hs : stops a.turn item with
    | some out => exact hstops _ _ _ _ h hs
    | none => exact hf _ _ h

end ManagerAttempt

namespace RaisingSetup

open ManagerSetup

variable {σ : Type} (setup : RaisingSetup σ)

def rated : RatedSetup := { setup.book with refusal := setup.rateRefusal }

/-- What the slice of a bar is built from, where the driver takes the bar. -/
def viewAt (d : BookDriver) (bars : BarMap) (barIndex : ℤ) (timestamp : Option Timestamp)
    (series : Series) : Option (BookDriver × BarSlice) :=
  if barIndex ≤ d.barIndex then none
  else (BookDriver.stepTime bars timestamp).map fun ts =>
    let d' := { d with barIndex := barIndex, now := some ts }.roll bars
    (d', d'.sliceFor bars barIndex ts d.now series)

def advanceStops (m : VenuePositionManager) (bars : BarMap) (barIndex : ℤ)
    (timestamp : Option Timestamp) (series : Series) : Option (String × VenuePositionManager) :=
  (viewAt m.driver bars barIndex timestamp series).bind fun (driver, view) =>
    (setup.rated.missing view m.book).map fun (e, book) =>
      (e, { m with driver := driver, book := book })

def flattenStops (m : VenuePositionManager) (bars : BarMap) (reason : ExitReason)
    (which : ManagedPosition → Bool) : Option (String × VenuePositionManager) :=
  (m.driver.sliceNow bars).toOption.bind fun view =>
    (setup.rated.flattenMissing view reason ⟨m.book, .empty⟩ (m.book.open_.filter which)).map
      fun (e, book) => (e, { m with book := book })

def asks (t : ManagerTurn σ) (position : Position) (kind : String) :
    Option (String × ManagerTurn σ) :=
  (setup.contextRefusal position kind t.world).map (·, t)

def amendStops (t : ManagerTurn σ) (managed : ManagedPosition) :
    Option (String × ManagerTurn σ) :=
  setup.asks t (amendTarget t.manager (managed.position.venueRef.getD "") managed) "amend"

/-- The entry was refused by the book: its position is forgotten, and its context asked for. -/
def entryStops (t : ManagerTurn σ) (event : EntryEvent) : Option (String × ManagerTurn σ) :=
  match t.manager.pendingOrders.get event.pending.seq with
  | none => none
  | some (ref, _) =>
    match event.filled, event.managed, t.manager.venuePositions.get ref with
    | true, some _, _ | _, _, none => none
    | _, _, some stray => setup.asks
      (t.onManager fun m => (m.dropOrder event.pending.seq).dropVenue ref) stray "close"

def retryStops (t : ManagerTurn σ) (item : String × Position × String) :
    Option (String × ManagerTurn σ) :=
  setup.asks t item.2.1 "close"

/-- The reference under which the venue holds the position of a leg. -/
def legTarget (t : ManagerTurn σ) (leg : ExitLeg) : Option (String × Position) :=
  (t.manager.refBySeq.get leg.positionSeq).bind fun ref =>
    if ref = "" then none else (t.manager.venuePositions.get ref).map (ref, ·)

/-- The size is taken off before the amendment's context is asked for. -/
def partialStops (t : ManagerTurn σ) (leg : ExitLeg) (ref : String) (position : Position) :
    Option (String × ManagerTurn σ) :=
  (setup.asks t position "reduce").or <|
    let t := (setup.instructClose t position (min leg.size position.size) false .scaleOut
      leg.exitReason).2.onManager (·.shrink ref position leg.size)
    (t.manager.book.open_.find? fun op => op.seq = leg.positionSeq).bind (setup.amendStops t)

def legStops (stillOpen : List ℕ) (t : ManagerTurn σ) (leg : ExitLeg) :
    Option (String × ManagerTurn σ) :=
  (legTarget t leg).bind fun (ref, position) =>
    if leg.final ∨ leg.positionSeq ∉ stillOpen then setup.asks t position "close"
    else setup.partialStops t leg ref position

def levelStops (t : ManagerTurn σ) (managed : ManagedPosition) : Option (String × ManagerTurn σ) :=
  let ref := managed.position.venueRef.getD ""
  if ref = "" ∨ t.manager.venuePositions.get ref = none then none
  else if (intendedLevels managed).agrees setup.priceTolerance (t.manager.venueState.get ref) then
    none
  else setup.amendStops t managed

def reconcileStops (listed : Dict String Position) (repair : Bool) (t : ManagerTurn σ)
    (item : String × ManagedPosition) : Option (String × ManagerTurn σ) :=
  (listed.get item.1).bind fun venue =>
    if (intendedLevels item.2).agrees setup.priceTolerance (some (heldLevels venue)) then none
    else if repair then
      setup.amendStops (t.onManager (recordHeld · item.1 item.2 venue)) item.2
    else none

/-- The turn after the book's part, and what the book decided: the legs also where it raised. -/
def decided (m : VenuePositionManager) (w : World σ)
    (stops : Option (String × VenuePositionManager))
    (out : Except String (AdvanceResult × BarSlice) × VenuePositionManager) :
    ManagerAttempt σ × AdvanceResult :=
  let raised := fun e (m' : VenuePositionManager) => (⟨.start m' w, some e⟩,
    { AdvanceResult.empty with legs := m'.book.exitLegs.drop m.book.exitLegs.length })
  match stops, out with
  | some (e, m'), _ => raised e m'
  | none, (.error e, m') => raised e m'
  | none, (.ok (result, _), m') => (⟨.start m' w, none⟩, result)

def barStart (m : VenuePositionManager) (w : World σ) (bars : BarMap) (barIndex : ℤ)
    (timestamp : Option Timestamp) (series : Series) : ManagerAttempt σ × List ExitLeg :=
  let (a, result) := decided m w (setup.advanceStops m bars barIndex timestamp series)
    (setup.advanceBook m bars barIndex timestamp series)
  (a.each setup.entryStops setup.takeEntry result.entries, result.legs)

def flattenStart (m : VenuePositionManager) (w : World σ) (bars : BarMap) (reason : ExitReason)
    (which : ManagedPosition → Bool) : ManagerAttempt σ × List ExitLeg :=
  let (a, result) := decided m w (setup.flattenStops m bars reason which)
    (setup.flattenBook m bars reason which)
  (a, result.legs)

/-- Where `on_bar` and `flatten` start to deliver, and the legs that they have to. -/
def start (m : VenuePositionManager) (w : World σ) :
    ManagerCall → Option (ManagerAttempt σ × List ExitLeg)
  | .onBar bars barIndex timestamp series =>
      some (setup.barStart m w bars barIndex timestamp series)
  | .flatten bars reason which => some (setup.flattenStart m w bars reason which)
  | _ => none

def retryPendingCloses (a : ManagerAttempt σ) : ManagerAttempt σ :=
  a.each setup.retryStops setup.retryClose a.turn.manager.pendingCloses.entries

def stillOpen (a : ManagerAttempt σ) : List ℕ := a.turn.manager.book.open_.map ManagedPosition.seq

def pushCloses (a : ManagerAttempt σ) (legs : List ExitLeg) : ManagerAttempt σ :=
  a.each (setup.legStops (stillOpen a)) (setup.pushLeg (stillOpen a)) legs

def deliver (start : ManagerAttempt σ × List ExitLeg) : ManagerAttempt σ :=
  setup.pushCloses (setup.retryPendingCloses start.1) start.2

def pushLevels (a : ManagerAttempt σ) : ManagerAttempt σ :=
  a.each setup.levelStops setup.pushLevel a.turn.manager.book.open_

/-- The other calls ask for no context, and one that misses a rate changes nothing. -/
def attempt (m : VenuePositionManager) (w : World σ) : ManagerCall → ManagerAttempt σ
  | .onBar bars barIndex timestamp series =>
    setup.pushLevels (setup.deliver (setup.barStart m w bars barIndex timestamp series))
  | .flatten bars reason which => setup.deliver (setup.flattenStart m w bars reason which)
  | .reconcile positions repair =>
    let listed := byRef positions
    let a := (ManagerAttempt.mk (.start m w) none).each (setup.reconcileStops listed repair)
      (setup.reconcileOne listed repair) m.managedByRef.entries
    if a.raised.isSome then a else ⟨a.turn.onManager (dropUnlisted · listed), none⟩
  | c =>
    let (_, m', w') := setup.call m w c
    ⟨.start m' w', none⟩

end RaisingSetup

end Fiboki
