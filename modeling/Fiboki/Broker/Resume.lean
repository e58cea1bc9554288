import Fiboki.Broker.PositionManager

/-!
Startup: the positions a dead worker left at the venue are put back in the book,
from the intents written before dispatch.
-/

namespace Fiboki

open Text

/-- A position the venue holds, with the order intent it was found under. -/
structure RecoveredPosition where
  position : Position
  intent : Option OrderIntent
  brokerRef : String

/-- `a or b` of a price that may be missing or zero. -/
def priceOr (a : Option ℚ) (b : ℚ) : ℚ :=
  match a with
  | some x => if x = 0 then b else x
  | none => b

def OrderIntent.ladder (intent : OrderIntent) : List ℚ × List ℚ :=
  let (prices, allocations) := match intent.extra with
    | .entry _ _ prices allocations => (prices, allocations)
    | _ => ([], [])
  (if prices = [] then intent.takeProfit.toList else prices, allocations)

namespace ManagerSetup

variable {σ : Type} (setup : ManagerSetup σ)

/-- `_rebuild`: a managed position from its intent, under sequence number `seq`. -/
def rebuild (position : Position) (intent : OrderIntent) (barIndex : ℤ) (seq : ℕ) :
    ManagedPosition :=
  let instrument := setup.instruments.get position.instrument
  let (prices, allocations) := intent.ladder
  let entryPrice := priceOr intent.filledPrice position.entryPrice
  -- every multiple is measured from the stop the position was opened with
  let originalStop := priceOr intent.stopLoss position.stopLoss
  let legs := planLegs instrument position.size prices allocations
  { seq := seq
    position :=
      { instrument := position.instrument
        direction := position.direction
        size := position.size
        entryPrice := entryPrice
        entryTime := position.entryTime
        stopLoss := position.stopLoss
        takeProfitTargets := position.takeProfitTargets
        strategyId := strOr position.strategyId intent.strategyId
        barsHeld := 0
        maxFavourableExcursion := 0
        maxAdverseExcursion := 0
        financingAccrued := 0
        venueRef := position.venueRef
        positionId := setup.book.positionId seq }
    instrument := instrument
    entryMid := entryPrice
    entryBarIndex := barIndex
    takeProfit := legs.head?.map TakeProfitLeg.price
    entryCostsAccount := ⟨0, 0, 0, 0⟩
    financingAccount := 0
    lastFinancingTime := none
    entryFx := 1
    entrySize := position.size
    legs := legs
    nextLeg := 0
    riskPerUnit := |entryPrice - originalStop|
    initialStop := originalStop
    extreme := none
    breakevenDone := false
    stopTrailed := position.stopLoss ≠ 0 ∧ originalStop ≠ 0 ∧
      0 < (position.stopLoss - originalStop) * position.direction.sign
    stopMovedBy := ""
    reversalPending := false
    realisedGross := 0
    realisedSpread := 0
    realisedCommission := 0
    realisedSlippage := 0
    realisedFinancing := 0
    realisedNet := 0
    exitValue := 0
    nLegsClosed := 0
    singleLegExitMid := 0
    ref := position.venueRef }

def orphanUnmanageable (ref : String) (position : Position) : IntentDivergence where
  kind := "orphan_unmanageable"
  positionId := position.positionId
  brokerRef := some ref
  instrument := position.instrument
  intendedStop := none
  venueStop := (heldLevels position).stopLoss
  intendedTakeProfit := none
  venueTakeProfit := none
  detail := "a real position with NO local order intent. Its ladder and its original stop are " ++
    "unknown, so no exit policy can be re-derived for it. It keeps whatever stop is attached " ++
    "and must be handled by an operator."

def recoveredIntent (ref : String) (position : Position) (desired held : VenueIntent) :
    IntentDivergence where
  kind := "recovered"
  positionId := position.positionId
  brokerRef := some ref
  instrument := position.instrument
  intendedStop := desired.stopLoss
  venueStop := held.stopLoss
  intendedTakeProfit := desired.takeProfit
  venueTakeProfit := held.takeProfit
  detail := "intent re-derived from the durable order record. bars_held restarts at zero, so " ++
    "any time stop measures from this restart and is LONGER than the document says."

def takeBack (m : VenuePositionManager) (ref : String) (position : Position) (intent : OrderIntent)
    (managed : ManagedPosition) : VenuePositionManager :=
  { m with
    book := { m.book.nextSeq with open_ := m.book.open_ ++ [managed] }
    refBySeq := m.refBySeq.set managed.seq ref
    venuePositions := m.venuePositions.set ref position
    venueState := m.venueState.set ref (heldLevels position)
    venueEntry := match intent.filledPrice with
      | some price => if price = 0 then m.venueEntry else m.venueEntry.set ref price
      | none => m.venueEntry }

def resumeOne (barIndex : ℤ) (reattach : Bool) (t : ManagerTurn σ) (recovered : RecoveredPosition) :
    ManagerTurn σ :=
  let position := recovered.position
  let ref := strOr recovered.brokerRef (position.venueRef.getD "")
  if ref = "" then t
  else
    match recovered.intent with
    | none => t.diverge (orphanUnmanageable ref position)
    | some intent =>
      let managed := setup.rebuild position intent barIndex (t.manager.book.seq + 1)
      let t := t.onManager (takeBack · ref position intent managed)
      let desired := intendedLevels managed
      let t := t.diverge (recoveredIntent ref position desired (heldLevels position))
      if reattach ∧ desired.agrees setup.priceTolerance (some (heldLevels position)) = false then
        let (_, t') := setup.instructAmend t managed desired .reattach
        { t' with divergences := t.divergences }
      else t

/-- `resume`: startup reconciliation. -/
def resume (m : VenuePositionManager) (recovered : List RecoveredPosition) (barIndex : ℤ)
    (reattach : Bool) (w : World σ) : ManagerTurn σ :=
  recovered.foldl (setup.resumeOne barIndex reattach) (.start m w)

end ManagerSetup

end Fiboki
