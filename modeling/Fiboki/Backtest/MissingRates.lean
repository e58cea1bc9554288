import Fiboki.Backtest.OrderCustody

/-!
Rates that raise.  A source of exchange rates answers for some currencies and moments only; a call
of the book that asks it for another raises where it stands, with what it did before booked and the
lists it was going through not yet replaced.
-/

namespace Fiboki

/-- A setup, and the error with which its source refuses a rate. -/
structure RatedSetup extends BookSetup where
  refusal : (fromCcy : String) → Timestamp → Option String

namespace RatedSetup

variable (env : RatedSetup)

/-- The error of `_costs_to_account`, which asks before anything is booked. -/
def refused (i : Instrument) (costs : LegCosts) (ts : Timestamp) : Option String :=
  (env.refusal i.quote ts).or (env.refusal costs.commissionCcy ts)

/-- The loop of `_charge_financing`, up to the rate it misses. -/
def chargeMissing (financing : FinancingModel) (v : BarSlice) :
    List ManagedPosition → Option (String × List ManagedPosition)
  | [] => none
  | op :: rest =>
    match env.chargePosition financing v op with
    | .error _ => none
    | .ok op' =>
      match if env.nightsDue v op = 0 then none
        else env.refusal (financing.currencyFor op.instrument) v.timestamp with
      | some e => some (e, op :: rest)
      | none => (chargeMissing financing v rest).map fun (e, ops) => (e, op' :: ops)

def financingMissing (v : BarSlice) (b : PositionBook) : Option (String × PositionBook) :=
  match env.financing with
  | none => none
  | some financing =>
    if env.config.chargeFinancing = false ∨ v.previousTimestamp = none then none
    else (env.chargeMissing financing v b.open_).map fun (e, ops) => (e, { b with open_ := ops })

def closeRefused (v : BarSlice) (r : BookSetup.Reversing) (c : PendingClose) : Option String :=
  if v.index < c.actionableIndex then none
  else
    match r.bySeq.find? (fun op => op.seq = c.positionSeq), v.bars c.instrument with
    | some op, some bar =>
      env.refused op.instrument (env.sim.marketExit op.instrument op.position.direction
        op.position.size bar v.index .oppositeSignal bar.open_ op.seq
        (v.spacing c.instrument)).costs v.timestamp
    | _, _ => none

def closesMissing (v : BarSlice) :
    BookSetup.Reversing → List PendingClose → Option (String × BookSetup.Reversing)
  | _, [] => none
  | r, c :: rest =>
    match env.closeRefused v r c with
    | some e => some (e, r)
    | none => closesMissing v (env.runClose v r c).1 rest

/-- The positions closed are gone; every close is pending still. -/
def pendingClosesMissing (v : BarSlice) (t : Turn) : Option (String × PositionBook) :=
  (env.closesMissing v ⟨t, t.book.open_, t.book.open_⟩ t.book.pendingCloses).map fun (e, r) =>
    (e, { r.turn.book with open_ := r.open_ })

def entryRefused (v : BarSlice) (t : Turn) (order : PendingEntry) : Option String :=
  let symbol := order.instrument.symbol
  if v.index < order.actionableIndex then none
  else
    match v.bars symbol, env.entryRefusal t.book v symbol with
    | some bar, none =>
      match env.sim.simulateEntry order.instrument order.direction order.size bar v.index
        order.stopPrice order.seq (v.spacing symbol) with
      | .error _ => none
      | .ok fill => env.refused order.instrument fill.costs v.timestamp
    | _, _ => none

/-- Every order is pending still, the filled ones too. -/
def entriesMissing (v : BarSlice) : Turn → List PendingEntry → Option (String × PositionBook)
  | _, [] => none
  | t, order :: rest =>
    match env.entryRefused v t order with
    | some e => some (e, t.book)
    | none => entriesMissing v (env.fillEntry v t order).1 rest

/-- The take-profit loop, up to the rate it misses. -/
def exitMissing (v : BarSlice) (bar : Bar) :
    ℕ → Turn → ManagedPosition → Option (String × Turn × ManagedPosition)
  | 0, _, _ => none
  | n + 1, t, op =>
    match env.resolveFor v bar op op.position.size with
    | none => none
    | some decision =>
      let (size, final) := op.sizeForExit decision
      let fill := if final then decision
        else (env.resolveFor v bar op size).getD decision
      match env.refused op.instrument fill.costs v.timestamp with
      | some e => some (e, t, op)
      | none =>
        let (t', op') := env.realise t op fill v.timestamp size final
        let op' := if fill.reason = .takeProfit then { op' with nextLeg := op'.nextLeg + 1 }
          else op'
        if final then none else exitMissing v bar n t' op'

def timeStopMissing (v : BarSlice) (bar : Bar) (t : Turn) (op : ManagedPosition) :
    Option (String × Turn × ManagedPosition) :=
  let (t, op, closed) := env.exitLoop v bar (op.legs.length + 1) t (BookSetup.seeBar v bar op)
  if closed = none ∧ env.timeStopHit op then
    let fill := env.sim.marketExit op.instrument op.position.direction op.position.size bar
      v.index .timeStop bar.close op.seq (v.spacing op.position.instrument)
    (env.refused op.instrument fill.costs v.timestamp).map fun e => (e, t, op)
  else none

def positionMissing (v : BarSlice) (bar : Bar) (t : Turn) (op : ManagedPosition) :
    Option (String × Turn × ManagedPosition) :=
  (env.exitMissing v bar (op.legs.length + 1) t (BookSetup.seeBar v bar op)).or
    (env.timeStopMissing v bar t op)

/-- The position as a pass that does not raise leaves it, closed or not. -/
def passed (v : BarSlice) (bar : Bar) (t : Turn) (op : ManagedPosition) : ManagedPosition :=
  match env.exitBar v bar t op with
  | (_, op', some _) => op'
  | (_, op', none) => env.updateProtectiveStop v op'

/-- The list of open positions is replaced at the end only: up to there it holds every one of
them, as it stands now. -/
def exitsMissing (v : BarSlice) :
    Turn → List ManagedPosition → Option (String × PositionBook × List ManagedPosition)
  | _, [] => none
  | t, op :: rest =>
    match v.bars op.position.instrument with
    | none => (exitsMissing v t rest).map fun (e, b, ops) => (e, b, op :: ops)
    | some bar =>
      match env.positionMissing v bar t op with
      | some (e, t', op') => some (e, t'.book, op' :: rest)
      | none => (exitsMissing v (env.resolvePosition v t op).1 rest).map fun (e, b, ops) =>
          (e, b, env.passed v bar t op :: ops)

/-- The first rate that `advance` misses, and the book it leaves. -/
def missing (v : BarSlice) (b : PositionBook) : Option (String × PositionBook) :=
  (env.financingMissing v b).or <|
    match env.chargeFinancing v b with
    | (.error _, _) => none
    | (.ok (), b') =>
      let t : Turn := ⟨b', .empty⟩
      (env.pendingClosesMissing v t).or <|
        let t := env.runPendingCloses v t
        (env.entriesMissing v t t.book.pending).or <|
          let t := env.fillEntries v t
          (env.exitsMissing v t t.book.open_).map fun (e, b, ops) => (e, { b with open_ := ops })

def advance (v : BarSlice) (b : PositionBook) : Except String AdvanceResult × PositionBook :=
  match env.missing v b with
  | some (e, b') => (.error e, b')
  | none => env.toBookSetup.advance v b

def flattenMissing (v : BarSlice) (reason : ExitReason) :
    Turn → List ManagedPosition → Option (String × PositionBook)
  | _, [] => none
  | t, op :: rest =>
    match v.barOrLast op.position.instrument with
    | none => flattenMissing v reason t rest
    | some bar =>
      let fill := env.sim.marketExit op.instrument op.position.direction op.position.size bar
        v.index reason bar.close op.seq (v.spacing op.position.instrument)
      match env.refused op.instrument fill.costs v.timestamp with
      | some e => some (e, t.book)
      | none => flattenMissing v reason (env.flattenEach v reason t [op]) rest

def flatten (v : BarSlice) (reason : ExitReason) (which : ManagedPosition → Bool)
    (b : PositionBook) : Except String AdvanceResult × PositionBook :=
  match env.flattenMissing v reason ⟨b, .empty⟩ (b.open_.filter which) with
  | some (e, b') => (.error e, b')
  | none =>
    let (result, b') := env.toBookSetup.flatten v reason which b
    (.ok result, b')

variable {env} {v : BarSlice} {b : PositionBook}

theorem advance_priced (h : env.missing v b = none) :
    env.advance v b = env.toBookSetup.advance v b := by
  rw [advance, h]

theorem flatten_priced {reason : ExitReason} {which : ManagedPosition → Bool}
    (h : env.flattenMissing v reason ⟨b, .empty⟩ (b.open_.filter which) = none) :
    (env.flatten v reason which b).2 = (env.toBookSetup.flatten v reason which b).2 := by
  rw [flatten, h]

end RatedSetup

namespace PositionBook

variable (env : RatedSetup)

def ratedCall (b : PositionBook) : BookCall → PositionBook
  | .advance slice => (env.advance slice b).2
  | .flatten slice reason which => (env.flatten slice reason which b).2
  | c => b.call env.toBookSetup c

/-- No rate that the call asks for is missing. -/
def Priced (b : PositionBook) : BookCall → Prop
  | .advance slice => env.missing slice b = none
  | .flatten slice reason which =>
    env.flattenMissing slice reason ⟨b, .empty⟩ (b.open_.filter which) = none
  | _ => True

instance (b : PositionBook) (c : BookCall) : Decidable (Priced env b c) :=
  match c with
  | .advance slice => inferInstanceAs (Decidable (env.missing slice b = none))
  | .flatten slice reason which => inferInstanceAs
    (Decidable (env.flattenMissing slice reason ⟨b, .empty⟩ (b.open_.filter which) = none))
  | .queueEntry _ | .scheduleReversal _ _ _ => inferInstanceAs (Decidable True)

variable {env}

theorem ratedCall_priced {b : PositionBook} {c : BookCall} (h : Priced env b c) :
    b.ratedCall env c = b.call env.toBookSetup c := by
  cases c with
  | queueEntry entry | scheduleReversal instrument direction index => rfl
  | advance slice => exact congrArg Prod.snd (RatedSetup.advance_priced h)
  | flatten slice reason which => exact RatedSetup.flatten_priced h

end PositionBook

namespace BookHistory

variable (env : RatedSetup)

def ratedStep (h : BookHistory) : BookEvent → BookHistory
  | .advance slice =>
    match env.advance slice h.book with
    | (.error _, book) => { h with book := book }
    | (.ok result, book) => { h with book := book, entries := h.entries ++ result.entries }
  | .flatten slice reason which =>
    { h with book := (env.flatten slice reason.exitReason which h.book).2 }
  | e => h.step env.toBookSetup e

def Priced (h : BookHistory) : BookEvent → Prop
  | .advance slice => h.book.Priced env (.advance slice)
  | .flatten slice reason which => h.book.Priced env (.flatten slice reason.exitReason which)
  | _ => True

instance (h : BookHistory) (e : BookEvent) : Decidable (Priced env h e) :=
  match e with
  | .advance slice => inferInstanceAs (Decidable (h.book.Priced env (.advance slice)))
  | .flatten slice reason which =>
    inferInstanceAs (Decidable (h.book.Priced env (.flatten slice reason.exitReason which)))
  | .queueEntry _ | .turnAway _ | .bump _ => inferInstanceAs (Decidable True)
  | .scheduleReversal _ _ _ | .clear => inferInstanceAs (Decidable True)

variable {env}

theorem ratedStep_priced {h : BookHistory} {e : BookEvent} (hp : h.Priced env e) :
    h.ratedStep env e = h.step env.toBookSetup e := by
  cases e with
  | advance slice =>
    have hnone : env.missing slice h.book = none := hp
    rcases hout : env.toBookSetup.advance slice h.book with ⟨_ | _, book⟩ <;>
      simp only [ratedStep, step, RatedSetup.advance_priced hnone, hout]
  | flatten slice reason which =>
    have hnone : env.flattenMissing slice reason.exitReason ⟨h.book, .empty⟩
        (h.book.open_.filter which) = none := hp
    simp only [ratedStep, step, RatedSetup.flatten_priced hnone]
  | _ => rfl

end BookHistory

namespace MissingRates

open Frictionless

/-- Rates into dollars, without one for the yen at `gap`. -/
def yenMissingAt (gap : Timestamp) : RatedSetup where
  toBookSetup := book
  refusal ccy ts := if ccy = "JPY" ∧ ts = gap then some "No FX series for JPY->USD" else none

theorem no_allocations : ([] : List ℚ) ≠ [] → ([] : List ℚ).length = ([] : List ℚ).length :=
  fun _ => rfl

def buy (seq : ℕ) (symbol quote : String) : PendingEntry where
  seq := seq
  instrument := { instrumentOf symbol with quote := quote }
  direction := .long
  size := 10
  stopPrice := 1
  takeProfitPrices := []
  takeProfitAllocations := []
  strategyId := ""
  actionableIndex := 1
  createdIndex := 0
  ref := none
  allocations_aligned := no_allocations

def euro : PendingEntry := buy 1 "EURUSD" "USD"

def yen : PendingEntry := buy 2 "USDJPY" "JPY"

def hourBars (index : ℤ) (price : ℚ) : BarSlice where
  index := index
  timestamp := index * hourNs
  bars _ := some (flatBar (index * hourNs) price)
  previousTimestamp := none
  previousTimes _ := none
  intervals _ := none
  lastCloses _ := some price
  carriedBars _ := none
  series _ _ := none

def boughtAndStopped : List BookCall :=
  [.queueEntry euro, .queueEntry yen, .advance (hourBars 1 2), .advance (hourBars 2 1)]

def stoppedAtGap : PositionBook :=
  Runs.exec (PositionBook.ratedCall (yenMissingAt (2 * hourNs))) (.fresh 100) boughtAndStopped

def queuedTogether : List BookEvent := [.queueEntry euro, .queueEntry yen, .advance (hourBars 1 2)]

def filledAtGap : BookHistory :=
  Runs.exec (BookHistory.ratedStep (yenMissingAt hourNs)) (.fresh 100) queuedTogether

def filledAgain : BookHistory :=
  filledAtGap.ratedStep (yenMissingAt hourNs) (.advance (hourBars 2 2))

end MissingRates

end Fiboki
