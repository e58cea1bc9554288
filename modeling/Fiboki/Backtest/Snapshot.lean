import Fiboki.Backtest.Holdings
import Fiboki.Lib.Wire

/-!
The durable state of a book: what is written, and how it is read back.

An instrument is written as its symbol, an extreme that is not yet known as NaN,
an instant as its ISO text.
-/

namespace Fiboki

open Wire

/-- `Timestamp.isoformat` and the constructor that reads its text back, in UTC. -/
structure IsoFormat where
  isoformat : Timestamp → String
  parse : String → Except String Timestamp
  parse_isoformat : ∀ t, parse (isoformat t) = .ok t

variable (iso : IsoFormat)

def tsToState (t : Timestamp) : Value := .str (iso.isoformat t)

def tsFromState (v : Value) : Except String Timestamp := do iso.parse (← v.text)

@[simp] theorem tsFromState_tsToState (t : Timestamp) : tsFromState iso (tsToState iso t) = .ok t :=
  iso.parse_isoformat t

def directionFromState (v : Value) : Except String Direction := do
  let s ← v.text
  if s = Direction.long.value then return .long
  else if s = Direction.short.value then return .short
  else throw (Text.pyRepr s ++ " is not a valid Direction")

@[simp] theorem directionFromState_value (d : Direction) :
    directionFromState (.str d.value) = .ok d := by
  cases d <;> rfl

def refToState (ref : Option String) : Value := writeOption .str ref

def extremeFromState : Value → Except String (Option ℚ)
  | .nan | .null => .ok none
  | v => v.float.map some

def extremeToState : Option ℚ → Value
  | none => .nan
  | some e => .num e

/-- The keys a reader does not know, as `sorted(unknown)` prints them. -/
def unknownFields (known : List String) (entries : List (String × Value)) : List String :=
  ((entries.map Prod.fst).filter (· ∉ known)).insertionSort (· ≤ ·)

def refuseUnknown (what : String) (known : List String) (v : Value) : Except String Unit := do
  let unknown := unknownFields known (← v.fields)
  if unknown = [] then return ()
  else throw (what ++ " has unknown field(s) " ++ Text.reprList unknown)

def positionToState (p : Position) : Value := .dict
  [("instrument", .str p.instrument),
    ("direction", .str p.direction.value),
    ("size", .num p.size),
    ("entry_price", .num p.entryPrice),
    ("entry_time", tsToState iso p.entryTime),
    ("stop_loss", .num p.stopLoss),
    ("take_profit_targets", writeList .num p.takeProfitTargets),
    ("strategy_id", .str p.strategyId),
    ("bars_held", .int p.barsHeld),
    ("max_favourable_excursion", .num p.maxFavourableExcursion),
    ("max_adverse_excursion", .num p.maxAdverseExcursion),
    ("financing_accrued", .num p.financingAccrued),
    ("venue_ref", writeOption .str p.venueRef),
    ("position_id", .str p.positionId)]

def positionFields : List String :=
  ["instrument", "direction", "size", "entry_price", "entry_time", "stop_loss",
    "take_profit_targets", "strategy_id", "bars_held", "max_favourable_excursion",
    "max_adverse_excursion", "financing_accrued", "venue_ref", "position_id"]

/-- A field of another type, which the source would carry, is refused here; so is
a state without an identifier, which the source would draw. -/
def positionFromState (v : Value) : Except String Position := do
  refuseUnknown "position state" positionFields v
  return {
    instrument := ← (← v.field "instrument").text
    direction := ← directionFromState (← v.field "direction")
    size := ← (← v.field "size").float
    entryPrice := ← (← v.field "entry_price").float
    entryTime := ← tsFromState iso (← v.field "entry_time")
    stopLoss := ← (← v.field "stop_loss").float
    takeProfitTargets := ← v.fieldOr "take_profit_targets" [] (readList Value.float)
    strategyId := ← v.fieldOr "strategy_id" "" Value.text
    barsHeld := ← v.fieldOr "bars_held" 0 Value.natural
    maxFavourableExcursion := ← v.fieldOr "max_favourable_excursion" 0 Value.float
    maxAdverseExcursion := ← v.fieldOr "max_adverse_excursion" 0 Value.float
    financingAccrued := ← v.fieldOr "financing_accrued" 0 Value.float
    venueRef := ← v.fieldOr "venue_ref" none (readOption Value.text)
    positionId := ← (← v.field "position_id").text }

@[simp] theorem readList_float (xs : List ℚ) : readList Value.float (writeList .num xs) = .ok xs :=
  readList_writeList _ _ fun _ _ => rfl

@[simp] theorem readOption_text (o : Option String) :
    readOption Value.text (writeOption .str o) = .ok o := by
  cases o <;> rfl

variable (o : Option ℚ)

@[simp] theorem readOption_float : readOption Value.float (writeOption .num o) = .ok o := by
  cases o <;> rfl

@[simp] theorem positionFromState_positionToState (p : Position) :
    positionFromState iso (positionToState iso p) = .ok p := by
  have hknown : refuseUnknown "position state" positionFields (positionToState iso p) = .ok () := by
    rfl
  simp only [positionFromState, hknown]
  simp [positionToState, Value.field, Value.fieldOr, Value.get?, Dict.lookup]

def legToState (leg : TakeProfitLeg) : Value := .list [.num leg.price, .num leg.size]

def legFromState (v : Value) : Except String TakeProfitLeg := do
  match ← v.items with
  | [price, size] => return ⟨← price.float, ← size.float⟩
  | _ => throw "a leg is a price and a size"

def costsToState (c : AccountCosts) : Value := .dict
  [("spread", .num c.spread), ("slippage", .num c.slippage), ("premium", .num c.premium),
    ("commission", .num c.commission)]

def costsFromState (v : Value) : Except String AccountCosts := do
  return {
    spread := ← (← v.field "spread").float
    slippage := ← (← v.field "slippage").float
    premium := ← (← v.field "premium").float
    commission := ← (← v.field "commission").float }

@[simp] theorem costsFromState_costsToState (c : AccountCosts) :
    costsFromState (costsToState c) = .ok c := rfl

def managedToState (op : ManagedPosition) : Value := .dict
  [("seq", .int op.seq),
    ("position", positionToState iso op.position),
    ("instrument", .str op.instrument.symbol),
    ("entry_mid", .num op.entryMid),
    ("entry_bar_index", .int op.entryBarIndex),
    ("take_profit", writeOption .num op.takeProfit),
    ("entry_costs_account", costsToState op.entryCostsAccount),
    ("financing_account", .num op.financingAccount),
    ("last_financing_time", writeOption (tsToState iso) op.lastFinancingTime),
    ("entry_fx", .num op.entryFx),
    ("entry_size", .num op.entrySize),
    ("legs", writeList legToState op.legs),
    ("next_leg", .int op.nextLeg),
    ("risk_per_unit", .num op.riskPerUnit),
    ("initial_stop", .num op.initialStop),
    ("extreme", extremeToState op.extreme),
    ("breakeven_done", .bool op.breakevenDone),
    ("stop_trailed", .bool op.stopTrailed),
    ("stop_moved_by", .str op.stopMovedBy),
    ("reversal_pending", .bool op.reversalPending),
    ("realised_gross", .num op.realisedGross),
    ("realised_spread", .num op.realisedSpread),
    ("realised_commission", .num op.realisedCommission),
    ("realised_slippage", .num op.realisedSlippage),
    ("realised_financing", .num op.realisedFinancing),
    ("realised_net", .num op.realisedNet),
    ("exit_value", .num op.exitValue),
    ("n_legs_closed", .int op.nLegsClosed),
    ("single_leg_exit_mid", .num op.singleLegExitMid),
    ("ref", refToState op.ref)]

def managedFields : List String :=
  ["seq", "position", "instrument", "entry_mid", "entry_bar_index", "take_profit",
    "entry_costs_account", "financing_account", "last_financing_time", "entry_fx", "entry_size",
    "legs", "next_leg", "risk_per_unit", "initial_stop", "extreme", "breakeven_done",
    "stop_trailed", "stop_moved_by", "reversal_pending", "realised_gross", "realised_spread",
    "realised_commission", "realised_slippage", "realised_financing", "realised_net", "exit_value",
    "n_legs_closed", "single_leg_exit_mid", "ref"]

variable (instruments : Registry)

def managedFromState (v : Value) : Except String ManagedPosition := do
  refuseUnknown "managed-position state" managedFields v
  return {
    seq := ← (← v.field "seq").natural
    position := ← positionFromState iso (← v.field "position")
    instrument := instruments.get (← (← v.field "instrument").text)
    entryMid := ← (← v.field "entry_mid").float
    entryBarIndex := ← (← v.field "entry_bar_index").integer
    takeProfit := ← readOption Value.float (← v.field "take_profit")
    entryCostsAccount := ← costsFromState (← v.field "entry_costs_account")
    financingAccount := ← v.fieldOr "financing_account" 0 Value.float
    lastFinancingTime := ← v.fieldOr "last_financing_time" none (readOption (tsFromState iso))
    entryFx := ← v.fieldOr "entry_fx" 1 Value.float
    entrySize := ← v.fieldOr "entry_size" 0 Value.float
    legs := ← v.fieldOr "legs" [] (readList legFromState)
    nextLeg := ← v.fieldOr "next_leg" 0 Value.natural
    riskPerUnit := ← v.fieldOr "risk_per_unit" 0 Value.float
    initialStop := ← v.fieldOr "initial_stop" 0 Value.float
    extreme := ← v.fieldOr "extreme" none extremeFromState
    breakevenDone := ← v.fieldOr "breakeven_done" false Value.flag
    stopTrailed := ← v.fieldOr "stop_trailed" false Value.flag
    stopMovedBy := ← v.fieldOr "stop_moved_by" "" Value.text
    reversalPending := ← v.fieldOr "reversal_pending" false Value.flag
    realisedGross := ← v.fieldOr "realised_gross" 0 Value.float
    realisedSpread := ← v.fieldOr "realised_spread" 0 Value.float
    realisedCommission := ← v.fieldOr "realised_commission" 0 Value.float
    realisedSlippage := ← v.fieldOr "realised_slippage" 0 Value.float
    realisedFinancing := ← v.fieldOr "realised_financing" 0 Value.float
    realisedNet := ← v.fieldOr "realised_net" 0 Value.float
    exitValue := ← v.fieldOr "exit_value" 0 Value.float
    nLegsClosed := ← v.fieldOr "n_legs_closed" 0 Value.natural
    singleLegExitMid := ← v.fieldOr "single_leg_exit_mid" 0 Value.float
    ref := ← v.fieldOr "ref" none (readOption Value.text) }

@[simp] theorem readList_leg (legs : List TakeProfitLeg) :
    readList legFromState (writeList legToState legs) = .ok legs :=
  readList_writeList _ _ fun _ _ => rfl

@[simp] theorem readOption_ts (o : Option Timestamp) :
    readOption (tsFromState iso) (writeOption (tsToState iso) o) = .ok o :=
  readOption_writeOption (fun _ => Value.noConfusion) fun t _ => tsFromState_tsToState iso t

@[simp] theorem extremeFromState_extremeToState : extremeFromState (extremeToState o) = .ok o := by
  cases o <;> rfl

theorem managedFromState_managedToState {op : ManagedPosition}
    (h : instruments.get op.instrument.symbol = op.instrument) :
    managedFromState iso instruments (managedToState iso op) = .ok op := by
  have hknown : refuseUnknown "managed-position state" managedFields (managedToState iso op) =
      .ok () := by
    rfl
  simp only [managedFromState, hknown]
  simp [managedToState, refToState, Value.field, Value.fieldOr, Value.get?, Dict.lookup, h]

def pendingToState (e : PendingEntry) : Value := .dict
  [("seq", .int e.seq),
    ("instrument", .str e.instrument.symbol),
    ("direction", .str e.direction.value),
    ("size", .num e.size),
    ("stop_price", .num e.stopPrice),
    ("take_profit_prices", writeList .num e.takeProfitPrices),
    ("take_profit_allocations", writeList .num e.takeProfitAllocations),
    ("strategy_id", .str e.strategyId),
    ("actionable_index", .int e.actionableIndex),
    ("created_index", .int e.createdIndex),
    ("ref", refToState e.ref)]

def pendingFromState (v : Value) : Except String PendingEntry := do
  let prices ← readList Value.float (← v.field "take_profit_prices")
  let allocations ← readList Value.float (← v.field "take_profit_allocations")
  if h : allocations ≠ [] → allocations.length = prices.length then
    return {
      seq := ← (← v.field "seq").natural
      instrument := instruments.get (← (← v.field "instrument").text)
      direction := ← directionFromState (← v.field "direction")
      size := ← (← v.field "size").float
      stopPrice := ← (← v.field "stop_price").float
      takeProfitPrices := prices
      takeProfitAllocations := allocations
      strategyId := ← (← v.field "strategy_id").text
      actionableIndex := ← (← v.field "actionable_index").integer
      createdIndex := ← (← v.field "created_index").integer
      ref := ← v.fieldOr "ref" none (readOption Value.text)
      allocations_aligned := h }
  else throw "allocations are not aligned with the targets"

theorem pendingFromState_pendingToState {e : PendingEntry}
    (h : instruments.get e.instrument.symbol = e.instrument) :
    pendingFromState instruments (pendingToState e) = .ok e := by
  simp [pendingFromState, pendingToState, refToState, Value.field, Value.fieldOr, Value.get?,
    Dict.lookup, h]
  exact dif_pos e.allocations_aligned

def pendingCloseToState (c : PendingClose) : Value := .dict
  [("seq", .int c.seq), ("position_seq", .int c.positionSeq), ("instrument", .str c.instrument),
    ("actionable_index", .int c.actionableIndex)]

def pendingCloseFromState (v : Value) : Except String PendingClose := do
  return {
    seq := ← (← v.field "seq").natural
    positionSeq := ← (← v.field "position_seq").natural
    instrument := ← (← v.field "instrument").text
    actionableIndex := ← (← v.field "actionable_index").integer }

def breakdownToState (c : CostBreakdown) : Value := .dict
  [("spread", .num c.spread), ("commission", .num c.commission), ("slippage", .num c.slippage),
    ("financing", .num c.financing), ("guaranteed_stop_premium", .num c.guaranteedStopPremium),
    ("entry_leg_spread", .num c.entryLegSpread), ("exit_leg_spread", .num c.exitLegSpread)]

def breakdownFromState (v : Value) : Except String CostBreakdown := do
  return {
    spread := ← v.fieldOr "spread" 0 Value.float
    commission := ← v.fieldOr "commission" 0 Value.float
    slippage := ← v.fieldOr "slippage" 0 Value.float
    financing := ← v.fieldOr "financing" 0 Value.float
    guaranteedStopPremium := ← v.fieldOr "guaranteed_stop_premium" 0 Value.float
    entryLegSpread := ← v.fieldOr "entry_leg_spread" 0 Value.float
    exitLegSpread := ← v.fieldOr "exit_leg_spread" 0 Value.float }

def plainKey (s : String) : Except String String := .ok s

def stateVersion : ℤ := 1

namespace PositionBook

/-- `export_state`: everything a later decision depends on, the closed history left out. -/
def exportState (b : PositionBook) : Value := .dict
  [("version", .int stateVersion),
    ("balance", .num b.balance),
    ("realised", .num b.realised),
    ("costs", breakdownToState b.costs),
    ("rejections", writeDict id (fun n : ℕ => .int n) b.rejections),
    ("seq", .int b.seq),
    ("open", writeList (managedToState iso) b.open_),
    ("pending", writeList pendingToState b.pending),
    ("pending_closes", writeList pendingCloseToState b.pendingCloses),
    ("cooldown_until", writeDict id .int b.cooldownUntil)]

def used (b : PositionBook) : Bool :=
  b.open_ ≠ [] || b.pending ≠ [] || b.pendingCloses ≠ [] || b.seq ≠ 0 || b.trades ≠ []

def versionText : Option Value → String
  | some (.int z) => toString z
  | some (.str s) => Text.pyRepr s
  | _ => "None"

/-- `restore_state`, into a book that has not traded. -/
def restoreState (b : PositionBook) (v : Value) : Except String PositionBook := do
  if (← v.fieldOr "version" (-1) Value.integer) ≠ stateVersion then
    throw ("book state version " ++ versionText (v.get? "version") ++ " is not " ++
      toString stateVersion)
  if b.used then
    throw "restore_state needs a fresh book; this one has already traded"
  return { b with
    balance := ← (← v.field "balance").float
    realised := ← (← v.field "realised").float
    costs := ← breakdownFromState (← v.field "costs")
    rejections := ← readDict plainKey Value.natural (← v.field "rejections")
    seq := ← (← v.field "seq").natural
    open_ := ← readList (managedFromState iso instruments) (← v.field "open")
    pending := ← readList (pendingFromState instruments) (← v.field "pending")
    pendingCloses := ← readList pendingCloseFromState (← v.field "pending_closes")
    cooldownUntil := ← readDict plainKey Value.integer (← v.field "cooldown_until") }

abbrev Registered (b : PositionBook) : Prop := b.Holds fun i => instruments.get i.symbol = i

theorem restoreState_exportState {b fresh : PositionBook} (h : b.Registered instruments)
    (hfresh : fresh.used = false) :
    fresh.restoreState iso instruments (b.exportState iso) =
      .ok { b with trades := fresh.trades, exitLegs := fresh.exitLegs } := by
  have hopen := readList_writeList (managedFromState iso instruments)
    (managedToState iso) fun op hop =>
      managedFromState_managedToState iso instruments (h.open_ op hop)
  have hpending := readList_writeList (pendingFromState instruments)
    pendingToState fun e he =>
      pendingFromState_pendingToState instruments (h.pending e he)
  have hcloses := readList_writeList pendingCloseFromState pendingCloseToState
    (fun c (_ : c ∈ b.pendingCloses) => rfl)
  have hrejections := readDict_writeDict plainKey id Value.natural (fun n : ℕ => .int n)
    b.rejections (fun _ => rfl) fun _ _ => rfl
  have hcooldown := readDict_writeDict plainKey id Value.integer .int b.cooldownUntil
    (fun _ => rfl) fun _ _ => rfl
  have hcosts : breakdownFromState (breakdownToState b.costs) = .ok b.costs := rfl
  simp [restoreState, exportState, Value.field, Value.fieldOr, Value.get?, Dict.lookup, hfresh,
    hopen, hpending, hcloses, hrejections, hcooldown, hcosts]

end PositionBook

end Fiboki
