import Fiboki.Backtest.Book
import Fiboki.Sim.FillRules

/-!
The life of one position, apart from the book that carries it: what each bar, each
night and each close does to it, and the closing fills it leaves.
-/

namespace Fiboki

structure Closing where
  op : ManagedPosition
  fill : ExitFill
  time : Timestamp
  size : ℚ
  final : Bool

def Closing.reason (c : Closing) : ExitReason := c.op.exitReason c.fill

namespace BookSetup

variable (env : BookSetup)

def legOf (c : Closing) : ExitLeg := (env.closeFill .zero c.op c.fill c.time c.size c.final).1

def reduced (c : Closing) : ManagedPosition :=
  (env.closeFill .zero c.op c.fill c.time c.size c.final).2.1

def afterLeg (c : Closing) : ManagedPosition :=
  if c.fill.reason = .takeProfit then
    { env.reduced c with nextLeg := (env.reduced c).nextLeg + 1 }
  else env.reduced c

def closing (v : BarSlice) (bar : Bar) (op : ManagedPosition) (decision : ExitFill) : Closing :=
  let (size, final) := op.sizeForExit decision
  ⟨op, if final then decision else (env.resolveFor v bar op size).getD decision, v.timestamp, size,
    final⟩

def exitFills (v : BarSlice) (bar : Bar) :
    ℕ → ManagedPosition → List Closing × ManagedPosition × Option ExitReason
  | 0, op => ([], op, none)
  | n + 1, op =>
    match env.resolveFor v bar op op.position.size with
    | none => ([], op, none)
    | some decision =>
      let c := env.closing v bar op decision
      if c.final then ([c], env.afterLeg c, some c.reason)
      else
        let (cs, op', closed) := exitFills v bar n (env.afterLeg c)
        (c :: cs, op', closed)

def marketClosing (v : BarSlice) (bar : Bar) (reason : ExitReason) (price : ℚ)
    (spacing : Spacing) (op : ManagedPosition) : Closing :=
  ⟨op, env.sim.marketExit op.instrument op.position.direction op.position.size bar v.index reason
    price op.seq spacing, v.timestamp, op.position.size, true⟩

def barFills (v : BarSlice) (bar : Bar) (op : ManagedPosition) :
    List Closing × ManagedPosition × Option ExitReason :=
  let (cs, op, closed) := env.exitFills v bar (op.legs.length + 1) (seeBar v bar op)
  if closed = none ∧ env.timeStopHit op then
    let c := env.marketClosing v bar .timeStop bar.close (v.spacing op.position.instrument) op
    (cs ++ [c], env.reduced c, some .timeStop)
  else (cs, op, closed)

end BookSetup

/-- A turn goes on by closing fills alone: their rows, and nothing else that is read again. -/
structure Turn.Emits (t t' : Turn) (legs : List ExitLeg) : Prop where
  rows : t'.book.exitLegs = t.book.exitLegs ++ legs
  open_ : t'.book.open_ = t.book.open_
  pending : t'.book.pending = t.book.pending
  pendingCloses : t'.book.pendingCloses = t.book.pendingCloses
  seq : t'.book.seq = t.book.seq
  entries : t'.result.entries = t.result.entries

namespace Turn.Emits

variable {t t' t'' : Turn} {legs legs' : List ExitLeg} (env : BookSetup)

theorem refl (t : Turn) : Emits t t [] := ⟨(List.append_nil _).symm, rfl, rfl, rfl, rfl, rfl⟩

theorem trans (h : Emits t t' legs) (h' : Emits t' t'' legs') : Emits t t'' (legs ++ legs') where
  rows := by rw [h'.rows, h.rows, List.append_assoc]
  open_ := h'.open_.trans h.open_
  pending := h'.pending.trans h.pending
  pendingCloses := h'.pendingCloses.trans h.pendingCloses
  seq := h'.seq.trans h.seq
  entries := h'.entries.trans h.entries

theorem realise (t : Turn) (op : ManagedPosition) (fill : ExitFill) (ts : Timestamp) (size : ℚ)
    (final : Bool) : Emits t (env.realise t op fill ts size final).1
      [env.legOf ⟨op, fill, ts, size, final⟩] := ⟨rfl, rfl, rfl, rfl, rfl, rfl⟩

theorem settle (t : Turn) (op : ManagedPosition) (ts : Timestamp) (reason : ExitReason) :
    Emits t (env.settle t op ts reason) [] :=
  ⟨(List.append_nil _).symm, rfl, rfl, rfl, rfl, rfl⟩

variable {op : ManagedPosition} {v : BarSlice} {bar : Bar}

theorem exitLoop_none
    (h : env.resolveFor v bar op op.position.size = none) (n : ℕ) (t : Turn) :
    env.exitLoop v bar (n + 1) t op = (t, op, none) := by
  simp only [BookSetup.exitLoop, h]

theorem exitLoop_some {decision : ExitFill}
    (h : env.resolveFor v bar op op.position.size = some decision) (n : ℕ) (t : Turn) :
    env.exitLoop v bar (n + 1) t op =
      let c := env.closing v bar op decision
      let t' := (env.realise t op c.fill c.time c.size c.final).1
      if c.final then (t', env.afterLeg c, some c.reason)
      else env.exitLoop v bar n t' (env.afterLeg c) := by
  simp only [BookSetup.exitLoop, h]
  rfl

theorem exitLoop (v : BarSlice) (bar : Bar) (n : ℕ) (t : Turn) (op : ManagedPosition) :
    Emits t (env.exitLoop v bar n t op).1 ((env.exitFills v bar n op).1.map env.legOf) ∧
      (env.exitLoop v bar n t op).2 = (env.exitFills v bar n op).2 := by
  induction n generalizing t op with
  | zero => exact ⟨refl t, rfl⟩
  | succ n ih =>
    cases hdecision : env.resolveFor v bar op op.position.size with
    | none =>
      rw [exitLoop_none env hdecision]
      simp only [BookSetup.exitFills, hdecision]
      exact ⟨refl t, trivial⟩
    | some decision =>
      rw [exitLoop_some env hdecision]
      simp only [BookSetup.exitFills, hdecision]
      have hop : (env.closing v bar op decision).op = op := rfl
      have hstep := realise env t op (env.closing v bar op decision).fill
        (env.closing v bar op decision).time (env.closing v bar op decision).size
        (env.closing v bar op decision).final
      obtain ⟨hrest, hlast⟩ := ih (env.realise t op (env.closing v bar op decision).fill
        (env.closing v bar op decision).time (env.closing v bar op decision).size
        (env.closing v bar op decision).final).1 (env.afterLeg (env.closing v bar op decision))
      split_ifs
      · exact ⟨hstep, rfl⟩
      · exact ⟨hstep.trans hrest, hlast⟩

theorem exitBar (v : BarSlice) (bar : Bar) (t : Turn) (op : ManagedPosition) :
    Emits t (env.exitBar v bar t op).1 ((env.barFills v bar op).1.map env.legOf) ∧
      (env.exitBar v bar t op).2 = (env.barFills v bar op).2 := by
  obtain ⟨hloop, hop⟩ := exitLoop env v bar (op.legs.length + 1) t (BookSetup.seeBar v bar op)
  simp only [BookSetup.exitBar, BookSetup.barFills]
  generalize env.exitLoop v bar (op.legs.length + 1) t (BookSetup.seeBar v bar op) = out
    at hloop hop ⊢
  obtain ⟨t', out⟩ := out
  dsimp only at hop
  subst hop
  generalize env.exitFills v bar (op.legs.length + 1) (BookSetup.seeBar v bar op) = fills at hloop ⊢
  obtain ⟨cs, op', closed⟩ := fills
  dsimp only
  split_ifs
  · refine ⟨?_, rfl⟩
    rw [List.map_append]
    exact hloop.trans (realise env t' op' _ v.timestamp op'.position.size true)
  · exact ⟨hloop, rfl⟩

end Turn.Emits

theorem ExitReason.value_injective {a b : ExitReason} (h : a.value = b.value) : a = b := by
  cases a <;> cases b <;> first | rfl | exact absurd h (by decide)

section Kept

variable (env : BookSetup) (c : Closing)

@[simp] theorem legOf_positionSeq : (env.legOf c).positionSeq = c.op.seq := rfl

@[simp] theorem legOf_size : (env.legOf c).size = c.size := rfl

@[simp] theorem legOf_final : (env.legOf c).final = c.final := rfl

@[simp] theorem legOf_exitPrice : (env.legOf c).exitPrice = c.fill.midPrice := rfl

@[simp] theorem legOf_exitReason : (env.legOf c).exitReason = c.reason.value := rfl

structure SameTerms (op op' : ManagedPosition) : Prop where
  seq : op'.seq = op.seq
  instrument : op'.instrument = op.instrument
  symbol : op'.position.instrument = op.position.instrument
  direction : op'.position.direction = op.position.direction
  entryMid : op'.entryMid = op.entryMid
  entrySize : op'.entrySize = op.entrySize
  initialStop : op'.initialStop = op.initialStop
  riskPerUnit : op'.riskPerUnit = op.riskPerUnit
  legs : op'.legs = op.legs

structure SameStop (op op' : ManagedPosition) : Prop where
  stopLoss : op'.position.stopLoss = op.position.stopLoss
  stopTrailed : op'.stopTrailed = op.stopTrailed
  stopMovedBy : op'.stopMovedBy = op.stopMovedBy
  breakevenDone : op'.breakevenDone = op.breakevenDone

variable (op : ManagedPosition)

theorem SameTerms.refl : SameTerms op op := ⟨rfl, rfl, rfl, rfl, rfl, rfl, rfl, rfl, rfl⟩

theorem SameTerms.trans {op op' op'' : ManagedPosition} (h : SameTerms op op')
    (h' : SameTerms op' op'') : SameTerms op op'' :=
  ⟨h'.seq.trans h.seq, h'.instrument.trans h.instrument, h'.symbol.trans h.symbol,
    h'.direction.trans h.direction, h'.entryMid.trans h.entryMid, h'.entrySize.trans h.entrySize,
    h'.initialStop.trans h.initialStop, h'.riskPerUnit.trans h.riskPerUnit, h'.legs.trans h.legs⟩

theorem SameStop.refl : SameStop op op := ⟨rfl, rfl, rfl, rfl⟩

theorem SameStop.trans {op op' op'' : ManagedPosition} (h : SameStop op op')
    (h' : SameStop op' op'') : SameStop op op'' :=
  ⟨h'.stopLoss.trans h.stopLoss, h'.stopTrailed.trans h.stopTrailed,
    h'.stopMovedBy.trans h.stopMovedBy, h'.breakevenDone.trans h.breakevenDone⟩

theorem sameTerms_reduced : SameTerms c.op (env.reduced c) :=
  ⟨rfl, rfl, rfl, rfl, rfl, rfl, rfl, rfl, rfl⟩

theorem sameStop_reduced : SameStop c.op (env.reduced c) := ⟨rfl, rfl, rfl, rfl⟩

theorem sameTerms_afterLeg : SameTerms c.op (env.afterLeg c) := by
  unfold BookSetup.afterLeg
  split_ifs <;> exact ⟨rfl, rfl, rfl, rfl, rfl, rfl, rfl, rfl, rfl⟩

theorem sameStop_afterLeg : SameStop c.op (env.afterLeg c) := by
  unfold BookSetup.afterLeg
  split_ifs <;> exact ⟨rfl, rfl, rfl, rfl⟩

theorem size_reduced :
    (env.reduced c).position.size = if c.final then 0 else c.op.position.size - c.size := rfl

theorem size_afterLeg :
    (env.afterLeg c).position.size = if c.final then 0 else c.op.position.size - c.size := by
  rw [← size_reduced env c, BookSetup.afterLeg]
  split_ifs <;> rfl

theorem nextLeg_reduced : (env.reduced c).nextLeg = c.op.nextLeg := rfl

theorem nextLeg_afterLeg : (env.afterLeg c).nextLeg =
    if c.fill.reason = .takeProfit then c.op.nextLeg + 1 else c.op.nextLeg := by
  by_cases h : c.fill.reason = .takeProfit
  · rw [if_pos h, BookSetup.afterLeg, if_pos h, nextLeg_reduced]
  · rw [if_neg h, BookSetup.afterLeg, if_neg h, nextLeg_reduced]

variable (v : BarSlice)

variable (bar : Bar)

theorem sameTerms_seeBar (op : ManagedPosition) : SameTerms op (BookSetup.seeBar v bar op) := by
  simp only [BookSetup.seeBar]
  split_ifs <;> exact ⟨rfl, rfl, rfl, rfl, rfl, rfl, rfl, rfl, rfl⟩

theorem sameStop_seeBar (op : ManagedPosition) : SameStop op (BookSetup.seeBar v bar op) := by
  simp only [BookSetup.seeBar]
  split_ifs <;> exact ⟨rfl, rfl, rfl, rfl⟩

theorem size_seeBar (op : ManagedPosition) :
    (BookSetup.seeBar v bar op).position.size = op.position.size ∧
      (BookSetup.seeBar v bar op).nextLeg = op.nextLeg := by
  simp only [BookSetup.seeBar]
  split_ifs <;> exact ⟨rfl, rfl⟩

theorem sameTerms_updateProtectiveStop (op : ManagedPosition) :
    SameTerms op (env.updateProtectiveStop v op) := by
  simp only [BookSetup.updateProtectiveStop]
  split_ifs <;> exact ⟨rfl, rfl, rfl, rfl, rfl, rfl, rfl, rfl, rfl⟩

theorem size_updateProtectiveStop (op : ManagedPosition) :
    (env.updateProtectiveStop v op).position.size = op.position.size ∧
      (env.updateProtectiveStop v op).nextLeg = op.nextLeg := by
  simp only [BookSetup.updateProtectiveStop]
  split_ifs <;> exact ⟨rfl, rfl⟩

end Kept

inductive StopRule where
  | breakeven
  | trailing
  deriving DecidableEq

namespace BookSetup

variable (env : BookSetup)

def stopMove (v : BarSlice) (op : ManagedPosition) : Option StopRule :=
  let current := op.position.stopLoss
  let proposed := (env.breakevenStop op).1
  let level := (env.trailStop v op proposed "").1
  if op.riskPerUnit ≤ 0 then none
  else if 0 < (level - proposed) * op.position.direction.sign then some .trailing
  else if 0 < (proposed - current) * op.position.direction.sign then some .breakeven
  else none

def nightsDue (v : BarSlice) (op : ManagedPosition) : ℕ :=
  financingNights (op.lastFinancingTime.getD op.position.entryTime) v.timestamp
    env.config.financingRolloverHourUtc op.instrument.assetClass

end BookSetup

/-- The reasons a position is closed for at market, from outside its own exit rules. -/
inductive CloseReason where
  | oppositeSignal
  | marginCall
  | riskHalt
  | endOfData

def CloseReason.exitReason : CloseReason → ExitReason
  | oppositeSignal => .oppositeSignal
  | marginCall => .marginCall
  | riskHalt => .riskHalt
  | endOfData => .endOfData

/-- A position and what has happened to it: its closing fills, each beside the moves its stop
had made by then, the moves its stop has made and the nights it was charged. -/
structure Track where
  op : ManagedPosition
  closings : List (List StopRule × Closing)
  moves : List StopRule
  nights : ℕ
  closed : Option ExitReason

inductive PositionEvent where
  | charge (slice : BarSlice)
  | reverse
  | bar (slice : BarSlice)
  | market (slice : BarSlice) (bar : Bar) (reason : CloseReason) (price : ℚ) (spacing : Spacing)

namespace Track

variable (env : BookSetup)

def opened (v : BarSlice) (order : PendingEntry) (fill : EntryFill) (seq : ℕ) : Track :=
  ⟨env.openPosition v order fill seq, [], [], 0, none⟩

def legs (tr : Track) : List ExitLeg := tr.closings.map fun c => env.legOf c.2

def chargeNights (v : BarSlice) (tr : Track) : Track :=
  match env.financing with
  | none => tr
  | some financing =>
    match env.chargePosition financing v tr.op with
    | .error _ => tr
    | .ok op => { tr with op := op, nights := tr.nights + env.nightsDue v tr.op }

def close (tr : Track) (cs : List Closing) : List (List StopRule × Closing) :=
  tr.closings ++ cs.map (Prod.mk tr.moves)

def seeBar (v : BarSlice) (tr : Track) : Track :=
  match v.bars tr.op.position.instrument with
  | none => tr
  | some bar =>
    match env.barFills v bar tr.op with
    | (cs, op, some reason) =>
      { tr with op := op, closings := tr.close cs, closed := some reason }
    | (cs, op, none) =>
      { tr with
        op := env.updateProtectiveStop v op
        closings := tr.close cs
        moves := tr.moves ++ (env.stopMove v op).toList }

def market (v : BarSlice) (bar : Bar) (reason : CloseReason) (price : ℚ) (spacing : Spacing)
    (tr : Track) : Track :=
  let c := env.marketClosing v bar reason.exitReason price spacing tr.op
  { tr with
    op := env.reduced c
    closings := tr.close [c]
    closed := some reason.exitReason }

def step (tr : Track) : PositionEvent → Track
  | .charge v => tr.chargeNights env v
  | .reverse => { tr with op := { tr.op with reversalPending := true } }
  | .bar v => tr.seeBar env v
  | .market v bar reason price spacing => tr.market env v bar reason price spacing

end Track

/-- The runs of a position that `order` opened by `fill`.  At `some v` it was opened on
the bar of `v` and has not met that bar yet, which it does first. -/
inductive Lives (env : BookSetup) (order : PendingEntry) (fill : EntryFill) :
    Option BarSlice → Track → Prop where
  | opened {v : BarSlice} {bar : Bar} (hbar : v.bars order.instrument.symbol = some bar)
      (hfill : env.sim.simulateEntry order.instrument order.direction order.size bar v.index
        order.stopPrice order.seq (v.spacing order.instrument.symbol) = .ok fill) (seq : ℕ) :
      Lives env order fill (some v) (.opened env v order fill seq)
  | first {v : BarSlice} {tr : Track} (h : Lives env order fill (some v) tr) :
      Lives env order fill none (tr.step env (.bar v))
  | step {tr : Track} (h : Lives env order fill none tr) (hopen : tr.closed = none)
      (e : PositionEvent) : Lives env order fill none (tr.step env e)

namespace Lives

variable {env : BookSetup} {order : PendingEntry} {fill : EntryFill} {stage : Option BarSlice}
  {tr : Track}

theorem eq_opened {v : BarSlice} (h : Lives env order fill (some v) tr) :
    ∃ bar seq, v.bars order.instrument.symbol = some bar ∧
      env.sim.simulateEntry order.instrument order.direction order.size bar v.index
        order.stopPrice order.seq (v.spacing order.instrument.symbol) = .ok fill ∧
      tr = .opened env v order fill seq := by
  cases h with
  | opened hbar hfill seq => exact ⟨_, seq, hbar, hfill, rfl⟩

theorem invariant {P : Track → Prop} (h : Lives env order fill stage tr)
    (hopened : ∀ v bar seq, v.bars order.instrument.symbol = some bar →
      env.sim.simulateEntry order.instrument order.direction order.size bar v.index
        order.stopPrice order.seq (v.spacing order.instrument.symbol) = .ok fill →
      P (.opened env v order fill seq))
    (hstep : ∀ tr e, tr.closed = none → P tr → P (tr.step env e)) : P tr := by
  induction h with
  | opened hbar hfill seq => exact hopened _ _ seq hbar hfill
  | @first v tr h ih =>
    apply hstep tr (.bar v) _ ih
    obtain ⟨bar, seq, -, -, rfl⟩ := h.eq_opened
    rfl
  | step h hopen e ih => exact hstep _ e hopen ih

end Lives

end Fiboki
