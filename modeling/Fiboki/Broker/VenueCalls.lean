import Fiboki.Broker.PositionManager

/-!
What the manager asks of the venue: the calls behind each instruction, a venue
that keeps a record of the calls it takes, and what an instruction leaves alone.
-/

namespace Fiboki

open Text

inductive VenueCall where
  | closePosition (position : Position) (reply : Except Raised OrderAck)
  | amendPosition (position : Position) (stopLoss takeProfit : Option ℚ)
      (reply : Except Raised OrderAck)
  | closePartial (position : Position) (size : ℚ) (reply : Except Raised OrderAck)

section Recording

variable {σ : Type}

def BrokerAdapter.recording (a : BrokerAdapter σ) : BrokerAdapter (σ × List VenueCall) where
  venueName := a.venueName
  orders v := ((a.orders v.1).1, (a.orders v.1).2, v.2)
  positions v := ((a.positions v.1).1, (a.positions v.1).2, v.2)
  placeOrder order v := ((a.placeOrder order v.1).1, (a.placeOrder order v.1).2, v.2)
  closePosition position clientRef reason v :=
    let (reply, v') := a.closePosition position clientRef reason v.1
    (reply, v', v.2 ++ [.closePosition position reply])
  amendPosition position stopLoss takeProfit clientRef reason v :=
    let (reply, v') := a.amendPosition position stopLoss takeProfit clientRef reason v.1
    (reply, v', v.2 ++ [.amendPosition position stopLoss takeProfit reply])
  closePartial position size clientRef reason v :=
    let (reply, v') := a.closePartial position size clientRef reason v.1
    (reply, v', v.2 ++ [.closePartial position size reply])

def ExecutionService.recording (svc : ExecutionService σ) :
    ExecutionService (σ × List VenueCall) where
  adapter := svc.adapter.recording
  gateway :=
    { evaluate := fun plan context v => svc.gateway.evaluate plan context v.1
      evaluateExit := fun context v => svc.gateway.evaluateExit context v.1 }
  modeGuard := { check := fun mode strategyId url now v =>
    svc.modeGuard.check mode strategyId url now v.1 }
  venueUrl := svc.venueUrl
  mode := svc.mode

def World.plain (w : World (σ × List VenueCall)) : World σ := ⟨w.store, w.venue.1⟩

def World.calls (w : World (σ × List VenueCall)) : List VenueCall := w.venue.2

def ManagerSetup.recording (setup : ManagerSetup σ) : ManagerSetup (σ × List VenueCall) where
  execution := setup.execution.recording
  book := setup.book
  instruments := setup.instruments
  contextFactory position what w := setup.contextFactory position what w.plain
  retryAttempts := setup.retryAttempts
  latencyBars := setup.latencyBars
  priceTolerance := setup.priceTolerance
  accountCcy := setup.accountCcy
  clock v := setup.clock v.1

end Recording

namespace ManagerTurn

variable {σ : Type} (t : ManagerTurn σ)

variable (r : AmendTelemetry) (u : AmendTelemetry → IntentDivergence)

@[simp] theorem report_manager : (t.report r u).manager = t.manager := by
  unfold report
  split <;> rfl

@[simp] theorem report_world : (t.report r u).world = t.world := by
  unfold report
  split <;> rfl

theorem report_telemetry : (t.report r u).telemetry = t.telemetry ++ [r] := by
  unfold report
  split <;> rfl

variable (d : IntentDivergence)

@[simp] theorem diverge_manager : (t.diverge d).manager = t.manager := rfl

@[simp] theorem diverge_world : (t.diverge d).world = t.world := rfl

variable (f : VenuePositionManager → VenuePositionManager)

@[simp] theorem onManager_manager : (t.onManager f).manager = f t.manager := rfl

@[simp] theorem onManager_world : (t.onManager f).world = t.world := rfl

end ManagerTurn

namespace ManagerSetup

variable {σ : Type} (setup : ManagerSetup σ)

section Close

variable (t : ManagerTurn σ) (p : Position) (size : ℚ) (final : Bool) (kind : AmendKind)
  (reason : String)

theorem instructClose_applied : (setup.instructClose t p size final kind reason).1 =
    (setup.sendClose p size final reason t.world).1.applied := rfl

@[simp] theorem instructClose_manager :
    (setup.instructClose t p size final kind reason).2.manager = t.manager := by
  simp [instructClose]

@[simp] theorem instructClose_world : (setup.instructClose t p size final kind reason).2.world =
    (setup.sendClose p size final reason t.world).2 := by
  simp [instructClose]

end Close

section Amend

variable (t : ManagerTurn σ) (op : ManagedPosition) (desired : VenueIntent) (kind : AmendKind)

/-- What the service answers to an amendment of `op`. -/
def amendAnswer : Delivered × World σ :=
  setup.sendAmend (amendTarget t.manager (op.position.venueRef.getD "") op) desired kind t.world

@[simp] theorem instructAmend_world :
    (setup.instructAmend t op desired kind).2.world = (setup.amendAnswer t op desired kind).2 := by
  simp [instructAmend, amendAnswer]

theorem instructAmend_manager : (setup.instructAmend t op desired kind).2.manager =
    if (setup.amendAnswer t op desired kind).1.accepted then
      recordLevels t.manager (op.position.venueRef.getD "") op desired
    else t.manager := by
  simp only [instructAmend, ManagerTurn.report_manager]
  rfl

theorem instructAmend_applied : (setup.instructAmend t op desired kind).1.applied =
    (setup.amendAnswer t op desired kind).1.accepted := rfl

theorem instructAmend_telemetry : (setup.instructAmend t op desired kind).2.telemetry =
    t.telemetry ++ [(setup.instructAmend t op desired kind).1] := by
  simp only [instructAmend, ManagerTurn.report_telemetry]

@[simp] theorem instructAmend_pendingCloses :
    (setup.instructAmend t op desired kind).2.manager.pendingCloses = t.manager.pendingCloses := by
  rw [instructAmend_manager]
  split
  · unfold recordLevels
    dsimp only
    split <;> rfl
  · rfl

end Amend

theorem instructAmend_venue {R : σ → σ → Prop} (hrefl : ∀ v, R v v)
    (htrans : ∀ u v w, R u v → R v w → R u w)
    (hstep : ∀ p stopLoss takeProfit clientRef reason v,
      R v (setup.execution.adapter.amendPosition p stopLoss takeProfit clientRef reason v).2)
    (t : ManagerTurn σ) (op : ManagedPosition) (desired : VenueIntent) (kind : AmendKind) :
    R t.world.venue (setup.instructAmend t op desired kind).2.world.venue := by
  rw [instructAmend_world]
  exact ExecutionService.amend_venue hrefl htrans hstep _ _ _ _ _ _ _

section FinalClose

variable (p : Position) (w : World σ)

def exitAllowed : Bool :=
  (setup.execution.gateway.evaluateExit (setup.contextFactory p "close" w) w.venue).allowed

/-- The adapter's answer to a close of `p`. -/
def closeReply : Except Raised OrderAck × σ :=
  setup.execution.adapter.closePosition p (closeClientRef p.positionId)
    (setup.contextFactory p "close" w).reason w.venue

variable {setup p w} (size : ℚ) (reason : String)

theorem sendClose_refused (h : setup.exitAllowed p w = false) :
    setup.sendClose p size true reason w =
      (⟨false, "risk_gateway_blocked_exit", 1, false, ""⟩, w) := by
  simp only [sendClose, if_true, ExecutionService.close_refused h]
  rfl

theorem sendClose_blocked (h : setup.exitAllowed p w = true) {existing : OrderIntent}
    (hb : w.store.blocking (closeClientRef p.positionId) = some existing) :
    setup.sendClose p size true reason w = (.failed (.idempotencyViolation
      ("close for " ++ p.positionId ++ " is already " ++ existing.state.value)), w) := by
  simp only [sendClose, if_true, ExecutionService.close_blocked h hb]
  rfl

def closeSettled (setup : ManagerSetup σ) (p : Position) (w : World σ) :
    Except ServiceError SubmitOutcome × World σ :=
  let context := setup.contextFactory p "close" w
  ExecutionService.close.closeSettle
    (setup.execution.gateway.evaluateExit context w.venue) (setup.execution.closeIntent p context)
    context.now (setup.closeReply p w).1
    { w.write (setup.execution.closeIntent p context) with venue := (setup.closeReply p w).2 }

theorem sendClose_sends (h : setup.exitAllowed p w = true)
    (hb : w.store.blocking (closeClientRef p.positionId) = none) :
    setup.sendClose p size true reason w =
      (.ofSubmit (setup.closeSettled p w).1, (setup.closeSettled p w).2) := by
  simp only [sendClose, if_true, ExecutionService.close_sends h hb]
  rfl

end FinalClose

section Reduction

variable {setup} {p : Position} {size : ℚ} {w : World σ} (reason : String)

theorem sendReduce_blocked
    (h : (setup.execution.gateway.evaluateExit (setup.contextFactory p "reduce" w)
      w.venue).allowed = true) {existing : OrderIntent}
    (hb : w.store.blocking (partialClientRef p.positionId size) = some existing) :
    (setup.sendClose p size false reason w).2 = w := by
  simp only [sendClose, Bool.false_eq_true, if_false, ExecutionService.closePartial_blocked h hb]

end Reduction

end ManagerSetup

namespace ExecutionService

def Confirmed (reply : Except Raised OrderAck) : Prop :=
  match reply with
  | .ok _ => True
  | .error exc => exc.kind = .positionNotFound

def failureText (exc : Raised) : String := if exc.kind.isBrokerError then exc.message
    else exc.described

def Misread (reply : Except Raised OrderAck) : Prop :=
  match reply with
  | .ok _ => False
  | .error exc => exc.kind ≠ .positionNotFound ∧ contains "already_flat" (failureText exc) = true

variable {σ : Type} (decision : RiskDecision) (intent : OrderIntent) (now : Timestamp)
  (reply : Except Raised OrderAck) (w : World σ)

theorem closeSettle_venue : (close.closeSettle decision intent now reply w).2.venue = w.venue := by
  unfold close.closeSettle
  cases reply with
  | ok ack => rfl
  | error exc =>
    dsimp only
    split_ifs <;> rfl

theorem partialSettle_venue (size : ℚ) :
    (closePartial.partialSettle size decision intent now reply w).2.venue = w.venue := by
  unfold closePartial.partialSettle
  cases reply with
  | ok ack => rfl
  | error exc =>
    dsimp only
    split_ifs <;> rfl

theorem closeSettle_applied :
    (Delivered.ofSubmit (close.closeSettle decision intent now reply w).1).applied = true ↔
      Confirmed reply ∨ Misread reply := by
  rw [Delivered.applied, Delivered.alreadyFlat, Bool.or_eq_true]
  unfold close.closeSettle
  cases reply with
  | ok ack => exact ⟨fun _ => .inl trivial, fun _ => .inl rfl⟩
  | error exc =>
    by_cases hn : exc.kind = .positionNotFound
    · simp only [hn, if_true]
      exact ⟨fun _ => .inl hn, fun _ => .inl rfl⟩
    · have hmisread : Confirmed (.error exc) ∨ Misread (.error exc) ↔
          contains "already_flat" (failureText exc) = true :=
        ⟨fun h => (h.resolve_left hn).2, fun h => .inr ⟨hn, h⟩⟩
      rw [hmisread, failureText]
      by_cases hr : exc.kind.isRejected = true
      · have hb : exc.kind.isBrokerError = true := by
          cases hk : exc.kind <;> simp_all [ErrorKind.isRejected, ErrorKind.isBrokerError]
        simp only [hn, hr, hb, if_true, if_false, Delivered.ofSubmit, Bool.false_eq_true, false_or]
      · by_cases hb : exc.kind.isBrokerError = true
        · simp only [hn, hr, hb, if_true, if_false, Delivered.ofSubmit, Bool.false_eq_true,
            false_or]
        · dsimp only
          rw [if_neg hn, if_neg hr, if_neg hb, if_neg hb]
          exact ⟨fun h => h.resolve_left Bool.false_ne_true, fun h => .inr h⟩

end ExecutionService

theorem ManagerSetup.sendReduce_sends {σ : Type} {setup : ManagerSetup σ} {p : Position} {size : ℚ}
    {w : World σ} (reason : String)
    (h : (setup.execution.gateway.evaluateExit (setup.contextFactory p "reduce" w)
      w.venue).allowed = true)
    (hb : w.store.blocking (partialClientRef p.positionId size) = none) :
    (setup.sendClose p size false reason w).2.venue = (setup.execution.adapter.closePartial p size
      (partialClientRef p.positionId size) reason w.venue).2 := by
  simp only [ManagerSetup.sendClose, Bool.false_eq_true, if_false,
    ExecutionService.closePartial_sends h hb]
  exact ExecutionService.partialSettle_venue _ _ _ _ _ _

namespace Frictionless

variable {σ : Type}

def demoService (adapter : BrokerAdapter σ) : ExecutionService σ where
  adapter := adapter
  gateway := { evaluate := fun _ _ _ => ⟨true, []⟩, evaluateExit := fun _ _ => ⟨true, []⟩ }
  modeGuard := { check := fun _ _ _ _ _ => ⟨true, []⟩ }
  venueUrl := ""
  mode := .demo

/-- A manager without guards or costs, over a venue. -/
def demoManager (adapter : BrokerAdapter σ) : ManagerSetup σ where
  execution := demoService adapter
  book := book
  instruments := instruments
  contextFactory p what _ := ⟨p.instrument, p.strategyId, p.size, 0, .demo, p.positionId, what⟩
  retryAttempts := 3
  latencyBars := 0
  priceTolerance := 0
  accountCcy := "USD"
  clock _ := 0

def order : Order where
  planId := "p"
  instrument := "EURUSD"
  direction := .long
  size := 10
  orderType := .market
  mode := .demo
  clientRef := "FBK-p"
  stopLoss := some 1
  takeProfit := none
  takeProfitPrices := []
  takeProfitAllocations := []
  createdAt := 0
  orderId := "o"
  clientRef_nonempty := by decide
  allocations_aligned := by simp

theorem truthy_first : truthy (some "T1") = true := by decide

def ackOf (ref : String) (h : truthy (some ref) = true) : OrderAck where
  status := .filled
  brokerRef := some ref
  clientRef := "FBK-p"
  orderId := "o"
  fill := none
  message := ""
  rawFilledSize := none
  rawPrice := none
  ref_of_filled := fun _ => h

end Frictionless

end Fiboki