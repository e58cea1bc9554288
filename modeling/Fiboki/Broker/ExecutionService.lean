import Fiboki.Broker.Intent

/-!
The execution service: the only place that builds an `Order`, and the four
instructions that reach a venue through it.

`submit` is split at the point where the durable intent has been written and
nothing has been sent, because that is where a crash leaves evidence and no order.
-/

namespace Fiboki

open Text

/-- `client_ref_for`: the idempotency key of a plan. -/
def clientRefFor (plan : TradePlan) : String := "FBK-" ++ plan.planId

def levelText : Option ℚ → String
  | none => "none"
  | some value => fixed10 value

/-- `amend_client_ref`: the idempotency key of an amendment, from the desired levels. -/
def amendClientRef (positionId : String) (stopLoss takeProfit : Option ℚ) : String :=
  "FBK-AMEND-" ++ positionId ++ "-" ++ levelText stopLoss ++ "-" ++ levelText takeProfit

def closeClientRef (positionId : String) : String := "FBK-CLOSE-" ++ positionId

def partialClientRef (positionId : String) (size : ℚ) : String :=
  "FBK-PARTIAL-" ++ positionId ++ "-" ++ fixed10 size

theorem clientRefFor_ne_empty (plan : TradePlan) : clientRefFor plan ≠ "" := by
  intro h
  have := congrArg String.toList h
  simp [clientRefFor] at this

structure RiskContext where
  now : Timestamp
  limitsVersion : Option String

structure ExitContext where
  instrument : String
  strategyId : String
  size : ℚ
  now : Timestamp
  mode : ExecutionMode
  positionId : String
  reason : String

/-- The mandatory gateway.  Its verdict may depend on the outside world. -/
structure RiskGateway (σ : Type) where
  evaluate : TradePlan → RiskContext → σ → RiskDecision
  evaluateExit : ExitContext → σ → RiskDecision

structure ModeGuardDecision where
  allowed : Bool
  failedControls : List String

structure ModeGuard (σ : Type) where
  check : ExecutionMode → (strategyId venueUrl : String) → Timestamp → σ → ModeGuardDecision

structure World (σ : Type) where
  store : IntentStore
  venue : σ

namespace World

variable {σ : Type}

def write (w : World σ) (intent : OrderIntent) : World σ := { w with store := w.store.write intent }

@[simp] theorem write_venue (w : World σ) (i : OrderIntent) : (w.write i).venue = w.venue := rfl

@[simp] theorem write_store (w : World σ) (i : OrderIntent) :
    (w.write i).store = w.store.write i := rfl

end World

inductive ServiceError where
  | idempotencyViolation (message : String)
  | raised (exc : Raised)

/-- `f"{type(exc).__name__}:{exc}"`. -/
def ServiceError.described : ServiceError → String
  | idempotencyViolation message => "IdempotencyViolation:" ++ message
  | raised exc => exc.described

structure SubmitOutcome where
  accepted : Bool
  intent : Option OrderIntent
  decision : Option RiskDecision
  ack : Option OrderAck
  reason : String

structure AmendOutcome where
  accepted : Bool
  intent : Option OrderIntent
  decision : Option RiskDecision
  ack : Option OrderAck
  reason : String
  attempts : ℕ
  skipped : Bool

structure ExecutionService (σ : Type) where
  adapter : BrokerAdapter σ
  gateway : RiskGateway σ
  modeGuard : ModeGuard σ
  venueUrl : String
  mode : ExecutionMode

/-- `a or b` of strings and of numbers. -/
def strOr (a b : String) : String := if a = "" then b else a

def ratOr (a b : ℚ) : ℚ := if a = 0 then b else a

def stateOfStatus : OrderStatus → IntentState
  | .filled => .filled
  | .partiallyFilled => .filled
  | .accepted => .acked
  | .rejected => .rejected
  | .cancelled => .cancelled
  | .unknown => .unknown

def applyAck (intent : OrderIntent) (ack : OrderAck) (now : Timestamp) : OrderIntent :=
  let filledSize := match ack.fill with
    | some fill => fill.filledSize
    | none => ack.rawFilledSize.getD 0
  let filledPrice := match ack.fill with
    | some fill => some fill.filledPrice
    | none => ack.rawPrice
  { intent with
    state := stateOfStatus ack.status
    updatedAt := now
    brokerRef := pyOr ack.brokerRef intent.brokerRef
    orderId := strOr intent.orderId ack.orderId
    filledSize := ratOr filledSize intent.filledSize
    filledPrice := filledPrice.or intent.filledPrice
    lastError := if ack.status = .rejected then ack.message else intent.lastError }

@[simp] theorem applyAck_state (i : OrderIntent) (a : OrderAck) (now : Timestamp) :
    (applyAck i a now).state = stateOfStatus a.status := rfl

namespace ExecutionService

variable {σ : Type} (svc : ExecutionService σ)

def newIntent (plan : TradePlan) (clientRef : String) (now : Timestamp) (state : IntentState)
    (orderId lastError limitsVersion : String) : OrderIntent where
  clientRef := clientRef
  planId := plan.planId
  signalId := plan.signal.signalId
  strategyId := plan.signal.strategyId
  instrument := plan.instrument
  direction := plan.direction
  size := plan.size
  mode := svc.mode
  state := state
  createdAt := now
  updatedAt := now
  venue := svc.adapter.venueName
  orderId := orderId
  brokerRef := none
  stopLoss := some plan.signal.stopPrice
  takeProfit := plan.signal.takeProfitPrices.head?
  filledSize := 0
  filledPrice := none
  lastError := lastError
  limitsVersion := limitsVersion
  dispatchAttempts := 0
  extra := .entry plan.riskAmount plan.sizingBasis plan.signal.takeProfitPrices
    plan.signal.takeProfitAllocations

def orderOf (plan : TradePlan) (now : Timestamp) (orderId : String) : Order where
  planId := plan.planId
  instrument := plan.instrument
  direction := plan.direction
  size := plan.size
  orderType := .market
  mode := svc.mode
  clientRef := clientRefFor plan
  stopLoss := some plan.signal.stopPrice
  takeProfit := plan.signal.takeProfitPrices.head?
  takeProfitPrices := plan.signal.takeProfitPrices
  takeProfitAllocations := plan.signal.takeProfitAllocations
  createdAt := now
  orderId := orderId
  clientRef_nonempty := clientRefFor_ne_empty plan
  allocations_aligned := fun h => (plan.signal.allocations_ok h).aligned

/-- `submit` up to the write that precedes dispatch: either it has returned, or
the order and its written intent are ready to send. -/
inductive Prepared where
  | done (result : Except ServiceError SubmitOutcome)
  | dispatch (decision : RiskDecision) (order : Order) (intent : OrderIntent)

def duplicateMessage (clientRef : String) (existing : OrderIntent) : String :=
  "client_ref " ++ pyRepr clientRef ++ " is already " ++ existing.state.value ++ " (broker_ref=" ++
    reprOption existing.brokerRef ++ "). Refusing to place a second order for the same plan; " ++
    "resolve the existing one first."

def prepare (plan : TradePlan) (orderId : String) (context : RiskContext) (w : World σ) :
    Prepared × World σ :=
  let now := context.now
  let clientRef := clientRefFor plan
  let limitsVersion := context.limitsVersion.getD ""
  let guard := svc.modeGuard.check svc.mode plan.signal.strategyId svc.venueUrl now w.venue
  -- the mode guard writes before the stored intent is looked at
  if guard.allowed = false then
    let reason := "mode_guard_blocked:" ++ reprList guard.failedControls
    let w := w.write (svc.newIntent plan clientRef now .blocked "" reason "")
    (.done (.ok ⟨false, w.store.get clientRef, none, none, reason⟩), w)
  else
    match w.store.blocking clientRef with
    | some existing =>
      (.done (.error (.idempotencyViolation (duplicateMessage clientRef existing))), w)
    | none => gate now clientRef limitsVersion w
where
  /-- The mandatory gateway, then the write before dispatch. -/
  gate (now : Timestamp) (clientRef limitsVersion : String) (w : World σ) : Prepared × World σ :=
    let decision := svc.gateway.evaluate plan context w.venue
    if decision.allowed = false then
      let blocked := svc.newIntent plan clientRef now .blocked ""
        (String.intercalate ";" decision.reasons) limitsVersion
      (.done (.ok ⟨false, some blocked, some decision, none, "risk_gateway_blocked"⟩),
        w.write blocked)
    else
      let order := svc.orderOf plan now orderId
      let intent := svc.newIntent plan clientRef now .pending order.orderId "" limitsVersion
      (.dispatch decision order intent, w.write intent)

/-- The record `submit` keeps of a dispatch that raised. -/
def raisedEntry (exc : Raised) : IntentState × String :=
  if exc.kind.isRejected then (.rejected, "broker_rejected:" ++ exc.message)
  else if exc.kind = .duplicateClientRef then (.unknown, "duplicate_client_ref:" ++ exc.message)
  else if exc.kind = .brokerUnavailable then (.unknown, "broker_unavailable:" ++ exc.message)
  else (.unknown, "broker_error:" ++ exc.described)

/-- What `submit` makes of the adapter's answer. -/
def settle (decision : RiskDecision) (intent : OrderIntent) (now : Timestamp)
    (reply : Except Raised OrderAck) (w : World σ) : Except ServiceError SubmitOutcome × World σ :=
  let intent := { intent with dispatchAttempts := intent.dispatchAttempts + 1 }
  match reply with
  | .error exc =>
    if exc.kind.isBrokerError then
      let (state, lastError) := raisedEntry exc
      let w := w.write { intent with state := state, updatedAt := now, lastError := lastError }
      (.ok ⟨false, w.store.get intent.clientRef, some decision, none, exc.message⟩, w)
    else (.error (.raised exc), w)
  | .ok ack =>
    let updated := applyAck intent ack now
    (.ok ⟨decide (ack.status ≠ .rejected), some updated, some decision, some ack, ""⟩,
      w.write updated)

/-- `submit`: one order for `plan`. -/
def submit (plan : TradePlan) (orderId : String) (context : RiskContext) (w : World σ) :
    Except ServiceError SubmitOutcome × World σ :=
  match svc.prepare plan orderId context w with
  | (.done result, w) => (result, w)
  | (.dispatch decision order intent, w) =>
    let (reply, venue) := svc.adapter.placeOrder order w.venue
    settle decision intent context.now reply { w with venue := venue }

variable (plan : TradePlan) (orderId : String) (context : RiskContext)

theorem prepare_cases (w : World σ) :
    (∃ r i, (svc.modeGuard.check svc.mode plan.signal.strategyId svc.venueUrl context.now
          w.venue).allowed = false ∧
        i.clientRef = clientRefFor plan ∧ i.state = .blocked ∧
        svc.prepare plan orderId context w = (.done r, w.write i)) ∨
    (∃ r, (svc.modeGuard.check svc.mode plan.signal.strategyId svc.venueUrl context.now
          w.venue).allowed = true ∧
        w.store.blocks (clientRefFor plan) = true ∧
        svc.prepare plan orderId context w = (.done r, w)) ∨
    (∃ r i, w.store.blocks (clientRefFor plan) = false ∧
        i.clientRef = clientRefFor plan ∧ i.state = .blocked ∧
        svc.prepare plan orderId context w = (.done r, w.write i)) ∨
    (∃ d o i, w.store.blocks (clientRefFor plan) = false ∧ o.clientRef = clientRefFor plan ∧
        i.clientRef = clientRefFor plan ∧ i.state = .pending ∧ i.brokerRef = none ∧
        svc.prepare plan orderId context w = (.dispatch d o i, w.write i)) := by
  unfold prepare
  by_cases hg : (svc.modeGuard.check svc.mode plan.signal.strategyId svc.venueUrl context.now
      w.venue).allowed = false
  · left
    exact ⟨_, _, hg, rfl, rfl, by rw [if_pos hg]⟩
  · right
    rw [if_neg hg]
    by_cases hb : w.store.blocks (clientRefFor plan) = true
    · left
      obtain ⟨i, -, hi⟩ := IntentStore.blocking_of_blocks hb
      exact ⟨_, by simpa using hg, hb, by rw [hi]⟩
    · right
      have hb : w.store.blocks (clientRefFor plan) = false := by simpa using hb
      rw [IntentStore.blocking_eq_none hb]
      unfold prepare.gate
      by_cases hd : (svc.gateway.evaluate plan context w.venue).allowed = false
      · left
        exact ⟨_, _, hb, rfl, rfl, by simp only [if_pos hd]; rfl⟩
      · right
        exact ⟨_, _, _, hb, rfl, rfl, rfl, rfl, by simp only [if_neg hd]; rfl⟩

variable (decision : RiskDecision) (intent : OrderIntent) (now : Timestamp)
  (reply : Except Raised OrderAck)

theorem settle_cases (w : World σ) : (∃ exc, reply = .error exc ∧ exc.kind.isBrokerError = false ∧
        (settle decision intent now reply w).2 = w) ∨
    (∃ exc i, reply = .error exc ∧ i.clientRef = intent.clientRef ∧
        i.brokerRef = intent.brokerRef ∧ i.state = (raisedEntry exc).1 ∧
        (settle decision intent now reply w).2 = w.write i) ∨
    (∃ ack i, reply = .ok ack ∧ i.clientRef = intent.clientRef ∧
        i.brokerRef = pyOr ack.brokerRef intent.brokerRef ∧ i.state = stateOfStatus ack.status ∧
        (settle decision intent now reply w).2 = w.write i) := by
  cases reply with
  | ok ack =>
    right; right
    exact ⟨ack, applyAck { intent with dispatchAttempts := intent.dispatchAttempts + 1 } ack now,
      rfl, rfl, rfl, rfl, rfl⟩
  | error exc =>
    by_cases hb : exc.kind.isBrokerError = true
    · right; left
      refine ⟨exc, { intent with
        dispatchAttempts := intent.dispatchAttempts + 1, state := (raisedEntry exc).1
        updatedAt := now, lastError := (raisedEntry exc).2 }, rfl, rfl, rfl, rfl, ?_⟩
      simp only [settle, hb, if_true]
    · left
      exact ⟨exc, rfl, by simpa using hb, by simp [settle, hb]⟩

theorem raisedEntry_blocks {exc : Raised} (h : exc.kind.isRejected = false) :
    (raisedEntry exc).1.blocksResubmission = true := by
  simp only [raisedEntry, h, Bool.false_eq_true, if_false]
  split_ifs <;> rfl

def exitIntent (position : Position) (clientRef : String) (direction : Direction) (size : ℚ)
    (stopLoss takeProfit : Option ℚ) (now : Timestamp) (extra : IntentExtra) : OrderIntent where
  clientRef := clientRef
  planId := position.positionId
  signalId := ""
  strategyId := position.strategyId
  instrument := position.instrument
  direction := direction
  size := size
  mode := svc.mode
  state := .pending
  createdAt := now
  updatedAt := now
  venue := svc.adapter.venueName
  orderId := ""
  brokerRef := position.venueRef
  stopLoss := stopLoss
  takeProfit := takeProfit
  filledSize := 0
  filledPrice := none
  lastError := ""
  limitsVersion := ""
  dispatchAttempts := 0
  extra := extra

/-- `close`: `position` in full, through the gateway's exit checks. -/
def close (position : Position) (context : ExitContext) (w : World σ) :
    Except ServiceError SubmitOutcome × World σ :=
  let now := context.now
  let clientRef := closeClientRef position.positionId
  let decision := svc.gateway.evaluateExit context w.venue
  if decision.allowed = false then
    (.ok ⟨false, none, some decision, none, "risk_gateway_blocked_exit"⟩, w)
  else
    match w.store.blocking clientRef with
    | some existing =>
      (.error (.idempotencyViolation
        ("close for " ++ position.positionId ++ " is already " ++ existing.state.value)), w)
    | none =>
      let intent := svc.exitIntent position clientRef position.direction.opposite position.size
        none none now (.closing position.positionId)
      let w := w.write intent
      let (reply, venue) := svc.adapter.closePosition position clientRef context.reason w.venue
      closeSettle decision intent now reply { w with venue := venue }
where
  /-- What `close` makes of the adapter's answer. -/
  closeSettle (decision : RiskDecision) (intent : OrderIntent) (now : Timestamp)
      (reply : Except Raised OrderAck) (w : World σ) :
      Except ServiceError SubmitOutcome × World σ :=
    match reply with
    | .error exc =>
      if exc.kind = .positionNotFound then
        let text := "already_flat:" ++ exc.message
        let w := w.write { intent with state := .closed, updatedAt := now, lastError := text }
        (.ok ⟨true, w.store.get intent.clientRef, some decision, none, text⟩, w)
      else if exc.kind.isRejected then
        let w := w.write { intent with
          state := .rejected, updatedAt := now, lastError := "broker_rejected:" ++ exc.message }
        (.ok ⟨false, w.store.get intent.clientRef, some decision, none, exc.message⟩, w)
      else if exc.kind.isBrokerError then
        let w := w.write { intent with
          state := .unknown, updatedAt := now, lastError := exc.described }
        (.ok ⟨false, w.store.get intent.clientRef, some decision, none, exc.message⟩, w)
      else (.error (.raised exc), w)
    | .ok ack =>
      let closed := { intent with
        state := .closed
        updatedAt := now
        brokerRef := pyOr ack.brokerRef intent.brokerRef
        filledSize := (ack.fill.map Fill.filledSize).getD 0
        filledPrice := ack.fill.map Fill.filledPrice }
      (.ok ⟨true, some closed, some decision, some ack, ""⟩, w.write closed)

section CloseCases

variable {svc} {position : Position} {context : ExitContext} {w : World σ}

theorem close_refused (h : (svc.gateway.evaluateExit context w.venue).allowed = false) :
    svc.close position context w =
      (.ok ⟨false, none, some (svc.gateway.evaluateExit context w.venue), none,
        "risk_gateway_blocked_exit"⟩, w) := by
  simp only [close, h, if_true]

theorem close_blocked (h : (svc.gateway.evaluateExit context w.venue).allowed = true)
    {existing : OrderIntent}
    (hb : w.store.blocking (closeClientRef position.positionId) = some existing) :
    svc.close position context w = (.error (.idempotencyViolation
        ("close for " ++ position.positionId ++ " is already " ++ existing.state.value)), w) := by
  simp only [close, h, hb, Bool.true_eq_false, if_false]

/-- The intent `close` writes before dispatch. -/
def closeIntent (svc : ExecutionService σ) (position : Position) (context : ExitContext) :
    OrderIntent :=
  svc.exitIntent position (closeClientRef position.positionId) position.direction.opposite
    position.size none none context.now (.closing position.positionId)

theorem close_sends (h : (svc.gateway.evaluateExit context w.venue).allowed = true)
    (hb : w.store.blocking (closeClientRef position.positionId) = none) :
    svc.close position context w =
      close.closeSettle (svc.gateway.evaluateExit context w.venue)
      (svc.closeIntent position context)
        context.now
        (svc.adapter.closePosition position (closeClientRef position.positionId) context.reason
          w.venue).1
        { w.write (svc.closeIntent position context) with
          venue := (svc.adapter.closePosition position (closeClientRef position.positionId)
            context.reason w.venue).2 } := by
  simp only [close, h, hb, Bool.true_eq_false, if_false]
  rfl

end CloseCases

/-- `amend`: move the one stop and the one limit the venue holds for `position`,
with at most `retryAttempts` attempts. -/
def amend (position : Position) (stopLoss takeProfit : Option ℚ) (context : ExitContext)
    (retryAttempts : ℕ) (reason : String) (w : World σ) :
    Except ServiceError AmendOutcome × World σ :=
  let now := context.now
  let clientRef := amendClientRef position.positionId stopLoss takeProfit
  let decision := svc.gateway.evaluateExit context w.venue
  if decision.allowed = false then
    (.ok ⟨false, none, some decision, none, "risk_gateway_blocked_amend", 0, false⟩, w)
  else
    match (w.store.get clientRef).filter (fun i => decide (i.state = .filled)) with
    | some existing =>
      -- these exact levels were applied once: a skip, and nothing is sent
      (.ok ⟨true, some existing, some decision, none, "already_applied", 0, true⟩, w)
    | none =>
      let intent := svc.exitIntent position clientRef position.direction position.size
        stopLoss takeProfit now (.amend position.positionId reason)
      let attempts := max retryAttempts 1
      attempt clientRef decision attempts attempts intent "" (w.write intent)
where
  /-- The retry loop, with the number of attempts left. -/
  attempt (clientRef : String) (decision : RiskDecision) (attempts : ℕ) :
      ℕ → OrderIntent → String → World σ → Except ServiceError AmendOutcome × World σ
    | 0, _, lastError, w =>
      (.ok ⟨false, w.store.get clientRef, some decision, none, lastError, attempts, false⟩, w)
    | left + 1, intent, _, w =>
      let n := attempts - left
      let intent := { intent with dispatchAttempts := n, updatedAt := context.now }
      match svc.adapter.amendPosition position stopLoss takeProfit clientRef reason w.venue with
      | (.error exc, venue) =>
        let w := { w with venue := venue }
        if exc.kind = .positionNotFound then
          let text := "already_flat:" ++ exc.message
          let w := w.write { intent with state := .closed, lastError := text }
          (.ok ⟨false, w.store.get clientRef, some decision, none, text, n, false⟩, w)
        else if exc.kind = .amendNotSupported then
          let text := "amend_not_supported:" ++ exc.message
          let w := w.write { intent with state := .rejected, lastError := text }
          (.ok ⟨false, w.store.get clientRef, some decision, none, text, n, false⟩, w)
        else if exc.kind.isBrokerError then
          let state := if exc.kind.isRejected then .rejected else .unknown
          let w := w.write { intent with state := state, lastError := exc.described }
          attempt clientRef decision attempts left intent exc.described w
        else (.error (.raised exc), w)
      | (.ok ack, venue) =>
        let applied := { intent with
          state := .filled
          brokerRef := pyOr ack.brokerRef intent.brokerRef
          orderId := strOr intent.orderId ack.orderId
          lastError := "" }
        (.ok ⟨true, some applied, some decision, some ack, "", n, false⟩,
          ({ w with venue := venue } : World σ).write applied)

/-- The source writes the size as `str` does.  A rational has no such text: the decimals of the
reference stand for it. -/
def duplicatePartialMessage (size : ℚ) (positionId : String) (existing : OrderIntent) : String :=
  "a partial close of " ++ fixed10 size ++ " on " ++ positionId ++ " is already " ++
    existing.state.value ++ ". Closing it twice would close twice the size; " ++
    "resolve the existing one first."

/-- `close_partial`: `size` of `position`, leaving the remainder open.  Never retried. -/
def closePartial (position : Position) (size : ℚ) (context : ExitContext) (reason : String)
    (w : World σ) : Except ServiceError AmendOutcome × World σ :=
  let now := context.now
  let clientRef := partialClientRef position.positionId size
  let decision := svc.gateway.evaluateExit context w.venue
  if decision.allowed = false then
    (.ok ⟨false, none, some decision, none, "risk_gateway_blocked_partial", 0, false⟩, w)
  else
    match w.store.blocking clientRef with
    | some existing =>
      (.error (.idempotencyViolation
        (duplicatePartialMessage size position.positionId existing)), w)
    | none =>
      let intent := svc.exitIntent position clientRef position.direction.opposite size
        none none now (.partialClose position.positionId reason)
      let w := w.write intent
      let (reply, venue) := svc.adapter.closePartial position size clientRef reason w.venue
      partialSettle decision intent now reply { w with venue := venue }
where
  /-- What `close_partial` makes of the adapter's answer. -/
  partialSettle (decision : RiskDecision) (intent : OrderIntent) (now : Timestamp)
      (reply : Except Raised OrderAck) (w : World σ) :
      Except ServiceError AmendOutcome × World σ :=
    match reply with
    | .error exc =>
      if exc.kind = .positionNotFound then
        let text := "already_flat:" ++ exc.message
        let w := w.write { intent with state := .closed, updatedAt := now, lastError := text }
        (.ok ⟨true, w.store.get intent.clientRef, some decision, none, text, 1, true⟩, w)
      else if exc.kind.isRejected then
        let w := w.write { intent with
          state := .rejected, updatedAt := now, lastError := "broker_rejected:" ++ exc.message }
        (.ok ⟨false, w.store.get intent.clientRef, some decision, none, exc.message, 1, false⟩, w)
      else if exc.kind.isBrokerError then
        let w := w.write { intent with
          state := .unknown, updatedAt := now, lastError := exc.described }
        (.ok ⟨false, w.store.get intent.clientRef, some decision, none, exc.message, 1, false⟩, w)
      else (.error (.raised exc), w)
    | .ok ack =>
      let done := { intent with
        state := .filled
        updatedAt := now
        brokerRef := pyOr ack.brokerRef intent.brokerRef
        filledSize := (ack.fill.map Fill.filledSize).getD size
        filledPrice := ack.fill.map Fill.filledPrice }
      (.ok ⟨true, some done, some decision, some ack, "", 1, false⟩, w.write done)

section PartialCases

variable {svc} {position : Position} {size : ℚ} {context : ExitContext} {reason : String}
  {w : World σ}

theorem closePartial_refused (h : (svc.gateway.evaluateExit context w.venue).allowed = false) :
    svc.closePartial position size context reason w =
      (.ok ⟨false, none, some (svc.gateway.evaluateExit context w.venue), none,
        "risk_gateway_blocked_partial", 0, false⟩, w) := by
  simp only [closePartial, h, if_true]

theorem closePartial_blocked (h : (svc.gateway.evaluateExit context w.venue).allowed = true)
    {existing : OrderIntent}
    (hb : w.store.blocking (partialClientRef position.positionId size) = some existing) :
    svc.closePartial position size context reason w = (.error (.idempotencyViolation
        (duplicatePartialMessage size position.positionId existing)), w) := by
  simp only [closePartial, h, hb, Bool.true_eq_false, if_false]

/-- The intent `close_partial` writes before dispatch. -/
def partialIntent (svc : ExecutionService σ) (position : Position) (size : ℚ)
    (context : ExitContext) (reason : String) : OrderIntent :=
  svc.exitIntent position (partialClientRef position.positionId size) position.direction.opposite
    size none none context.now (.partialClose position.positionId reason)

theorem closePartial_sends (h : (svc.gateway.evaluateExit context w.venue).allowed = true)
    (hb : w.store.blocking (partialClientRef position.positionId size) = none) :
    svc.closePartial position size context reason w =
      closePartial.partialSettle size (svc.gateway.evaluateExit context w.venue)
        (svc.partialIntent position size context reason) context.now
        (svc.adapter.closePartial position size (partialClientRef position.positionId size) reason
          w.venue).1
        { w.write (svc.partialIntent position size context reason) with
          venue := (svc.adapter.closePartial position size
            (partialClientRef position.positionId size) reason w.venue).2 } := by
  simp only [closePartial, h, hb, Bool.true_eq_false, if_false]
  rfl

end PartialCases

section AmendCases

variable {svc} {position : Position} {stopLoss takeProfit : Option ℚ} {context : ExitContext}
  {retryAttempts : ℕ} {reason : String} {w : World σ}

theorem amend_refused (h : (svc.gateway.evaluateExit context w.venue).allowed = false) :
    svc.amend position stopLoss takeProfit context retryAttempts reason w =
      (.ok ⟨false, none, some (svc.gateway.evaluateExit context w.venue), none,
        "risk_gateway_blocked_amend", 0, false⟩, w) := by
  simp only [amend, h, if_true]

def appliedBefore (store : IntentStore) (clientRef : String) : Option OrderIntent :=
  (store.get clientRef).filter (fun i => decide (i.state = .filled))

theorem amend_skips (h : (svc.gateway.evaluateExit context w.venue).allowed = true)
    {existing : OrderIntent}
    (hf : appliedBefore w.store (amendClientRef position.positionId stopLoss takeProfit) =
      some existing) :
    svc.amend position stopLoss takeProfit context retryAttempts reason w =
      (.ok ⟨true, some existing, some (svc.gateway.evaluateExit context w.venue), none,
        "already_applied", 0, true⟩, w) := by
  simp only [appliedBefore] at hf
  simp only [amend, h, hf, Bool.true_eq_false, if_false]

/-- The intent `amend` writes before its first attempt. -/
def amendIntent (svc : ExecutionService σ) (position : Position) (stopLoss takeProfit : Option ℚ)
    (context : ExitContext) (reason : String) : OrderIntent :=
  svc.exitIntent position (amendClientRef position.positionId stopLoss takeProfit)
    position.direction position.size stopLoss takeProfit context.now
    (.amend position.positionId reason)

theorem amend_sends (h : (svc.gateway.evaluateExit context w.venue).allowed = true)
    (hf : appliedBefore w.store (amendClientRef position.positionId stopLoss takeProfit) = none) :
    svc.amend position stopLoss takeProfit context retryAttempts reason w =
      amend.attempt svc position stopLoss takeProfit context reason
        (amendClientRef position.positionId stopLoss takeProfit)
        (svc.gateway.evaluateExit context w.venue) (max retryAttempts 1) (max retryAttempts 1)
        (svc.amendIntent position stopLoss takeProfit context reason) ""
        (w.write (svc.amendIntent position stopLoss takeProfit context reason)) := by
  simp only [appliedBefore] at hf
  simp only [amend, h, hf, Bool.true_eq_false, if_false]
  rfl

end AmendCases

section AmendVenue

variable {svc} {R : σ → σ → Prop}

theorem attempt_venue (hrefl : ∀ v, R v v) (htrans : ∀ u v w, R u v → R v w → R u w)
    (hstep : ∀ p stopLoss takeProfit clientRef reason v,
      R v (svc.adapter.amendPosition p stopLoss takeProfit clientRef reason v).2)
    (position : Position) (stopLoss takeProfit : Option ℚ) (context : ExitContext)
    (reason clientRef : String) (decision : RiskDecision) (attempts left : ℕ)
    (intent : OrderIntent) (lastError : String) (w : World σ) :
    R w.venue (amend.attempt svc position stopLoss takeProfit context reason clientRef decision
      attempts left intent lastError w).2.venue := by
  induction left generalizing intent lastError w with
  | zero => exact hrefl w.venue
  | succ left ih =>
    have hone := hstep position stopLoss takeProfit clientRef reason w.venue
    unfold amend.attempt
    generalize svc.adapter.amendPosition position stopLoss takeProfit clientRef reason w.venue =
      reply at hone ⊢
    obtain ⟨exc | ack, venue⟩ := reply
    · by_cases hn : exc.kind = .positionNotFound
      · simp only [hn, if_true]
        exact hone
      · by_cases hs : exc.kind = .amendNotSupported
        · simp only [hs, if_true]
          exact hone
        · by_cases hb : exc.kind.isBrokerError = true
          · simp only [hn, hs, hb, if_false, if_true]
            exact htrans _ _ _ hone (ih _ _ ⟨_, venue⟩)
          · simp only [hn, hs, hb, if_false]
            exact hone
    · exact hone

theorem amend_venue (hrefl : ∀ v, R v v) (htrans : ∀ u v w, R u v → R v w → R u w)
    (hstep : ∀ p stopLoss takeProfit clientRef reason v,
      R v (svc.adapter.amendPosition p stopLoss takeProfit clientRef reason v).2)
    (position : Position) (stopLoss takeProfit : Option ℚ) (context : ExitContext)
    (retryAttempts : ℕ) (reason : String) (w : World σ) :
    R w.venue
      (svc.amend position stopLoss takeProfit context retryAttempts reason w).2.venue := by
  cases hd : (svc.gateway.evaluateExit context w.venue).allowed with
  | false =>
    rw [amend_refused hd]
    exact hrefl w.venue
  | true =>
    cases hf : appliedBefore w.store (amendClientRef position.positionId stopLoss takeProfit) with
    | some existing =>
      rw [amend_skips hd hf]
      exact hrefl w.venue
    | none =>
      rw [amend_sends hd hf]
      exact attempt_venue hrefl htrans hstep _ _ _ _ _ _ _ _ _ _ _ (w.write _)

end AmendVenue

open IntentStore (Writes WritesOnly)

/-- The intent that `submit` writes for a plan. -/
def entryIntent (plan : TradePlan) : OrderIntent :=
  svc.newIntent plan (clientRefFor plan) 0 .pending "" "" ""

theorem newIntent_same (s : IntentState) (o e v : String) :
    (svc.newIntent plan (clientRefFor plan) now s o e v).SameInstruction (svc.entryIntent plan) :=
  ⟨rfl, rfl, rfl, rfl, rfl, rfl, rfl, rfl, rfl⟩

theorem prepare_same (w : World σ) : Writes (·.SameInstruction (svc.entryIntent plan)) w.store
        (svc.prepare plan orderId context w).2.store ∧
      ∀ d o i, (svc.prepare plan orderId context w).1 = .dispatch d o i →
        i.SameInstruction (svc.entryIntent plan) := by
  have hrefl : Writes (·.SameInstruction (svc.entryIntent plan)) w.store w.store := .refl _
  unfold prepare
  by_cases hg : (svc.modeGuard.check svc.mode plan.signal.strategyId svc.venueUrl context.now
      w.venue).allowed = false
  · rw [if_pos hg]
    refine ⟨hrefl.write (svc.newIntent_same _ _ _ _ _ _), ?_⟩
    rintro d o i ⟨⟩
  · rw [if_neg hg]
    cases hb : w.store.blocking (clientRefFor plan) with
    | some existing =>
      refine ⟨hrefl, ?_⟩
      rintro d o i ⟨⟩
    | none =>
      dsimp only
      unfold prepare.gate
      by_cases hd : (svc.gateway.evaluate plan context w.venue).allowed = false
      · simp only [if_pos hd]
        refine ⟨hrefl.write (svc.newIntent_same _ _ _ _ _ _), ?_⟩
        rintro d o i ⟨⟩
      · simp only [if_neg hd]
        refine ⟨hrefl.write (svc.newIntent_same _ _ _ _ _ _), ?_⟩
        rintro d o i ⟨⟩
        exact svc.newIntent_same _ _ _ _ _ _

theorem settle_same (w : World σ) :
    Writes (·.SameInstruction intent) w.store (settle decision intent now reply w).2.store := by
  have hrefl : Writes (·.SameInstruction intent) w.store w.store := .refl _
  unfold settle
  cases reply with
  | ok ack => exact hrefl.write ⟨rfl, rfl, rfl, rfl, rfl, rfl, rfl, rfl, rfl⟩
  | error exc =>
    by_cases hb : exc.kind.isBrokerError = true
    · simp only [hb, if_true]
      exact hrefl.write ⟨rfl, rfl, rfl, rfl, rfl, rfl, rfl, rfl, rfl⟩
    · simp only [hb]
      exact hrefl

theorem submit_same (w : World σ) : Writes (·.SameInstruction (svc.entryIntent plan)) w.store
      (svc.submit plan orderId context w).2.store := by
  obtain ⟨hprep, hsent⟩ := svc.prepare_same plan orderId context w
  unfold submit
  generalize svc.prepare plan orderId context w = out at hprep hsent
  obtain ⟨prepared, w'⟩ := out
  cases prepared with
  | done result => exact hprep
  | dispatch d o i =>
    have hi := hsent d o i rfl
    exact hprep.trans ((settle_same d i context.now _ _).mono fun j hj => hj.trans hi)

theorem closeSettle_same (w : World σ) : Writes (·.SameInstruction intent) w.store
      (close.closeSettle decision intent now reply w).2.store := by
  have hrefl : Writes (·.SameInstruction intent) w.store w.store := .refl _
  unfold close.closeSettle
  cases reply with
  | ok ack => exact hrefl.write ⟨rfl, rfl, rfl, rfl, rfl, rfl, rfl, rfl, rfl⟩
  | error exc =>
    dsimp only
    split_ifs
    · exact hrefl.write ⟨rfl, rfl, rfl, rfl, rfl, rfl, rfl, rfl, rfl⟩
    · exact hrefl.write ⟨rfl, rfl, rfl, rfl, rfl, rfl, rfl, rfl, rfl⟩
    · exact hrefl.write ⟨rfl, rfl, rfl, rfl, rfl, rfl, rfl, rfl, rfl⟩
    · exact hrefl

variable (position : Position)

theorem close_same (context : ExitContext) (w : World σ) :
    Writes (·.SameInstruction (svc.closeIntent position context)) w.store
      (svc.close position context w).2.store := by
  have hrefl : Writes (·.SameInstruction (svc.closeIntent position context)) w.store w.store :=
    .refl _
  cases hd : (svc.gateway.evaluateExit context w.venue).allowed with
  | false => rwa [close_refused hd]
  | true =>
    cases hb : w.store.blocking (closeClientRef position.positionId) with
    | some existing => rwa [close_blocked hd hb]
    | none =>
      rw [close_sends hd hb]
      exact (hrefl.write (.refl _)).trans
        (closeSettle_same _ (svc.closeIntent position context) _ _ _)

variable (stopLoss takeProfit : Option ℚ)

theorem attempt_same (context : ExitContext) (reason clientRef : String) (decision : RiskDecision)
    (attempts : ℕ)
    (first : OrderIntent) (left : ℕ) (intent : OrderIntent) (lastError : String) (w : World σ)
    (hi : intent.SameInstruction first) :
    Writes (·.SameInstruction first) w.store
      (amend.attempt svc position stopLoss takeProfit context reason clientRef decision attempts
        left intent lastError w).2.store := by
  have hwrite : ∀ j : OrderIntent, j.SameInstruction intent → j.SameInstruction first :=
    fun j hj => hj.trans hi
  induction left generalizing intent lastError w with
  | zero => exact .refl _
  | succ left ih =>
    have hrefl : Writes (·.SameInstruction first) w.store w.store := .refl _
    unfold amend.attempt
    rcases svc.adapter.amendPosition position stopLoss takeProfit clientRef reason w.venue with
      ⟨exc | ack, venue⟩
    · by_cases hn : exc.kind = .positionNotFound
      · simp only [hn, if_true]
        exact hrefl.write (hwrite _ ⟨rfl, rfl, rfl, rfl, rfl, rfl, rfl, rfl, rfl⟩)
      · by_cases hs : exc.kind = .amendNotSupported
        · simp only [hs, if_true]
          exact hrefl.write (hwrite _ ⟨rfl, rfl, rfl, rfl, rfl, rfl, rfl, rfl, rfl⟩)
        · by_cases hb : exc.kind.isBrokerError = true
          · simp only [hn, hs, hb, if_false, if_true]
            have hline := hwrite { intent with
              dispatchAttempts := attempts - left
              updatedAt := context.now
              state := if exc.kind.isRejected then .rejected else .unknown
              lastError := exc.described } ⟨rfl, rfl, rfl, rfl, rfl, rfl, rfl, rfl, rfl⟩
            refine (hrefl.write hline).trans (ih _ _ _ ?_ ?_)
            · exact hwrite _ ⟨rfl, rfl, rfl, rfl, rfl, rfl, rfl, rfl, rfl⟩
            · exact fun j hj => hj.trans (hwrite _ ⟨rfl, rfl, rfl, rfl, rfl, rfl, rfl, rfl, rfl⟩)
          · simp only [hn, hs, hb, if_false]
            exact hrefl
    · exact hrefl.write (hwrite _ ⟨rfl, rfl, rfl, rfl, rfl, rfl, rfl, rfl, rfl⟩)

theorem amend_same (context : ExitContext) (retryAttempts : ℕ) (reason : String) (w : World σ) :
    Writes (·.SameInstruction (svc.amendIntent position stopLoss takeProfit context reason)) w.store
      (svc.amend position stopLoss takeProfit context retryAttempts reason w).2.store := by
  have hrefl : Writes (·.SameInstruction
      (svc.amendIntent position stopLoss takeProfit context reason)) w.store w.store := .refl _
  cases hd : (svc.gateway.evaluateExit context w.venue).allowed with
  | false => rwa [amend_refused hd]
  | true =>
    cases hf : appliedBefore w.store (amendClientRef position.positionId stopLoss takeProfit) with
    | some existing => rwa [amend_skips hd hf]
    | none =>
      rw [amend_sends hd hf]
      exact (hrefl.write (.refl _)).trans
        (attempt_same svc _ _ _ _ _ _ _ _ _ _ _ _ _ (.refl _))

variable (size : ℚ)

theorem partialSettle_same (decision : RiskDecision) (intent : OrderIntent) (now : Timestamp)
    (reply : Except Raised OrderAck) (w : World σ) :
    Writes (·.SameInstruction intent) w.store
      (closePartial.partialSettle size decision intent now reply w).2.store := by
  have hrefl : Writes (·.SameInstruction intent) w.store w.store := .refl _
  unfold closePartial.partialSettle
  cases reply with
  | ok ack => exact hrefl.write ⟨rfl, rfl, rfl, rfl, rfl, rfl, rfl, rfl, rfl⟩
  | error exc =>
    dsimp only
    split_ifs
    · exact hrefl.write ⟨rfl, rfl, rfl, rfl, rfl, rfl, rfl, rfl, rfl⟩
    · exact hrefl.write ⟨rfl, rfl, rfl, rfl, rfl, rfl, rfl, rfl, rfl⟩
    · exact hrefl.write ⟨rfl, rfl, rfl, rfl, rfl, rfl, rfl, rfl, rfl⟩
    · exact hrefl

theorem closePartial_same (context : ExitContext) (reason : String) (w : World σ) :
    Writes (·.SameInstruction (svc.partialIntent position size context reason)) w.store
      (svc.closePartial position size context reason w).2.store := by
  have hrefl : Writes (·.SameInstruction (svc.partialIntent position size context reason)) w.store
      w.store := .refl _
  cases hd : (svc.gateway.evaluateExit context w.venue).allowed with
  | false => rwa [closePartial_refused hd]
  | true =>
    cases hb : w.store.blocking (partialClientRef position.positionId size) with
    | some existing => rwa [closePartial_blocked hd hb]
    | none =>
      rw [closePartial_sends hd hb]
      exact (hrefl.write (.refl _)).trans
        (partialSettle_same _ _ (svc.partialIntent position size context reason) _ _ _)

theorem submit_writes (w : World σ) :
    WritesOnly (clientRefFor plan) w.store (svc.submit plan orderId context w).2.store :=
  (svc.submit_same plan orderId context w).only fun _ h => h.clientRef

theorem close_writes (context : ExitContext) (w : World σ) :
    WritesOnly (closeClientRef position.positionId) w.store
      (svc.close position context w).2.store :=
  (svc.close_same position context w).only fun _ h => h.clientRef

theorem amend_writes (context : ExitContext) (retryAttempts : ℕ) (reason : String) (w : World σ) :
    WritesOnly (amendClientRef position.positionId stopLoss takeProfit) w.store
      (svc.amend position stopLoss takeProfit context retryAttempts reason w).2.store :=
  (svc.amend_same position stopLoss takeProfit context retryAttempts reason w).only
    fun _ h => h.clientRef

theorem closePartial_writes (context : ExitContext) (reason : String) (w : World σ) :
    WritesOnly (partialClientRef position.positionId size) w.store
      (svc.closePartial position size context reason w).2.store :=
  (svc.closePartial_same position size context reason w).only fun _ h => h.clientRef

end ExecutionService

end Fiboki
