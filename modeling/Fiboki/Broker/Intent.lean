import Fiboki.Broker.Base
import Fiboki.Lib.Journal

/-!
The durable record of one order and the store of these records.

The file of the store is append-only and the last line of a client reference
wins, so the file is the state: what a restarted process replays from it is what
the running process reads.
-/

namespace Fiboki

open Text

inductive IntentState where
  | pending
  | unknown
  | acked
  | filled
  | rejected
  | cancelled
  | closed
  | blocked
  deriving DecidableEq

namespace IntentState

def value : IntentState → String
  | pending => "pending"
  | unknown => "unknown"
  | acked => "acked"
  | filled => "filled"
  | rejected => "rejected"
  | cancelled => "cancelled"
  | closed => "closed"
  | blocked => "blocked"

def needsReconciliation : IntentState → Bool
  | pending => true
  | unknown => true
  | acked => true
  | _ => false

def blocksResubmission : IntentState → Bool
  | rejected => false
  | cancelled => false
  | blocked => false
  | _ => true

theorem blocks_of_needsReconciliation {s : IntentState} (h : s.needsReconciliation = true) :
    s.blocksResubmission = true := by
  cases s <;> simp_all [needsReconciliation, blocksResubmission]

end IntentState

/-- The `extra` of an intent, which also says what kind of instruction it is. -/
inductive IntentExtra where
  | entry (riskAmount : ℚ) (sizingBasis : String) (takeProfitPrices takeProfitAllocations : List ℚ)
  | closing (positionId : String)
  | amend (positionId reason : String)
  | partialClose (positionId reason : String)
  deriving DecidableEq

/-- The durable record of one order, from before dispatch to terminal state. -/
structure OrderIntent where
  clientRef : String
  planId : String
  signalId : String
  strategyId : String
  instrument : String
  direction : Direction
  size : ℚ
  mode : ExecutionMode
  state : IntentState
  createdAt : Timestamp
  updatedAt : Timestamp
  venue : String
  orderId : String
  brokerRef : Option String
  stopLoss : Option ℚ
  takeProfit : Option ℚ
  filledSize : ℚ
  filledPrice : Option ℚ
  lastError : String
  limitsVersion : String
  dispatchAttempts : ℕ
  extra : IntentExtra

/-- Two lines of one instruction: what no later line of it changes is the same. -/
structure OrderIntent.SameInstruction (i j : OrderIntent) : Prop where
  clientRef : i.clientRef = j.clientRef
  planId : i.planId = j.planId
  signalId : i.signalId = j.signalId
  strategyId : i.strategyId = j.strategyId
  instrument : i.instrument = j.instrument
  direction : i.direction = j.direction
  stopLoss : i.stopLoss = j.stopLoss
  takeProfit : i.takeProfit = j.takeProfit
  extra : i.extra = j.extra

namespace OrderIntent.SameInstruction

variable {i j k : OrderIntent}

theorem refl (i : OrderIntent) : i.SameInstruction i :=
    ⟨rfl, rfl, rfl, rfl, rfl, rfl, rfl, rfl, rfl⟩

theorem trans (h : i.SameInstruction j) (h' : j.SameInstruction k) : i.SameInstruction k where
  clientRef := h.clientRef.trans h'.clientRef
  planId := h.planId.trans h'.planId
  signalId := h.signalId.trans h'.signalId
  strategyId := h.strategyId.trans h'.strategyId
  instrument := h.instrument.trans h'.instrument
  direction := h.direction.trans h'.direction
  stopLoss := h.stopLoss.trans h'.stopLoss
  takeProfit := h.takeProfit.trans h'.takeProfit
  extra := h.extra.trans h'.extra

end OrderIntent.SameInstruction

structure IntentStore where
  lines : List OrderIntent

namespace IntentStore

def empty : IntentStore := ⟨[]⟩

def write (store : IntentStore) (intent : OrderIntent) : IntentStore := ⟨store.lines ++ [intent]⟩

def get (store : IntentStore) (clientRef : String) : Option OrderIntent :=
  Journal.current OrderIntent.clientRef store.lines clientRef

def all (store : IntentStore) : List OrderIntent :=
  Journal.snapshot OrderIntent.clientRef (fun a b => decide (a ≤ b)) store.lines

theorem get_write (store : IntentStore) (intent : OrderIntent) (k : String) :
    (store.write intent).get k = if intent.clientRef = k then some intent else store.get k :=
  Journal.current_append _ _ _

@[simp] theorem get_write_self (store : IntentStore) (intent : OrderIntent) :
    (store.write intent).get intent.clientRef = some intent :=
  Journal.current_append_self _ _

variable {k : String} {intent : OrderIntent}

theorem get_write_of_ne (store : IntentStore)
    (h : intent.clientRef ≠ k) : (store.write intent).get k = store.get k :=
  Journal.current_append_of_ne _ h

variable {store : IntentStore}

theorem clientRef_of_get (h : store.get k = some intent) : intent.clientRef = k :=
  Journal.key_of_current h

theorem mem_all : intent ∈ store.all ↔ store.get intent.clientRef = some intent :=
  Journal.mem_snapshot _ _ _

/-- The stored intent under `clientRef`, if it refuses a second submission. -/
def blocking (store : IntentStore) (clientRef : String) : Option OrderIntent :=
  (store.get clientRef).filter (·.state.blocksResubmission)

/-- Does the store hold, under `clientRef`, an intent that refuses a second submission? -/
def blocks (store : IntentStore) (clientRef : String) : Bool :=
  (store.get clientRef).any (·.state.blocksResubmission)

theorem blocks_eq_true :
    store.blocks k = true ↔ ∃ i, store.get k = some i ∧ i.state.blocksResubmission = true := by
  cases h : store.get k <;> simp [blocks, h]

theorem blocking_of_blocks (h : store.blocks k = true) :
    ∃ i, store.get k = some i ∧ store.blocking k = some i := by
  obtain ⟨i, hget, hi⟩ := blocks_eq_true.1 h
  exact ⟨i, hget, by simp [blocking, hget, hi]⟩

theorem blocking_eq_none (h : store.blocks k = false) : store.blocking k = none := by
  cases hget : store.get k with
  | none => simp [blocking, hget]
  | some i =>
    have hi : i.state.blocksResubmission = false := by simpa [blocks, hget] using h
    simp [blocking, hget, hi]

theorem blocks_write (store : IntentStore) (intent : OrderIntent) (k : String) :
    (store.write intent).blocks k =
      if intent.clientRef = k then intent.state.blocksResubmission else store.blocks k := by
  by_cases h : intent.clientRef = k <;> simp [blocks, get_write, h]

/-- Every line written between the two stores satisfies `P`. -/
def Writes (P : OrderIntent → Prop) (s s' : IntentStore) : Prop :=
  ∃ is : List OrderIntent, (∀ i ∈ is, P i) ∧ s'.lines = s.lines ++ is

namespace Writes

variable {P Q : OrderIntent → Prop} {s s' s'' : IntentStore}

theorem refl (s : IntentStore) : Writes P s s := ⟨[], by simp, by simp⟩

theorem trans (h : Writes P s s') (h' : Writes P s' s'') : Writes P s s'' := by
  obtain ⟨is, his, hs⟩ := h
  obtain ⟨js, hjs, hs'⟩ := h'
  refine ⟨is ++ js, fun i hi => ?_, by rw [hs', hs, List.append_assoc]⟩
  exact (List.mem_append.1 hi).elim (his i) (hjs i)

variable {i : OrderIntent}

theorem write (h : Writes P s s') (hi : P i) : Writes P s (s'.write i) :=
  h.trans ⟨[i], by simpa using hi, rfl⟩

theorem mono (h : Writes P s s') (hPQ : ∀ i, P i → Q i) : Writes Q s s' := by
  obtain ⟨is, his, hs⟩ := h
  exact ⟨is, fun i hi => hPQ i (his i hi), hs⟩

theorem mem_lines (h : Writes P s s') (hi : i ∈ s'.lines) : i ∈ s.lines ∨ P i := by
  obtain ⟨is, his, hs⟩ := h
  rw [hs] at hi
  exact (List.mem_append.1 hi).imp_right (his i)

end Writes

/-- Every line written between the two stores is under `k`. -/
def WritesOnly (k : String) (s s' : IntentStore) : Prop :=
  ∃ is : List OrderIntent, (∀ i ∈ is, i.clientRef = k) ∧ s'.lines = s.lines ++ is

theorem Writes.only {P : OrderIntent → Prop} {s s' : IntentStore} (h : Writes P s s')
    (hk : ∀ i, P i → i.clientRef = k) : WritesOnly k s s' := h.mono hk

namespace WritesOnly

variable {k : String} {s s' : IntentStore}

theorem mem_lines (h : WritesOnly k s s') {i : OrderIntent} (hi : i ∈ s'.lines) :
    i ∈ s.lines ∨ i.clientRef = k := Writes.mem_lines h hi

end WritesOnly

end IntentStore

end Fiboki
