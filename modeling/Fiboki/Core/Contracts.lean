import Fiboki.Core.Enums
import Mathlib.Algebra.BigOperators.Group.List.Basic
import Mathlib.Algebra.Order.Field.Rat

/-!
The domain contracts: signal, plan, decision, order, fill and position.  A
constructor's checks are fields, so a value that the source refuses to build
cannot be built here either.
-/

namespace Fiboki

def StopSide (direction : Direction) (reference stop : ℚ) : Prop :=
  match direction with
  | .long => stop < reference
  | .short => reference < stop

def TargetSide (direction : Direction) (reference target : ℚ) : Prop :=
  match direction with
  | .long => reference < target
  | .short => target < reference

instance (d : Direction) (r s : ℚ) : Decidable (StopSide d r s) := by
  cases d <;> (unfold StopSide; infer_instance)

instance (d : Direction) (r s : ℚ) : Decidable (TargetSide d r s) := by
  cases d <;> (unfold TargetSide; infer_instance)

/-- What `Signal.__post_init__` asks of a ladder's allocations. -/
structure AllocationsOk (prices allocations : List ℚ) : Prop where
  aligned : allocations.length = prices.length
  each : ∀ a ∈ allocations, 0 < a ∧ a ≤ 1
  total : allocations.sum ≤ 1 + 1 / 10 ^ 9

instance (prices allocations : List ℚ) : Decidable (AllocationsOk prices allocations) :=
  decidable_of_iff
    (allocations.length = prices.length ∧ (∀ a ∈ allocations, 0 < a ∧ a ≤ 1) ∧
      allocations.sum ≤ 1 + 1 / 10 ^ 9)
    ⟨fun ⟨h, h', h''⟩ => ⟨h, h', h''⟩, fun ⟨h, h', h''⟩ => ⟨h, h', h''⟩⟩

/-- A strategy's directional opinion at a closed bar.  Carries no size. -/
structure Signal where
  strategyId : String
  instrument : String
  direction : Direction
  barTime : Timestamp
  referencePrice : ℚ
  stopPrice : ℚ
  takeProfitPrices : List ℚ
  takeProfitAllocations : List ℚ
  signalId : String
  stop_pos : 0 < stopPrice
  reference_pos : 0 < referencePrice
  stop_side : StopSide direction referencePrice stopPrice
  target_side : ∀ tp ∈ takeProfitPrices, TargetSide direction referencePrice tp
  allocations_ok : takeProfitAllocations ≠ [] → AllocationsOk takeProfitPrices takeProfitAllocations

structure TradePlan where
  signal : Signal
  size : ℚ
  riskAmount : ℚ
  sizingBasis : String
  planId : String
  size_pos : 0 < size

namespace TradePlan

def direction (plan : TradePlan) : Direction := plan.signal.direction

def instrument (plan : TradePlan) : String := plan.signal.instrument

end TradePlan

structure RiskDecision where
  allowed : Bool
  reasons : List String

/-- An instruction to a venue.  Carries an idempotency key from birth. -/
structure Order where
  planId : String
  instrument : String
  direction : Direction
  size : ℚ
  orderType : OrderType
  mode : ExecutionMode
  clientRef : String
  stopLoss : Option ℚ
  takeProfit : Option ℚ
  takeProfitPrices : List ℚ
  takeProfitAllocations : List ℚ
  createdAt : Timestamp
  orderId : String
  clientRef_nonempty : clientRef ≠ ""
  allocations_aligned : takeProfitAllocations ≠ [] →
    takeProfitAllocations.length = takeProfitPrices.length

structure Fill where
  filledSize : ℚ
  filledPrice : ℚ
  filledAt : Timestamp
  deriving DecidableEq

structure Position where
  instrument : String
  direction : Direction
  size : ℚ
  entryPrice : ℚ
  entryTime : Timestamp
  stopLoss : ℚ
  takeProfitTargets : List ℚ
  strategyId : String
  barsHeld : ℕ
  maxFavourableExcursion : ℚ
  maxAdverseExcursion : ℚ
  financingAccrued : ℚ
  venueRef : Option String
  positionId : String

namespace Position

/-- `update_excursion`: the best and the worst price of a bar, against the entry. -/
def updateExcursion (p : Position) (high low : ℚ) : Position :=
  let best := match p.direction with | .long => high | .short => low
  let worst := match p.direction with | .long => low | .short => high
  { p with
    maxFavourableExcursion :=
      max p.maxFavourableExcursion ((best - p.entryPrice) * p.direction.sign)
    maxAdverseExcursion := min p.maxAdverseExcursion ((worst - p.entryPrice) * p.direction.sign) }

end Position

structure AccountState where
  balance : ℚ
  equity : ℚ
  currency : String
  marginUsed : ℚ
  openPositions : ℕ
  realisedPnl : ℚ
  unrealisedPnl : ℚ
  peakEquity : ℚ

end Fiboki
