import Fiboki.Core.Contracts
import Fiboki.Core.Text

/-!
The broker adapter contract: what a venue answers, what an adapter may raise,
and the record of operations behind which every venue sits.

The venue itself is a state `σ` of which nothing is assumed.  An operation
returns its answer, or what it raised, and the venue after it.
-/

namespace Fiboki

open Text

inductive OrderStatus where
  | accepted
  | filled
  | partiallyFilled
  | rejected
  | cancelled
  | unknown
  deriving DecidableEq

def OrderStatus.value : OrderStatus → String
  | accepted => "accepted"
  | filled => "filled"
  | partiallyFilled => "partially_filled"
  | rejected => "rejected"
  | cancelled => "cancelled"
  | unknown => "unknown"

/-- The classes an adapter call can raise; `other` is any class outside `BrokerError`. -/
inductive ErrorKind where
  | brokerError
  | brokerUnavailable
  | brokerRejected
  | duplicateClientRef
  | positionNotFound
  | amendNotSupported
  | other (name : String)
  deriving DecidableEq

namespace ErrorKind

def typeName : ErrorKind → String
  | brokerError => "BrokerError"
  | brokerUnavailable => "BrokerUnavailable"
  | brokerRejected => "BrokerRejected"
  | duplicateClientRef => "DuplicateClientRef"
  | positionNotFound => "PositionNotFound"
  | amendNotSupported => "AmendNotSupported"
  | other name => name

/-- `isinstance(exc, BrokerRejected)`: `PositionNotFound` is a subtype. -/
def isRejected : ErrorKind → Bool
  | brokerRejected => true
  | positionNotFound => true
  | _ => false

/-- `isinstance(exc, BrokerError)`. -/
def isBrokerError : ErrorKind → Bool
  | other _ => false
  | _ => true

end ErrorKind

structure Raised where
  kind : ErrorKind
  message : String

/-- `f"{type(exc).__name__}:{exc}"`. -/
def Raised.described (exc : Raised) : String := exc.kind.typeName ++ ":" ++ exc.message

/-- The venue's response to a submission.  `rawFilledSize` and `rawPrice` are the
two entries of `raw` that are ever read. -/
structure OrderAck where
  status : OrderStatus
  brokerRef : Option String
  clientRef : String
  orderId : String
  fill : Option Fill
  message : String
  rawFilledSize : Option ℚ
  rawPrice : Option ℚ
  ref_of_filled : status = .filled ∨ status = .partiallyFilled → truthy brokerRef = true
  deriving DecidableEq

structure BrokerAdapter (σ : Type) where
  venueName : String
  orders : σ → Except Raised (List OrderAck) × σ
  positions : σ → Except Raised (List Position) × σ
  placeOrder : Order → σ → Except Raised OrderAck × σ
  closePosition : Position → (clientRef reason : String) → σ → Except Raised OrderAck × σ
  amendPosition : Position → (stopLoss takeProfit : Option ℚ) → (clientRef reason : String) → σ →
    Except Raised OrderAck × σ
  closePartial : Position → (size : ℚ) → (clientRef reason : String) → σ →
    Except Raised OrderAck × σ

end Fiboki
