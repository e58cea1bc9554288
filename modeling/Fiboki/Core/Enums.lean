import Mathlib.Data.Fintype.Defs
import Mathlib.Data.Rat.Defs

/-!
The canonical enumerations and the persisted value of each member.
-/

namespace Fiboki

abbrev Timestamp := ℤ

abbrev Timedelta := ℤ

inductive Direction where
  | long
  | short
  deriving DecidableEq

namespace Direction

def value : Direction → String
  | long => "long"
  | short => "short"

def sign : Direction → ℚ
  | long => 1
  | short => -1

def opposite : Direction → Direction
  | long => short
  | short => long

end Direction

inductive ExitReason where
  | stopLoss
  | takeProfit
  | trailingStop
  | breakeven
  | timeStop
  | oppositeSignal
  | invalidation
  | sessionClose
  | riskHalt
  | endOfData
  | marginCall
  deriving DecidableEq

def ExitReason.value : ExitReason → String
  | stopLoss => "stop_loss"
  | takeProfit => "take_profit"
  | trailingStop => "trailing_stop"
  | breakeven => "breakeven"
  | timeStop => "time_stop"
  | oppositeSignal => "opposite_signal"
  | invalidation => "invalidation"
  | sessionClose => "session_close"
  | riskHalt => "risk_halt"
  | endOfData => "end_of_data"
  | marginCall => "margin_call"

inductive OrderType where
  | market
  | limit
  | stop

inductive ExecutionMode where
  | backtest
  | paper
  | shadow
  | demo
  | live
  deriving DecidableEq

inductive AssetClass where
  | fxMajor
  | fxCross
  | metal
  | energy
  | index
  | crypto
  | equity
  | bond
  | commodity
  deriving DecidableEq

inductive Timeframe where
  | M1
  | M5
  | M15
  | M30
  | H1
  | H4
  | D1
  deriving DecidableEq

namespace Timeframe

def value : Timeframe → String
  | M1 => "M1"
  | M5 => "M5"
  | M15 => "M15"
  | M30 => "M30"
  | H1 => "H1"
  | H4 => "H4"
  | D1 => "D1"

def minutes : Timeframe → ℕ
  | M1 => 1
  | M5 => 5
  | M15 => 15
  | M30 => 30
  | H1 => 60
  | H4 => 240
  | D1 => 1440

def members : List Timeframe := [M1, M5, M15, M30, H1, H4, D1]

/-- `Timeframe(value)`; the source raises on a value that no member has. -/
def ofValue (value : String) : Option Timeframe := members.find? fun tf => tf.value = value

theorem ofValue_value (tf : Timeframe) : ofValue tf.value = some tf := by cases tf <;> rfl

end Timeframe

inductive StrategyLifecycle where
  | discovery
  | research
  | validating
  | candidate
  | paper
  | shadow
  | demo
  | approved
  | live
  | watch
  | degraded
  | quarantined
  | retired
  deriving DecidableEq

namespace StrategyLifecycle

def value : StrategyLifecycle → String
  | discovery => "discovery"
  | research => "research"
  | validating => "validating"
  | candidate => "candidate"
  | paper => "paper"
  | shadow => "shadow"
  | demo => "demo"
  | approved => "approved"
  | live => "live"
  | watch => "watch"
  | degraded => "degraded"
  | quarantined => "quarantined"
  | retired => "retired"

def members : List StrategyLifecycle :=
  [discovery, research, validating, candidate, paper, shadow, demo, approved, live, watch,
    degraded, quarantined, retired]

theorem mem_members (s : StrategyLifecycle) : s ∈ members := by cases s <;> decide

instance : Fintype StrategyLifecycle where
  elems := ⟨members, by decide⟩
  complete := mem_members

end StrategyLifecycle

inductive Provenance where
  | backtest
  | walkforward
  | outOfSample
  | holdout
  | paper
  | shadow
  | brokerDemo
  | brokerLive

namespace Provenance

def value : Provenance → String
  | backtest => "backtest"
  | walkforward => "walkforward"
  | outOfSample => "out_of_sample"
  | holdout => "holdout"
  | paper => "paper"
  | shadow => "shadow"
  | brokerDemo => "broker_demo"
  | brokerLive => "broker_live"

def members : List Provenance :=
  [backtest, walkforward, outOfSample, holdout, paper, shadow, brokerDemo, brokerLive]

end Provenance

end Fiboki
