import Fiboki.Broker.RestingLevels
import Fiboki.Broker.ScaleOuts
import Fiboki.Risk.KillSwitchRuns
import Fiboki.Risk.FailClosed
import Fiboki.Lifecycle.Stopping
import Fiboki.Lifecycle.Machines
import Fiboki.Lifecycle.TamperEvident
import Fiboki.Broker.EntryJoin
import Fiboki.Validation.OneLook
import Fiboki.Validation.Promotion
import Fiboki.Workers.Lease
import Fiboki.Workers.Sweep
import Fiboki.Data.ResampleChain
import Fiboki.Data.RecorderRuns
import Fiboki.Agents.JobPayload
import Fiboki.Agents.AuditRuns
import Fiboki.Forward.EveryBarRuns
import Fiboki.Strategy.WellFormed
import Fiboki.Strategy.Warmup
import Fiboki.Obs.OutboxRuns
import Fiboki.Discovery.Novelty
import Fiboki.Discovery.RegimeGates
import Fiboki.Discovery.Feasibility
import Fiboki.Data.BackfillRuns
import Fiboki.Data.VersionLaw
import Fiboki.Lifecycle.Hysteresis
import Fiboki.Stats.MultipleTesting
import Fiboki.Stats.PredictiveAbility
import Fiboki.Indicators.Swing
import Fiboki.Validation.DesignEffect
import Fiboki.Validation.PurgedRung
import Fiboki.Backtest.Windfall
import Fiboki.Backtest.Financing
import Fiboki.Backtest.SessionClock
import Fiboki.Backtest.CloseOnly
import Fiboki.Broker.Precheck
import Fiboki.Broker.Paper
import Fiboki.Data.StoreCrash
import Fiboki.Agents.Execution
import Fiboki.Portfolio.Sizing
import Fiboki.Backtest.FillPaths
import Fiboki.Portfolio.Concurrency
import Fiboki.Lifecycle.Cusum
import Fiboki.Marketstate.Regime
import Fiboki.Backtest.TradeLinks
