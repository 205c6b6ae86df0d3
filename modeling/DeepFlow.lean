import DeepFlow.Core.LifecycleExposure
import DeepFlow.Core.LifecyclePaths
import DeepFlow.Core.BusStreams
import DeepFlow.Core.LoggingKernel
import DeepFlow.Core.OrderBook
import DeepFlow.Engines.Routing
import DeepFlow.Risk.GateEvidence
import DeepFlow.Risk.GateReason
import DeepFlow.Risk.Limits
import DeepFlow.Risk.Campaign
import DeepFlow.Risk.Binding
import DeepFlow.Risk.DecimalSizing
import DeepFlow.Risk.Monotonicity
import DeepFlow.Risk.CircuitBreakers
import DeepFlow.Pipeline.Replay
import DeepFlow.Main
import DeepFlow.Adapters.PolymarketExecution
import DeepFlow.Adapters.PolymarketSession
import DeepFlow.Adapters.SessionScopes
import DeepFlow.Execution.Attempts
