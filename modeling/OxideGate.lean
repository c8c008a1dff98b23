import OxideGate.Lib.Runs
import OxideGate.Lib.Tally
import OxideGate.Lib.Rotation
import OxideGate.FairQueue
import OxideGate.FairQueueTheorems
import OxideGate.Tenants
import OxideGate.FairQueueRuns
import OxideGate.FairQueueFairness
import OxideGate.Account
import OxideGate.AccountTheorems
import OxideGate.Clocked
import OxideGate.RateLimit
import OxideGate.TokenWindow
import OxideGate.Gateway
import OxideGate.GatewaySteps
import OxideGate.GatewayPlaces
import OxideGate.GatewayHandlers
import OxideGate.GatewayNotify
import OxideGate.GatewaySlots
import OxideGate.GatewayWaiting
import OxideGate.GatewayCharge
import OxideGate.GatewayCap
import OxideGate.FrameCounter
import OxideGate.FairQueueReachable
import OxideGate.FrameCounterTheorems
import OxideGate.FairQueueFifo
import OxideGate.FairQueueTurns
import OxideGate.FairQueueWait
import OxideGate.LeaseBook
import OxideGate.LeaseBookTheorems
import OxideGate.Lib.Windows
import OxideGate.RequestWindow
import OxideGate.LeaseBookRefusals
import OxideGate.GatewayAbandoned
import OxideGate.TenantQueues
import OxideGate.FairQueueRounds
import OxideGate.GatewayInflight
import OxideGate.GatewayGauge
import OxideGate.LeaseBookSettle
import OxideGate.Authentication
import OxideGate.Lib.Tails
import OxideGate.Loadgen
import OxideGate.LoadgenStream
import OxideGate.LoadgenStats
import OxideGate.LoadgenPhase
import OxideGate.GatewayProgress
import OxideGate.GatewayReplies
import OxideGate.GatewayRest
import OxideGate.LoadgenProgress
import OxideGate.GatewayAccounts
import OxideGate.GatewayLimits
import OxideGate.FairQueueMap
import OxideGate.GatewayOrder
import OxideGate.GatewayShares
import OxideGate.Lib.PyJson
import OxideGate.MockBackend
import OxideGate.StreamEndToEnd
import OxideGate.GatewayMetrics
import OxideGate.GatewayOutcomes
import OxideGate.MockSlots
import OxideGate.GatewayForward
import OxideGate.GatewayBusy
import OxideGate.LoadgenSchedule
import OxideGate.FairQueueFloat
import OxideGate.GatewayLatency
import OxideGate.GatewayWindow
