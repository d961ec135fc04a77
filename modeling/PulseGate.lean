import PulseGate.Net.Buffer
import PulseGate.Http.ResponseParserSafety
import PulseGate.Http.Downstream
import PulseGate.Http.ProxyClassification
import PulseGate.Http.ProxyLease
import PulseGate.Lib.Loop
import PulseGate.Lib.Json
import PulseGate.Lib.Monitor
import PulseGate.Lib.RoundRobin
import PulseGate.Http.CircuitTraffic
import PulseGate.Http.UpstreamPoolSafety
import PulseGate.Http.StreamRoundTrip
import PulseGate.Http.UpstreamRequest
import PulseGate.Http.RequestSegments
import PulseGate.Http.ResponseSegments
import PulseGate.Http.HeadText
import PulseGate.Http.TransferCodings
import PulseGate.Http.ChunkedDecoding
import PulseGate.Http.CacheSoundness
import PulseGate.Http.CacheKey
import PulseGate.Http.ProxyInput
import PulseGate.Http.UpstreamSelection
import PulseGate.Http.HttpSession
import PulseGate.Http.Config
import PulseGate.Http.SessionSteps
import PulseGate.Http.SessionStops
import PulseGate.Http.SessionPersistence
import PulseGate.Http.HttpServer
import PulseGate.Http.ServerSteps
import PulseGate.Http.ServerAccounts
import PulseGate.Http.ServerDrain
import PulseGate.Http.RelayedResponse
import PulseGate.Http.RateLimiterCapacity
import PulseGate.Http.RateLimiterBound
import PulseGate.Http.TokenBucketLaw
import PulseGate.Http.RetryDelay
import PulseGate.Http.ClientKeys
import PulseGate.Http.ProxyAdmission
import PulseGate.Http.HealthOutcomes
import PulseGate.Http.HealthChecker
import PulseGate.Http.RouteLimiting
import PulseGate.Http.PoolCompletion
import PulseGate.Http.ConfigReload
import PulseGate.Http.SessionReading
import PulseGate.Http.SessionBuffer
import PulseGate.Http.SessionParsing
import PulseGate.Http.SessionPipeline
import PulseGate.Http.SessionDeadline
import PulseGate.Http.ResponseRoundTrip
import PulseGate.Http.TransactionReads
import PulseGate.Http.PathAgreement
import PulseGate.Http.CircuitStreak
import PulseGate.Http.CircuitRetry
import PulseGate.Http.CacheFreshness
import PulseGate.Net.BufferCalls
import PulseGate.Net.BufferErrors
import PulseGate.Net.Deadline
import PulseGate.Http.AsyncLogger
import PulseGate.Http.LoggerShutdown
import PulseGate.Http.LogLines
import PulseGate.Path
import PulseGate.Http.StaticFileHandler
import PulseGate.Http.Routing
import PulseGate.Http.MetricsDocument
import PulseGate.Http.StaticFiles
import PulseGate.Http.CacheAccounts
import PulseGate.Net.SyncHttpServer
import PulseGate.Net.Listener
import PulseGate.Runtime.AsioRuntime
import PulseGate.App.CommandLine
