import PulseGate.Http.LogLines
import PulseGate.Lib.SortedMap
import Mathlib.Data.Rat.Defs

namespace PulseGate

/-!
# The metrics registry

`MetricsRegistry` of `observability.cpp`, for any number of threads.  A call that takes the mutex
is one step, and so is each access to an atomic; `connectionAccepted` has two of these.  A
`std::map` is in the order of its keys.  A sum of seconds is a rational number, in place of the
`double` of the source; the comparisons with the limits of the buckets are those of the `double`s,
since the limits are numbers of microseconds themselves.
-/

/-! ### Histograms -/

/-- `MetricsRegistry::Histogram`. -/
structure Histogram where
  count : UInt64 := 0
  sum : ℚ := 0
  le1ms : UInt64 := 0
  le5ms : UInt64 := 0
  le25ms : UInt64 := 0
  le100ms : UInt64 := 0
  le1s : UInt64 := 0
  deriving DecidableEq, Repr

/-- `updateHistogram`, for a duration in microseconds. -/
def updateHistogram (duration : Int) (h : Histogram) : Histogram :=
  let seconds : ℚ := duration / 1000000
  { count := h.count + 1
    sum := h.sum + seconds
    le1ms := if seconds ≤ 1 / 1000 then h.le1ms + 1 else h.le1ms
    le5ms := if seconds ≤ 5 / 1000 then h.le5ms + 1 else h.le5ms
    le25ms := if seconds ≤ 25 / 1000 then h.le25ms + 1 else h.le25ms
    le100ms := if seconds ≤ 1 / 10 then h.le100ms + 1 else h.le100ms
    le1s := if seconds ≤ 1 then h.le1s + 1 else h.le1s }

/-! ### Labels -/

/-- `MetricsRegistry::escapedLabel`. -/
def escapedLabel (value : Bytes) : Bytes := jsonEscape value

/-- The digit of a class of statuses: `std::clamp(status / 100, 0, 9)`. -/
def statusClass (status : Int) : Int := max 0 (min 9 (status.tdiv 100))

def httpLabels (method : Bytes) (status : Int) (route : Bytes) : Bytes :=
  bytes "method=\"" ++ escapedLabel method ++ bytes "\",status_class=\"" ++
    intToString (statusClass status) ++ bytes "xx\",route=\"" ++ escapedLabel route ++ bytes "\""

def upstreamLabels (upstream result : Bytes) : Bytes :=
  bytes "upstream=\"" ++ escapedLabel upstream ++ bytes "\",result=\"" ++ escapedLabel result ++
    bytes "\""

def reasonLabel (reason : Bytes) : Bytes :=
  bytes "reason=\"" ++ escapedLabel reason ++ bytes "\""

def resultLabel (result : Bytes) : Bytes :=
  bytes "result=\"" ++ escapedLabel result ++ bytes "\""

def routeLabel (route : Bytes) : Bytes := bytes "route=\"" ++ escapedLabel route ++ bytes "\""

/-! ### The registry -/

structure MetricsRegistry where
  httpRequests : SortedMap Bytes UInt64 := ∅
  httpDuration : SortedMap Bytes Histogram := ∅
  rejectedConnections : SortedMap Bytes UInt64 := ∅
  upstreamRequests : SortedMap Bytes UInt64 := ∅
  upstreamConnectDuration : SortedMap Bytes Histogram := ∅
  cacheRequests : SortedMap Bytes UInt64 := ∅
  rateLimitRejections : SortedMap Bytes UInt64 := ∅
  circuitStates : SortedMap Bytes Bytes := ∅
  activeConnections : UInt64 := 0
  acceptedConnections : UInt64 := 0
  runtimeActiveCoroutines : UInt64 := 0
  upstreamPoolWaiters : UInt64 := 0
  outputBufferBytes : UInt64 := 0
  logsDropped : UInt64 := 0

/-- The calls.  Durations are in microseconds. -/
inductive MetricsCall
  | recordHttp (method : Bytes) (status : Int) (route : Bytes) (duration : Int)
  | connectionAccepted
  | connectionClosed
  | connectionRejected (reason : Bytes)
  | recordUpstream (upstream result : Bytes) (connectDuration : Int)
  | recordCache (result : Bytes)
  | recordRateLimitRejection (route : Bytes)
  | setCircuitState (upstream state : Bytes)
  | setRuntimeActiveCoroutines (value : UInt64)
  | coroutineStarted
  | coroutineFinished
  | setUpstreamPoolWaiters (value : UInt64)
  | setOutputBufferBytes (value : UInt64)
  | addOutputBufferBytes (value : UInt64)
  | removeOutputBufferBytes (value : UInt64)
  | recordLogDrop
  deriving DecidableEq, Repr

/-- `++map[labels]`. -/
def increment (m : SortedMap Bytes UInt64) (labels : Bytes) : SortedMap Bytes UInt64 :=
  m.update 0 (· + 1) labels

namespace MetricsRegistry

/-- What a call does while it holds the mutex, or to the first atomic it accesses. -/
def perform (r : MetricsRegistry) : MetricsCall → MetricsRegistry
  | .recordHttp method status route duration =>
    let labels := httpLabels method status route
    { r with httpRequests := increment r.httpRequests labels,
             httpDuration := r.httpDuration.update {} (updateHistogram duration) labels }
  | .connectionAccepted => { r with acceptedConnections := r.acceptedConnections + 1 }
  | .connectionClosed => { r with activeConnections := r.activeConnections - 1 }
  | .connectionRejected reason =>
    { r with rejectedConnections := increment r.rejectedConnections (reasonLabel reason) }
  | .recordUpstream upstream result connectDuration =>
    let labels := upstreamLabels upstream result
    { r with
      upstreamRequests := increment r.upstreamRequests labels
      upstreamConnectDuration :=
        if 0 < connectDuration then
          r.upstreamConnectDuration.update {} (updateHistogram connectDuration) labels
        else r.upstreamConnectDuration }
  | .recordCache result =>
    { r with cacheRequests := increment r.cacheRequests (resultLabel result) }
  | .recordRateLimitRejection route =>
    { r with rateLimitRejections := increment r.rateLimitRejections (routeLabel route) }
  | .setCircuitState upstream state =>
    { r with circuitStates := r.circuitStates.update [] (fun _ => state) upstream }
  | .setRuntimeActiveCoroutines value => { r with runtimeActiveCoroutines := value }
  | .coroutineStarted => { r with runtimeActiveCoroutines := r.runtimeActiveCoroutines + 1 }
  | .coroutineFinished => { r with runtimeActiveCoroutines := r.runtimeActiveCoroutines - 1 }
  | .setUpstreamPoolWaiters value => { r with upstreamPoolWaiters := value }
  | .setOutputBufferBytes value => { r with outputBufferBytes := value }
  | .addOutputBufferBytes value => { r with outputBufferBytes := r.outputBufferBytes + value }
  | .removeOutputBufferBytes value => { r with outputBufferBytes := r.outputBufferBytes - value }
  | .recordLogDrop => { r with logsDropped := r.logsDropped + 1 }

end MetricsRegistry

/-- A registry in use. -/
structure SharedMetrics where
  registry : MetricsRegistry := {}
  /-- The threads between the two accesses of `connectionAccepted`. -/
  accepting : Nat := 0
  /-- The calls in the order in which they took effect. -/
  calls : List MetricsCall := []

namespace SharedMetrics

inductive Event
  | call (c : MetricsCall)
  /-- A thread makes the second access of `connectionAccepted`. -/
  | activated
  deriving DecidableEq, Repr

def step (s : SharedMetrics) : Event → Option SharedMetrics
  | .call c =>
    some { registry := s.registry.perform c,
           accepting := if c = .connectionAccepted then s.accepting + 1 else s.accepting,
           calls := s.calls ++ [c] }
  | .activated =>
    if s.accepting = 0 then none
    else
      some { s with
        registry := { s.registry with activeConnections := s.registry.activeConnections + 1 }
        accepting := s.accepting - 1 }

end SharedMetrics
end PulseGate
