import PulseGate.Http.Metrics
import PulseGate.Http.Router
import PulseGate.Lib.Decimal

namespace PulseGate

/-!
# The text of the metrics

`MetricsRegistry::renderPrometheus`, and what the handler of `/metrics` adds to it.  Statistics of
limiters and caches are natural numbers.
-/

/-! ### The registry -/

/-- The buckets of a histogram with a limit. -/
def Histogram.buckets (h : Histogram) : List (Bytes × UInt64) :=
  [(bytes "0.001", h.le1ms), (bytes "0.005", h.le5ms), (bytes "0.025", h.le25ms),
    (bytes "0.1", h.le100ms), (bytes "1", h.le1s)]

/-- The text of a count. -/
def countText (n : UInt64) : Bytes := toChars 10 n.toNat

/-- `renderHistogram`. -/
def renderHistogram (name labels : Bytes) (h : Histogram) : Bytes :=
  h.buckets.flatMap (fun (limit, count) =>
      name ++ bytes "_bucket\x7b" ++ labels ++ bytes ",le=\"" ++ limit ++ bytes "\"\x7d " ++
        countText count ++ bytes "\n") ++
    (name ++ bytes "_bucket\x7b" ++ labels ++ bytes ",le=\"+Inf\"\x7d " ++ countText h.count ++
      bytes "\n") ++
    (name ++ bytes "_sum\x7b" ++ labels ++ bytes "\x7d " ++ Decimal.general 12 h.sum ++
      bytes "\n") ++
    (name ++ bytes "_count\x7b" ++ labels ++ bytes "\x7d " ++ countText h.count ++ bytes "\n")

/-- The loop over a map with counters. -/
def renderCounters (name : Bytes) (m : SortedMap Bytes UInt64) : Bytes :=
  m.entries.flatMap fun (labels, value) =>
    name ++ bytes "\x7b" ++ labels ++ bytes "\x7d " ++ countText value ++ bytes "\n"

/-- The loop over a map with histograms. -/
def renderHistograms (name : Bytes) (m : SortedMap Bytes Histogram) : Bytes :=
  m.entries.flatMap fun (labels, value) => renderHistogram name labels value

def circuitCandidates : List Bytes := [bytes "closed", bytes "open", bytes "half_open"]

/-- The loop over the states of the circuits. -/
def renderCircuits (m : SortedMap Bytes Bytes) : Bytes :=
  m.entries.flatMap fun (upstream, state) => circuitCandidates.flatMap fun candidate =>
    bytes "pulsegate_circuit_state\x7bupstream=\"" ++ escapedLabel upstream ++
      bytes "\",state=\"" ++ candidate ++ bytes "\"\x7d " ++
      if state = candidate then bytes "1\n" else bytes "0\n"

/-- `MetricsRegistry::renderPrometheus`. -/
def MetricsRegistry.renderPrometheus (r : MetricsRegistry) : Bytes :=
  bytes "# HELP pulsegate_http_requests_total Total HTTP requests.\n" ++
    bytes "# TYPE pulsegate_http_requests_total counter\n" ++
    renderCounters (bytes "pulsegate_http_requests_total") r.httpRequests ++
    bytes "# HELP pulsegate_http_request_duration_seconds HTTP request duration.\n" ++
    bytes "# TYPE pulsegate_http_request_duration_seconds histogram\n" ++
    renderHistograms (bytes "pulsegate_http_request_duration_seconds") r.httpDuration ++
    bytes "# TYPE pulsegate_rejected_connections_total counter\n" ++
    renderCounters (bytes "pulsegate_rejected_connections_total") r.rejectedConnections ++
    bytes "# TYPE pulsegate_upstream_requests_total counter\n" ++
    renderCounters (bytes "pulsegate_upstream_requests_total") r.upstreamRequests ++
    bytes "# TYPE pulsegate_upstream_connect_duration_seconds histogram\n" ++
    renderHistograms (bytes "pulsegate_upstream_connect_duration_seconds")
      r.upstreamConnectDuration ++
    bytes "# TYPE pulsegate_cache_requests_total counter\n" ++
    renderCounters (bytes "pulsegate_cache_requests_total") r.cacheRequests ++
    bytes "# TYPE pulsegate_rate_limit_rejections_total counter\n" ++
    renderCounters (bytes "pulsegate_rate_limit_rejections_total") r.rateLimitRejections ++
    bytes "# TYPE pulsegate_circuit_state gauge\n" ++ renderCircuits r.circuitStates ++
    bytes "# TYPE pulsegate_active_connections gauge\npulsegate_active_connections " ++
    countText r.activeConnections ++ bytes "\n" ++
    bytes "# TYPE pulsegate_accepted_connections_total counter\n" ++
    bytes "pulsegate_accepted_connections_total " ++
    countText r.acceptedConnections ++ bytes "\n" ++
    bytes "# TYPE pulsegate_runtime_active_coroutines gauge\n" ++
    bytes "pulsegate_runtime_active_coroutines " ++
    countText r.runtimeActiveCoroutines ++ bytes "\n" ++
    bytes "# TYPE pulsegate_upstream_pool_waiters gauge\npulsegate_upstream_pool_waiters " ++
    countText r.upstreamPoolWaiters ++ bytes "\n" ++
    bytes "# TYPE pulsegate_output_buffer_bytes gauge\npulsegate_output_buffer_bytes " ++
    countText r.outputBufferBytes ++ bytes "\n" ++
    bytes "# TYPE pulsegate_logs_dropped_total counter\npulsegate_logs_dropped_total " ++
    countText r.logsDropped ++ bytes "\n"

/-! ### The router -/

/-- `append` of `Router::rateLimitMetrics`. -/
def rateLimitLines (scope : Bytes) (stats : RateLimitStats) : Bytes :=
  let add (outcome : Bytes) (value : Nat) :=
    bytes "pulsegate_rate_limit_requests_total\x7bscope=\"" ++ scope ++ bytes "\",outcome=\"" ++
      outcome ++ bytes "\"\x7d " ++ toChars 10 value ++ bytes "\n"
  add (bytes "allowed") stats.allowed ++ add (bytes "rejected") stats.rejected ++
    add (bytes "key_capacity") stats.rejectedKeyCapacity

/-- The sums over the limiters of the routes; like the counters, they are exact until 2^64. -/
def rateLimitTotals (routes : List RateLimitStats) : RateLimitStats :=
  routes.foldl (fun totals stats =>
    { allowed := totals.allowed + stats.allowed
      rejected := totals.rejected + stats.rejected
      rejectedKeyCapacity := totals.rejectedKeyCapacity + stats.rejectedKeyCapacity }) {}

/-- `Router::rateLimitMetrics`. -/
def Router.rateLimitMetrics (global : Option RateLimitStats) (routes : List RateLimitStats) :
    Bytes :=
  bytes "# TYPE pulsegate_rate_limit_requests_total counter\n" ++
    global.elim [] (rateLimitLines (bytes "global")) ++
    if routes.isEmpty then [] else rateLimitLines (bytes "route") (rateLimitTotals routes)

/-- The sums over the caches of the routes; they too are exact until 2^64. -/
def cacheTotals (caches : List CacheStats) : CacheStats :=
  caches.foldl (fun totals stats =>
    { hits := totals.hits + stats.hits
      misses := totals.misses + stats.misses
      stores := totals.stores + stats.stores
      evictions := totals.evictions + stats.evictions
      expired := totals.expired + stats.expired }) {}

/-- `append` of `Router::cacheMetrics`. -/
def cacheLine (operation : Bytes) (value : Nat) : Bytes :=
  bytes "pulsegate_response_cache_operations_total\x7boperation=\"" ++ operation ++
    bytes "\"\x7d " ++ toChars 10 value ++ bytes "\n"

/-- `Router::cacheMetrics`. -/
def Router.cacheMetrics (caches : List CacheStats) : Bytes :=
  if caches.isEmpty then []
  else
    let totals := cacheTotals caches
    bytes "# TYPE pulsegate_response_cache_operations_total counter\n" ++
      cacheLine (bytes "hit") totals.hits ++ cacheLine (bytes "miss") totals.misses ++
      cacheLine (bytes "store") totals.stores ++ cacheLine (bytes "eviction") totals.evictions ++
      cacheLine (bytes "expired") totals.expired

/-- The handler of `/metrics` in `HttpServer::makeDefaultRouter`, while the router lives. -/
def metricsResponse (observability : Option MetricsRegistry) (global : Option RateLimitStats)
    (routes : List RateLimitStats) (caches : List CacheStats) : HttpResponse :=
  { body := bytes "pulsegate_ready 1\n" ++
      observability.elim [] MetricsRegistry.renderPrometheus ++
      Router.rateLimitMetrics global routes ++ Router.cacheMetrics caches
    headers := Headers.add {} (bytes "Content-Type") (bytes "text/plain; version=0.0.4") }

end PulseGate
