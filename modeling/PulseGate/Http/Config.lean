import PulseGate.Http.HealthStore
import PulseGate.Http.HttpSession
import PulseGate.Http.Router

namespace PulseGate

/-!
# The configuration

`Config` and `ConfigLoader::validate` of `config.cpp`, the limits that `pulsegate_main.cpp` takes
from a configuration, and the constructors of what is built from it.

* `validate_eq_nil_iff` — the configurations that pass, as a predicate;
* `runnable_iff` — everything can be built from a configuration that passes exactly if it is
  within the bounds that only the constructors check.

A `double` is a rational number, an infinity or not a number.
-/

/-! ### Numbers as they are read -/

inductive Double
  | finite (value : ℚ)
  | infinity
  | negativeInfinity
  | nan
  deriving DecidableEq, Repr

namespace Double

/-- `value <= 0.0`, which no comparison with a NaN is. -/
def nonpositive : Double → Bool
  | .finite value => value ≤ 0
  | .negativeInfinity => true
  | .infinity | .nan => false

/-- `std::isfinite`. -/
def isfinite : Double → Bool
  | .finite _ => true
  | _ => false

end Double

/-! ### The structures -/

structure ServerConfig where
  listenHost : Bytes := bytes "127.0.0.1"
  listenPort : Nat := 8080
  ioThreads : Nat := 1
  idleTimeout : Int := 15000
  headerTimeout : Int := 10000
  bodyTimeout : Int := 30000
  gracefulShutdown : Int := 15000
  maxConnections : Nat := 1024
  maxHeaderBytes : Nat := 16 * 1024
  maxBodyBytes : Nat := 1024 * 1024
  outputHighWaterBytes : Nat := 4 * 1024 * 1024
  outputLowWaterBytes : Nat := 2 * 1024 * 1024
  deriving DecidableEq, Repr

structure UpstreamConfig where
  name : Bytes
  endpoints : List UpstreamEndpoint
  proxyLimits : ProxyLimits := {}
  poolShards : Nat := 1
  deriving DecidableEq, Repr

/-- `RateLimitConfig` with its two `double`s. -/
structure RateLimitSettings where
  requestsPerSecond : Double := .finite 0
  burst : Double := .finite 0
  perClient : Bool := false
  shardCount : Nat := 16
  maxKeys : Nat := 10000
  idleTtl : Int := 600000
  deriving DecidableEq, Repr

structure RouteConfig where
  pathPrefix : Bytes
  upstream : Bytes
  rateLimit : Option RateLimitSettings := none
  cache : Option ResponseCacheConfig := none
  deriving DecidableEq, Repr

structure LoggingConfig where
  level : Bytes := bytes "info"
  format : Bytes := bytes "text"
  deriving DecidableEq, Repr

structure Config where
  server : ServerConfig := {}
  routes : List RouteConfig := []
  upstreams : List UpstreamConfig := []
  logging : LoggingConfig := {}
  deriving DecidableEq, Repr

structure ConfigError where
  path : Bytes
  message : Bytes
  deriving DecidableEq, Repr

/-! ### `ConfigLoader::validate` -/

namespace Config

/-- An error, if the condition holds. -/
def errorIf (bad : Bool) (path message : Bytes) : List ConfigError :=
  if bad then [⟨path, message⟩] else []

@[simp] theorem errorIf_eq_nil {bad : Bool} {path message : Bytes} :
    errorIf bad path message = [] ↔ bad = false := by
  cases bad <;> simp [errorIf]

/-- The lambda `positive`. -/
def positive (path : Bytes) (value : Nat) : List ConfigError :=
  errorIf (value = 0) path (bytes "must be positive")

/-- `list[index]`, as it stands in the path of an error. -/
def indexed (list : String) (index : Nat) : Bytes :=
  bytes list ++ bytes "[" ++ toChars 10 index ++ bytes "]"

def serverErrors (server : ServerConfig) : List ConfigError :=
  errorIf server.listenHost.isEmpty (bytes "server.listen_host") (bytes "must not be empty") ++
  errorIf (server.listenPort = 0 ∨ 65535 < server.listenPort) (bytes "server.listen_port")
    (bytes "must be between 1 and 65535") ++
  positive (bytes "server.io_threads") server.ioThreads ++
  positive (bytes "server.max_connections") server.maxConnections ++
  positive (bytes "server.max_header_bytes") server.maxHeaderBytes ++
  positive (bytes "server.max_body_bytes") server.maxBodyBytes ++
  errorIf (64 * 1024 * 1024 < server.maxBodyBytes) (bytes "server.max_body_bytes")
    (bytes "must not exceed 67108864") ++
  errorIf (server.idleTimeout ≤ 0 ∨ server.headerTimeout ≤ 0 ∨ server.bodyTimeout ≤ 0 ∨
      server.gracefulShutdown ≤ 0) (bytes "server") (bytes "timeout values must be positive") ++
  errorIf (server.outputHighWaterBytes ≤ server.outputLowWaterBytes)
    (bytes "server.output_low_water_bytes") (bytes "must be lower than high water")

def logLevels : List Bytes :=
  [bytes "trace", bytes "debug", bytes "info", bytes "warn", bytes "warning", bytes "error",
    bytes "critical"]

def loggingErrors (logging : LoggingConfig) : List ConfigError :=
  errorIf (logging.level ∉ logLevels) (bytes "logging.level")
    (bytes "must be trace, debug, info, warn, error, or critical") ++
  errorIf (logging.format ≠ bytes "json" ∧ logging.format ≠ bytes "text")
    (bytes "logging.format") (bytes "must be json or text")

/-- The loop over the endpoints of an upstream; `seen` is the set of the endpoints before. -/
def endpointErrors (path : Bytes) :
    Nat → List Bytes → List UpstreamEndpoint → List ConfigError
  | _, _, [] => []
  | index, seen, endpoint :: endpoints =>
    let path' := path ++ bytes ".endpoints[" ++ toChars 10 index ++ bytes "]"
    errorIf (endpoint.host.isEmpty ∨ endpoint.service.isEmpty) path'
      (bytes "host and port must not be empty") ++
    errorIf (endpoint.id ∈ seen) path' (bytes "must not duplicate an endpoint") ++
    endpointErrors path (index + 1) (endpoint.id :: seen) endpoints

/-- The loop over the upstreams; `names` is the set of the names before. -/
def upstreamErrors : Nat → List Bytes → List UpstreamConfig → List ConfigError
  | _, _, [] => []
  | index, names, upstream :: upstreams =>
    let path := indexed "upstreams" index
    errorIf upstream.name.isEmpty (path ++ bytes ".name") (bytes "must not be empty") ++
    errorIf (upstream.name ∈ names) (path ++ bytes ".name") (bytes "must be unique") ++
    errorIf upstream.endpoints.isEmpty (path ++ bytes ".endpoints") (bytes "must not be empty") ++
    positive (path ++ bytes ".pool_shards") upstream.poolShards ++
    endpointErrors path 0 [] upstream.endpoints ++
    upstreamErrors (index + 1) (upstream.name :: names) upstreams

def rateLimitErrors (path : Bytes) (limit : RateLimitSettings) : List ConfigError :=
  errorIf (limit.requestsPerSecond.nonpositive ∨ limit.burst.nonpositive)
    (path ++ bytes ".rate_limit") (bytes "requests_per_second and burst must be positive")

def cacheErrors (path : Bytes) (cache : ResponseCacheConfig) : List ConfigError :=
  if cache.ttl ≤ 0 ∨ cache.maxEntryBytes = 0 ∨ cache.maxBytes = 0 ∨ cache.shardCount = 0 then
    [⟨path ++ bytes ".cache", bytes "ttl, sizes, and shards must be positive"⟩]
  else
    errorIf (cache.maxBytes / cache.shardCount < cache.maxEntryBytes)
      (path ++ bytes ".cache.max_object_bytes") (bytes "must fit within one cache shard")

/-- The loop over the routes; `names` are the names of the upstreams. -/
def routeErrors (names : List Bytes) : Nat → List RouteConfig → List ConfigError
  | _, [] => []
  | index, route :: routes =>
    let path := indexed "routes" index
    errorIf (route.pathPrefix.head? ≠ some 47) (path ++ bytes ".path_prefix")
      (bytes "must be an absolute path prefix") ++
    errorIf (route.upstream ∉ names) (path ++ bytes ".upstream")
      (bytes "unknown upstream \"" ++ route.upstream ++ bytes "\"") ++
    (route.rateLimit.elim [] (rateLimitErrors path)) ++
    (route.cache.elim [] (cacheErrors path)) ++
    routeErrors names (index + 1) routes

/-- `ConfigLoader::validate`. -/
def validate (config : Config) : List ConfigError :=
  serverErrors config.server ++ loggingErrors config.logging ++
    upstreamErrors 0 [] config.upstreams ++
    routeErrors (config.upstreams.map (·.name)) 0 config.routes

/-! #### The configurations that pass -/

structure ValidServer (server : ServerConfig) : Prop where
  listenHost : server.listenHost ≠ []
  listenPort : server.listenPort ≠ 0 ∧ server.listenPort ≤ 65535
  ioThreads : server.ioThreads ≠ 0
  maxConnections : server.maxConnections ≠ 0
  maxHeaderBytes : server.maxHeaderBytes ≠ 0
  maxBodyBytes : server.maxBodyBytes ≠ 0 ∧ server.maxBodyBytes ≤ 64 * 1024 * 1024
  idleTimeout : 0 < server.idleTimeout
  headerTimeout : 0 < server.headerTimeout
  bodyTimeout : 0 < server.bodyTimeout
  gracefulShutdown : 0 < server.gracefulShutdown
  output : server.outputLowWaterBytes < server.outputHighWaterBytes

structure ValidUpstream (upstream : UpstreamConfig) : Prop where
  name : upstream.name ≠ []
  endpoints : upstream.endpoints ≠ []
  poolShards : upstream.poolShards ≠ 0
  named : ∀ endpoint ∈ upstream.endpoints, endpoint.host ≠ [] ∧ endpoint.service ≠ []
  nodup : (upstream.endpoints.map (·.id)).Nodup

structure ValidCache (cache : ResponseCacheConfig) : Prop where
  ttl : 0 < cache.ttl
  maxEntryBytes : cache.maxEntryBytes ≠ 0
  maxBytes : cache.maxBytes ≠ 0
  shardCount : cache.shardCount ≠ 0
  fits : cache.maxEntryBytes ≤ cache.maxBytes / cache.shardCount

structure ValidRoute (names : List Bytes) (route : RouteConfig) : Prop where
  pathPrefix : route.pathPrefix.head? = some 47
  upstream : route.upstream ∈ names
  rateLimit : ∀ limit ∈ route.rateLimit,
    limit.requestsPerSecond.nonpositive = false ∧ limit.burst.nonpositive = false
  cache : ∀ cache ∈ route.cache, ValidCache cache

structure Valid (config : Config) : Prop where
  server : ValidServer config.server
  logging : config.logging.level ∈ logLevels ∧
    (config.logging.format = bytes "json" ∨ config.logging.format = bytes "text")
  upstreams : ∀ upstream ∈ config.upstreams, ValidUpstream upstream
  nodup : (config.upstreams.map (·.name)).Nodup
  routes : ∀ route ∈ config.routes, ValidRoute (config.upstreams.map (·.name)) route

theorem serverErrors_eq_nil_iff {server : ServerConfig} :
    serverErrors server = [] ↔ ValidServer server := by
  simp only [serverErrors, positive, List.append_eq_nil_iff, errorIf_eq_nil,
    List.isEmpty_eq_false_iff, decide_eq_false_iff_not, not_or, not_lt, not_le]
  constructor
  · rintro ⟨⟨⟨⟨⟨⟨⟨⟨hhost, hport⟩, hthreads⟩, hconnections⟩, hheader⟩, hbody⟩, hmax⟩,
      hidle, hheaders, hbodies, hgrace⟩, houtput⟩
    exact ⟨hhost, hport, hthreads, hconnections, hheader, ⟨hbody, hmax⟩, hidle, hheaders, hbodies,
      hgrace, houtput⟩
  · intro h
    exact ⟨⟨⟨⟨⟨⟨⟨⟨h.listenHost, h.listenPort⟩, h.ioThreads⟩, h.maxConnections⟩, h.maxHeaderBytes⟩,
      h.maxBodyBytes.1⟩, h.maxBodyBytes.2⟩, h.idleTimeout, h.headerTimeout, h.bodyTimeout,
      h.gracefulShutdown⟩, h.output⟩

theorem endpointErrors_eq_nil_iff {path : Bytes} {endpoints : List UpstreamEndpoint} {index : Nat}
    {seen : List Bytes} : endpointErrors path index seen endpoints = [] ↔
      (∀ endpoint ∈ endpoints, endpoint.host ≠ [] ∧ endpoint.service ≠ []) ∧
        (endpoints.map (·.id)).Nodup ∧ ∀ endpoint ∈ endpoints, endpoint.id ∉ seen := by
  induction endpoints generalizing index seen with
  | nil => simp [endpointErrors]
  | cons endpoint endpoints ih =>
    simp only [endpointErrors, List.append_eq_nil_iff, errorIf_eq_nil, ih,
      decide_eq_false_iff_not, List.mem_cons, List.map_cons, List.nodup_cons, List.mem_map,
      forall_eq_or_imp, List.isEmpty_iff]
    constructor
    · rintro ⟨⟨hnames, hseen⟩, hall, hnodup, hnot⟩
      refine ⟨⟨by tauto, hall⟩, ⟨?_, hnodup⟩, hseen, fun e hmem hin => hnot e hmem (.inr hin)⟩
      rintro ⟨e, hmem, heq⟩
      exact hnot e hmem (.inl heq)
    · rintro ⟨⟨hnames, hall⟩, ⟨hfresh, hnodup⟩, hseen, hnot⟩
      refine ⟨⟨by tauto, hseen⟩, hall, hnodup, fun e hmem hin => ?_⟩
      rcases hin with heq | hin
      · exact hfresh ⟨e, hmem, heq⟩
      · exact hnot e hmem hin

theorem upstreamErrors_eq_nil_iff {upstreams : List UpstreamConfig} {index : Nat}
    {names : List Bytes} : upstreamErrors index names upstreams = [] ↔
      (∀ upstream ∈ upstreams, ValidUpstream upstream) ∧ (upstreams.map (·.name)).Nodup ∧
        ∀ upstream ∈ upstreams, upstream.name ∉ names := by
  induction upstreams generalizing index names with
  | nil => simp [upstreamErrors]
  | cons upstream upstreams ih =>
    simp only [upstreamErrors, positive, List.append_eq_nil_iff, errorIf_eq_nil, ih,
      endpointErrors_eq_nil_iff, decide_eq_false_iff_not, List.mem_cons, List.map_cons,
      List.nodup_cons, List.mem_map, forall_eq_or_imp, List.isEmpty_eq_false_iff]
    constructor
    · rintro ⟨⟨⟨⟨⟨hname, hnew⟩, hendpoints⟩, hshards⟩, hnamed, hids, -⟩, hall, hnodup, hnot⟩
      refine ⟨⟨⟨hname, hendpoints, hshards, hnamed, hids⟩, hall⟩, ⟨?_, hnodup⟩, hnew,
        fun u hmem hin => hnot u hmem (.inr hin)⟩
      rintro ⟨u, hmem, heq⟩
      exact hnot u hmem (.inl heq)
    · rintro ⟨⟨hvalid, hall⟩, ⟨hfresh, hnodup⟩, hnew, hnot⟩
      refine ⟨⟨⟨⟨⟨hvalid.name, hnew⟩, hvalid.endpoints⟩, hvalid.poolShards⟩, hvalid.named,
        hvalid.nodup, fun e _ => List.not_mem_nil⟩, hall, hnodup, fun u hmem hin => ?_⟩
      rcases hin with heq | hin
      · exact hfresh ⟨u, hmem, heq⟩
      · exact hnot u hmem hin

theorem cacheErrors_eq_nil_iff {path : Bytes} {cache : ResponseCacheConfig} :
    cacheErrors path cache = [] ↔ ValidCache cache := by
  unfold cacheErrors
  split
  · next hbad =>
    refine ⟨fun h => by simp at h, fun h => ?_⟩
    have := h.ttl
    rcases hbad with hbad | hbad | hbad | hbad
    · omega
    · exact absurd hbad h.maxEntryBytes
    · exact absurd hbad h.maxBytes
    · exact absurd hbad h.shardCount
  · next hgood =>
    simp only [not_or, not_le] at hgood
    simp only [errorIf_eq_nil, decide_eq_false_iff_not, not_lt]
    exact ⟨fun h => ⟨hgood.1, hgood.2.1, hgood.2.2.1, hgood.2.2.2, h⟩, fun h => h.fits⟩

theorem routeErrors_eq_nil_iff {names : List Bytes} {routes : List RouteConfig} {index : Nat} :
    routeErrors names index routes = [] ↔ ∀ route ∈ routes, ValidRoute names route := by
  induction routes generalizing index with
  | nil => simp [routeErrors]
  | cons route routes ih =>
    have hlimit : route.rateLimit.elim [] (rateLimitErrors (indexed "routes" index)) = [] ↔
        ∀ limit ∈ route.rateLimit,
          limit.requestsPerSecond.nonpositive = false ∧ limit.burst.nonpositive = false := by
      cases route.rateLimit <;> simp [rateLimitErrors]
    have hcache : route.cache.elim [] (cacheErrors (indexed "routes" index)) = [] ↔
        ∀ cache ∈ route.cache, ValidCache cache := by
      cases route.cache <;> simp [cacheErrors_eq_nil_iff]
    simp only [routeErrors, List.append_eq_nil_iff, errorIf_eq_nil, ih, hlimit, hcache,
      decide_eq_false_iff_not, not_not, List.mem_cons, forall_eq_or_imp]
    constructor
    · rintro ⟨⟨⟨⟨hpath, hupstream⟩, hrate⟩, hcaches⟩, hall⟩
      exact ⟨⟨hpath, hupstream, hrate, hcaches⟩, hall⟩
    · rintro ⟨hvalid, hall⟩
      exact ⟨⟨⟨⟨hvalid.pathPrefix, hvalid.upstream⟩, hvalid.rateLimit⟩, hvalid.cache⟩, hall⟩

/-- The validator reports no error of exactly the configurations that are `Valid`. -/
theorem validate_eq_nil_iff {config : Config} : config.validate = [] ↔ config.Valid := by
  simp only [validate, List.append_eq_nil_iff, serverErrors_eq_nil_iff, upstreamErrors_eq_nil_iff,
    routeErrors_eq_nil_iff, loggingErrors, errorIf_eq_nil, decide_eq_false_iff_not, not_not]
  constructor
  · rintro ⟨⟨⟨hserver, hlevel, hformat⟩, hupstreams, hnodup, -⟩, hroutes⟩
    exact ⟨hserver, ⟨hlevel, by tauto⟩, hupstreams, hnodup, hroutes⟩
  · intro h
    have hformat := h.logging.2
    exact ⟨⟨⟨h.server, h.logging.1, by tauto⟩, h.upstreams, h.nodup,
      fun u _ => List.not_mem_nil⟩, h.routes⟩

end Config

/-! ### What is built from a configuration -/

/-- `sessionLimitsFromConfig`. -/
def sessionLimitsFromConfig (config : ServerConfig) : SessionLimits :=
  let limits : SessionLimits := {}
  { limits with
    parser := { limits.parser with maxHeaderBytes := config.maxHeaderBytes,
                                   maxBodyBytes := config.maxBodyBytes }
    maxBufferBytes := max (sizeAdd config.maxBodyBytes config.maxHeaderBytes) limits.readChunkBytes
    headerTimeout := config.headerTimeout
    bodyTimeout := config.bodyTimeout
    idleTimeout := config.idleTimeout
    maxConnections := config.maxConnections }

/-- The constructor of `ReverseProxy`. -/
def ReverseProxy.create (upstreams : List UpstreamEndpoint) (limits : ProxyLimits) :
    Except Exception ReverseProxy :=
  if hempty : upstreams = [] then .error .InvalidArgument
  else if hnamed : ∃ upstream ∈ upstreams, upstream.host = [] ∨ upstream.service = [] then
    .error .InvalidArgument
  -- the health store, then the circuits
  else if ¬limits.healthThresholds.Accepted then .error .InvalidArgument
  else if ¬limits.circuitBreaker.Accepted then .error .InvalidArgument
  else if limits.maxInFlightRequests = 0 ∨ limits.overloadRetryAfter ≤ 0 then
    .error .InvalidArgument
  else
    .ok { upstreams := upstreams, limits := limits, nonempty := hempty,
          named := fun upstream hmem => by
            simp only [not_exists, not_and, not_or] at hnamed
            exact hnamed upstream hmem }

/-- The constructor of the policy of a pool, which `poolFor` makes for an endpoint. -/
def UpstreamPoolPolicy.create (limits : PoolLimits) : Except Exception UpstreamPoolPolicy :=
  if haccepted : limits.Accepted then .ok { limits := limits, accepted := haccepted }
  else .error .InvalidArgument

namespace RateLimitSettings

/-- The constructor of `RateLimiter`, which takes positive and finite numbers only. -/
def limiter (settings : RateLimitSettings) (initialTime : Int) : Except Exception RateLimiter :=
  match settings.requestsPerSecond, settings.burst with
  | .finite requestsPerSecond, .finite burst =>
    RateLimiter.create
      { requestsPerSecond := requestsPerSecond, burst := burst, perClient := settings.perClient,
        shardCount := settings.shardCount, maxKeys := settings.maxKeys,
        idleTtl := settings.idleTtl } initialTime
  | _, _ => .error .InvalidArgument

end RateLimitSettings

namespace Config

/-- Nothing that is built from the configuration throws, at the start, when a connection is
    accepted or when a request is first proxied, and the size of the input buffer does not
    wrap. -/
structure Runnable (config : Config) : Prop where
  session : (HttpSession.create (sessionLimitsFromConfig config.server)).isOk
  buffer : config.server.maxBodyBytes + config.server.maxHeaderBytes < sizeModulus
  proxies : ∀ upstream ∈ config.upstreams,
    (ReverseProxy.create upstream.endpoints upstream.proxyLimits).isOk
  pools : ∀ upstream ∈ config.upstreams,
    (UpstreamPoolPolicy.create upstream.proxyLimits.poolLimits).isOk
  limiters : ∀ route ∈ config.routes, ∀ settings ∈ route.rateLimit, ∀ initialTime,
    (settings.limiter initialTime).isOk
  caches : ∀ route ∈ config.routes, ∀ cache ∈ route.cache, (ResponseCache.create cache).isOk

/-- The limits of a proxy that its constructors accept. -/
structure ProxyBounds (limits : ProxyLimits) : Prop where
  healthThresholds : limits.healthThresholds.Accepted
  circuitBreaker : limits.circuitBreaker.Accepted
  maxInFlightRequests : limits.maxInFlightRequests ≠ 0
  overloadRetryAfter : 0 < limits.overloadRetryAfter
  poolLimits : limits.poolLimits.Accepted

/-- A rate limit that its constructor accepts, if the rate and the burst are not too small. -/
structure LimiterBounds (settings : RateLimitSettings) : Prop where
  requestsPerSecond : settings.requestsPerSecond.isfinite = true
  burst : settings.burst.isfinite = true
  shardCount : settings.shardCount ≠ 0
  maxKeys : settings.maxKeys ≠ 0
  idleTtl : 0 < settings.idleTtl
  shards : settings.perClient = true → settings.shardCount ≤ pointerVectorMaxSize

structure CacheBounds (cache : ResponseCacheConfig) : Prop where
  varyHeaders : ∀ header ∈ cache.varyHeaders, isValidHeaderName (normalizeHeaderName header) = true
  shards : cache.shardCount ≤ pointerVectorMaxSize

/-- The bounds that the constructors check and the validator does not. -/
structure WithinBounds (config : Config) : Prop where
  maxHeaderBytes : config.server.maxHeaderBytes ≤ HttpParserLimits.kAbsoluteHeaderLimit
  maxBodyBytes : config.server.maxBodyBytes ≤ HttpParserLimits.kAbsoluteBodyLimit
  proxies : ∀ upstream ∈ config.upstreams, ProxyBounds upstream.proxyLimits
  limiters : ∀ route ∈ config.routes, ∀ settings ∈ route.rateLimit, LimiterBounds settings
  caches : ∀ route ∈ config.routes, ∀ cache ∈ route.cache, CacheBounds cache

theorem isOk_ite {α : Type*} {bad : Prop} [Decidable bad] {e : Exception}
    {x : Except Exception α} : (if bad then .error e else x : Except Exception α).isOk ↔
      ¬bad ∧ x.isOk := by
  split <;> simp_all [Except.isOk, Except.toBool]

theorem isOk_bind {α β : Type*} {x : Except Exception α} {f : α → Except Exception β} {a : α}
    (h : x = .ok a) : (x.bind f).isOk ↔ (f a).isOk := by
  rw [h]
  rfl

/-- The parser accepts its limits exactly if the sizes of the configuration are not too large. -/
theorem accepted_parser_iff {server : ServerConfig} (h : ValidServer server) :
    (sessionLimitsFromConfig server).parser.Accepted ↔
      server.maxHeaderBytes ≤ HttpParserLimits.kAbsoluteHeaderLimit ∧
        server.maxBodyBytes ≤ HttpParserLimits.kAbsoluteBodyLimit := by
  constructor
  · rintro ⟨-, -, -, -, -, -, hheader, -, hbody⟩
    exact ⟨hheader, hbody⟩
  · rintro ⟨hheader, hbody⟩
    -- the other limits are the defaults
    have hline : (8192 : Nat) ≠ 0 ∧ 8192 ≤ HttpParserLimits.kAbsoluteRequestLineLimit := by decide
    have hcount : (100 : Nat) ≠ 0 ∧ 100 ≤ HttpParserLimits.kAbsoluteHeaderCountLimit := by decide
    exact ⟨hline.1, h.maxHeaderBytes, hcount.1, hline.1, h.maxBodyBytes.1, hline.2, hheader,
      hcount.2, hbody⟩

/-- The size of the buffer is computed so that the session accepts it. -/
theorem acceptedLimits_session {server : ServerConfig} (h : ValidServer server)
    (hheader : server.maxHeaderBytes ≤ HttpParserLimits.kAbsoluteHeaderLimit)
    (hbody : server.maxBodyBytes ≤ HttpParserLimits.kAbsoluteBodyLimit) :
    HttpSession.AcceptedLimits (sessionLimitsFromConfig server) := by
  have hadd : sizeAdd server.maxBodyBytes server.maxHeaderBytes =
      server.maxBodyBytes + server.maxHeaderBytes := by
    unfold HttpParserLimits.kAbsoluteHeaderLimit at hheader
    unfold HttpParserLimits.kAbsoluteBodyLimit at hbody
    rw [sizeAdd, if_pos (by unfold sizeModulus; omega)]
  have hmax : server.maxBodyBytes + server.maxHeaderBytes ≤
      (sessionLimitsFromConfig server).maxBufferBytes := by
    show _ ≤ max (sizeAdd server.maxBodyBytes server.maxHeaderBytes) _
    rw [hadd]
    exact Nat.le_max_left _ _
  have hchunk : (4096 : Nat) ≠ 0 := by decide
  refine ⟨hchunk, Nat.le_max_right _ _, ?_, ?_, h.headerTimeout, h.bodyTimeout, h.idleTimeout⟩
  · exact Nat.le_trans (Nat.le_add_left _ _) hmax
  · exact Nat.le_sub_of_add_le hmax

theorem create_session_isOk_iff {server : ServerConfig} (h : ValidServer server) :
    (HttpSession.create (sessionLimitsFromConfig server)).isOk ↔
      server.maxHeaderBytes ≤ HttpParserLimits.kAbsoluteHeaderLimit ∧
        server.maxBodyBytes ≤ HttpParserLimits.kAbsoluteBodyLimit := by
  have hchunk : (sessionLimitsFromConfig server).readChunkBytes ≤
      (sessionLimitsFromConfig server).maxBufferBytes := Nat.le_max_right _ _
  have hbuffer : ∃ input, Buffer.create (sessionLimitsFromConfig server).readChunkBytes
      (sessionLimitsFromConfig server).maxBufferBytes = .ok input := by
    have hread : (sessionLimitsFromConfig server).readChunkBytes = 4096 := rfl
    unfold Buffer.create
    rw [dif_neg (by omega), dif_neg (by rw [hread]; decide)]
    exact ⟨_, rfl⟩
  obtain ⟨input, hinput⟩ := hbuffer
  unfold HttpSession.create
  rw [isOk_bind hinput, isOk_ite, isOk_ite, Bool.not_eq_true', Bool.not_eq_true',
    decide_eq_false_iff_not, not_not, decide_eq_false_iff_not, not_not, accepted_parser_iff h]
  constructor
  · exact fun hok => hok.1
  · exact fun hbounds => ⟨hbounds, acceptedLimits_session h hbounds.1 hbounds.2, rfl⟩

theorem create_proxy_isOk_iff {upstream : UpstreamConfig} (h : ValidUpstream upstream) :
    (ReverseProxy.create upstream.endpoints upstream.proxyLimits).isOk ↔
      upstream.proxyLimits.healthThresholds.Accepted ∧
        upstream.proxyLimits.circuitBreaker.Accepted ∧
        upstream.proxyLimits.maxInFlightRequests ≠ 0 ∧
        0 < upstream.proxyLimits.overloadRetryAfter := by
  have hnamed : ¬∃ endpoint ∈ upstream.endpoints, endpoint.host = [] ∨ endpoint.service = [] := by
    rintro ⟨endpoint, hmem, hempty⟩
    have hnames := h.named endpoint hmem
    tauto
  unfold ReverseProxy.create
  rw [dif_neg h.endpoints, dif_neg hnamed, isOk_ite, isOk_ite, isOk_ite]
  simp [Except.isOk, Except.toBool]

theorem create_pool_isOk_iff {limits : PoolLimits} :
    (UpstreamPoolPolicy.create limits).isOk ↔ limits.Accepted := by
  unfold UpstreamPoolPolicy.create
  split <;> simp_all [Except.isOk, Except.toBool]

theorem limiter_isOk_iff {settings : RateLimitSettings}
    (hrate : settings.requestsPerSecond.nonpositive = false)
    (hburst : settings.burst.nonpositive = false) {initialTime : Int} :
    (settings.limiter initialTime).isOk ↔ LimiterBounds settings := by
  unfold RateLimitSettings.limiter
  split
  · next rate burst hrateFinite hburstFinite =>
    rw [hrateFinite] at hrate
    rw [hburstFinite] at hburst
    have hratePositive : 0 < rate := by simpa [Double.nonpositive] using hrate
    have hburstPositive : 0 < burst := by simpa [Double.nonpositive] using hburst
    unfold RateLimiter.create
    rw [isOk_ite, not_not]
    constructor
    · rintro ⟨⟨-, -, hshards, hkeys, hidle⟩, hok⟩
      refine ⟨by rw [hrateFinite]; rfl, by rw [hburstFinite]; rfl, hshards, hkeys, hidle, ?_⟩
      intro hclient
      rw [if_pos hclient, isOk_ite, not_lt] at hok
      exact hok.1
    · intro hbounds
      refine ⟨⟨hratePositive, hburstPositive, hbounds.shardCount, hbounds.maxKeys, hbounds.idleTtl⟩,
        ?_⟩
      by_cases hclient : settings.perClient = true
      · rw [if_pos hclient, isOk_ite, not_lt]
        exact ⟨hbounds.shards hclient, rfl⟩
      · rw [if_neg hclient, TokenBucket.create, if_neg (by simp [hratePositive, hburstPositive])]
        rfl
  · next hnot =>
    refine ⟨fun hok => by simp [Except.isOk, Except.toBool] at hok, fun hbounds => ?_⟩
    have hrateFinite := hbounds.requestsPerSecond
    have hburstFinite := hbounds.burst
    cases hr : settings.requestsPerSecond with
    | finite rate =>
      cases hb : settings.burst with
      | finite burst => exact absurd hb (hnot rate burst hr)
      | _ => simp [hb, Double.isfinite] at hburstFinite
    | _ => simp [hr, Double.isfinite] at hrateFinite

theorem create_cache_isOk_iff {cache : ResponseCacheConfig} (h : ValidCache cache) :
    (ResponseCache.create cache).isOk ↔ CacheBounds cache := by
  have hvalid : ResponseCache.validConfig cache = true := by
    have hpositive := Nat.pos_of_ne_zero h.maxEntryBytes
    have hentry := h.fits
    have hdiv := Nat.div_le_self cache.maxBytes cache.shardCount
    have hshards : cache.shardCount ≤ cache.maxBytes := by
      by_contra hlt
      rw [Nat.div_eq_of_lt (by omega)] at hentry
      omega
    simp [ResponseCache.validConfig, h.ttl, h.maxEntryBytes, h.maxBytes, h.shardCount, hshards,
      hentry]
    omega
  unfold ResponseCache.create
  rw [isOk_ite, isOk_ite, isOk_ite]
  constructor
  · rintro ⟨-, hnames, hshards, -⟩
    exact ⟨by simpa using hnames, by simpa using hshards⟩
  · intro hbounds
    exact ⟨by simp [hvalid], by simpa using hbounds.varyHeaders, by simpa using hbounds.shards, rfl⟩

/-- **What passes can be run.**  For a configuration of which the validator reports no error,
    nothing that is built from it throws exactly if it is within the bounds that only the
    constructors check.  Memory is taken to suffice for every vector within its largest size. -/
theorem runnable_iff (config : Config) (hvalid : config.validate = []) :
    config.Runnable ↔ config.WithinBounds := by
  have h := validate_eq_nil_iff.mp hvalid
  constructor
  · -- each constructor of the service checks one of the bounds
    intro hrun
    obtain ⟨hheader, hbody⟩ := (create_session_isOk_iff h.server).mp hrun.session
    refine ⟨hheader, hbody, ?_, ?_, ?_⟩
    · intro upstream hmem
      obtain ⟨hhealth, hcircuit, hflight, hretry⟩ :=
        (create_proxy_isOk_iff (h.upstreams upstream hmem)).mp (hrun.proxies upstream hmem)
      exact ⟨hhealth, hcircuit, hflight, hretry,
        create_pool_isOk_iff.mp (hrun.pools upstream hmem)⟩
    · intro route hmem settings hsettings
      obtain ⟨hrate, hburst⟩ := (h.routes route hmem).rateLimit settings hsettings
      exact (limiter_isOk_iff hrate hburst).mp (hrun.limiters route hmem settings hsettings 0)
    · intro route hmem cache hcache
      exact (create_cache_isOk_iff ((h.routes route hmem).cache cache hcache)).mp
        (hrun.caches route hmem cache hcache)
  · intro hbounds
    refine ⟨(create_session_isOk_iff h.server).mpr ⟨hbounds.maxHeaderBytes, hbounds.maxBodyBytes⟩,
      ?_, ?_, ?_, ?_, ?_⟩
    · have hheader := hbounds.maxHeaderBytes
      have hbody := hbounds.maxBodyBytes
      unfold HttpParserLimits.kAbsoluteHeaderLimit at hheader
      unfold HttpParserLimits.kAbsoluteBodyLimit at hbody
      unfold sizeModulus
      omega
    · intro upstream hmem
      have hproxy := hbounds.proxies upstream hmem
      exact (create_proxy_isOk_iff (h.upstreams upstream hmem)).mpr ⟨hproxy.healthThresholds,
        hproxy.circuitBreaker, hproxy.maxInFlightRequests, hproxy.overloadRetryAfter⟩
    · intro upstream hmem
      exact create_pool_isOk_iff.mpr (hbounds.proxies upstream hmem).poolLimits
    · intro route hmem settings hsettings initialTime
      obtain ⟨hrate, hburst⟩ := (h.routes route hmem).rateLimit settings hsettings
      exact (limiter_isOk_iff hrate hburst).mpr (hbounds.limiters route hmem settings hsettings)
    · intro route hmem cache hcache
      exact (create_cache_isOk_iff ((h.routes route hmem).cache cache hcache)).mpr
        (hbounds.caches route hmem cache hcache)

/-- The defaults, with one upstream of one endpoint and a route to it. -/
def oneRoute : Config :=
  { upstreams := [{ name := bytes "u", endpoints := [⟨bytes "h", bytes "80"⟩] }],
    routes := [{ pathPrefix := bytes "/", upstream := bytes "u" }] }

theorem runnable_iff_oneRoute : oneRoute.Runnable ↔ oneRoute.WithinBounds :=
  runnable_iff oneRoute (by decide +kernel)

/-- A header limit of 64 KiB and one byte passes, and no session can be made with it. -/
theorem not_runnable : ¬∀ config : Config, config.validate = [] → config.Runnable := by
  intro h
  let config : Config := { server := { maxHeaderBytes := 64 * 1024 + 1 } }
  have hsession := (h config (by decide +kernel)).session
  revert hsession
  decide +kernel

end Config

end PulseGate
