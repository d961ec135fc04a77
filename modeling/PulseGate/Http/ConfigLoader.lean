import PulseGate.Http.Config

namespace PulseGate

/-!
# Loading a configuration

`ConfigLoader::loadFromFile` of `config.cpp`.  A document is the tree that `yaml-cpp` makes of
the file; how a node of it is converted to a number or a text is up to that library.

* `loaded_of_loadFromFile` — what is loaded is valid, and has the defaults in all the fields that
  no file can set.
-/

/-! ### The document -/

/-- A node of a document; an entry whose key is not a scalar is never looked up. -/
inductive YamlNode
  | null
  | scalar (text : Bytes)
  | sequence (items : List YamlNode)
  | map (entries : List (Bytes × YamlNode))

namespace YamlNode

/-- `node[key]`, `none` when it is not defined. -/
def get (node : YamlNode) (key : String) : Option YamlNode :=
  match node with
  | map entries => (entries.find? (·.1 = bytes key)).map (·.2)
  | _ => none

def isMap : YamlNode → Bool
  | map _ => true
  | _ => false

end YamlNode

/-- A `YAML::Exception`; `what` adds the place in the file to the message. -/
structure YamlException where
  msg : Bytes
  what : Bytes
  deriving DecidableEq, Repr

/-- The conversions `as<T>` of a node. -/
structure YamlConversions where
  asString : YamlNode → Except YamlException Bytes
  asUint32 : YamlNode → Except YamlException Nat
  /-- To `std::size_t` and to `std::uint64_t`. -/
  asUint64 : YamlNode → Except YamlException Nat
  asDouble : YamlNode → Except YamlException Double
  asBool : YamlNode → Except YamlException Bool

/-- What `YAML::LoadFile` and the reading of the document come to. -/
inductive FileContent
  | document (root : YamlNode)
  | invalid (e : YamlException)
  /-- Any other exception, from the file or on the way. -/
  | throws (what : Bytes)

/-- The exceptions that leave `loadFromFile`. -/
inductive LoadException
  /-- `ConfigValidationError`. -/
  | validation (errors : List ConfigError)
  | other (what : Bytes)
  deriving DecidableEq, Repr

/-! ### The readers

A reader gives the value it has read, or the one before, and the errors it appends. -/

namespace ConfigLoader

def mustBeAMapping (path : Bytes) : ConfigError := ⟨path, bytes "must be a mapping"⟩

def mustBeASequence (path : Bytes) : ConfigError := ⟨path, bytes "must be a sequence"⟩

def readScalar {T : Type} (as : YamlNode → Except YamlException T) (object : YamlNode)
    (key : String) (path : Bytes) (output : T) : T × List ConfigError :=
  match object.get key with
  | none => (output, [])
  | some node =>
    match as node with
    | .ok value => (value, [])
    | .error e => (output, [⟨path, e.msg⟩])

/-- `std::chrono::milliseconds::max()`. -/
def maxMilliseconds : Nat := 2 ^ 63 - 1

def readMilliseconds (conv : YamlConversions) (object : YamlNode) (key : String) (path : Bytes)
    (output : Int) : Int × List ConfigError :=
  let read := readScalar conv.asUint64 object key path 0
  if read.2 = [] ∧ (object.get key).isSome then (min read.1 maxMilliseconds, [])
  else (output, read.2)

/-- `std::string_view::rfind`. -/
def rfind (c : UInt8) (s : Bytes) : Option Nat :=
  (s.reverse.idxOf? c).map fun i => s.length - 1 - i

/-- Host and service, or the text of the exception. -/
def endpointFromText (value : Bytes) : Except Bytes UpstreamEndpoint :=
  let parts : Except Bytes (Bytes × Bytes) :=
    if value.head? = some 91 then
      match value.idxOf? 93 with
      | none => .error (bytes "IPv6 endpoint must look like [::1]:8080")
      | some closing =>
        if value[closing + 1]? = some 58 then
          .ok ((value.drop 1).take (closing - 1), value.drop (closing + 2))
        else .error (bytes "IPv6 endpoint must look like [::1]:8080")
    else
      match rfind 58 value with
      | none => .error (bytes "endpoint must look like HOST:PORT")
      | some separator => .ok (value.take separator, value.drop (separator + 1))
  parts.bind fun p =>
    if p.1 = [] ∨ p.2 = [] then .error (bytes "endpoint is incomplete") else .ok ⟨p.1, p.2⟩

def readServer (conv : YamlConversions) (server : YamlNode) (config : ServerConfig) :
    ServerConfig × List ConfigError :=
  let listenHost := readScalar conv.asString server "listen_host" (bytes "server.listen_host")
    config.listenHost
  let listenPort := readScalar conv.asUint32 server "listen_port" (bytes "server.listen_port")
    config.listenPort
  let ioThreads := readScalar conv.asUint64 server "io_threads" (bytes "server.io_threads")
    config.ioThreads
  let idleTimeout := readMilliseconds conv server "idle_timeout_ms"
    (bytes "server.idle_timeout_ms") config.idleTimeout
  let headerTimeout := readMilliseconds conv server "header_timeout_ms"
    (bytes "server.header_timeout_ms") config.headerTimeout
  let bodyTimeout := readMilliseconds conv server "body_timeout_ms"
    (bytes "server.body_timeout_ms") config.bodyTimeout
  let gracefulShutdown := readMilliseconds conv server "graceful_shutdown_ms"
    (bytes "server.graceful_shutdown_ms") config.gracefulShutdown
  let maxConnections := readScalar conv.asUint64 server "max_connections"
    (bytes "server.max_connections") config.maxConnections
  let maxHeaderBytes := readScalar conv.asUint64 server "max_header_bytes"
    (bytes "server.max_header_bytes") config.maxHeaderBytes
  let maxBodyBytes := readScalar conv.asUint64 server "max_body_bytes"
    (bytes "server.max_body_bytes") config.maxBodyBytes
  let outputHighWaterBytes := readScalar conv.asUint64 server "output_high_water_bytes"
    (bytes "server.output_high_water_bytes") config.outputHighWaterBytes
  let outputLowWaterBytes := readScalar conv.asUint64 server "output_low_water_bytes"
    (bytes "server.output_low_water_bytes") config.outputLowWaterBytes
  ({ listenHost := listenHost.1, listenPort := listenPort.1, ioThreads := ioThreads.1,
     idleTimeout := idleTimeout.1, headerTimeout := headerTimeout.1, bodyTimeout := bodyTimeout.1,
     gracefulShutdown := gracefulShutdown.1, maxConnections := maxConnections.1,
     maxHeaderBytes := maxHeaderBytes.1, maxBodyBytes := maxBodyBytes.1,
     outputHighWaterBytes := outputHighWaterBytes.1,
     outputLowWaterBytes := outputLowWaterBytes.1 },
    listenHost.2 ++ listenPort.2 ++ ioThreads.2 ++ idleTimeout.2 ++ headerTimeout.2 ++
      bodyTimeout.2 ++ gracefulShutdown.2 ++ maxConnections.2 ++ maxHeaderBytes.2 ++
      maxBodyBytes.2 ++ outputHighWaterBytes.2 ++ outputLowWaterBytes.2)

/-- The loop over the endpoints of an upstream; an endpoint that cannot be read is left out. -/
def readEndpoints (conv : YamlConversions) (path : Bytes) :
    Nat → List YamlNode → List UpstreamEndpoint × List ConfigError
  | _, [] => ([], [])
  | index, node :: nodes =>
    let rest := readEndpoints conv path (index + 1) nodes
    let path' := path ++ bytes ".endpoints[" ++ toChars 10 index ++ bytes "]"
    match conv.asString node with
    | .error e => (rest.1, ⟨path', e.what⟩ :: rest.2)
    | .ok text =>
      match endpointFromText text with
      | .error what => (rest.1, ⟨path', what⟩ :: rest.2)
      | .ok endpoint => (endpoint :: rest.1, rest.2)

def readUpstream (conv : YamlConversions) (path : Bytes) (upstream : YamlNode) :
    UpstreamConfig × List ConfigError :=
  let limits : ProxyLimits := {}
  let name := readScalar conv.asString upstream "name" (path ++ bytes ".name") []
  let connectTimeout := readMilliseconds conv upstream "connect_timeout_ms"
    (path ++ bytes ".connect_timeout_ms") limits.connectTimeout
  let responseTimeout := readMilliseconds conv upstream "response_timeout_ms"
    (path ++ bytes ".response_timeout_ms") limits.responseTimeout
  let maxConnections := readScalar conv.asUint64 upstream "max_connections_per_endpoint"
    (path ++ bytes ".max_connections_per_endpoint") limits.poolLimits.maxConnections
  let poolShards := readScalar conv.asUint64 upstream "pool_shards"
    (path ++ bytes ".pool_shards") 1
  -- a list that is missing is an error too
  let endpoints :=
    match upstream.get "endpoints" with
    | some (.sequence nodes) => readEndpoints conv path 0 nodes
    | _ => ([], [mustBeASequence (path ++ bytes ".endpoints")])
  ({ name := name.1
     endpoints := endpoints.1
     proxyLimits := { limits with
       connectTimeout := connectTimeout.1
       responseTimeout := responseTimeout.1
       poolLimits := { limits.poolLimits with
         maxConnections := maxConnections.1
         -- the idle connections are at most those that are allowed
         maxIdleConnections := min limits.poolLimits.maxIdleConnections maxConnections.1 } }
     poolShards := poolShards.1 },
    name.2 ++ connectTimeout.2 ++ responseTimeout.2 ++ maxConnections.2 ++ poolShards.2 ++
      endpoints.2)

def readRateLimit (conv : YamlConversions) (path : Bytes) (limit : YamlNode) :
    RateLimitSettings × List ConfigError :=
  let rate : RateLimitSettings := {}
  let requestsPerSecond := readScalar conv.asDouble limit "requests_per_second"
    (path ++ bytes ".rate_limit.requests_per_second") rate.requestsPerSecond
  let burst := readScalar conv.asDouble limit "burst" (path ++ bytes ".rate_limit.burst") rate.burst
  ({ rate with requestsPerSecond := requestsPerSecond.1, burst := burst.1 },
    requestsPerSecond.2 ++ burst.2)

def readCache (conv : YamlConversions) (path : Bytes) (cache : YamlNode) :
    Option ResponseCacheConfig × List ConfigError :=
  let enabled := readScalar conv.asBool cache "enabled" (path ++ bytes ".cache.enabled") false
  if enabled.1 then
    let value : ResponseCacheConfig := {}
    let ttl := readMilliseconds conv cache "ttl_ms" (path ++ bytes ".cache.ttl_ms") value.ttl
    let maxEntryBytes := readScalar conv.asUint64 cache "max_object_bytes"
      (path ++ bytes ".cache.max_object_bytes") value.maxEntryBytes
    let maxBytes := readScalar conv.asUint64 cache "max_bytes" (path ++ bytes ".cache.max_bytes")
      value.maxBytes
    let shardCount := readScalar conv.asUint64 cache "shards" (path ++ bytes ".cache.shards")
      value.shardCount
    (some { value with ttl := ttl.1, maxEntryBytes := maxEntryBytes.1, maxBytes := maxBytes.1,
                       shardCount := shardCount.1 },
      enabled.2 ++ ttl.2 ++ maxEntryBytes.2 ++ maxBytes.2 ++ shardCount.2)
  else (none, enabled.2)

def readRoute (conv : YamlConversions) (path : Bytes) (route : YamlNode) :
    RouteConfig × List ConfigError :=
  let pathPrefix := readScalar conv.asString route "path_prefix" (path ++ bytes ".path_prefix") []
  let upstream := readScalar conv.asString route "upstream" (path ++ bytes ".upstream") []
  let rateLimit : Option RateLimitSettings × List ConfigError :=
    -- a route need not have a limit
    match route.get "rate_limit" with
    | none => (none, [])
    | some limit =>
      if limit.isMap then
        (some (readRateLimit conv path limit).1, (readRateLimit conv path limit).2)
      else (none, [mustBeAMapping (path ++ bytes ".rate_limit")])
  let cache : Option ResponseCacheConfig × List ConfigError :=
    -- nor a cache
    match route.get "cache" with
    | none => (none, [])
    | some cache =>
      if cache.isMap then readCache conv path cache
      else (none, [mustBeAMapping (path ++ bytes ".cache")])
  ({ pathPrefix := pathPrefix.1, upstream := upstream.1, rateLimit := rateLimit.1,
     cache := cache.1 },
    pathPrefix.2 ++ upstream.2 ++ rateLimit.2 ++ cache.2)

/-- The loop over a list of mappings; an item that is not a mapping is left out. -/
def readItems {T : Type} (read : Bytes → YamlNode → T × List ConfigError) (list : String) :
    Nat → List YamlNode → List T × List ConfigError
  | _, [] => ([], [])
  | index, node :: nodes =>
    let rest := readItems read list (index + 1) nodes
    let path := Config.indexed list index
    if node.isMap then ((read path node).1 :: rest.1, (read path node).2 ++ rest.2)
    else (rest.1, mustBeAMapping path :: rest.2)

/-- The part of the root under `list`. -/
def readList {T : Type} (read : Bytes → YamlNode → T × List ConfigError) (root : YamlNode)
    (list : String) : List T × List ConfigError :=
  match root.get list with
  | none => ([], [])
  | some (.sequence nodes) => readItems read list 0 nodes
  | some _ => ([], [mustBeASequence (bytes list)])

/-- The part of the root under `key`, which must be a mapping. -/
def readSection {T : Type} (read : YamlNode → T → T × List ConfigError) (root : YamlNode)
    (key : String) (output : T) : T × List ConfigError :=
  match root.get key with
  | none => (output, [])
  | some node => if node.isMap then read node output else (output, [mustBeAMapping (bytes key)])

def readLogging (conv : YamlConversions) (logging : YamlNode) (config : LoggingConfig) :
    LoggingConfig × List ConfigError :=
  let level := readScalar conv.asString logging "level" (bytes "logging.level") config.level
  let format := readScalar conv.asString logging "format" (bytes "logging.format") config.format
  (⟨level.1, format.1⟩, level.2 ++ format.2)

/-- The configuration of a document and the errors on the way. -/
def readDocument (conv : YamlConversions) (root : YamlNode) : Config × List ConfigError :=
  let server := readSection (readServer conv) root "server" {}
  let upstreams := readList (readUpstream conv) root "upstreams"
  let routes := readList (readRoute conv) root "routes"
  let logging := readSection (readLogging conv) root "logging" {}
  ({ server := server.1, routes := routes.1, upstreams := upstreams.1, logging := logging.1 },
    server.2 ++ upstreams.2 ++ routes.2 ++ logging.2)

/-- `ConfigLoader::loadFromFile`. -/
def loadFromFile (conv : YamlConversions) : FileContent → Except LoadException Config
  | .invalid e => .error (.validation [⟨bytes "config", e.msg⟩])
  | .throws what => .error (.other what)
  | .document root =>
    if root.isMap then
      let read := readDocument conv root
      let errors := read.2 ++ read.1.validate
      if errors = [] then .ok read.1 else .error (.validation errors)
    else .error (.validation [mustBeAMapping (bytes "config")])

/-! ### What is loaded -/

/-- The limits of a proxy that no file sets are the defaults, and fewer connections are kept idle
    if fewer are allowed. -/
def Derived (upstream : UpstreamConfig) : Prop :=
  let limits : ProxyLimits := {}
  let maxConnections := upstream.proxyLimits.poolLimits.maxConnections
  upstream.proxyLimits =
    { limits with
      connectTimeout := upstream.proxyLimits.connectTimeout
      responseTimeout := upstream.proxyLimits.responseTimeout
      poolLimits := { limits.poolLimits with
        maxConnections := maxConnections
        maxIdleConnections := min limits.poolLimits.maxIdleConnections maxConnections } }

structure Loaded (config : Config) : Prop where
  valid : config.Valid
  upstreams : ∀ upstream ∈ config.upstreams, Derived upstream

theorem mem_readItems {T : Type} {read : Bytes → YamlNode → T × List ConfigError} {list : String}
    {nodes : List YamlNode} {index : Nat} {item : T}
    (h : item ∈ (readItems read list index nodes).1) : ∃ path node, item = (read path node).1 := by
  induction nodes generalizing index with
  | nil => exact absurd h List.not_mem_nil
  | cons node nodes ih =>
    rw [readItems] at h
    split at h
    · rcases List.mem_cons.mp h with rfl | h
      · exact ⟨_, _, rfl⟩
      · exact ih h
    · exact ih h

theorem mem_readList {T : Type} {read : Bytes → YamlNode → T × List ConfigError}
    {root : YamlNode} {list : String} {item : T} (h : item ∈ (readList read root list).1) :
    ∃ path node, item = (read path node).1 := by
  unfold readList at h
  split at h
  · exact absurd h List.not_mem_nil
  · exact mem_readItems h
  · exact absurd h List.not_mem_nil

/-- **What is loaded** is valid, with the defaults where no file can set anything. -/
theorem loaded_of_loadFromFile {conv : YamlConversions} {content : FileContent} {config : Config}
    (h : loadFromFile conv content = .ok config) : Loaded config := by
  unfold loadFromFile at h
  split at h
  · cases h
  · cases h
  · next root =>
    split at h
    · dsimp only at h
      split at h
      · next hnone =>
        obtain rfl := Except.ok.inj h
        refine ⟨Config.validate_eq_nil_iff.mp (List.append_eq_nil_iff.mp hnone).2, ?_⟩
        intro upstream hmem
        obtain ⟨path, node, rfl⟩ : ∃ path node, upstream = (readUpstream conv path node).1 :=
          mem_readList hmem
        rfl
      · cases h
    · cases h

end ConfigLoader

end PulseGate
