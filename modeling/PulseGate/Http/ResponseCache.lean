import PulseGate.Lib.Loop
import PulseGate.Lib.Machine
import PulseGate.Http.HttpMessage
import Mathlib.Data.List.Destutter
import Mathlib.Data.List.Sort

namespace PulseGate

/-!
# The response cache

`ResponseCache` of `response_cache.cpp`.  The nodes of a shard's list have numbers, which
stand for the iterators to them; `none` is the use of an iterator to a node that is not in
the list.  `std::hash` is a parameter.

A time point is the number of its nanoseconds.  `expiresAt` is computed as the 64-bit type
does, where an overflow wraps around.
-/

/-- The largest `std::size_t`. -/
def sizeMax : Nat := sizeModulus - 1

structure ResponseCacheConfig where
  /-- In milliseconds. -/
  ttl : Int := 30000
  maxEntryBytes : Nat := 256 * 1024
  maxBytes : Nat := 4 * 1024 * 1024
  shardCount : Nat := 16
  varyHeaders : List Bytes := []
  deriving DecidableEq, Repr

/-- The counters; they are exact until 2^64. -/
structure CacheStats where
  hits : Nat := 0
  misses : Nat := 0
  stores : Nat := 0
  evictions : Nat := 0
  expired : Nat := 0
  deriving DecidableEq, Repr

namespace ResponseCache

structure CacheEntry where
  response : HttpResponse
  expiresAt : Int
  charge : Nat := 0
  deriving DecidableEq, Repr

/-- A node of `LruList`. -/
structure LruNode where
  iterator : Nat
  key : Bytes
  entry : CacheEntry
  deriving DecidableEq, Repr

/-- A shard; `allocated` numbers its next node. -/
structure Shard where
  lru : List LruNode := []
  index : List (Bytes × Nat) := []
  currentBytes : Nat := 0
  maxBytes : Nat
  allocated : Nat := 0
  deriving DecidableEq, Repr

end ResponseCache

structure ResponseCache where
  config : ResponseCacheConfig
  shards : List ResponseCache.Shard
  stats : CacheStats := {}
  deriving DecidableEq, Repr

namespace ResponseCache

/-- `lower`. -/
def lower (value : Bytes) : Bytes := value.map tolower

/-! ### What may be stored -/

/-- The items a loop over a comma-separated list looks at, with the bytes of the current item
    that were read.  Nothing follows a comma at the end. -/
def listItemsFrom (item : Bytes) : Bytes → List Bytes
  | [] => [item]
  | c :: value =>
    if c = 44 then item :: (if value.isEmpty then [] else listItemsFrom [] value)
    else listItemsFrom (item ++ [c]) value

def listItems (value : Bytes) : List Bytes :=
  if value.isEmpty then [] else listItemsFrom [] value

/-- The name of a directive, as `containsDirective` reads it from an item. -/
def directiveName (item : Bytes) : Bytes := lower (trim ((trim item).takeWhile (· ≠ 61)))

def containsDirective (value directive : Bytes) : Bool :=
  (listItems value).any fun item => directiveName item = directive

def hasSensitiveResponseHeaders (headers : Headers) : Bool :=
  headers.contains (bytes "set-cookie") ||
    (headers.values (bytes "cache-control")).any fun value =>
      containsDirective value (bytes "no-store") || containsDirective value (bytes "private")

def varyIsCovered (headers : Headers) (config : ResponseCacheConfig) : Bool :=
  (headers.values (bytes "vary")).all fun value => (listItems value).all fun item =>
    let name := normalizeHeaderName (trim item)
    isValidHeaderName name && name ≠ bytes "*" &&
      config.varyHeaders.any fun header => normalizeHeaderName header = name

def cacheableRequest (request : HttpRequest) : Bool :=
  (request.method = .Get || request.method = .Head) &&
    !request.headers.contains (bytes "authorization") && !request.headers.contains (bytes "cookie")

def cacheableResponse (response : HttpResponse) (config : ResponseCacheConfig) : Bool :=
  response.statusCode = 200 && !response.alreadyWritten &&
    response.body.length < config.maxEntryBytes &&
    !hasSensitiveResponseHeaders response.headers && varyIsCovered response.headers config

/-! ### Keys -/

/-- What `appendField` appends. -/
def field (value : Bytes) : Bytes :=
  toChars 10 value.length ++ bytes ":" ++ value ++ bytes "|"

/-- `makeKey`. -/
def makeKey (request : HttpRequest) (config : ResponseCacheConfig) : Bytes :=
  let path := request.target.takeWhile (· ≠ 63)
  let path := if path.isEmpty then bytes "/" else path
  -- what follows the first question mark, nothing when there is none
  let query := (request.target.dropWhile (· ≠ 63)).drop 1
  field (bytes "http") ++ field (lower ((request.headers.get (bytes "host")).getD [])) ++
    field path ++ field query ++
    config.varyHeaders.flatMap fun header =>
      field header ++ (request.headers.values header).flatMap field ++ field []

/-! ### The constructor -/

/-- The test at the start of the constructor. -/
def validConfig (config : ResponseCacheConfig) : Bool :=
  !(config.ttl ≤ 0 ∨ config.maxEntryBytes = 0 ∨ config.maxBytes < config.maxEntryBytes ∨
    config.maxBytes = 0 ∨ config.shardCount = 0 ∨ config.maxBytes < config.shardCount ∨
    config.maxBytes / config.shardCount < config.maxEntryBytes)

/-- `std::sort`, then `std::unique`. -/
def sortUnique (headers : List Bytes) : List Bytes :=
  (headers.insertionSort (· ≤ ·)).destutter (· ≠ ·)

/-- The budget of a shard. -/
def budget (config : ResponseCacheConfig) (index : Nat) : Nat :=
  config.maxBytes / config.shardCount +
    if index < config.maxBytes % config.shardCount then 1 else 0

/-- The constructor. -/
def create (config : ResponseCacheConfig) : Except Exception ResponseCache :=
  if !validConfig config then .error .InvalidArgument
  else
    let headers := config.varyHeaders.map normalizeHeaderName
    if !headers.all isValidHeaderName then .error .InvalidArgument
    else if pointerVectorMaxSize < config.shardCount then .error .LengthError
    else
      .ok { config := { config with varyHeaders := sortUnique headers },
            shards := (List.range config.shardCount).map fun index =>
              { maxBytes := budget config index } }

/-! ### One shard -/

/-- The loop of `charge` over the headers. -/
def chargeHeaders (result : Nat) : List Header → Nat
  | [] => result
  | header :: headers =>
    if sizeMax - result < header.name.length ∨
        sizeMax - result - header.name.length < header.value.length then sizeMax
    else chargeHeaders (result + (header.name.length + header.value.length)) headers

def charge (key : Bytes) (response : HttpResponse) : Nat :=
  if sizeMax - response.reason.length < key.length ∨
      sizeMax - key.length - response.reason.length < response.body.length then sizeMax
  else
    chargeHeaders (key.length + response.reason.length + response.body.length)
      response.headers.entries

namespace Shard

/-- `index.find`. -/
def find (s : Shard) (key : Bytes) : Option Nat :=
  (s.index.find? (·.1 = key)).map (·.2)

/-- What an iterator points to. -/
def node (s : Shard) (iterator : Nat) : Option LruNode :=
  s.lru.find? (·.iterator = iterator)

/-- `ResponseCache::erase`, but for the count of evictions. -/
def erase (s : Shard) (iterator : Nat) : Option Shard :=
  (s.node iterator).map fun node =>
    { s with currentBytes := s.currentBytes - node.entry.charge,
             index := s.index.filter (·.1 ≠ node.key),
             lru := s.lru.filter (·.iterator ≠ iterator) }

/-- The node of the key, if there is one, is erased. -/
def eraseKey (s : Shard) (key : Bytes) : Option Shard :=
  match s.find key with
  | some iterator => s.erase iterator
  | none => some s

/-- `lru.splice` of the node to the front. -/
def splice (s : Shard) (node : LruNode) : Shard :=
  { s with lru := node :: s.lru.filter (·.iterator ≠ node.iterator) }

/-- An iteration of the loop of `put` that evicts, with the number of evictions so far. -/
def evictBody (entryCharge : Nat) : Shard × Nat → Option (Shard × Nat) ⊕ (Shard × Nat)
  | (s, evicted) =>
    match s.lru.getLast? with
    | none => .inl (some (s, evicted))
    | some last =>
      if s.currentBytes ≤ s.maxBytes - entryCharge then .inl (some (s, evicted))
      else
        match s.erase last.iterator with
        | none => .inl none
        | some s' => .inr (s', evicted + 1)

/-- The loop, which ends within one iteration more than there are nodes. -/
def evict (s : Shard) (entryCharge : Nat) : Option (Shard × Nat) :=
  (Loop.run (evictBody entryCharge) (s.lru.length + 1) (s, 0)).join

/-- `lru.emplace_front` and `index.emplace`. -/
def emplace (s : Shard) (key : Bytes) (entry : CacheEntry) : Shard :=
  { s with lru := { iterator := s.allocated, key := key, entry := entry } :: s.lru,
           index := if (s.find key).isSome then s.index else (key, s.allocated) :: s.index,
           currentBytes := s.currentBytes + entry.charge,
           allocated := s.allocated + 1 }

end Shard

/-! ### Lookup and storage -/

section

variable (hash : Bytes → Nat)

/-- The place of `shardFor(key)`. -/
def shardFor (c : ResponseCache) (key : Bytes) : Nat := hash key % c.shards.length

/-- `ResponseCache::get`. -/
def get (c : ResponseCache) (key : Bytes) (now : Int) :
    Option (Option HttpResponse × ResponseCache) :=
  (c.shards[c.shardFor hash key]?).bind fun s =>
    match s.find key with
    | none => some (none, { c with stats.misses := c.stats.misses + 1 })
    | some iterator =>
      (s.node iterator).bind fun node =>
        -- an entry that has expired is erased by the lookup
        if node.entry.expiresAt ≤ now then
          (s.erase iterator).map fun s' =>
            (none, { c with shards := c.shards.set (c.shardFor hash key) s',
                            stats.expired := c.stats.expired + 1,
                            stats.misses := c.stats.misses + 1 })
        else
          some (some node.entry.response,
            { c with shards := c.shards.set (c.shardFor hash key) (s.splice node),
                     stats.hits := c.stats.hits + 1 })

/-- `now + config_.ttl`. -/
def expiry (config : ResponseCacheConfig) (now : Int) : Int :=
  (now + milliseconds config.ttl).bmod (2 ^ 64)

/-- `ResponseCache::put`. -/
def put (c : ResponseCache) (key : Bytes) (response : HttpResponse) (now : Int) :
    Option (Bool × ResponseCache) :=
  let entryCharge := charge key response
  (c.shards[c.shardFor hash key]?).bind fun s =>
    -- an entry that can never fit leaves the shard as it is
    if s.maxBytes < entryCharge then some (false, c)
    else
      ((s.eraseKey key).bind fun s => s.evict entryCharge).map fun (s, evicted) =>
        (true, { c with
          shards := c.shards.set (c.shardFor hash key) (s.emplace key
            { response := response, expiresAt := expiry c.config now, charge := entryCharge }),
          stats.evictions := c.stats.evictions + evicted,
          stats.stores := c.stats.stores + 1 })

inductive Call
  | get (key : Bytes) (now : Int)
  | put (key : Bytes) (response : HttpResponse) (now : Int)
  deriving DecidableEq, Repr

inductive Answer
  | got (response : Option HttpResponse)
  | stored (ok : Bool)
  deriving DecidableEq, Repr

/-- A cache in use, with the answer to the last call. -/
structure Used where
  cache : ResponseCache
  answer : Option Answer := none
  deriving DecidableEq, Repr

def step (u : Used) : Call → Option Used
  | .get key now =>
    (get hash u.cache key now).map fun (response, c) => ⟨c, some (.got response)⟩
  | .put key response now =>
    (put hash u.cache key response now).map fun (ok, c) => ⟨c, some (.stored ok)⟩

end

end ResponseCache
end PulseGate
