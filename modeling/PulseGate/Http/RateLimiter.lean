import PulseGate.Lib.Machine
import PulseGate.Cpp
import Mathlib.Data.Rat.Floor

namespace PulseGate

/-!
# The rate limiter

`TokenBucket` and `RateLimiter` of `rate_limiter.cpp`.  Rates and tokens are rational
numbers, in place of the `double`s of the source; time points are integers in nanoseconds, of a
clock whose readings are at most `timeMax` apart.  `std::hash` is a parameter.

With `per_client` a check holds the mutex of its shard, and is one step.  The global bucket locks
its own mutex twice when it refuses, once in `allow` and once in `retryAfter`; here such a check
is one step too, so that what is said of its delay holds when no other check comes in between.
A map from client keys is an association list in which no key occurs twice.
-/

/-! ### One bucket -/

/-- A duration of the steady clock, in seconds. -/
def seconds (duration : Int) : ℚ := duration / 1000000000

structure TokenBucket where
  ratePerSecond : ℚ
  capacity : ℚ
  availableTokens : ℚ
  lastRefill : Int
  deriving DecidableEq, Repr

namespace TokenBucket

/-- The constructor. -/
def create (ratePerSecond burst : ℚ) (initialTime : Int) : Except Exception TokenBucket :=
  if ratePerSecond ≤ 0 ∨ burst ≤ 0 then .error .InvalidArgument
  else
    .ok { ratePerSecond := ratePerSecond, capacity := burst, availableTokens := burst,
          lastRefill := initialTime }

def refill (b : TokenBucket) (now : Int) : TokenBucket :=
  if now ≤ b.lastRefill then b
  else
    { b with
      availableTokens :=
        min b.capacity (b.availableTokens + seconds (now - b.lastRefill) * b.ratePerSecond),
      lastRefill := now }

/-- `allow` after its test of the number of tokens. -/
def grant (b : TokenBucket) (tokens : ℚ) (now : Int) : Bool × TokenBucket :=
  let b := b.refill now
  if b.availableTokens < tokens then (false, b)
  else (true, { b with availableTokens := b.availableTokens - tokens })

def allow (b : TokenBucket) (tokens : ℚ) (now : Int) : Except Exception (Bool × TokenBucket) :=
  if tokens ≤ 0 then .error .InvalidArgument else .ok (b.grant tokens now)

/-- `retryAfter` after the same test, in milliseconds. -/
def delay (b : TokenBucket) (tokens : ℚ) (now : Int) : Int × TokenBucket :=
  let b := b.refill now
  if tokens ≤ b.availableTokens then (0, b)
  else (⌈(tokens - b.availableTokens) / b.ratePerSecond * 1000⌉, b)

def retryAfter (b : TokenBucket) (tokens : ℚ) (now : Int) :
    Except Exception (Int × TokenBucket) :=
  if tokens ≤ 0 then .error .InvalidArgument else .ok (b.delay tokens now)

end TokenBucket

/-! ### The limiter -/

structure RateLimitConfig where
  requestsPerSecond : ℚ := 0
  burst : ℚ := 0
  perClient : Bool := false
  shardCount : Nat := 16
  maxKeys : Nat := 10000
  /-- In milliseconds. -/
  idleTtl : Int := 600000
  deriving DecidableEq, Repr

structure RateLimitDecision where
  allowed : Bool := true
  /-- In milliseconds. -/
  retryAfter : Int := 0
  keyCapacityExhausted : Bool := false
  deriving DecidableEq, Repr

/-- The counters; they are exact until 2^64. -/
structure RateLimitStats where
  allowed : Nat := 0
  rejected : Nat := 0
  rejectedKeyCapacity : Nat := 0
  deriving DecidableEq, Repr

structure ClientBucket where
  bucket : TokenBucket
  lastSeen : Int
  deriving DecidableEq, Repr

structure RateLimiter where
  config : RateLimitConfig
  globalBucket : Option TokenBucket := none
  shards : List (List (Bytes × ClientBucket)) := []
  keyCount : Nat := 0
  stats : RateLimitStats := {}
  deriving DecidableEq, Repr

namespace RateLimiter

/-- The configurations the constructor accepts. -/
def Accepted (config : RateLimitConfig) : Prop :=
  0 < config.requestsPerSecond ∧ 0 < config.burst ∧ config.shardCount ≠ 0 ∧
    config.maxKeys ≠ 0 ∧ 0 < config.idleTtl

instance decidableAccepted (config : RateLimitConfig) : Decidable (Accepted config) :=
  inferInstanceAs (Decidable (_ ∧ _ ∧ _ ∧ _ ∧ _))

/-- The constructor. -/
def create (config : RateLimitConfig) (initialTime : Int) : Except Exception RateLimiter :=
  if ¬ Accepted config then .error .InvalidArgument
  else if config.perClient then
    -- the shards are reserved first
    if pointerVectorMaxSize < config.shardCount then .error .LengthError
    else .ok { config := config, shards := List.replicate config.shardCount [] }
  else
    (TokenBucket.create config.requestsPerSecond config.burst initialTime).map fun bucket =>
      { config := config, globalBucket := some bucket }

/-- The key a client is known by. -/
def clientName (clientKey : Bytes) : Bytes :=
  if clientKey.isEmpty then bytes "unknown" else clientKey

/-- `idle_ttl` in nanoseconds, of which there are 64 bits; the constructor accepts every positive
    number of milliseconds. -/
def idleTime (config : RateLimitConfig) : Int := (milliseconds config.idleTtl).bmod (2 ^ 64)

/-- It can only be too short. -/
theorem idleTime_le {config : RateLimitConfig} (h : 0 < config.idleTtl) :
    idleTime config ≤ milliseconds config.idleTtl := by
  have hms : milliseconds config.idleTtl = 1000000 * config.idleTtl := rfl
  exact bmod_le_of_ge (by omega)

/-- The test of `pruneExpired`. -/
def expired (config : RateLimitConfig) (now : Int) (client : ClientBucket) : Bool :=
  idleTime config ≤ now - client.lastSeen

/-- `record`. -/
def record (r : RateLimiter) (decision : RateLimitDecision) : RateLimiter :=
  if decision.allowed then { r with stats.allowed := r.stats.allowed + 1 }
  else
    { r with stats.rejected := r.stats.rejected + 1,
             stats.rejectedKeyCapacity := r.stats.rejectedKeyCapacity +
               if decision.keyCapacityExhausted then 1 else 0 }

section

variable (hash : Bytes → Nat)

/-- The place of the shard of a key; there is a shard at least. -/
def shardFor (r : RateLimiter) (key : Bytes) : Nat := hash key % r.shards.length

/-- The clients in the shard of a key. -/
def shard (r : RateLimiter) (key : Bytes) : List (Bytes × ClientBucket) :=
  r.shards.getD (r.shardFor hash key) []

/-- `pruneExpired` on the shard of a key. -/
def pruneExpired (r : RateLimiter) (key : Bytes) (now : Int) : RateLimiter :=
  let kept := (r.shard hash key).filter fun client => !expired r.config now client.2
  { r with shards := r.shards.set (r.shardFor hash key) kept,
           keyCount := r.keyCount - ((r.shard hash key).length - kept.length) }

/-- The end of `checkClient`, with the bucket that was found or made. -/
def useBucket (r : RateLimiter) (key : Bytes) (client : ClientBucket) (now : Int) :
    RateLimitDecision × RateLimiter :=
  let (allowed, bucket) := client.bucket.grant 1 now
  let (retryAfter, bucket) := if allowed then (0, bucket) else bucket.delay 1 now
  let others := (r.shard hash key).filter (·.1 ≠ key)
  ({ allowed := allowed, retryAfter := retryAfter },
   { r with shards := r.shards.set (r.shardFor hash key)
              ((key, { bucket := bucket, lastSeen := now }) :: others) })

/-- The bucket a new client starts with. -/
def newBucket (config : RateLimitConfig) (now : Int) : TokenBucket :=
  { ratePerSecond := config.requestsPerSecond, capacity := config.burst,
    availableTokens := config.burst, lastRefill := now }

/-- `checkClient`. -/
def checkClient (r : RateLimiter) (clientKey : Bytes) (now : Int) :
    RateLimitDecision × RateLimiter :=
  let key := clientName clientKey
  let r := r.pruneExpired hash key now
  match (r.shard hash key).find? (·.1 = key) with
  | some client => r.useBucket hash key client.2 now
  | none =>
    if r.config.maxKeys ≤ r.keyCount then
      ({ allowed := false, retryAfter := 1000, keyCapacityExhausted := true }, r)
    else
      { r with keyCount := r.keyCount + 1 }.useBucket hash key
        { bucket := newBucket r.config now, lastSeen := now } now

/-- `RateLimiter::check`. -/
def check (r : RateLimiter) (clientKey : Bytes) (now : Int) : RateLimitDecision × RateLimiter :=
  if r.config.perClient then
    let (decision, r) := r.checkClient hash clientKey now
    (decision, r.record decision)
  else
    match r.globalBucket with
    -- without `per_client` the constructor makes the bucket
    | none => ({}, r)
    | some bucket =>
      let (allowed, bucket) := bucket.grant 1 now
      let (retryAfter, bucket) := if allowed then (0, bucket) else bucket.delay 1 now
      let decision := { allowed := allowed, retryAfter := retryAfter }
      (decision, { r with globalBucket := some bucket }.record decision)

/-! ### Runs -/

structure Check where
  clientKey : Bytes
  now : Int
  deriving DecidableEq, Repr

/-- A check that was answered. -/
structure Checked where
  client : Bytes
  now : Int
  decision : RateLimitDecision
  deriving DecidableEq, Repr

/-- A limiter in use, with its answers from the last one on, and for each client the bucket
    that was destroyed last. -/
structure Used where
  limiter : RateLimiter
  log : List Checked := []
  destroyed : List (Bytes × ClientBucket) := []
  deriving DecidableEq, Repr

/-- A check at a time that is not before the last one. -/
def step (u : Used) (e : Check) : Option Used :=
  if u.log.head?.all (·.now ≤ e.now) then
    let key := clientName e.clientKey
    let (decision, limiter) := u.limiter.check hash e.clientKey e.now
    some { limiter := limiter,
           log := { client := key, now := e.now, decision := decision } :: u.log,
           destroyed := (u.limiter.shard hash key).filter
             (fun client => expired u.limiter.config e.now client.2) ++ u.destroyed }
  else none

end

end RateLimiter
end PulseGate
