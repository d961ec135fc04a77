import PulseGate.Http.Router
import PulseGate.Http.TokenBucketLaw

namespace PulseGate

/-!
# The delays that are advertised

A check that is rejected for want of tokens says when there will be one.  The time it names is
counted from the check, but the bucket gains from its last refill on, which another thread may
have moved ahead of the check; and a bucket that holds less than one token never has one.

* `retry_honoured_iff` — when a check that comes after the delay is let through.
-/

namespace RateLimiter

variable {hash : Bytes → Nat} {config : RateLimitConfig} {r r' : RateLimiter} {e : Check}
  {b : TokenBucket} {key : Bytes} {now : Int}

/-! ### The property and its condition -/

/-- The limiter after some checks, at any time points. -/
def afterChecks (hash : Bytes → Nat) (r : RateLimiter) (checks : List Check) : RateLimiter :=
  checks.foldl (fun r e => (r.check hash e.clientKey e.now).2) r

/-- What is stored for a client: the one bucket there is, or its own. -/
def storedFor (r : RateLimiter) (key : Bytes) : Option TokenBucket × Option ClientBucket :=
  (r.globalBucket, (r.clients.find? (·.1 = key)).map (·.2))

/-- The bucket that a check asks. -/
def bucketFor (hash : Bytes → Nat) (r : RateLimiter) (e : Check) : TokenBucket :=
  match r.globalBucket with
  | some bucket => bucket
  | none =>
    match (remaining hash r e.client e.now).find? (·.1 = e.client) with
    | some client => client.2.bucket
    | none => newBucket r.config e.now

/-- How long the bucket of a check takes to have a token, in seconds after its last refill. -/
def wait (hash : Bytes → Nat) (r : RateLimiter) (e : Check) : ℚ :=
  let b := (r.bucketFor hash e).refill e.now
  (1 - b.availableTokens) / b.ratePerSecond

/-- The bucket can hold a token, and has one when whole milliseconds have passed since the
    check; or it is renewed by then. -/
def DelaySuffices (hash : Bytes → Nat) (r : RateLimiter) (e : Check) : Prop :=
  1 ≤ r.config.burst ∧
    (seconds (((r.bucketFor hash e).refill e.now).lastRefill - e.now) + r.wait hash e ≤
        (⌈r.wait hash e * 1000⌉ : ℚ) / 1000 ∨
      r.config.perClient = true ∧ idleTime r.config ≤ milliseconds ⌈r.wait hash e * 1000⌉)

/-- A check after the delay is let through, if what is stored for the client is as the check
    that was rejected has left it. -/
def DelayHonoured (hash : Bytes → Nat) (r : RateLimiter) (e : Check) : Prop :=
  ∀ (others : List Check) (t : Int),
    ((r.check hash e.clientKey e.now).2.afterChecks hash others).storedFor e.client =
      (r.check hash e.clientKey e.now).2.storedFor e.client →
    e.now + milliseconds (r.check hash e.clientKey e.now).1.retryAfter ≤ t →
    (((r.check hash e.clientKey e.now).2.afterChecks hash others).check hash e.clientKey
      t).1.allowed = true

/-- The router advertises at least the delay, in seconds. -/
def DelayAdvertised (decision : RateLimitDecision) : Prop :=
  ∃ delay : Int, (Router.makeRateLimited decision).headers.values (bytes "Retry-After") =
    [intToString delay] ∧ decision.retryAfter ≤ delay * 1000

/-! ### One bucket -/

/-- The answer of a bucket. -/
def bucketDecision (b : TokenBucket) (now : Int) : RateLimitDecision :=
  { allowed := (b.grant 1 now).1,
    retryAfter := if (b.grant 1 now).1 then 0 else ((b.grant 1 now).2.delay 1 now).1 }

theorem bucketDecision_allowed : (bucketDecision b now).allowed = true ↔
    1 ≤ (b.refill now).availableTokens := by
  show (b.grant 1 now).1 = true ↔ _
  rw [TokenBucket.grant_eq, ← not_lt]
  split <;> simp_all

theorem grant_rejected (h : (b.refill now).availableTokens < 1) :
    b.grant 1 now = (false, b.refill now) := by
  rw [TokenBucket.grant_eq, if_pos h]

theorem bucketDecision_retryAfter (h : (b.refill now).availableTokens < 1) :
    (bucketDecision b now).retryAfter =
      ⌈(1 - (b.refill now).availableTokens) / (b.refill now).ratePerSecond * 1000⌉ := by
  have hrefill : (b.refill now).refill now = b.refill now :=
    TokenBucket.refill_of_le (TokenBucket.le_lastRefill_refill b now)
  unfold bucketDecision
  rw [grant_rejected h]
  simp only [Bool.false_eq_true, if_false, TokenBucket.delay, hrefill]
  rw [if_neg (not_le.mpr h)]

/-- When a bucket that is short of a token has one. -/
theorem one_le_refill_iff (h : b.Within) (hshort : b.availableTokens < 1) (t : Int) :
    1 ≤ (b.refill t).availableTokens ↔ 1 ≤ b.capacity ∧
      (1 - b.availableTokens) / b.ratePerSecond ≤ seconds (t - b.lastRefill) := by
  rw [div_le_iff₀ h.rate]
  by_cases hlater : b.lastRefill ≤ t
  · rw [refill_availableTokens h.le hlater, le_min_iff]
    exact and_congr_right fun _ => sub_le_iff_le_add'.symm
  · have hearlier := (not_le.mp hlater).le
    rw [TokenBucket.refill_of_le hearlier]
    refine iff_of_false (not_le.mpr hshort) fun hwait => ?_
    have hlost := TokenBucket.gain_nonneg h hearlier
    rw [seconds_sub] at hwait
    linarith [hwait.2]

/-- Whole milliseconds after the time `now`, a bucket that may be renewed meanwhile. -/
theorem allowed_from_iff (h : b.Within) (hshort : b.availableTokens < 1) (now : Int)
    (renewed : Bool) (ttl delay : Int) :
    (∀ t, now + milliseconds delay ≤ t →
      if renewed = true ∧ ttl ≤ t - now then 1 ≤ b.capacity
      else 1 ≤ (b.refill t).availableTokens) ↔
    1 ≤ b.capacity ∧
      (seconds (b.lastRefill - now) + (1 - b.availableTokens) / b.ratePerSecond ≤
          (delay : ℚ) / 1000 ∨
        renewed = true ∧ ttl ≤ milliseconds delay) := by
  have hmilliseconds (d : Int) : seconds (milliseconds d) = (d : ℚ) / 1000 := by
    unfold seconds milliseconds
    push_cast
    ring
  have hshift (t : Int) : seconds (t - b.lastRefill) =
      seconds (t - now) - seconds (b.lastRefill - now) := by
    rw [seconds_sub, seconds_sub, seconds_sub]
    ring
  constructor
  · intro hall
    have hfirst := hall (now + milliseconds delay) le_rfl
    rw [add_sub_cancel_left] at hfirst
    split at hfirst
    · next hrenewed =>
      exact ⟨hfirst, .inr hrenewed⟩
    · rw [one_le_refill_iff h hshort, hshift, add_sub_cancel_left, hmilliseconds] at hfirst
      exact ⟨hfirst.1, .inl (by linarith [hfirst.2])⟩
  · rintro ⟨hcapacity, hlong⟩ t ht
    split
    · exact hcapacity
    · next hkept =>
      rw [one_le_refill_iff h hshort, hshift]
      refine ⟨hcapacity, ?_⟩
      have hlater : seconds (milliseconds delay) ≤ seconds (t - now) :=
        seconds_le_iff.mpr (by omega)
      rcases hlong with hlong | ⟨hrenewed, httl⟩
      · rw [hmilliseconds] at hlater
        linarith
      -- a bucket that is renewed by then is not asked
      · exact absurd ⟨hrenewed, by omega⟩ hkept

/-! ### The buckets of a limiter -/

/-- A bucket of the configuration. -/
structure Configured (config : RateLimitConfig) (b : TokenBucket) : Prop where
  within : b.Within
  rate : b.ratePerSecond = config.requestsPerSecond
  capacity : b.capacity = config.burst

theorem configured_newBucket (haccepted : Accepted config) (now : Int) :
    Configured config (newBucket config now) :=
  ⟨⟨haccepted.1, haccepted.2.1.le, le_refl _⟩, rfl, rfl⟩

theorem Configured.refill (h : Configured config b) (now : Int) :
    Configured config (b.refill now) :=
  ⟨h.within.refill now, (TokenBucket.refill_ratePerSecond b now).trans h.rate,
    (TokenBucket.refill_capacity b now).trans h.capacity⟩

theorem Configured.grant (h : Configured config b) (now : Int) :
    Configured config (b.grant 1 now).2 := by
  refine ⟨?_, (TokenBucket.grant_ratePerSecond b 1 now).trans h.rate,
    (TokenBucket.grant_capacity b 1 now).trans h.capacity⟩
  have hafter := (TokenBucket.potential_step h.within (.allow 1 now)).1
  have hpositive : ¬(1 : ℚ) ≤ 0 := by norm_num
  simp only [TokenBucket.after, TokenBucket.allow, if_neg hpositive] at hafter
  exact hafter

/-- The limiters with one bucket, and those with a bucket for each client. -/
structure GlobalInv (config : RateLimitConfig) (r : RateLimiter) : Prop where
  configured : r.config = config
  bucket : ∃ b, r.globalBucket = some b ∧ Configured config b

structure ClientsInv (hash : Bytes → Nat) (config : RateLimitConfig) (r : RateLimiter) : Prop where
  configured : r.config = config
  global : r.globalBucket = none
  shards : r.shards.length = config.shardCount
  placed : Sharded.Placed (fun client => hash client.1 % config.shardCount) r.shards
  keys : (r.clients.map Prod.fst).Nodup
  count : r.keyCount = r.clients.length
  capacity : r.keyCount ≤ config.maxKeys
  buckets : ∀ client ∈ r.clients, Configured config client.2.bucket

theorem record_globalBucket (r : RateLimiter) (decision : RateLimitDecision) :
    (r.record decision).globalBucket = r.globalBucket := by
  unfold record
  split <;> rfl

theorem record_clients (r : RateLimiter) (decision : RateLimitDecision) :
    (r.record decision).clients = r.clients := by
  rw [clients, record_shards, clients]

/-- A limiter with one bucket answers what the bucket does. -/
theorem check_global (hash : Bytes → Nat) (h : GlobalInv config r)
    (hglobal : config.perClient = false) {b : TokenBucket}
    (hb : r.globalBucket = some b) (e : Check) :
    (r.check hash e.clientKey e.now).1 = bucketDecision b e.now ∧
      (r.check hash e.clientKey e.now).2.globalBucket = some (b.grant 1 e.now).2 ∧
      (r.check hash e.clientKey e.now).2.config = config := by
  unfold check
  rw [h.configured, hglobal]
  simp only [Bool.false_eq_true, if_false, hb, record_globalBucket, record_config]
  cases hgrant : b.grant 1 e.now with
  | mk allowed bucket =>
    have hdelay := TokenBucket.delay_grant b 1 1 e.now
    rw [hgrant] at hdelay
    unfold bucketDecision
    rw [hgrant]
    cases allowed with
    | true => exact ⟨rfl, rfl, trivial⟩
    | false =>
      refine ⟨rfl, ?_, trivial⟩
      simp only [Bool.false_eq_true, if_false]
      exact congrArg some hdelay

theorem GlobalInv.check (h : GlobalInv config r) (hglobal : config.perClient = false) (e : Check) :
    GlobalInv config (r.check hash e.clientKey e.now).2 := by
  obtain ⟨b, hb, hconfigured⟩ := h.bucket
  obtain ⟨-, hafter, hconfig⟩ := check_global hash h hglobal hb e
  exact ⟨hconfig, _, hafter, hconfigured.grant e.now⟩

/-! ### The clients -/

/-- The buckets of all clients, of whom a check finds its own. -/
theorem ClientsInv.shard (h : ClientsInv hash config r) (hshards : config.shardCount ≠ 0)
    (key : Bytes) : Sharded.Placed (fun client => r.shardFor hash client.1) r.shards ∧
      ∃ s, r.shards[r.shardFor hash key]? = some s := by
  have hlt : r.shardFor hash key < r.shards.length :=
    Nat.mod_lt _ (by rw [h.shards]; exact Nat.pos_of_ne_zero hshards)
  have hplaced := h.placed
  rw [← h.shards] at hplaced
  exact ⟨hplaced, _, List.getElem?_eq_getElem hlt⟩

theorem keys_remaining (hash : Bytes → Nat) (hkeys : (r.clients.map Prod.fst).Nodup) (key : Bytes)
    (now : Int) :
    ((remaining hash r key now).map Prod.fst).Nodup :=
  hkeys.sublist (List.filter_sublist.map _)

/-- The answer that a check gives for its client. -/
def clientDecision (hash : Bytes → Nat) (r : RateLimiter) (key : Bytes) (now : Int) :
    RateLimitDecision :=
  match (remaining hash r key now).find? (·.1 = key) with
  | some client => bucketDecision client.2.bucket now
  | none =>
    if r.config.maxKeys ≤ (remaining hash r key now).length then
      { allowed := false, retryAfter := 1000, keyCapacityExhausted := true }
    else bucketDecision (newBucket r.config now) now

theorem useBucket_decision (hash : Bytes → Nat) (r : RateLimiter) (key : Bytes)
    (client : ClientBucket) (now : Int) :
    (r.useBucket hash key client now).1 = bucketDecision client.bucket now := by
  unfold useBucket bucketDecision
  cases client.bucket.grant 1 now with
  | mk allowed bucket => cases allowed <;> rfl

theorem checkClient_decision (h : ClientsInv hash config r) (hshards : config.shardCount ≠ 0)
    (e : Check) :
    (r.checkClient hash e.clientKey e.now).1 = clientDecision hash r e.client e.now := by
  obtain ⟨hplaced, s, hs⟩ := h.shard hshards e.client
  have hperm := remaining_perm hplaced hs e.now
  have hkeys := keys_remaining hash h.keys e.client e.now
  have hlt : r.shardFor hash e.client < r.shards.length := (List.getElem?_eq_some_iff.mp hs).1
  let kept := s.filter fun client => !expired r.config e.now client.2
  let swept : RateLimiter := { r with
    shards := r.shards.set (r.shardFor hash e.client) kept,
    keyCount := r.keyCount - (s.length - kept.length) }
  have hpruned : r.pruneExpired hash e.client e.now = swept := by rw [pruneExpired, shard_eq hs]
  have hshard : swept.shard hash e.client = kept := by
    apply shard_eq
    rw [show swept.shardFor hash e.client = r.shardFor hash e.client by
      rw [shardFor, shardFor, List.length_set]]
    exact List.getElem?_set_self hlt
  -- the shard of the client holds what remains of it
  have hfind : kept.find? (·.1 = e.client) =
      (remaining hash r e.client e.now).find? (·.1 = e.client) := by
    have hkept : (kept.map Prod.fst).Nodup := by
      have hboth := (hperm.map Prod.fst).nodup_iff.mp hkeys
      rw [List.map_append] at hboth
      exact (List.nodup_append.mp hboth).1
    apply Option.ext
    intro client
    rw [Keyed.find?_eq_some_iff hkept, Keyed.find?_eq_some_iff hkeys, hperm.mem_iff,
      List.mem_append]
    constructor
    · exact fun hmem => ⟨.inl hmem.1, hmem.2⟩
    · rintro ⟨hmem | hmem, hkey⟩
      · exact ⟨hmem, hkey⟩
      · exact absurd hkey (ne_of_mem_elsewhere hmem)
  have hcount : swept.keyCount = (remaining hash r e.client e.now).length := by
    have hall := (hplaced.perm hs).length_eq
    have hle : kept.length ≤ s.length := List.length_filter_le _ s
    rw [hperm.length_eq, List.length_append]
    show r.keyCount - (s.length - kept.length) = kept.length + _
    rw [h.count, clients, hall, List.length_append]
    show s.length + (elsewhere hash r e.client).length - _ = _
    omega
  unfold checkClient clientDecision
  dsimp only
  rw [hpruned, hshard, hfind, hcount]
  cases (remaining hash r e.client e.now).find? (·.1 = e.client) with
  | some client => exact useBucket_decision hash _ _ _ _
  | none =>
    dsimp only
    split
    · rfl
    · exact useBucket_decision hash _ _ _ _

theorem checkClient_config (r : RateLimiter) (hash : Bytes → Nat) (clientKey : Bytes) (now : Int) :
    (r.checkClient hash clientKey now).2.globalBucket = r.globalBucket := by
  unfold checkClient
  dsimp only
  split
  · rfl
  · split <;> rfl

/-- A check answers for its client, and keeps the buckets. -/
theorem ClientsInv.check (h : ClientsInv hash config r) (haccepted : Accepted config)
    (hclient : config.perClient = true) (e : Check) :
    ClientsInv hash config (r.check hash e.clientKey e.now).2 ∧
      (r.check hash e.clientKey e.now).1 = clientDecision hash r e.client e.now ∧
      Answered config (remaining hash r e.client e.now) e.client e.now
        (r.check hash e.clientKey e.now).1 (r.check hash e.clientKey e.now).2.clients := by
  have hshards : config.shardCount ≠ 0 := haccepted.2.2.1
  obtain ⟨hplaced, s, hs⟩ := h.shard hshards e.client
  obtain ⟨decision, r', hcheck, hanswered, hconfig, hlength, hplaced', hcount⟩ :=
    checkClient_spec (rfl : clientName e.clientKey = e.client) hplaced hs h.keys h.count e.now
  have hdecision := checkClient_decision h hshards e
  have hglobal := checkClient_config r hash e.clientKey e.now
  rw [hcheck] at hdecision hglobal
  rw [h.configured] at hanswered hconfig
  have hcheck' : r.check hash e.clientKey e.now = (decision, r'.record decision) := by
    simp only [RateLimiter.check, h.configured, hclient, if_true, hcheck]
  have hkeys := keys_remaining hash h.keys e.client e.now
  have hle : (remaining hash r e.client e.now).length ≤ config.maxKeys :=
    (List.length_filter_le _ _).trans (h.count ▸ h.capacity)
  have hold : ∀ client ∈ remaining hash r e.client e.now, Configured config client.2.bucket :=
    fun client hmem => h.buckets client (List.mem_of_mem_filter hmem)
  rw [hcheck']
  -- the fields in their order; the buckets come last
  refine ⟨⟨?_, ?_, ?_, ?_, ?_, ?_, ?_, ?_⟩, hdecision, ?_⟩
  · rw [record_config, hconfig]
  · rw [record_globalBucket, hglobal, h.global]
  · rw [record_shards, hlength, h.shards]
  · rw [record_shards, ← h.shards]
    exact hplaced'
  · rw [record_clients]
    exact hanswered.keys hkeys
  · rw [record_clients, record_keyCount, hcount]
  · rw [record_keyCount, hcount]
    exact hanswered.length_le hkeys hle
  · rw [record_clients]
    intro client hmem
    cases hanswered with
    | known hfound hclients =>
      rcases List.mem_cons.mp (hclients.mem_iff.mp hmem) with rfl | hother
      · exact (hold _ hfound).grant e.now
      · exact hold client (List.mem_of_mem_filter hother)
    | made hnone hroom hclients =>
      rcases List.mem_cons.mp (hclients.mem_iff.mp hmem) with rfl | hother
      · exact (configured_newBucket haccepted e.now).grant e.now
      · exact hold client hother
    | full hnone hfull hclients => exact hold client (hclients.mem_iff.mp hmem)
  · show Answered _ _ _ _ _ (r'.record decision).clients
    rw [record_clients]
    exact hanswered

/-! ### Limiters in use -/

/-- What holds between two checks. -/
def CheckedInv (hash : Bytes → Nat) (config : RateLimitConfig) (r : RateLimiter) : Prop :=
  if config.perClient then ClientsInv hash config r else GlobalInv config r

theorem checkedInv_create (hash : Bytes → Nat) {initialTime : Int}
    (hcreate : create config initialTime = .ok r) : Accepted config ∧ CheckedInv hash config r := by
  cases hclient : config.perClient with
  | true =>
    obtain ⟨haccepted, hkept⟩ := kept_create hash hcreate hclient
    have hglobal : r.globalBucket = none := by
      simp only [create, haccepted, not_true, if_false, hclient, if_true] at hcreate
      split at hcreate
      · cases hcreate
      · obtain rfl := Except.ok.inj hcreate
        rfl
    refine ⟨haccepted, ?_⟩
    rw [CheckedInv, if_pos hclient]
    refine ⟨hkept.configured, hglobal, hkept.shards, hkept.placed, hkept.keys, hkept.count,
      hkept.capacity, fun client hmem => ?_⟩
    rw [hkept.clients_nil] at hmem
    exact absurd hmem List.not_mem_nil
  | false =>
    by_cases haccepted : Accepted config
    · simp only [create, haccepted, not_true, if_false, hclient, Bool.false_eq_true] at hcreate
      cases hbucket : TokenBucket.create config.requestsPerSecond config.burst initialTime with
      | error _ => simp [hbucket, Except.map] at hcreate
      | ok bucket =>
      simp only [hbucket, Except.map] at hcreate
      obtain rfl := Except.ok.inj hcreate
      obtain ⟨hwithin, hcapacity, hrate⟩ := TokenBucket.create_within hbucket
      refine ⟨haccepted, ?_⟩
      rw [CheckedInv, if_neg (by rw [hclient]; exact Bool.false_ne_true)]
      exact ⟨rfl, bucket, rfl, hwithin, hrate, hcapacity⟩
    · simp [create, haccepted] at hcreate

theorem CheckedInv.check (h : CheckedInv hash config r) (haccepted : Accepted config) (e : Check) :
    CheckedInv hash config (r.check hash e.clientKey e.now).2 := by
  unfold CheckedInv at h ⊢
  split at h
  · next hclient =>
    rw [if_pos hclient]
    exact (h.check haccepted hclient e).1
  · next hglobal =>
    rw [if_neg hglobal]
    exact h.check (Bool.eq_false_iff.mpr hglobal) e

theorem CheckedInv.afterChecks (h : CheckedInv hash config r) (haccepted : Accepted config)
    (checks : List Check) : CheckedInv hash config (r.afterChecks hash checks) := by
  induction checks generalizing r with
  | nil => exact h
  | cons e checks ih => exact ih (h.check haccepted e)

/-! ### What a rejected check leaves -/

theorem Configured.bucketFor_global (hash : Bytes → Nat) (h : GlobalInv config r) (e : Check) :
    r.globalBucket = some (r.bucketFor hash e) ∧ Configured config (r.bucketFor hash e) := by
  obtain ⟨b, hb, hconfigured⟩ := h.bucket
  have hbucket : r.bucketFor hash e = b := by
    unfold bucketFor
    rw [hb]
  rw [hbucket]
  exact ⟨hb, hconfigured⟩

/-- The bucket of a client is the one it has, or a new one. -/
theorem ClientsInv.bucketFor (h : ClientsInv hash config r) (haccepted : Accepted config)
    (e : Check) : Configured config (r.bucketFor hash e) ∧
      ((clientDecision hash r e.client e.now).keyCapacityExhausted = false →
        clientDecision hash r e.client e.now = bucketDecision (r.bucketFor hash e) e.now) := by
  unfold RateLimiter.bucketFor clientDecision
  rw [h.global]
  cases hfind : (remaining hash r e.client e.now).find? (·.1 = e.client) with
  | some client =>
    have hmem := List.mem_of_mem_filter (List.mem_of_find?_eq_some hfind)
    exact ⟨h.buckets client hmem, fun _ => rfl⟩
  | none =>
    dsimp only
    rw [h.configured]
    refine ⟨configured_newBucket haccepted e.now, fun hexhausted => ?_⟩
    split at hexhausted
    · cases hexhausted
    · next hroom => rw [if_neg hroom]

/-- A check that rejects for want of tokens stores the bucket it asked. -/
theorem ClientsInv.stored (h : ClientsInv hash config r) (haccepted : Accepted config)
    (hclient : config.perClient = true) {e : Check}
    (hrejected : (r.check hash e.clientKey e.now).1.allowed = false)
    (hexhausted : (r.check hash e.clientKey e.now).1.keyCapacityExhausted = false) :
    (e.client,
      ({ bucket := (r.bucketFor hash e).refill e.now, lastSeen := e.now } : ClientBucket)) ∈
      (r.check hash e.clientKey e.now).2.clients := by
  obtain ⟨-, hdecision, hanswered⟩ := h.check haccepted hclient e
  obtain ⟨-, hasked⟩ := h.bucketFor haccepted e
  have hkeys := keys_remaining hash h.keys e.client e.now
  rw [hdecision] at hexhausted
  rw [hdecision, hasked hexhausted] at hrejected
  -- a check is rejected for want of a token
  have hshort : ((r.bucketFor hash e).refill e.now).availableTokens < 1 := by
    rw [← not_le, ← bucketDecision_allowed, hrejected]
    exact Bool.false_ne_true
  -- which takes nothing from the refilled bucket
  have hseen : ∀ client : ClientBucket, client.bucket = r.bucketFor hash e →
      seen client e.now = { bucket := (r.bucketFor hash e).refill e.now, lastSeen := e.now } := by
    intro client hbucket
    rw [seen, hbucket, grant_rejected hshort]
  generalize (r.check hash e.clientKey e.now).1 = decision at hanswered hdecision
  generalize (r.check hash e.clientKey e.now).2.clients = clients at hanswered ⊢
  cases hanswered with
  | @known client retryAfter _ hmem hclients =>
    have hfind := Keyed.find?_of_mem hkeys hmem
    have hbucket : r.bucketFor hash e = client.bucket := by
      unfold RateLimiter.bucketFor
      rw [h.global]
      dsimp only
      rw [hfind]
    rw [← hseen client hbucket.symm]
    exact hclients.mem_iff.mpr List.mem_cons_self
  | made hnone hroom hclients =>
    have hfind : (remaining hash r e.client e.now).find? (·.1 = e.client) = none := by
      rw [List.find?_eq_none]
      simpa using hnone
    have hbucket : r.bucketFor hash e = newBucket config e.now := by
      unfold RateLimiter.bucketFor
      rw [h.global]
      dsimp only
      rw [hfind, h.configured]
    rw [← hseen (newClient config e.now) hbucket.symm]
    exact hclients.mem_iff.mpr List.mem_cons_self
  | full hnone hfull hclients =>
    rw [← hdecision] at hexhausted
    cases hexhausted

/-- The answer to a client that has a bucket of its own. -/
theorem ClientsInv.allowed_iff (h : ClientsInv hash config r) (haccepted : Accepted config)
    (hclient : config.perClient = true) {e : Check} {client : ClientBucket}
    (hmem : (e.client, client) ∈ r.clients) :
    (r.check hash e.clientKey e.now).1.allowed = true ↔
      if idleTime config ≤ e.now - client.lastSeen then 1 ≤ config.burst
      else 1 ≤ (client.bucket.refill e.now).availableTokens := by
  have hkeys := keys_remaining hash h.keys e.client e.now
  rw [(h.check haccepted hclient e).2.1, clientDecision]
  by_cases hstale : idleTime config ≤ e.now - client.lastSeen
  · rw [if_pos hstale]
    have hexpired : expired r.config e.now client = true := by
      rw [expired, h.configured]
      exact decide_eq_true hstale
    -- the sweep removes the bucket, and makes room for a new one
    have hfind : (remaining hash r e.client e.now).find? (·.1 = e.client) = none := by
      rw [List.find?_eq_none]
      intro other hother hname
      obtain ⟨hother, hkept⟩ := mem_remaining.mp hother
      have hname : other.1 = e.client := by simpa using hname
      have hsame : other = (e.client, client) := List.inj_on_of_nodup_map h.keys hother hmem hname
      rw [hsame, hexpired] at hkept
      exact absurd (hkept rfl) (by decide)
    have hroom : (remaining hash r e.client e.now).length < config.maxKeys := by
      refine lt_of_lt_of_le ?_ (h.count ▸ h.capacity)
      apply List.length_filter_lt_length_iff_exists.mpr
      exact ⟨_, hmem, by simp [hexpired]⟩
    have hnew : (newBucket config e.now).refill e.now = newBucket config e.now :=
      TokenBucket.refill_of_le (le_refl e.now)
    rw [hfind]
    dsimp only
    rw [h.configured, if_neg (not_le.mpr hroom), bucketDecision_allowed, hnew]
    exact Iff.rfl
  · rw [if_neg hstale]
    have hkept : (e.client, client) ∈ remaining hash r e.client e.now := by
      refine mem_remaining.mpr ⟨hmem, fun _ => ?_⟩
      rw [expired, h.configured]
      exact decide_eq_false hstale
    rw [Keyed.find?_of_mem hkeys hkept]
    exact bucketDecision_allowed

/-- What the rejected check has stored decides whether a later one is let through. -/
theorem CheckedInv.allowed_iff (h : CheckedInv hash config r) (haccepted : Accepted config)
    {e : Check} (hrejected : (r.check hash e.clientKey e.now).1.allowed = false)
    (hexhausted : (r.check hash e.clientKey e.now).1.keyCapacityExhausted = false)
    (h' : CheckedInv hash config r')
    (hsame : r'.storedFor e.client = (r.check hash e.clientKey e.now).2.storedFor e.client)
    (t : Int) :
    (r'.check hash e.clientKey t).1.allowed = true ↔
      if config.perClient = true ∧ idleTime config ≤ t - e.now then 1 ≤ config.burst
      else 1 ≤ (((r.bucketFor hash e).refill e.now).refill t).availableTokens := by
  have hafter := h.check haccepted e
  rw [storedFor, storedFor, Prod.mk.injEq] at hsame
  unfold CheckedInv at h h' hafter
  cases hclient : config.perClient with
  | true =>
    rw [if_pos hclient] at h h' hafter
    -- the refilled bucket was stored for the client, and is found again
    have hstored := h.stored haccepted hclient hrejected hexhausted
    have hfind := Keyed.find?_of_mem hafter.keys hstored
    dsimp only at hfind
    rw [hfind, Option.map_some, Option.map_eq_some_iff] at hsame
    obtain ⟨client, hfound, hclient'⟩ := hsame.2
    have hname : client.1 = e.client := by simpa using List.find?_some hfound
    have hmem : (e.client, client.2) ∈ r'.clients :=
      hname ▸ List.mem_of_find?_eq_some hfound
    have hallowed := h'.allowed_iff haccepted hclient (e := ⟨e.clientKey, t⟩) hmem
    rw [hclient'] at hallowed
    simpa using hallowed
  | false =>
    have hglobal : ¬config.perClient = true := by rw [hclient]; exact Bool.false_ne_true
    rw [if_neg hglobal] at h h'
    obtain ⟨hb, -⟩ := Configured.bucketFor_global hash h e
    obtain ⟨hdecision, hbucket, -⟩ := check_global hash h hclient hb e
    -- the one bucket for all clients keeps what it has refilled
    have hshort : ((r.bucketFor hash e).refill e.now).availableTokens < 1 := by
      rw [hdecision] at hrejected
      rw [← not_le, ← bucketDecision_allowed, hrejected]
      exact Bool.false_ne_true
    rw [hbucket, grant_rejected hshort] at hsame
    obtain ⟨hdecision', -⟩ := check_global hash h' hclient hsame.1 ⟨e.clientKey, t⟩
    rw [hdecision', bucketDecision_allowed]
    simp

/-- A check that is rejected for want of tokens says when its bucket has one. -/
theorem CheckedInv.rejected (h : CheckedInv hash config r) (haccepted : Accepted config)
    {e : Check} (hrejected : (r.check hash e.clientKey e.now).1.allowed = false)
    (hexhausted : (r.check hash e.clientKey e.now).1.keyCapacityExhausted = false) :
    r.config = config ∧ Configured config (r.bucketFor hash e) ∧
      ((r.bucketFor hash e).refill e.now).availableTokens < 1 ∧
      (r.check hash e.clientKey e.now).1.retryAfter = ⌈r.wait hash e * 1000⌉ := by
  have hasked : r.config = config ∧ Configured config (r.bucketFor hash e) ∧
      (r.check hash e.clientKey e.now).1 = bucketDecision (r.bucketFor hash e) e.now := by
    unfold CheckedInv at h
    split at h
    · next hclient =>
      obtain ⟨-, hdecision, -⟩ := h.check haccepted hclient e
      obtain ⟨hconfigured, hbucket⟩ := h.bucketFor haccepted e
      rw [hdecision] at hexhausted ⊢
      exact ⟨h.configured, hconfigured, hbucket hexhausted⟩
    · next hglobal =>
      obtain ⟨hb, hconfigured⟩ := Configured.bucketFor_global hash h e
      have hclient := Bool.eq_false_iff.mpr hglobal
      exact ⟨h.configured, hconfigured, (check_global hash h hclient hb e).1⟩
  obtain ⟨hconfig, hconfigured, hdecision⟩ := hasked
  rw [hdecision] at hrejected ⊢
  have hshort : ((r.bucketFor hash e).refill e.now).availableTokens < 1 := by
    rw [← not_le, ← bucketDecision_allowed, hrejected]
    exact Bool.false_ne_true
  exact ⟨hconfig, hconfigured, hshort, bucketDecision_retryAfter hshort⟩

theorem CheckedInv.delayHonoured_iff (h : CheckedInv hash config r) (haccepted : Accepted config)
    {e : Check} (hrejected : (r.check hash e.clientKey e.now).1.allowed = false)
    (hexhausted : (r.check hash e.clientKey e.now).1.keyCapacityExhausted = false) :
    DelayHonoured hash r e ↔ DelaySuffices hash r e := by
  obtain ⟨hconfig, hconfigured, hshort, hdelay⟩ := h.rejected haccepted hrejected hexhausted
  have hafter := hconfigured.refill e.now
  have hfrom := allowed_from_iff hafter.within hshort e.now config.perClient (idleTime config)
    ⌈r.wait hash e * 1000⌉
  rw [hafter.capacity] at hfrom
  rw [DelaySuffices, hconfig]
  refine Iff.trans ?_ hfrom
  rw [DelayHonoured, hdelay]
  have hallowed (r' : RateLimiter) (h' : CheckedInv hash config r')
      (hsame : r'.storedFor e.client = (r.check hash e.clientKey e.now).2.storedFor e.client) :=
    h.allowed_iff haccepted hrejected hexhausted h' hsame
  constructor
  · intro hhonoured t ht
    exact (hallowed _ (h.check haccepted e) rfl t).mp (hhonoured [] t rfl ht)
  · intro hall others t hsame ht
    exact (hallowed _ ((h.check haccepted e).afterChecks haccepted others) hsame t).mpr (hall t ht)

/-! ### The header of the response -/

theorem delayAdvertised (decision : RateLimitDecision) : DelayAdvertised decision := by
  refine ⟨max 1 ((decision.retryAfter + 999).tdiv 1000), ?_, ?_⟩
  · have hname : normalizeHeaderName (bytes "Content-Type") ≠
        normalizeHeaderName (bytes "Retry-After") := by decide
    simp [Router.makeRateLimited, Router.makeError, Headers.add, Headers.values, hname]
  · have htdiv := Int.mul_tdiv_add_tmod (decision.retryAfter + 999) 1000
    have htmod := Int.tmod_lt_of_pos (decision.retryAfter + 999) (b := 1000) (by decide)
    omega

/-- **When a delay is honoured.** A check that is rejected for want of tokens names a positive
delay, and the router advertises at least as much; it is true of every later check exactly if
the delay suffices. -/
theorem retry_honoured_iff (hash : Bytes → Nat) {config : RateLimitConfig} {initialTime : Int}
    {r : RateLimiter} (hcreate : create config initialTime = .ok r) (earlier : List Check)
    (e : Check) :
    let r := r.afterChecks hash earlier
    let decision := (r.check hash e.clientKey e.now).1
    decision.allowed = false → decision.keyCapacityExhausted = false →
      (0 < decision.retryAfter ∧ DelayHonoured hash r e ∧ DelayAdvertised decision ↔
        DelaySuffices hash r e) ∧
      (((r.bucketFor hash e).lastRefill ≤ e.now) →
        (DelaySuffices hash r e ↔ 1 ≤ config.burst)) := by
  intro r decision hrejected hexhausted
  obtain ⟨haccepted, hcreated⟩ := checkedInv_create hash hcreate
  have h : CheckedInv hash config r := hcreated.afterChecks haccepted earlier
  obtain ⟨hconfig, hconfigured, hshort, hdelay⟩ := h.rejected haccepted hrejected hexhausted
  have hrate := (hconfigured.refill e.now).within.rate
  have hwait : 0 < r.wait hash e := div_pos (sub_pos.mpr hshort) hrate
  have hpositive : 0 < decision.retryAfter := by
    rw [hdelay]
    exact Int.ceil_pos.mpr (mul_pos hwait (by norm_num))
  have hhonoured := h.delayHonoured_iff haccepted hrejected hexhausted
  refine ⟨⟨fun hall => hhonoured.mp hall.2.1, fun hlong =>
    ⟨hpositive, hhonoured.mpr hlong, delayAdvertised decision⟩⟩, fun hnow => ?_⟩
  -- the bucket is refilled up to the check, and whole milliseconds are counted from there
  rw [DelaySuffices, hconfig, refill_lastRefill hnow, sub_self]
  refine and_iff_left (.inl ?_)
  have hceil := Int.le_ceil (r.wait hash e * 1000)
  rw [le_div_iff₀ (by norm_num)]
  simpa [seconds] using hceil

/-- One token, and one more a second. -/
def oneToken : RateLimitConfig := { requestsPerSecond := 1, burst := 1 }

/-- After the token is gone, a check a quarter of a second later is told to wait for the rest of
    the second, and is let through then. -/
theorem retry_honoured_iff_oneToken :
    ∃ r, create oneToken 0 = .ok r ∧
      let r := r.afterChecks (fun _ => 0) [⟨bytes "192.0.2.1", 0⟩]
      let e : Check := ⟨bytes "192.0.2.1", 250000000⟩
      (r.check (fun _ => 0) e.clientKey e.now).1.retryAfter = 750 ∧
        DelayHonoured (fun _ => 0) r e := by
  obtain ⟨r, hcreate, hr⟩ : ∃ r, create oneToken 0 = .ok r ∧
      r = { config := oneToken, globalBucket := some (newBucket oneToken 0) } := ⟨_, rfl, rfl⟩
  obtain ⟨hiff, hinOrder⟩ := retry_honoured_iff (fun _ => 0) hcreate [⟨bytes "192.0.2.1", 0⟩]
    ⟨bytes "192.0.2.1", 250000000⟩ (by subst hr; decide +kernel) (by subst hr; decide +kernel)
  have hsuffices := (hinOrder (by subst hr; decide +kernel)).mpr (by decide +kernel)
  exact ⟨r, hcreate, by subst hr; decide +kernel, (hiff.mpr hsuffices).2.1⟩

/-- Half a token is all there can be. -/
def halfToken : RateLimitConfig := { requestsPerSecond := 1, burst := 1 / 2 }

/-- With half a token a check is told to wait for half a second, and is rejected again then. -/
theorem retry_never :
    ∃ r, create halfToken 0 = .ok r ∧
      (r.check (fun _ => 0) (bytes "192.0.2.1") 0).1 = { allowed := false, retryAfter := 500 } ∧
      ¬ DelayHonoured (fun _ => 0) r ⟨bytes "192.0.2.1", 0⟩ := by
  refine ⟨{ config := halfToken, globalBucket := some (newBucket halfToken 0) },
    by decide +kernel, by decide +kernel, fun hhonoured => ?_⟩
  exact absurd (hhonoured [] 500000000 rfl (by decide +kernel)) (by decide +kernel)

end RateLimiter
end PulseGate
