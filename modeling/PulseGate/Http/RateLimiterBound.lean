import PulseGate.Lib.Allowance
import PulseGate.Http.RateLimiterSteps

namespace PulseGate.RateLimiter

/-!
# The rate of one client

A bucket keeps its client within the rate (`Metered`), and so does a new bucket in the place
of one that would be full by then.  A client that is idle for `idle_ttl`, as its nanoseconds come
out in 64 bits, gets a new bucket whatever the old one held.

* `rate_bound` — the bound holds along every run whose checks make a new bucket for a client
  only when the one before would be full again;
* `rate_bound_of_burst_le` — which they all do when `idle_ttl` is long enough to fill a bucket.
-/

variable {hash : Bytes → Nat} {config : RateLimitConfig} {log : List Checked} {key : Bytes}
  {now : Int} {u u' : Used} {e : Check}

/-! ### Time -/

theorem seconds_sub (a b : Int) : seconds (a - b) = seconds a - seconds b := by
  simp only [seconds]
  push_cast
  ring

theorem seconds_le_iff {a b : Int} : seconds a ≤ seconds b ↔ a ≤ b := by
  rw [seconds, seconds, div_le_div_iff_of_pos_right (by norm_num)]
  exact Int.cast_le

/-! ### One bucket -/

/-- The bucket meters the grants: it has the rate and the burst of the configuration, and the
    grants so far keep the bound. -/
structure Metered (config : RateLimitConfig) (grants : List (Allowance.Grant ℚ))
    (b : TokenBucket) : Prop where
  rate : b.ratePerSecond = config.requestsPerSecond
  capacity : b.capacity = config.burst
  nonneg : 0 ≤ b.availableTokens
  le : b.availableTokens ≤ config.burst
  bounded : Allowance.Bounded config.requestsPerSecond config.burst grants b.availableTokens
    (seconds b.lastRefill)

variable {grants : List (Allowance.Grant ℚ)} {b : TokenBucket}

theorem refill_lastRefill (h : b.lastRefill ≤ now) : (b.refill now).lastRefill = now := by
  unfold TokenBucket.refill
  by_cases hle : now ≤ b.lastRefill
  · rw [if_pos hle]
    exact le_antisymm h hle
  · rw [if_neg hle]

theorem refill_availableTokens (hle : b.availableTokens ≤ b.capacity) (h : b.lastRefill ≤ now) :
    (b.refill now).availableTokens =
      min b.capacity (b.availableTokens + seconds (now - b.lastRefill) * b.ratePerSecond) := by
  unfold TokenBucket.refill
  by_cases hnow : now ≤ b.lastRefill
  · obtain rfl : b.lastRefill = now := le_antisymm h hnow
    rw [if_pos hnow, Int.sub_self]
    simp [seconds, hle]
  · rw [if_neg hnow]

theorem Metered.refill (h : Metered config grants b) (haccepted : Accepted config)
    (hnow : b.lastRefill ≤ now) : Metered config grants (b.refill now) := by
  have hseconds := seconds_le_iff.mpr hnow
  have htokens := refill_availableTokens (h.le.trans_eq h.capacity.symm) hnow
  rw [h.rate, h.capacity, seconds_sub] at htokens
  have hgain : 0 ≤ (seconds now - seconds b.lastRefill) * config.requestsPerSecond :=
    mul_nonneg (by linarith) haccepted.1.le
  have hle : (b.refill now).availableTokens ≤ config.burst := by
    rw [htokens]
    exact min_le_left _ _
  refine ⟨by simpa using h.rate, by simpa using h.capacity, ?_, hle, ?_⟩
  · rw [htokens]
    exact le_min haccepted.2.1.le (add_nonneg h.nonneg hgain)
  · rw [refill_lastRefill hnow]
    apply h.bounded.refill haccepted.1.le hseconds _ hle
    rw [htokens, mul_comm config.requestsPerSecond]
    exact min_le_right _ _

/-- The grants with the one that was just made, if it was. -/
def grantsAfter (allowed : Bool) (now : Int) (grants : List (Allowance.Grant ℚ)) :
    List (Allowance.Grant ℚ) :=
  if allowed then ⟨seconds now, 1⟩ :: grants else grants

theorem Metered.grant (h : Metered config grants b) (haccepted : Accepted config)
    (hnow : b.lastRefill ≤ now) :
    Metered config (grantsAfter (b.grant 1 now).1 now grants) (b.grant 1 now).2 := by
  have hrefill := h.refill haccepted hnow
  have hbounded := hrefill.bounded
  rw [refill_lastRefill hnow] at hbounded
  rw [TokenBucket.grant_eq]
  by_cases hempty : (b.refill now).availableTokens < 1
  · rw [if_pos hempty]
    exact hrefill
  · rw [if_neg hempty]
    have hone : 1 ≤ (b.refill now).availableTokens := not_lt.mp hempty
    refine ⟨hrefill.rate, hrefill.capacity, sub_nonneg.mpr hone, ?_, ?_⟩
    · exact (sub_le_self _ zero_le_one).trans hrefill.le
    · show Allowance.Bounded _ _ (⟨seconds now, 1⟩ :: grants) _ (seconds (b.refill now).lastRefill)
      rw [refill_lastRefill hnow]
      exact hbounded.take haccepted.1.le hone

/-- A new bucket meters what a full one did. -/
theorem Metered.newBucket (h : Metered config grants b) (haccepted : Accepted config)
    (hnow : b.lastRefill ≤ now) (hfull : (b.refill now).availableTokens = b.capacity) :
    Metered config grants (newBucket config now) := by
  have hbounded := (h.refill haccepted hnow).bounded
  rw [refill_lastRefill hnow, hfull, h.capacity] at hbounded
  exact ⟨rfl, rfl, haccepted.2.1.le, le_refl _, hbounded⟩

theorem metered_nil (haccepted : Accepted config) (now : Int) :
    Metered config [] (newBucket config now) :=
  ⟨rfl, rfl, haccepted.2.1.le, le_refl _,
    Allowance.bounded_new haccepted.1.le haccepted.2.1.le (seconds now)⟩

/-! ### The latest bucket of a client -/

/-- The bucket a client has or, when it has none, the last one it had. -/
def latest (u : Used) (key : Bytes) : Option (Bytes × ClientBucket) :=
  (u.limiter.clients ++ u.destroyed).find? (·.1 = key)

theorem Kept.latest_of_mem (h : Kept hash config u) {client : Bytes × ClientBucket}
    (hclient : client ∈ u.limiter.clients) : latest u client.1 = some client := by
  rw [latest, List.find?_append, Keyed.find?_of_mem h.keys hclient, Option.some_or]

theorem latest_of_ne (h : ∀ client ∈ u.limiter.clients, client.1 ≠ key) :
    latest u key = u.destroyed.find? (·.1 = key) := by
  have hnone : u.limiter.clients.find? (·.1 = key) = none :=
    List.find?_eq_none.mpr fun client hclient => by simpa using h client hclient
  rw [latest, List.find?_append, hnone, Option.none_or]

theorem Kept.swept_eq (h : Kept hash config u) (hshards : config.shardCount ≠ 0) (key : Bytes)
    (now : Int) :
    swept hash u.limiter key now = u.limiter.clients.filter fun client =>
      u.limiter.shardFor hash client.1 = u.limiter.shardFor hash key &&
        expired config now client.2 := by
  obtain ⟨hplaced, s, hs⟩ := h.shard hshards key
  rw [RateLimiter.swept_eq hplaced hs, h.configured]

/-- A client that does not remain is swept. -/
theorem Kept.mem_swept (h : Kept hash config u) (hshards : config.shardCount ≠ 0)
    {client : Bytes × ClientBucket} (hclient : client ∈ u.limiter.clients)
    (hgone : client ∉ remaining hash u.limiter key now) :
    client ∈ swept hash u.limiter key now := by
  rw [mem_remaining, h.configured] at hgone
  rw [h.swept_eq hshards, List.mem_filter]
  simpa [hclient] using hgone

/-- A client that a check keeps or removes has the same latest bucket after it. -/
theorem Steps.latest_eq {decision : RateLimitDecision} (hsteps : Steps hash config u e decision u')
    (h : Kept hash config u) (h' : Kept hash config u') (hshards : config.shardCount ≠ 0)
    (hsame : ∀ client : Bytes × ClientBucket, client.1 = key →
      (client ∈ u'.limiter.clients ↔ client ∈ remaining hash u.limiter e.client e.now)) :
    latest u' key = latest u key := by
  have hswept := h.swept_eq hshards e.client e.now
  by_cases hstored : ∃ client ∈ u.limiter.clients, client.1 = key
  · obtain ⟨client, hclient, rfl⟩ := hstored
    rw [h.latest_of_mem hclient]
    by_cases hremains : client ∈ remaining hash u.limiter e.client e.now
    · exact h'.latest_of_mem ((hsame client rfl).mpr hremains)
    · -- the client has gone, and its bucket is the first one destroyed
      have hnone : ∀ other ∈ u'.limiter.clients, other.1 ≠ client.1 := by
        intro other hother heq
        have hother' := (hsame other heq).mp hother
        have hmem := (mem_remaining.mp hother').1
        obtain rfl := List.inj_on_of_nodup_map h.keys hmem hclient heq
        exact hremains hother'
      have hnodup : ((swept hash u.limiter e.client e.now).map Prod.fst).Nodup := by
        rw [hswept]
        exact h.keys.sublist (List.filter_sublist.map _)
      have hgone := h.mem_swept hshards hclient hremains
      rw [latest_of_ne hnone, hsteps.destroyed, List.find?_append,
        Keyed.find?_of_mem hnodup hgone, Option.some_or]
  · push Not at hstored
    have hnone : ∀ other ∈ u'.limiter.clients, other.1 ≠ key := by
      intro other hother heq
      exact hstored other (mem_remaining.mp ((hsame other heq).mp hother)).1 heq
    -- no bucket of the key was stored, so that the sweep destroys none
    have hswept' : (swept hash u.limiter e.client e.now).find? (·.1 = key) = none := by
      apply List.find?_eq_none.mpr
      intro other hother
      rw [hswept] at hother
      simpa using hstored other (List.mem_of_mem_filter hother)
    rw [latest_of_ne hnone, latest_of_ne hstored, hsteps.destroyed, List.find?_append, hswept',
      Option.none_or]

/-! ### The grants in the log -/

/-- The checks of a client that were allowed, as grants of one token. -/
def grantsOf (key : Bytes) (log : List Checked) : List (Allowance.Grant ℚ) :=
  (log.filter fun checked => checked.client = key ∧ checked.decision.allowed = true).map
    fun checked => ⟨seconds checked.now, 1⟩

theorem grantsOf_cons_self (key : Bytes) (now : Int) (decision : RateLimitDecision)
    (log : List Checked) :
    grantsOf key ({ client := key, now := now, decision := decision } :: log) =
      grantsAfter decision.allowed now (grantsOf key log) := by
  cases hallowed : decision.allowed <;> simp [grantsOf, grantsAfter, hallowed]

theorem grantsOf_cons_of_ne {checked : Checked} (h : checked.client ≠ key) (log : List Checked) :
    grantsOf key (checked :: log) = grantsOf key log := by
  simp [grantsOf, h]

/-- The checks of a client that were allowed from `a` to `b`. -/
def allowedBetween (log : List Checked) (client : Bytes) (a b : Int) : Nat :=
  (log.filter fun checked => checked.client = client ∧ checked.decision.allowed = true ∧
    a ≤ checked.now ∧ checked.now ≤ b).length

theorem granted_grantsOf (key : Bytes) (log : List Checked) (a b : Int) :
    Allowance.granted (seconds a) (seconds b) (grantsOf key log) =
      allowedBetween log key a b := by
  induction log with
  | nil => simp [grantsOf, allowedBetween]
  | cons checked log ih =>
    by_cases hallowed : checked.client = key ∧ checked.decision.allowed = true
    · have hcons : grantsOf key (checked :: log) =
          ⟨seconds checked.now, 1⟩ :: grantsOf key log := by
        simp [grantsOf, hallowed]
      rw [hcons, Allowance.granted_cons, ih, allowedBetween, allowedBetween]
      -- the grant counts when it lies in the interval
      by_cases hin : a ≤ checked.now ∧ checked.now ≤ b
      · have hin' : seconds a ≤ seconds checked.now ∧ seconds checked.now ≤ seconds b :=
          ⟨seconds_le_iff.mpr hin.1, seconds_le_iff.mpr hin.2⟩
        rw [if_pos hin', List.filter_cons_of_pos (by simp [hallowed, hin]), List.length_cons]
        push_cast
        ring
      · have hin' : ¬ (seconds a ≤ seconds checked.now ∧ seconds checked.now ≤ seconds b) :=
          fun h => hin ⟨seconds_le_iff.mp h.1, seconds_le_iff.mp h.2⟩
        rw [if_neg hin', zero_add, List.filter_cons_of_neg (by simpa [hallowed] using hin)]
    · have hcons : grantsOf key (checked :: log) = grantsOf key log := by
        rw [grantsOf, List.filter_cons_of_neg (by simpa using hallowed), grantsOf]
      have hout : ¬ (checked.client = key ∧ checked.decision.allowed = true ∧ a ≤ checked.now ∧
          checked.now ≤ b) := fun h => hallowed ⟨h.1, h.2.1⟩
      rw [hcons, ih, allowedBetween, allowedBetween,
        List.filter_cons_of_neg (by simpa using hout)]

/-! ### Runs -/

/-- In every window, no client is allowed more than the burst and what the rate gives. -/
def WithinRate (config : RateLimitConfig) (u : Used) : Prop :=
  ∀ client a b, a ≤ b →
    allowedBetween u.log client a b ≤ config.burst + config.requestsPerSecond * seconds (b - a)

/-- When a check makes a bucket for a client that had one, the old one would be full again. -/
def RefilledBefore (hash : Bytes → Nat) (config : RateLimitConfig) (u : Used) (e : Check)
    (_ : Used) : Prop :=
  (∀ client ∈ remaining hash u.limiter e.client e.now, client.1 ≠ e.client) →
    (remaining hash u.limiter e.client e.now).length < config.maxKeys →
      ∀ client ∈ latest u e.client,
        (client.2.bucket.refill e.now).availableTokens = client.2.bucket.capacity

instance decidableRefilledBefore (hash : Bytes → Nat) (config : RateLimitConfig) (u : Used)
    (e : Check) (u' : Used) : Decidable (RefilledBefore hash config u e u') :=
  inferInstanceAs (Decidable ((∀ client ∈ remaining hash u.limiter e.client e.now, _) → _ →
    ∀ client ∈ latest u e.client, _))

/-- What holds of the latest bucket of a client. -/
structure Latest (config : RateLimitConfig) (log : List Checked) (key : Bytes)
    (client : ClientBucket) : Prop where
  metered : Metered config (grantsOf key log) client.bucket
  seen : client.bucket.lastRefill = client.lastSeen
  time : ∃ checked ∈ log.head?, client.lastSeen ≤ checked.now

/-- A client's latest bucket meters what the client was granted; without one nothing was. -/
structure RatedClient (config : RateLimitConfig) (u : Used) (key : Bytes) : Prop where
  some : ∀ client ∈ latest u key, Latest config u.log key client.2
  none : latest u key = none → grantsOf key u.log = []

structure Rated (config : RateLimitConfig) (u : Used) : Prop where
  clients : ∀ key, RatedClient config u key
  destroyed : ∀ client ∈ u.destroyed, ∃ checked ∈ u.log.head?,
    idleTime config ≤ checked.now - client.2.lastSeen

theorem Rated.withinRate (h : Rated config u) (haccepted : Accepted config) :
    WithinRate config u := by
  intro client a b hab
  rw [← granted_grantsOf, seconds_sub]
  have hseconds := seconds_le_iff.mpr hab
  cases hlatest : latest u client with
  | none =>
    have hgain : 0 ≤ config.requestsPerSecond * (seconds b - seconds a) :=
      mul_nonneg haccepted.1.le (by linarith)
    rw [(h.clients client).none hlatest, Allowance.granted_nil]
    exact add_nonneg haccepted.2.1.le hgain
  | some found =>
    exact ((h.clients client).some found hlatest).metered.bounded.window _ _ hseconds

theorem Latest.le {client : ClientBucket} (h : Latest config log key client)
    (htime : ∀ checked ∈ log.head?, checked.now ≤ now) : client.bucket.lastRefill ≤ now := by
  obtain ⟨checked, hchecked, hle⟩ := h.time
  rw [h.seen]
  exact hle.trans (htime checked hchecked)

/-- The bucket that a check uses stays good. -/
theorem latest_seen {client : ClientBucket} (haccepted : Accepted config)
    (hmetered : Metered config (grantsOf key log) client.bucket)
    (hnow : client.bucket.lastRefill ≤ now) {decision : RateLimitDecision}
    (hdecision : decision.allowed = (client.bucket.grant 1 now).1) :
    Latest config ({ client := key, now := now, decision := decision } :: log) key
      (seen client now) where
  metered := by
    rw [grantsOf_cons_self, hdecision]
    exact hmetered.grant haccepted hnow
  seen := (TokenBucket.grant_lastRefill _ _ _).trans (refill_lastRefill hnow)
  time := ⟨_, rfl, le_refl now⟩

/-- Checks of others change nothing for a client. -/
theorem Latest.of_other {client : ClientBucket} (h : Latest config log key client)
    {checked : Checked} (hallowed : grantsOf key (checked :: log) = grantsOf key log)
    (htime : ∀ earlier ∈ log.head?, earlier.now ≤ checked.now) :
    Latest config (checked :: log) key client where
  metered := hallowed ▸ h.metered
  seen := h.seen
  time := by
    obtain ⟨earlier, hearlier, hle⟩ := h.time
    exact ⟨checked, rfl, hle.trans (htime earlier hearlier)⟩

/-- A client keeps its rate when its latest bucket and its grants stay as they are. -/
theorem Steps.ratedClient_of_eq {decision : RateLimitDecision}
    (hsteps : Steps hash config u e decision u') (hrated : RatedClient config u key)
    (hlatest : latest u' key = latest u key)
    (hgrants : grantsOf key u'.log = grantsOf key u.log) : RatedClient config u' key where
  some client hclient := by
    rw [hlatest] at hclient
    rw [hsteps.log] at hgrants ⊢
    exact (hrated.some client hclient).of_other hgrants hsteps.time
  none hnone := by
    rw [hgrants]
    exact hrated.none (hlatest ▸ hnone)

/-- The client of a check keeps its rate when its bucket was good for it. -/
theorem Steps.ratedClient_of_seen {decision : RateLimitDecision} {client : ClientBucket}
    (hsteps : Steps hash config u e decision u') (haccepted : Accepted config)
    (h' : Kept hash config u') (hmem : (e.client, seen client e.now) ∈ u'.limiter.clients)
    (hmetered : Metered config (grantsOf e.client u.log) client.bucket)
    (hnow : client.bucket.lastRefill ≤ e.now)
    (hdecision : decision.allowed = (client.bucket.grant 1 e.now).1) :
    RatedClient config u' e.client where
  some found hfound := by
    rw [h'.latest_of_mem hmem] at hfound
    obtain rfl := Option.some.inj hfound
    rw [hsteps.log]
    exact latest_seen haccepted hmetered hnow hdecision
  none hnone := by
    rw [h'.latest_of_mem hmem] at hnone
    exact absurd hnone (by simp)

/-- A new bucket is good for its client when the one before would be full again. -/
theorem RatedClient.newBucket (h : RatedClient config u key) (haccepted : Accepted config)
    (htime : ∀ checked ∈ u.log.head?, checked.now ≤ now)
    (hfull : ∀ client ∈ latest u key,
      (client.2.bucket.refill now).availableTokens = client.2.bucket.capacity) :
    Metered config (grantsOf key u.log) (newBucket config now) := by
  cases hlatest : latest u key with
  | none =>
    rw [h.none hlatest]
    exact metered_nil haccepted now
  | some client =>
    have hclient := h.some client hlatest
    exact hclient.metered.newBucket haccepted (hclient.le htime) (hfull client hlatest)

theorem Steps.ratedClient {decision : RateLimitDecision}
    (hsteps : Steps hash config u e decision u') (hrated : ∀ key, RatedClient config u key)
    (haccepted : Accepted config) (h : Kept hash config u) (h' : Kept hash config u')
    (hok : RefilledBefore hash config u e u') (key : Bytes) : RatedClient config u' key := by
  by_cases hkey : e.client = key
  · subst hkey
    have hanswered := hsteps.answered
    generalize hclients : u'.limiter.clients = clients at hanswered
    cases hanswered with
    | @known client retryAfter clients hmem hperm =>
      have hlatest := h.latest_of_mem (mem_remaining.mp hmem).1
      have hclient := (hrated e.client).some _ hlatest
      have hseen : (e.client, seen client e.now) ∈ u'.limiter.clients := by
        rw [hclients]
        exact hperm.mem_iff.mpr List.mem_cons_self
      exact hsteps.ratedClient_of_seen haccepted h' hseen hclient.metered
        (hclient.le hsteps.time) rfl
    | made hnone hroom hperm =>
      have hmetered := (hrated e.client).newBucket haccepted hsteps.time (hok hnone hroom)
      have hseen : (e.client, seen (newClient config e.now) e.now) ∈ u'.limiter.clients := by
        rw [hclients]
        exact hperm.mem_iff.mpr List.mem_cons_self
      exact hsteps.ratedClient_of_seen haccepted h' hseen hmetered (le_refl e.now) rfl
    -- nothing was granted, and no bucket has changed
    | full hnone hfull hperm =>
      apply hsteps.ratedClient_of_eq (hrated e.client)
      · apply hsteps.latest_eq h h' haccepted.2.2.1
        intro client _
        rw [hclients, hperm.mem_iff]
      · rw [hsteps.log, grantsOf_cons_self]
        rfl
  · -- the bucket of another client is kept or removed
    apply hsteps.ratedClient_of_eq (hrated key)
    · apply hsteps.latest_eq h h' haccepted.2.2.1
      intro client hclient
      exact hsteps.answered.mem_iff (by rw [hclient]; exact Ne.symm hkey)
    · rw [hsteps.log, grantsOf_cons_of_ne hkey]

/-- **Step lemma.** -/
theorem Rated.step {decision : RateLimitDecision} (hrated : Rated config u)
    (haccepted : Accepted config) (h : Kept hash config u) (h' : Kept hash config u')
    (hsteps : Steps hash config u e decision u') (hok : RefilledBefore hash config u e u') :
    Rated config u' where
  clients := hsteps.ratedClient hrated.clients haccepted h h' hok
  destroyed client hclient := by
    rw [hsteps.log]
    refine ⟨_, rfl, ?_⟩
    rw [hsteps.destroyed] at hclient
    rcases List.mem_append.mp hclient with hswept | hold
    · have hexpired := (List.mem_filter.mp hswept).2
      rw [h.configured] at hexpired
      simpa [expired] using hexpired
    · obtain ⟨checked, hchecked, hle⟩ := hrated.destroyed client hold
      have htime := hsteps.time checked hchecked
      show idleTime config ≤ e.now - client.2.lastSeen
      omega

/-- When `idle_ttl` is long enough to fill a bucket, every removed one would be full. -/
theorem Rated.refilledBefore {decision : RateLimitDecision} (hrated : Rated config u)
    (haccepted : Accepted config) (h : Kept hash config u)
    (hsteps : Steps hash config u e decision u')
    (hburst : config.burst ≤ config.requestsPerSecond * seconds (idleTime config)) :
    RefilledBefore hash config u e u' := by
  intro hnone _ client hclient
  have hgood := (hrated.clients e.client).some client hclient
  have hidle : idleTime config ≤ e.now - client.2.lastSeen := by
    rcases List.mem_append.mp (List.mem_of_find?_eq_some hclient) with hstored | hgone
    · -- a stored bucket that the check does not find is stale
      have hname : client.1 = e.client := by simpa using List.find?_some hclient
      by_contra hlive
      refine hnone client (mem_remaining.mpr ⟨hstored, fun _ => ?_⟩) hname
      rw [h.configured]
      simpa [expired] using hlive
    · obtain ⟨checked, hchecked, hle⟩ := hrated.destroyed client hgone
      have htime := hsteps.time checked hchecked
      omega
  have hgain : config.burst ≤ seconds (e.now - client.2.bucket.lastRefill) *
      config.requestsPerSecond := by
    rw [hgood.seen, mul_comm]
    exact hburst.trans (mul_le_mul_of_nonneg_left (seconds_le_iff.mpr hidle) haccepted.1.le)
  have hle := hgood.metered.le.trans_eq hgood.metered.capacity.symm
  rw [refill_availableTokens hle (hgood.le hsteps.time), hgood.metered.rate]
  apply min_eq_left
  rw [hgood.metered.capacity]
  linarith [hgood.metered.nonneg]

/-- Nothing was granted before the first check. -/
theorem rated_create {r : RateLimiter} (hclients : r.clients = []) :
    Rated config ⟨r, [], []⟩ where
  clients key :=
    { some := fun client hclient => by simp [latest, hclients] at hclient
      none := fun _ => rfl }
  destroyed client hclient := absurd hclient List.not_mem_nil

/-- **The rate bound.** In a run in which no check makes a new bucket for a client before the
    old one would be full again, no client is ever allowed more than the bound in a window. -/
theorem rate_bound (hash : Bytes → Nat) {config : RateLimitConfig} {initialTime : Int}
    {r : RateLimiter} (hcreate : create config initialTime = .ok r)
    (hclient : config.perClient = true) (checks : List Check)
    (hok : Machine.EachStep (step hash) (RefilledBefore hash config) ⟨r, [], []⟩ checks) :
    Machine.Always (step hash) (WithinRate config) ⟨r, [], []⟩ checks := by
  obtain ⟨haccepted, hkept⟩ := kept_create hash hcreate hclient
  have hrated : Rated config ⟨r, [], []⟩ := rated_create hkept.clients_nil
  apply Machine.always_of_eachStep (fun u => Kept hash config u ∧ Rated config u) _ _
    ⟨hkept, hrated⟩ hok
  · exact fun u hu => hu.2.withinRate haccepted
  · intro u e u' hu hok' hstep
    obtain ⟨hkept', decision, hsteps⟩ := hu.1.step hclient haccepted.2.2.1 hstep
    exact ⟨hkept', hu.2.step haccepted hu.1 hkept' hsteps hok'⟩

/-- Two requests at once and one a second, forgotten after 10 ms. -/
def shortTtl : RateLimitConfig :=
  { requestsPerSecond := 1, burst := 2, perClient := true, shardCount := 1, maxKeys := 4,
    idleTtl := 10 }

def shortTtlLimiter : RateLimiter := { config := shortTtl, shards := [[]] }

/-- Two requests, and two more after a pause. -/
def twoBursts (pause : Int) : List Check :=
  [⟨bytes "a", 0⟩, ⟨bytes "a", 0⟩, ⟨bytes "a", pause⟩, ⟨bytes "a", pause⟩]

/-- After two seconds the bucket would be full anyway. -/
theorem rate_bound_longPause :
    Machine.Always (step fun _ => 0) (WithinRate shortTtl) ⟨shortTtlLimiter, [], []⟩
      (twoBursts 2000000000) :=
  have hcreate : create shortTtl 0 = .ok shortTtlLimiter := by decide +kernel
  rate_bound (fun _ => 0) hcreate rfl _ (by decide +kernel)

/-- After 10 ms a new bucket is full when the old one would be empty. -/
theorem rate_exceeded :
    ¬ Machine.Always (step fun _ => 0) (WithinRate shortTtl) ⟨shortTtlLimiter, [], []⟩
      (twoBursts 10000000) := by
  intro h
  have hcount : (Machine.run (step fun _ => 0) ⟨shortTtlLimiter, [], []⟩ (twoBursts 10000000)).map
      (fun u => allowedBetween u.log (bytes "a") 0 10000000) = some 4 := by decide +kernel
  obtain ⟨u, hrun, hfour⟩ := Option.map_eq_some_iff.mp hcount
  have hwithin := h.last u hrun (bytes "a") 0 10000000 (by decide)
  rw [hfour] at hwithin
  norm_num [shortTtl, seconds] at hwithin

/-- With an `idle_ttl` that is long enough to fill a bucket the bound holds in every run. -/
theorem rate_bound_of_burst_le (hash : Bytes → Nat) {config : RateLimitConfig}
    {initialTime : Int} {r : RateLimiter} (hcreate : create config initialTime = .ok r)
    (hclient : config.perClient = true)
    (hburst : config.burst ≤ config.requestsPerSecond * seconds (idleTime config))
    (checks : List Check) :
    Machine.Always (step hash) (WithinRate config) ⟨r, [], []⟩ checks := by
  obtain ⟨haccepted, hkept⟩ := kept_create hash hcreate hclient
  have hrated : Rated config ⟨r, [], []⟩ := rated_create hkept.clients_nil
  apply Machine.always_of_invariant (fun u => Kept hash config u ∧ Rated config u) _ _ checks
    ⟨hkept, hrated⟩
  · exact fun u hu => hu.2.withinRate haccepted
  · intro u e u' hu hstep
    obtain ⟨hkept', decision, hsteps⟩ := hu.1.step hclient haccepted.2.2.1 hstep
    have hok := hu.2.refilledBefore haccepted hu.1 hsteps hburst
    exact ⟨hkept', hu.2.step haccepted hu.1 hkept' hsteps hok⟩

end PulseGate.RateLimiter
