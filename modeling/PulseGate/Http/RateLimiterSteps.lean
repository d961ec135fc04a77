import PulseGate.Lib.Keyed
import PulseGate.Lib.Sharded
import PulseGate.Http.RateLimiter

namespace PulseGate

/-!
# What a check does

All that is stored of the clients is `RateLimiter.clients`, and `Answered` says how a check
changes it: the bucket of the client is found, or made, or the number of clients is full.

* `Kept.step` — every check of a limiter in use is answered so, and `Kept` is kept.
-/

namespace TokenBucket

@[simp] theorem refill_ratePerSecond (b : TokenBucket) (now : Int) :
    (b.refill now).ratePerSecond = b.ratePerSecond := by
  unfold refill
  split <;> rfl

@[simp] theorem refill_capacity (b : TokenBucket) (now : Int) :
    (b.refill now).capacity = b.capacity := by
  unfold refill
  split <;> rfl

theorem le_lastRefill_refill (b : TokenBucket) (now : Int) : now ≤ (b.refill now).lastRefill := by
  unfold refill
  split
  · assumption
  · exact le_refl now

theorem refill_of_le {b : TokenBucket} {now : Int} (h : now ≤ b.lastRefill) : b.refill now = b :=
  if_pos h

/-- A grant with the bucket refilled once. -/
theorem grant_eq (b : TokenBucket) (tokens : ℚ) (now : Int) :
    b.grant tokens now =
      if (b.refill now).availableTokens < tokens then (false, b.refill now)
      else (true, { b.refill now with
        availableTokens := (b.refill now).availableTokens - tokens }) := rfl

@[simp] theorem grant_ratePerSecond (b : TokenBucket) (tokens : ℚ) (now : Int) :
    (b.grant tokens now).2.ratePerSecond = b.ratePerSecond := by
  rw [grant_eq]
  split <;> simp

@[simp] theorem grant_capacity (b : TokenBucket) (tokens : ℚ) (now : Int) :
    (b.grant tokens now).2.capacity = b.capacity := by
  rw [grant_eq]
  split <;> simp

@[simp] theorem grant_lastRefill (b : TokenBucket) (tokens : ℚ) (now : Int) :
    (b.grant tokens now).2.lastRefill = (b.refill now).lastRefill := by
  rw [grant_eq]
  split <;> rfl

/-- Asking for the delay after a grant leaves the bucket as it is. -/
theorem delay_grant (b : TokenBucket) (tokens tokens' : ℚ) (now : Int) :
    ((b.grant tokens now).2.delay tokens' now).2 = (b.grant tokens now).2 := by
  have hrefill : (b.grant tokens now).2.refill now = (b.grant tokens now).2 := by
    apply refill_of_le
    rw [grant_lastRefill]
    exact le_lastRefill_refill b now
  have hdelay : ∀ c : TokenBucket, (c.delay tokens' now).2 = c.refill now := by
    intro c
    show (if tokens' ≤ (c.refill now).availableTokens then _ else _ : Int × TokenBucket).2 = _
    split <;> rfl
  rw [hdelay, hrefill]

end TokenBucket

namespace RateLimiter

variable {hash : Bytes → Nat} {config : RateLimitConfig} {r : RateLimiter} {key : Bytes}
  {now : Int}

/-- All clients that have a bucket. -/
def clients (r : RateLimiter) : List (Bytes × ClientBucket) := r.shards.flatten

/-- What is left of the clients when the shard of the key has been swept. -/
def remaining (hash : Bytes → Nat) (r : RateLimiter) (key : Bytes) (now : Int) :
    List (Bytes × ClientBucket) :=
  r.clients.filter fun client =>
    !(r.shardFor hash client.1 = r.shardFor hash key && expired r.config now client.2)

/-- The clients that the sweep removes. -/
def swept (hash : Bytes → Nat) (r : RateLimiter) (key : Bytes) (now : Int) :
    List (Bytes × ClientBucket) :=
  (r.shard hash key).filter fun client => expired r.config now client.2

/-- The client after a check. -/
def seen (client : ClientBucket) (now : Int) : ClientBucket :=
  { bucket := (client.bucket.grant 1 now).2, lastSeen := now }

def newClient (config : RateLimitConfig) (now : Int) : ClientBucket :=
  { bucket := newBucket config now, lastSeen := now }

theorem mem_remaining {client : Bytes × ClientBucket} :
    client ∈ remaining hash r key now ↔ client ∈ r.clients ∧
      (r.shardFor hash client.1 = r.shardFor hash key → expired r.config now client.2 = false) := by
  rw [remaining, List.mem_filter, imp_iff_not_or]
  simp

/-- The answer to a check, and the clients there are after it. -/
inductive Answered (config : RateLimitConfig) (remaining : List (Bytes × ClientBucket))
    (key : Bytes) (now : Int) : RateLimitDecision → List (Bytes × ClientBucket) → Prop
  | known {client : ClientBucket} {retryAfter : Int} {clients : List (Bytes × ClientBucket)}
      (hmem : (key, client) ∈ remaining)
      (hclients : clients.Perm ((key, seen client now) :: remaining.filter (·.1 ≠ key))) :
      Answered config remaining key now
        { allowed := (client.bucket.grant 1 now).1, retryAfter := retryAfter } clients
  | made {retryAfter : Int} {clients : List (Bytes × ClientBucket)}
      (hnone : ∀ client ∈ remaining, client.1 ≠ key) (hroom : remaining.length < config.maxKeys)
      (hclients : clients.Perm ((key, seen (newClient config now) now) :: remaining)) :
      Answered config remaining key now
        { allowed := ((newBucket config now).grant 1 now).1, retryAfter := retryAfter } clients
  | full {clients : List (Bytes × ClientBucket)}
      (hnone : ∀ client ∈ remaining, client.1 ≠ key) (hfull : config.maxKeys ≤ remaining.length)
      (hclients : clients.Perm remaining) :
      Answered config remaining key now
        { allowed := false, retryAfter := 1000, keyCapacityExhausted := true } clients

/-- What holds of a limiter in use between two checks. -/
structure Kept (hash : Bytes → Nat) (config : RateLimitConfig) (u : Used) : Prop where
  configured : u.limiter.config = config
  shards : u.limiter.shards.length = config.shardCount
  placed : Sharded.Placed (fun client => hash client.1 % config.shardCount) u.limiter.shards
  keys : (u.limiter.clients.map Prod.fst).Nodup
  count : u.limiter.keyCount = u.limiter.clients.length
  capacity : u.limiter.keyCount ≤ config.maxKeys
  /-- A stored client was checked when it was last seen. -/
  logged : ∀ client ∈ u.limiter.clients, ∃ checked ∈ u.log, checked.client = client.1 ∧
    checked.now = client.2.lastSeen

/-! ### The parts of a check -/

theorem useBucket_eq (hash : Bytes → Nat) (r : RateLimiter) (key : Bytes) (client : ClientBucket)
    (now : Int) :
    ∃ retryAfter, r.useBucket hash key client now =
      ({ allowed := (client.bucket.grant 1 now).1, retryAfter := retryAfter },
       { r with shards := r.shards.set (r.shardFor hash key)
                  ((key, seen client now) :: (r.shard hash key).filter (·.1 ≠ key)) }) := by
  unfold useBucket seen
  cases hgrant : client.bucket.grant 1 now with
  | mk allowed bucket =>
    cases allowed with
    | true => exact ⟨0, rfl⟩
    | false =>
      have hdelay := TokenBucket.delay_grant client.bucket 1 1 now
      rw [hgrant] at hdelay
      refine ⟨(bucket.delay 1 now).1, ?_⟩
      simp only [Bool.false_eq_true, if_false, hdelay]

section Shard

variable {s : List (Bytes × ClientBucket)}

/-- The clients in other shards than the one of the key. -/
def elsewhere (hash : Bytes → Nat) (r : RateLimiter) (key : Bytes) :
    List (Bytes × ClientBucket) :=
  r.clients.filter fun client => r.shardFor hash client.1 ≠ r.shardFor hash key

theorem ne_of_mem_elsewhere {client : Bytes × ClientBucket}
    (h : client ∈ elsewhere hash r key) : client.1 ≠ key := by
  rintro rfl
  simpa using (List.mem_filter.mp h).2

/-- The clients that remain are those the sweep keeps and those elsewhere. -/
theorem remaining_perm (hplaced : Sharded.Placed (fun client => r.shardFor hash client.1) r.shards)
    (hs : r.shards[r.shardFor hash key]? = some s) (now : Int) :
    (remaining hash r key now).Perm
      (s.filter (fun client => !expired r.config now client.2) ++ elsewhere hash r key) := by
  have hown := hplaced.filter_eq hs
  have hsplit := List.filter_append_perm
    (fun client => decide (r.shardFor hash client.1 = r.shardFor hash key))
    (remaining hash r key now)
  have hkept : (remaining hash r key now).filter
      (fun client => decide (r.shardFor hash client.1 = r.shardFor hash key)) =
        s.filter fun client => !expired r.config now client.2 := by
    rw [← hown, remaining, List.filter_filter, List.filter_filter]
    apply List.filter_congr
    intro client _
    by_cases h : r.shardFor hash client.1 = r.shardFor hash key <;> simp [h]
  have hrest : (remaining hash r key now).filter
      (fun client => !decide (r.shardFor hash client.1 = r.shardFor hash key)) =
        elsewhere hash r key := by
    rw [remaining, elsewhere, List.filter_filter]
    apply List.filter_congr
    intro client _
    by_cases h : r.shardFor hash client.1 = r.shardFor hash key <;> simp [h]
  rw [hkept, hrest] at hsplit
  exact hsplit.symm

theorem shard_eq (hs : r.shards[r.shardFor hash key]? = some s) : r.shard hash key = s := by
  rw [shard, List.getD_eq_getElem?_getD, hs, Option.getD_some]

/-- What a check of a known client, or of a new one, makes of the clients that remain. -/
theorem used_perm (hplaced : Sharded.Placed (fun client => r.shardFor hash client.1) r.shards)
    (hs : r.shards[r.shardFor hash key]? = some s) (now : Int) (client : ClientBucket) :
    (r.shards.set (r.shardFor hash key) ((key, client) ::
        (s.filter fun client => !expired r.config now client.2).filter (·.1 ≠ key))).flatten.Perm
      ((key, client) :: (remaining hash r key now).filter (·.1 ≠ key)) := by
  have hothers : (elsewhere hash r key).filter (·.1 ≠ key) = elsewhere hash r key :=
    List.filter_eq_self.mpr fun client h => by simpa using ne_of_mem_elsewhere h
  have hfilter := (remaining_perm hplaced hs now).filter (·.1 ≠ key)
  rw [List.filter_append, hothers] at hfilter
  exact (hplaced.set_perm hs _).trans (hfilter.symm.cons _)

/-- The sweep removes the stale clients of the shard. -/
theorem swept_eq (hplaced : Sharded.Placed (fun client => r.shardFor hash client.1) r.shards)
    (hs : r.shards[r.shardFor hash key]? = some s) (now : Int) :
    swept hash r key now = r.clients.filter fun client =>
      r.shardFor hash client.1 = r.shardFor hash key && expired r.config now client.2 := by
  rw [swept, shard_eq hs, ← hplaced.filter_eq hs, List.filter_filter, clients]
  apply List.filter_congr
  intro client _
  exact Bool.and_comm _ _

/-- **One check.** -/
theorem checkClient_spec {clientKey : Bytes} (hkey : clientName clientKey = key)
    (hplaced : Sharded.Placed (fun client => r.shardFor hash client.1) r.shards)
    (hs : r.shards[r.shardFor hash key]? = some s) (hkeys : (r.clients.map Prod.fst).Nodup)
    (hcount : r.keyCount = r.clients.length) (now : Int) :
    ∃ decision r', r.checkClient hash clientKey now = (decision, r') ∧
      Answered r.config (remaining hash r key now) key now decision r'.clients ∧
      r'.config = r.config ∧ r'.shards.length = r.shards.length ∧
      Sharded.Placed (fun client => r.shardFor hash client.1) r'.shards ∧
      r'.keyCount = r'.clients.length := by
  -- the sweep comes first, and leaves the clients that remain
  let kept := s.filter fun client => !expired r.config now client.2
  let r₁ : RateLimiter := { r with
    shards := r.shards.set (r.shardFor hash key) kept,
    keyCount := r.keyCount - (s.length - kept.length) }
  have hpruned : r.pruneExpired hash key now = r₁ := by rw [pruneExpired, shard_eq hs]
  have hlt : r.shardFor hash key < r.shards.length := (List.getElem?_eq_some_iff.mp hs).1
  have hfor : ∀ k, r₁.shardFor hash k = r.shardFor hash k := by
    intro k
    rw [shardFor, shardFor, List.length_set]
  have hs₁ : r₁.shards[r.shardFor hash key]? = some kept := List.getElem?_set_self hlt
  have hshard : r₁.shard hash key = kept := shard_eq (by rw [hfor]; exact hs₁)
  have hremaining := remaining_perm hplaced hs now
  have hclients : r₁.clients.Perm (remaining hash r key now) :=
    (hplaced.set_perm hs kept).trans hremaining.symm
  have hcount₁ : r₁.keyCount = (remaining hash r key now).length := by
    have hall := (hplaced.perm hs).length_eq
    have hpart := hremaining.length_eq
    have hle : kept.length ≤ s.length := List.length_filter_le _ s
    rw [List.length_append] at hall hpart
    show r.keyCount - (s.length - kept.length) = _
    rw [hcount, clients, hall, hpart]
    show s.length + (elsewhere hash r key).length - _ = kept.length + _
    omega
  -- what a used bucket does to its shard and to the number of clients
  have hplace : ∀ client ∈ kept, r.shardFor hash client.1 = r.shardFor hash key :=
    fun client h => hplaced _ s hs client (List.mem_of_mem_filter h)
  have hplaced' : ∀ client : ClientBucket, Sharded.Placed
      (fun client => r.shardFor hash client.1)
      (r.shards.set (r.shardFor hash key) ((key, client) :: kept.filter (·.1 ≠ key))) := by
    intro client
    apply hplaced.set
    intro other hother
    rcases List.mem_cons.mp hother with rfl | hother
    · rfl
    · exact hplace other (List.mem_of_mem_filter hother)
  rw [checkClient, hkey, hpruned, hshard]
  cases hfind : kept.find? (·.1 = key) with
  | some found =>
    obtain ⟨name, client⟩ := found
    obtain rfl : name = key := by simpa using List.find?_some hfind
    have hmem : (name, client) ∈ remaining hash r name now :=
      hremaining.mem_iff.mpr (List.mem_append_left _ (List.mem_of_find?_eq_some hfind))
    obtain ⟨retryAfter, huse⟩ := useBucket_eq hash r₁ name client now
    rw [hfor, hshard, List.set_set] at huse
    have hused := used_perm hplaced hs now (seen client now)
    have hlength : r₁.keyCount =
        (r.shards.set (r.shardFor hash name)
          ((name, seen client now) :: kept.filter (·.1 ≠ name))).flatten.length := by
      have hnodup : ((remaining hash r name now).map Prod.fst).Nodup :=
        hkeys.sublist (List.filter_sublist.map _)
      rw [hused.length_eq, hcount₁, (Keyed.perm_cons_filter hnodup hmem).length_eq]
      rfl
    exact ⟨_, _, huse, .known hmem hused, rfl, List.length_set .., hplaced' _, hlength⟩
  | none =>
    have hnone : ∀ client ∈ remaining hash r key now, client.1 ≠ key := by
      intro client hclient
      rcases List.mem_append.mp (hremaining.mem_iff.mp hclient) with hclient | hclient
      · simpa using List.find?_eq_none.mp hfind client hclient
      · exact ne_of_mem_elsewhere hclient
    by_cases hfull : r₁.config.maxKeys ≤ r₁.keyCount
    · have hanswer : Answered r.config (remaining hash r key now) key now _ r₁.clients :=
        .full hnone (hcount₁ ▸ hfull) hclients
      refine ⟨_, r₁, if_pos hfull, hanswer, rfl, List.length_set .., hplaced.set hplace, ?_⟩
      rw [hcount₁, hclients.length_eq]
    · obtain ⟨retryAfter, huse⟩ :=
        useBucket_eq hash { r₁ with keyCount := r₁.keyCount + 1 } key (newClient r.config now) now
      have hshard' : ({ r₁ with keyCount := r₁.keyCount + 1 } : RateLimiter).shard hash key =
          kept := hshard
      have hfor' : ({ r₁ with keyCount := r₁.keyCount + 1 } : RateLimiter).shardFor hash key =
          r.shardFor hash key := hfor key
      rw [hfor', hshard', List.set_set] at huse
      have hused := used_perm hplaced hs now (seen (newClient r.config now) now)
      have hall : (remaining hash r key now).filter (·.1 ≠ key) = remaining hash r key now :=
        List.filter_eq_self.mpr fun client h => by simpa using hnone client h
      rw [hall] at hused
      refine ⟨_, _, (if_neg hfull).trans huse, .made hnone ?_ hused, rfl, List.length_set ..,
        hplaced' _, ?_⟩
      · rw [← hcount₁]
        exact not_le.mp hfull
      · show r₁.keyCount + 1 = _
        rw [hcount₁]
        exact hused.length_eq.symm

end Shard

/-! ### From one check to the next -/

section Answered

variable {decision : RateLimitDecision} {left clients : List (Bytes × ClientBucket)}

/-- A client after a check was checked just now, or remained. -/
theorem Answered.mem (h : Answered config left key now decision clients)
    {client : Bytes × ClientBucket} (hclient : client ∈ clients) :
    (client.1 = key ∧ client.2.lastSeen = now) ∨ client ∈ left := by
  cases h with
  | known hmem hclients =>
    rcases List.mem_cons.mp (hclients.mem_iff.mp hclient) with rfl | hother
    · exact .inl ⟨rfl, rfl⟩
    · exact .inr (List.mem_of_mem_filter hother)
  | made hnone hroom hclients =>
    rcases List.mem_cons.mp (hclients.mem_iff.mp hclient) with rfl | hother
    · exact .inl ⟨rfl, rfl⟩
    · exact .inr hother
  | full hnone hfull hclients => exact .inr (hclients.mem_iff.mp hclient)

/-- Other clients are there after the check when they remained. -/
theorem Answered.mem_iff (h : Answered config left key now decision clients)
    {client : Bytes × ClientBucket} (hne : client.1 ≠ key) :
    client ∈ clients ↔ client ∈ left := by
  have hhead : ∀ c : ClientBucket, client ≠ (key, c) := fun c heq => hne (congrArg Prod.fst heq)
  cases h with
  | known hmem hclients => simp [hclients.mem_iff, hhead, hne]
  | made hnone hroom hclients => simp [hclients.mem_iff, hhead]
  | full hnone hfull hclients => exact hclients.mem_iff

theorem Answered.keys (h : Answered config left key now decision clients)
    (hkeys : (left.map Prod.fst).Nodup) : (clients.map Prod.fst).Nodup := by
  -- a list without the key takes the client of the key in
  have hcons : ∀ (others : List (Bytes × ClientBucket)) (client : ClientBucket),
      (others.map Prod.fst).Nodup → (∀ other ∈ others, other.1 ≠ key) →
        (((key, client) :: others).map Prod.fst).Nodup := by
    intro others client hothers hne
    refine List.nodup_cons.mpr ⟨?_, hothers⟩
    intro hmem
    obtain ⟨other, hother, heq⟩ := List.mem_map.mp hmem
    exact hne other hother heq
  cases h with
  | known hmem hclients =>
    rw [(hclients.map _).nodup_iff]
    apply hcons _ _ (hkeys.sublist (List.filter_sublist.map _))
    exact fun other hother => by simpa using (List.mem_filter.mp hother).2
  | made hnone hroom hclients =>
    rw [(hclients.map _).nodup_iff]
    exact hcons _ _ hkeys hnone
  | full hnone hfull hclients =>
    rw [(hclients.map _).nodup_iff]
    exact hkeys

theorem Answered.length_le (h : Answered config left key now decision clients)
    (hkeys : (left.map Prod.fst).Nodup) (hleft : left.length ≤ config.maxKeys) :
    clients.length ≤ config.maxKeys := by
  cases h with
  | known hmem hclients =>
    rw [(Keyed.perm_cons_filter hkeys hmem).length_eq, List.length_cons] at hleft
    rw [hclients.length_eq]
    exact hleft
  | made hnone hroom hclients =>
    rw [hclients.length_eq]
    exact hroom
  | full hnone hfull hclients =>
    rw [hclients.length_eq]
    exact hleft

end Answered

@[simp] theorem record_config (r : RateLimiter) (decision : RateLimitDecision) :
    (r.record decision).config = r.config := by
  unfold record
  split <;> rfl

@[simp] theorem record_shards (r : RateLimiter) (decision : RateLimitDecision) :
    (r.record decision).shards = r.shards := by
  unfold record
  split <;> rfl

@[simp] theorem record_keyCount (r : RateLimiter) (decision : RateLimitDecision) :
    (r.record decision).keyCount = r.keyCount := by
  unfold record
  split <;> rfl

variable {u u' : Used} {e : Check}

/-- The client of a check. -/
abbrev Check.client (e : Check) : Bytes := clientName e.clientKey

/-- What a check changes in a limiter in use. -/
structure Steps (hash : Bytes → Nat) (config : RateLimitConfig) (u : Used) (e : Check)
    (decision : RateLimitDecision) (u' : Used) : Prop where
  time : ∀ checked ∈ u.log.head?, checked.now ≤ e.now
  answered : Answered config (remaining hash u.limiter e.client e.now) e.client e.now decision
    u'.limiter.clients
  log : u'.log = { client := e.client, now := e.now, decision := decision } :: u.log
  destroyed : u'.destroyed = swept hash u.limiter e.client e.now ++ u.destroyed

/-- The shard of a key, and that all clients are in the shards of their keys. -/
theorem Kept.shard (h : Kept hash config u) (hshards : config.shardCount ≠ 0) (key : Bytes) :
    Sharded.Placed (fun client => u.limiter.shardFor hash client.1) u.limiter.shards ∧
      ∃ s, u.limiter.shards[u.limiter.shardFor hash key]? = some s := by
  have hlt : u.limiter.shardFor hash key < u.limiter.shards.length :=
    Nat.mod_lt _ (by rw [h.shards]; exact Nat.pos_of_ne_zero hshards)
  have hplaced := h.placed
  rw [← h.shards] at hplaced
  exact ⟨hplaced, _, List.getElem?_eq_getElem hlt⟩

/-- **Step lemma.** -/
theorem Kept.step (h : Kept hash config u) (hclient : config.perClient = true)
    (hshards : config.shardCount ≠ 0) (hstep : step hash u e = some u') :
    Kept hash config u' ∧ ∃ decision, Steps hash config u e decision u' := by
  have htime : u.log.head?.all (·.now ≤ e.now) = true := by
    by_contra hlate
    simp [RateLimiter.step, hlate] at hstep
  obtain ⟨hplaced, s, hs⟩ := h.shard hshards e.client
  obtain ⟨decision, r', hcheck, hanswered, hconfig, hlength, hplaced', hcount⟩ :=
    checkClient_spec (rfl : clientName e.clientKey = e.client) hplaced hs h.keys h.count e.now
  -- the state after the check, with its line of the log
  have hu' : u' =
      { limiter := r'.record decision,
        log := { client := e.client, now := e.now, decision := decision } :: u.log,
        destroyed := swept hash u.limiter e.client e.now ++ u.destroyed } := by
    have hcheck' : u.limiter.check hash e.clientKey e.now = (decision, r'.record decision) := by
      simp only [check, h.configured, hclient, if_true, hcheck]
    simp only [RateLimiter.step, htime, if_true, hcheck', Option.some.injEq] at hstep
    exact hstep.symm
  rw [h.configured] at hanswered
  have hclients : u'.limiter.clients = r'.clients := by
    rw [hu', clients, record_shards]
    rfl
  have hkeys : ((remaining hash u.limiter e.client e.now).map Prod.fst).Nodup :=
    h.keys.sublist (List.filter_sublist.map _)
  have hle : (remaining hash u.limiter e.client e.now).length ≤ config.maxKeys :=
    (List.length_filter_le _ _).trans (h.count ▸ h.capacity)
  refine ⟨?_, decision, ?_, hclients ▸ hanswered, by rw [hu'], by rw [hu']⟩
  · refine ⟨?_, ?_, ?_, ?_, ?_, ?_, ?_⟩
    · rw [hu', record_config, hconfig, h.configured]
    · rw [hu', record_shards, hlength, h.shards]
    · rw [hu', record_shards, ← h.shards]
      exact hplaced'
    · rw [hclients]
      exact hanswered.keys hkeys
    · rw [hclients, hu', record_keyCount, hcount]
    · rw [hu', record_keyCount, hcount]
      exact hanswered.length_le hkeys hle
    · -- a client in the shard is the one just seen, or was logged before
      intro client hmem
      rw [hclients] at hmem
      rw [hu']
      rcases hanswered.mem hmem with ⟨hkey, hseen⟩ | hold
      · exact ⟨_, List.mem_cons_self, hkey.symm, hseen.symm⟩
      · obtain ⟨checked, hchecked, hlogged⟩ := h.logged client (List.mem_of_mem_filter hold)
        exact ⟨checked, List.mem_cons_of_mem _ hchecked, hlogged⟩
  · intro checked hhead
    have hhead' : u.log.head? = some checked := hhead
    simpa [hhead'] using htime

/-- Before the first check there are no clients. -/
theorem Kept.clients_nil (h : Kept hash config ⟨r, [], []⟩) : r.clients = [] := by
  apply List.eq_nil_iff_forall_not_mem.mpr
  intro client hclient
  obtain ⟨checked, hchecked, -⟩ := h.logged client hclient
  exact absurd hchecked List.not_mem_nil

/-- The constructor makes a limiter without clients. -/
theorem kept_create (hash : Bytes → Nat) {initialTime : Int}
    (hcreate : create config initialTime = .ok r)
    (hclient : config.perClient = true) : Accepted config ∧ Kept hash config ⟨r, [], []⟩ := by
  by_cases haccepted : Accepted config
  · simp only [create, haccepted, not_true, if_false, hclient, if_true] at hcreate
    split at hcreate
    · cases hcreate
    have hnil :
        (List.replicate config.shardCount ([] : List (Bytes × ClientBucket))).flatten = [] :=
      List.flatten_eq_nil_iff.mpr fun s hs => (List.mem_replicate.mp hs).2
    obtain rfl := Except.ok.inj hcreate
    refine ⟨haccepted, rfl, List.length_replicate, Sharded.placed_replicate _ _, ?_, ?_, ?_, ?_⟩
    · simp [clients, hnil]
    · simp [clients, hnil]
    · exact Nat.zero_le _
    · intro client hmem
      simp [clients, hnil] at hmem
  · simp [create, haccepted] at hcreate

end RateLimiter
end PulseGate
