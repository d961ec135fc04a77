import PulseGate.Http.RateLimiterSteps
import Mathlib.Data.List.Perm.Subperm

namespace PulseGate.RateLimiter

/-!
# Which clients use up the key capacity

`key_count_` counts the buckets of all shards, but a check sweeps the shard of its own client
only.  Stale clients of other shards keep their places.

* `exhausted_iff` — a client is turned away for live clients only, in exactly the runs in
  which no other shard holds a stale client whenever a check finds the capacity used up.
-/

variable {hash : Bytes → Nat} {config : RateLimitConfig} {u u' : Used} {e : Check}

/-- Other clients, as many as `max_keys`, were each checked less than `idle_ttl` ago, and it
    is their live buckets that use the capacity. -/
def FullOfLive (config : RateLimitConfig) (u : Used) (e : Check) : Prop :=
  ∃ keys : List Bytes, keys.Nodup ∧ config.maxKeys ≤ keys.length ∧ ∀ key ∈ keys,
    key ≠ e.client ∧
    (∃ earlier ∈ u.log, earlier.client = key ∧
      e.now - earlier.now < milliseconds config.idleTtl) ∧
    ∃ client ∈ u.limiter.clients, client.1 = key ∧ expired config e.now client.2 = false

/-- When a check is answered with `key_capacity_exhausted`, its client has no live bucket, and
    the capacity is full of others. -/
def RejectsForLive (config : RateLimitConfig) (u : Used) (e : Check) (u' : Used) : Prop :=
  ∀ checked ∈ u'.log.head?, checked.decision.keyCapacityExhausted = true →
    (∀ client ∈ u.limiter.clients, client.1 = e.client → expired config e.now client.2 = true) ∧
      FullOfLive config u e

/-- When a check finds no bucket and no room for one, the other shards hold no stale client. -/
def OthersLive (hash : Bytes → Nat) (config : RateLimitConfig) (u : Used) (e : Check)
    (_ : Used) : Prop :=
  (∀ client ∈ remaining hash u.limiter e.client e.now, client.1 ≠ e.client) →
    config.maxKeys ≤ (remaining hash u.limiter e.client e.now).length →
      ∀ client ∈ u.limiter.clients,
        u.limiter.shardFor hash client.1 ≠ u.limiter.shardFor hash e.client →
          expired config e.now client.2 = false

instance decidableOthersLive (hash : Bytes → Nat) (config : RateLimitConfig) (u : Used)
    (e : Check) (u' : Used) : Decidable (OthersLive hash config u e u') :=
  inferInstanceAs (Decidable ((∀ client ∈ remaining hash u.limiter e.client e.now, _) → _ →
    ∀ client ∈ u.limiter.clients, _ → _))

/-- With no stale client left, the remaining ones are those the capacity is for. -/
theorem Kept.live_of_others (h : Kept hash config u)
    (hnone : ∀ client ∈ remaining hash u.limiter e.client e.now, client.1 ≠ e.client)
    (hfull : config.maxKeys ≤ (remaining hash u.limiter e.client e.now).length)
    (hothers : ∀ client ∈ u.limiter.clients,
      u.limiter.shardFor hash client.1 ≠ u.limiter.shardFor hash e.client →
        expired config e.now client.2 = false)
    (hidle : 0 < config.idleTtl) : FullOfLive config u e := by
  refine ⟨(remaining hash u.limiter e.client e.now).map Prod.fst,
    h.keys.sublist (List.filter_sublist.map _), by rwa [List.length_map], ?_⟩
  intro key hkey
  obtain ⟨client, hclient, rfl⟩ := List.mem_map.mp hkey
  obtain ⟨hmem, hown⟩ := mem_remaining.mp hclient
  rw [h.configured] at hown
  have hlive : expired config e.now client.2 = false := by
    by_cases hshard : u.limiter.shardFor hash client.1 = u.limiter.shardFor hash e.client
    · exact hown hshard
    · exact hothers client hmem hshard
  obtain ⟨earlier, hearlier, hname, hseen⟩ := h.logged client hmem
  refine ⟨hnone client hclient, ⟨earlier, hearlier, hname, ?_⟩, client, hmem, rfl, hlive⟩
  rw [hseen]
  have hlate : e.now - client.2.lastSeen < idleTime config := by simpa [expired] using hlive
  exact hlate.trans_le (idleTime_le hidle)

/-- A stale client that remains takes a place that no live client has. -/
theorem Kept.others_of_live (h : Kept hash config u) (hfull : FullOfLive config u e) :
    ∀ client ∈ u.limiter.clients,
      u.limiter.shardFor hash client.1 ≠ u.limiter.shardFor hash e.client →
        expired config e.now client.2 = false := by
  intro client hclient hshard
  by_contra hstale
  rw [Bool.not_eq_false] at hstale
  obtain ⟨keys, hnodup, hlength, hlive⟩ := hfull
  let live := u.limiter.clients.filter fun client => !expired config e.now client.2
  have hkeys : keys.length ≤ live.length := by
    have hsubset : keys ⊆ live.map Prod.fst := by
      intro key hkey
      obtain ⟨-, -, other, hother, rfl, hother'⟩ := hlive key hkey
      exact List.mem_map_of_mem (List.mem_filter.mpr ⟨hother, by simpa using hother'⟩)
    rw [← List.length_map (f := Prod.fst)]
    exact (List.subperm_of_subset hnodup hsubset).length_le
  -- the live clients are fewer than the stored ones
  have hfewer : live.length < u.limiter.clients.length := by
    apply List.length_filter_lt_length_iff_exists.mpr
    exact ⟨client, hclient, by simp [hstale]⟩
  have hcount := h.count
  have hcapacity := h.capacity
  omega

/-- The two conditions agree on every check. -/
theorem Kept.rejectsForLive_iff (h : Kept hash config u) (hidle : 0 < config.idleTtl)
    {decision : RateLimitDecision} (hsteps : Steps hash config u e decision u') :
    RejectsForLive config u e u' ↔ OthersLive hash config u e u' := by
  have hhead : u'.log.head? =
      some { client := e.client, now := e.now, decision := decision } := by
    rw [hsteps.log, List.head?_cons]
  have hrejects : RejectsForLive config u e u' ↔
      (decision.keyCapacityExhausted = true →
        (∀ client ∈ u.limiter.clients, client.1 = e.client →
          expired config e.now client.2 = true) ∧ FullOfLive config u e) := by
    rw [RejectsForLive, hhead]
    simp
  rw [hrejects]
  cases hsteps.answered with
  | known hmem hclients =>
    refine ⟨fun _ hnone => ?_, fun _ h => absurd h (by simp)⟩
    exact absurd rfl (hnone _ hmem)
  | made hnone hroom hclients =>
    refine ⟨fun _ _ hfull => ?_, fun _ h => absurd h (by simp)⟩
    omega
  -- rejected for want of a place: the clients that remain fill the limit
  | full hnone hfull hclients =>
    constructor
    · intro hrejected _ _
      exact h.others_of_live (hrejected rfl).2
    · intro hothers _
      refine ⟨?_, h.live_of_others hnone hfull (hothers hnone hfull) hidle⟩
      intro client hclient hname
      by_contra hlive
      rw [Bool.not_eq_true] at hlive
      rw [← h.configured] at hlive
      exact hnone client (mem_remaining.mpr ⟨hclient, fun _ => hlive⟩) hname

/-- **Which rejections are for live clients.** -/
theorem exhausted_iff (hash : Bytes → Nat) {config : RateLimitConfig} {initialTime : Int}
    {r : RateLimiter} (hcreate : create config initialTime = .ok r)
    (hclient : config.perClient = true) (checks : List Check) :
    Machine.EachStep (step hash) (RejectsForLive config) ⟨r, [], []⟩ checks ↔
      Machine.EachStep (step hash) (OthersLive hash config) ⟨r, [], []⟩ checks := by
  obtain ⟨haccepted, hkept⟩ := kept_create hash hcreate hclient
  apply Machine.eachStep_congr (Kept hash config) _ checks hkept
  intro u e u' hu hu'
  obtain ⟨hu'', decision, hsteps⟩ := hu.step hclient haccepted.2.2.1 hu'
  exact ⟨hu'', hu.rejectsForLive_iff haccepted.2.2.2.2 hsteps⟩

/-- Room for one client, for 10 ms. -/
def oneClient : RateLimitConfig :=
  { requestsPerSecond := 1, burst := 1, perClient := true, shardCount := 2, maxKeys := 1,
    idleTtl := 10 }

def oneClientLimiter : RateLimiter := { config := oneClient, shards := [[], []] }

/-- The second client comes too early, and again when the first one has gone. -/
def twoClients : List Check :=
  [⟨bytes "192.0.2.1", 0⟩, ⟨bytes "192.0.2.2", 0⟩, ⟨bytes "192.0.2.2", 10000000⟩]

/-- A hash that puts all clients in one shard. -/
theorem exhausted_iff_sameShard :
    Machine.EachStep (step fun _ => 0) (RejectsForLive oneClient) ⟨oneClientLimiter, [], []⟩
      twoClients :=
  have hcreate : create oneClient 0 = .ok oneClientLimiter := by decide +kernel
  (exhausted_iff (fun _ => 0) hcreate rfl twoClients).mpr (by decide +kernel)

/-- A hash that tells the two clients apart. -/
def lastByte (key : Bytes) : Nat := (key.getLast?.getD 0).toNat

/-- The limiter when both clients have been checked for the first time. -/
def firstClientIn : Used :=
  { limiter :=
      { oneClientLimiter with
        shards := [[], [(bytes "192.0.2.1", { bucket := ⟨1, 1, 0, 0⟩, lastSeen := 0 })]],
        keyCount := 1,
        stats := { allowed := 1, rejected := 1, rejectedKeyCapacity := 1 } },
    log := [⟨bytes "192.0.2.2", 0, ⟨false, 1000, true⟩⟩, ⟨bytes "192.0.2.1", 0, ⟨true, 0, false⟩⟩] }

/-- With the clients in two shards the second one is turned away for a client that is gone. -/
theorem exhausted_stale :
    ¬ Machine.EachStep (step lastByte) (RejectsForLive oneClient) ⟨oneClientLimiter, [], []⟩
      twoClients := by
  intro h
  let late : Check := ⟨bytes "192.0.2.2", 10000000⟩
  have hrun : Machine.run (step lastByte) ⟨oneClientLimiter, [], []⟩ (twoClients.take 2) =
      some firstClientIn := by decide +kernel
  cases hstep : step lastByte firstClientIn late with
  | none => exact absurd hstep (by decide +kernel)
  | some u' =>
    have hanswer : (step lastByte firstClientIn late).bind (·.log.head?) =
        some ⟨bytes "192.0.2.2", 10000000, ⟨false, 1000, true⟩⟩ := by decide +kernel
    rw [hstep, Option.bind_some] at hanswer
    have hsplit : Machine.EachStep (step lastByte) (RejectsForLive oneClient)
        ⟨oneClientLimiter, [], []⟩ (twoClients.take 2 ++ late :: []) := h
    obtain ⟨-, keys, -, hlength, hlive⟩ := hsplit.at_step hrun hstep _ hanswer rfl
    -- no client at all was checked in the last 10 ms
    have hlong : ∀ earlier ∈ firstClientIn.log,
        ¬ late.now - earlier.now < milliseconds oneClient.idleTtl := by decide
    cases keys with
    | nil => exact absurd hlength (by decide)
    | cons key keys =>
      obtain ⟨-, ⟨earlier, hearlier, -, hrecent⟩, -⟩ := hlive key List.mem_cons_self
      exact hlong earlier hearlier hrecent

end PulseGate.RateLimiter
