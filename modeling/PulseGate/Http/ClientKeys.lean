import PulseGate.Lib.BoundedCounter
import PulseGate.Http.RateLimiterSteps

namespace PulseGate

/-!
# The number of client keys

`checkClient` in any number of threads.  A thread holds the mutex of its shard from `lock` on;
what it does to the shard no other thread sees, but `key_count_` is shared by all shards.  So
one step is one access to `key_count_`, with what the thread has done to its shard since the
last one, or the taking of a mutex.

* `client_keys_accounted` — the counter is the number of the stored buckets and of the places
  that are reserved for one.
-/

/-- Where a thread is in `checkClient`. -/
inductive CheckPoint
  | idle
  /-- In `pruneExpired`. -/
  | sweeping (key : Bytes) (now : Int)
  | reserving (key : Bytes) (now : Int) (attempt : BoundedCounter.Attempt)
  /-- Counted, and about to allocate the bucket. -/
  | storing (key : Bytes) (now : Int)
  /-- The bucket is there. -/
  | deciding (key : Bytes) (now : Int)
  deriving DecidableEq, Repr

namespace CheckPoint

/-- The key whose shard the thread has locked. -/
def key : CheckPoint → Option Bytes
  | .idle => none
  | .sweeping key _ | .reserving key _ _ | .storing key _ | .deciding key _ => some key

/-- The thread holds a place for a bucket that is not stored yet. -/
def reserved : CheckPoint → Bool
  | .storing .. => true
  | _ => false

end CheckPoint

/-- A limiter and the threads that use it, with the answers it gave, the latest first. -/
structure SharedLimiter where
  limiter : RateLimiter
  threads : List CheckPoint
  answers : List RateLimitDecision := []
  deriving DecidableEq, Repr

namespace SharedLimiter

/-- What a thread does in `checkClient`. -/
inductive Action
  /-- The sweep comes to a stale client. -/
  | erase (client : Bytes × ClientBucket)
  /-- The sweep is over, and the key is looked for. -/
  | find
  | access (a : BoundedCounter.Access)
  | store
  /-- An allocation throws. -/
  | raise
  | decide
  deriving DecidableEq, Repr

inductive Event
  /-- A thread calls `checkClient` and takes the mutex. -/
  | lock (i : Nat) (clientKey : Bytes) (now : Int)
  | run (i : Nat) (action : Action)
  deriving DecidableEq, Repr

section

variable (hash : Bytes → Nat)

/-- Some thread holds the mutex of the shard of a key. -/
def locked (s : SharedLimiter) (key : Bytes) : Bool :=
  s.threads.any fun t => t.key.any fun key' =>
    s.limiter.shardFor hash key' == s.limiter.shardFor hash key

/-- The shard of a key holds no stale client any more. -/
def isSwept (s : SharedLimiter) (key : Bytes) (now : Int) : Bool :=
  (s.limiter.shard hash key).all fun client =>
    !RateLimiter.expired s.limiter.config now client.2

/-- A limiter with other buckets in the shard of a key. -/
def setShard (r : RateLimiter) (key : Bytes) (buckets : List (Bytes × ClientBucket))
    (keyCount : Nat) : RateLimiter :=
  { r with shards := r.shards.set (r.shardFor hash key) buckets, keyCount := keyCount }

/-- A thread goes on, and the limiter is as it has left it. -/
def moves (s : SharedLimiter) (i : Nat) (next : CheckPoint) (limiter : RateLimiter) :
    SharedLimiter :=
  { s with limiter := limiter, threads := s.threads.set i next }

/-- A thread leaves `checkClient` with an answer. -/
def answer (s : SharedLimiter) (i : Nat) (decision : RateLimitDecision) (limiter : RateLimiter) :
    SharedLimiter :=
  { limiter := limiter.record decision, threads := s.threads.set i .idle,
    answers := decision :: s.answers }

/-- The step of a thread that is in `checkClient`. -/
def run (s : SharedLimiter) (i : Nat) : CheckPoint → Action → Option SharedLimiter
  | .sweeping key now, .erase client =>
    if client ∈ s.limiter.shard hash key ∧
        RateLimiter.expired s.limiter.config now client.2 = true then
      some (s.moves i (.sweeping key now) (setShard hash s.limiter key
        ((s.limiter.shard hash key).filter (·.1 ≠ client.1))
        (BoundedCounter.fetchSub sizeModulus s.limiter.keyCount)))
    else none
  | .sweeping key now, .find =>
    if s.isSwept hash key now then
      if ((s.limiter.shard hash key).find? (·.1 = key)).isSome then
        some (s.moves i (.deciding key now) s.limiter)
      else some (s.moves i (.reserving key now .loading) s.limiter)
    else none
  -- the copy of the key, made after the sweep
  | .sweeping key now, .raise =>
    if s.isSwept hash key now then some (s.moves i .idle s.limiter) else none
  | .reserving key now attempt, .access a =>
    (BoundedCounter.access s.limiter.config.maxKeys s.limiter.keyCount attempt a).map
      fun (keyCount, attempt') =>
        let limiter := { s.limiter with keyCount := keyCount }
        match attempt' with
        | .full =>
          s.answer i { allowed := false, retryAfter := 1000, keyCapacityExhausted := true } limiter
        | .counted => s.moves i (.storing key now) limiter
        | attempt' => s.moves i (.reserving key now attempt') limiter
  | .storing key now, .store =>
    some (s.moves i (.deciding key now) (setShard hash s.limiter key
      ((key, { bucket := RateLimiter.newBucket s.limiter.config now, lastSeen := now }) ::
        s.limiter.shard hash key)
      s.limiter.keyCount))
  | .storing _ _, .raise =>
    some (s.moves i .idle
      { s.limiter with keyCount := BoundedCounter.fetchSub sizeModulus s.limiter.keyCount })
  | .deciding key now, .decide =>
    ((s.limiter.shard hash key).find? (·.1 = key)).map fun client =>
      let (decision, limiter) := s.limiter.useBucket hash key client.2 now
      s.answer i decision limiter
  | _, _ => none

def step (s : SharedLimiter) : Event → Option SharedLimiter
  | .lock i clientKey now =>
    let key := RateLimiter.clientName clientKey
    match s.threads[i]? with
    | some .idle =>
      if s.locked hash key then none else some (s.moves i (.sweeping key now) s.limiter)
    | _ => none
  | .run i action => s.threads[i]?.bind fun t => s.run hash i t action

end

/-- A limiter that no thread has used. -/
def init (limiter : RateLimiter) (threads : Nat) : SharedLimiter :=
  { limiter := limiter, threads := List.replicate threads .idle }

/-! ### The accounts -/

/-- The places that are reserved for a bucket. -/
def reservations (s : SharedLimiter) : Nat := s.threads.countP (·.reserved)

/-- The counter is right, within the capacity, and no key has two buckets. -/
structure KeysAccounted (config : RateLimitConfig) (s : SharedLimiter) : Prop where
  count : s.limiter.keyCount = s.limiter.clients.length + s.reservations
  capacity : s.limiter.keyCount ≤ config.maxKeys
  keys : (s.limiter.clients.map Prod.fst).Nodup

/-- What is subtracted from the counter was counted. -/
def NoUnderflow (s : SharedLimiter) (e : Event) (_ : SharedLimiter) : Prop :=
  match e with
  | .run _ (.erase _) => s.limiter.keyCount ≠ 0
  | .run i .raise =>
    ∀ t, s.threads[i]? = some t → t.reserved = true → s.limiter.keyCount ≠ 0
  | _ => True

/-! ### Between two steps -/

end SharedLimiter

/-- What a thread relies on, in the shard that it has locked. -/
def CheckPoint.Fits (hash : Bytes → Nat) (r : RateLimiter) : CheckPoint → Prop
  | .reserving key _ attempt =>
    attempt.Valid r.config.maxKeys ∧ (r.shard hash key).find? (·.1 = key) = none
  | .storing key _ => (r.shard hash key).find? (·.1 = key) = none
  | .deciding key _ => ((r.shard hash key).find? (·.1 = key)).isSome = true
  | _ => True

theorem CheckPoint.Fits.congr {hash : Bytes → Nat} {r r' : RateLimiter} {t : CheckPoint}
    (h : t.Fits hash r) (hconfig : r'.config = r.config)
    (hshard : ∀ key, t.key = some key → r'.shard hash key = r.shard hash key) :
    t.Fits hash r' := by
  cases t with
  | idle | sweeping _ _ => trivial
  | reserving key now attempt | storing key now | deciding key now =>
    simp only [Fits, hconfig, hshard key rfl] at h ⊢
    exact h

namespace SharedLimiter

/-- What holds between two steps. -/
structure KeysInv (hash : Bytes → Nat) (config : RateLimitConfig) (s : SharedLimiter) : Prop where
  configured : s.limiter.config = config
  shards : s.limiter.shards.length = config.shardCount
  placed : Sharded.Placed (fun client => s.limiter.shardFor hash client.1) s.limiter.shards
  buckets : ∀ shard ∈ s.limiter.shards, (shard.map Prod.fst).Nodup
  count : s.limiter.keyCount = s.limiter.clients.length + s.reservations
  capacity : s.limiter.keyCount ≤ config.maxKeys
  /-- A mutex has one holder. -/
  exclusive : ∀ (i j : Nat) (t t' : CheckPoint) (key key' : Bytes),
    s.threads[i]? = some t → s.threads[j]? = some t' → t.key = some key → t'.key = some key' →
      s.limiter.shardFor hash key = s.limiter.shardFor hash key' → i = j
  fits : ∀ t ∈ s.threads, t.Fits hash s.limiter

variable {hash : Bytes → Nat} {config : RateLimitConfig} {s s' : SharedLimiter} {i : Nat}
  {t next : CheckPoint} {key : Bytes} {limiter : RateLimiter}

theorem KeysInv.shard (h : KeysInv hash config s) (hshards : config.shardCount ≠ 0)
    (key : Bytes) :
    s.limiter.shards[s.limiter.shardFor hash key]? = some (s.limiter.shard hash key) := by
  have hlt : s.limiter.shardFor hash key < s.limiter.shards.length :=
    Nat.mod_lt _ (by rw [h.shards]; exact Nat.pos_of_ne_zero hshards)
  rw [RateLimiter.shard_eq (List.getElem?_eq_getElem hlt)]
  exact List.getElem?_eq_getElem hlt

/-- What a thread has made of the shard that it has locked. -/
structure Touched (hash : Bytes → Nat) (r : RateLimiter) (key : Bytes)
    (buckets : List (Bytes × ClientBucket)) (r' : RateLimiter) : Prop where
  config : r'.config = r.config
  shards : r'.shards = r.shards.set (r.shardFor hash key) buckets
  placed : ∀ client ∈ buckets, r.shardFor hash client.1 = r.shardFor hash key
  keys : (buckets.map Prod.fst).Nodup

theorem Touched.shardFor {buckets : List (Bytes × ClientBucket)} {r r' : RateLimiter}
    (h : Touched hash r key buckets r') (other : Bytes) :
    r'.shardFor hash other = r.shardFor hash other := by
  rw [RateLimiter.shardFor, RateLimiter.shardFor, h.shards, List.length_set]

/-- Other shards are as they were. -/
theorem Touched.shard {buckets : List (Bytes × ClientBucket)} {r r' : RateLimiter}
    (h : Touched hash r key buckets r') {other : Bytes}
    (hother : r.shardFor hash key ≠ r.shardFor hash other) :
    r'.shard hash other = r.shard hash other := by
  rw [RateLimiter.shard, RateLimiter.shard, h.shardFor, h.shards, List.getD_eq_getElem?_getD,
    List.getD_eq_getElem?_getD, List.getElem?_set_ne hother]

theorem Touched.shard_self {buckets : List (Bytes × ClientBucket)} {r r' : RateLimiter}
    (h : Touched hash r key buckets r') (hlt : r.shardFor hash key < r.shards.length) :
    r'.shard hash key = buckets := by
  apply RateLimiter.shard_eq
  rw [h.shardFor, h.shards]
  exact List.getElem?_set_self hlt

/-- A limiter whose shards are as they were. -/
theorem KeysInv.untouched (h : KeysInv hash config s) (hshards : config.shardCount ≠ 0)
    (key : Bytes) (hconfig : limiter.config = s.limiter.config)
    (hsame : limiter.shards = s.limiter.shards) :
    Touched hash s.limiter key (s.limiter.shard hash key) limiter := by
  have hshard := h.shard hshards key
  obtain ⟨hlt, hget⟩ := List.getElem?_eq_some_iff.mp hshard
  refine ⟨hconfig, ?_, h.placed _ _ hshard, h.buckets _ (List.mem_of_getElem? hshard)⟩
  rw [hsame, ← hget, List.set_getElem_self]

/-- **Step lemma.** A thread changes its own shard, and counts as it stores and reserves. -/
theorem KeysInv.moves (h : KeysInv hash config s) (hshards : config.shardCount ≠ 0)
    (hthread : s.threads[i]? = some t) (hkey : t.key = some key)
    (hnext : next = .idle ∨ next.key = some key)
    (buckets : List (Bytes × ClientBucket))
    (htouched : Touched hash s.limiter key buckets limiter)
    (hcount : limiter.keyCount + t.reserved.toNat + (s.limiter.shard hash key).length =
      s.limiter.keyCount + next.reserved.toNat + buckets.length)
    (hcapacity : limiter.keyCount ≤ config.maxKeys) (hfits : next.Fits hash limiter)
    (answers : List RateLimitDecision) :
    KeysInv hash config ⟨limiter, s.threads.set i next, answers⟩ := by
  have hshard := h.shard hshards key
  have hlt := (List.getElem?_eq_some_iff.mp hthread).1
  -- a thread of the new state has a key that it had before
  have hbefore : ∀ (j : Nat) (t' : CheckPoint) (key' : Bytes),
      (s.threads.set i next)[j]? = some t' → t'.key = some key' →
      ∃ t'', s.threads[j]? = some t'' ∧ t''.key = some key' := by
    intro j t' key' ht' hkey'
    by_cases hij : i = j
    · subst hij
      rw [List.getElem?_set_self hlt, Option.some.injEq] at ht'
      subst ht'
      refine ⟨t, hthread, ?_⟩
      rcases hnext with rfl | hnext
      · cases hkey'
      · rw [hkey, ← hnext, hkey']
    · rw [List.getElem?_set_ne hij] at ht'
      exact ⟨t', ht', hkey'⟩
  refine ⟨htouched.config.trans h.configured, ?_, ?_, ?_, ?_, hcapacity, ?_, ?_⟩
  · rw [htouched.shards, List.length_set]
    exact h.shards
  · simp only [htouched.shardFor]
    rw [htouched.shards]
    exact h.placed.set htouched.placed
  · rw [htouched.shards]
    intro shard hmem
    rcases List.mem_or_eq_of_mem_set hmem with hmem | rfl
    · exact h.buckets shard hmem
    · exact htouched.keys
  · have hall := (h.placed.perm hshard).length_eq
    have hnew := (h.placed.set_perm hshard buckets).length_eq
    rw [List.length_append] at hall hnew
    have hreserved := BoundedCounter.countP_set (·.reserved) hthread next
    have hold := h.count
    rw [RateLimiter.clients, hall] at hold
    show limiter.keyCount = limiter.shards.flatten.length + (s.threads.set i next).countP _
    rw [htouched.shards, hnew]
    unfold reservations at hold
    omega
  · intro i' j t₁ t₂ key₁ key₂ ht₁ ht₂ hkey₁ hkey₂ hsame
    obtain ⟨t₁', ht₁', hkey₁'⟩ := hbefore i' t₁ key₁ ht₁ hkey₁
    obtain ⟨t₂', ht₂', hkey₂'⟩ := hbefore j t₂ key₂ ht₂ hkey₂
    rw [htouched.shardFor, htouched.shardFor] at hsame
    exact h.exclusive i' j t₁' t₂' key₁ key₂ ht₁' ht₂' hkey₁' hkey₂' hsame
  · intro t' ht'
    obtain ⟨j, ht'⟩ := List.mem_iff_getElem?.mp ht'
    by_cases hij : i = j
    · subst hij
      rw [List.getElem?_set_self hlt, Option.some.injEq] at ht'
      exact ht' ▸ hfits
    · rw [List.getElem?_set_ne hij] at ht'
      refine (h.fits t' (List.mem_of_getElem? ht')).congr htouched.config fun key' hkey' => ?_
      exact htouched.shard fun hsame =>
        hij (h.exclusive i j t t' key key' hthread ht' hkey hkey' hsame)

/-- A thread goes on, and leaves the shards as they are. -/
theorem KeysInv.goes_on (h : KeysInv hash config s) (hshards : config.shardCount ≠ 0)
    (hthread : s.threads[i]? = some t) (hkey : t.key = some key) (next : CheckPoint)
    (hnext : next = .idle ∨ next.key = some key) (limiter : RateLimiter)
    (hconfig : limiter.config = s.limiter.config) (hsame : limiter.shards = s.limiter.shards)
    (hcount : limiter.keyCount + t.reserved.toNat = s.limiter.keyCount + next.reserved.toNat)
    (hcapacity : limiter.keyCount ≤ config.maxKeys) (hfits : next.Fits hash s.limiter)
    (answers : List RateLimitDecision) :
    KeysInv hash config ⟨limiter, s.threads.set i next, answers⟩ := by
  have htouched := h.untouched hshards key hconfig hsame
  apply h.moves hshards hthread hkey hnext _ htouched (by omega) hcapacity
  refine hfits.congr hconfig fun other _ => ?_
  rw [RateLimiter.shard, RateLimiter.shard, htouched.shardFor, hsame]

theorem KeysInv.stored_le (h : KeysInv hash config s) (hshards : config.shardCount ≠ 0)
    (key : Bytes) : (s.limiter.shard hash key).length ≤ s.limiter.keyCount := by
  have hall := (h.placed.perm (h.shard hshards key)).length_eq
  have hcount := h.count
  rw [List.length_append] at hall
  unfold RateLimiter.clients at hcount
  omega

theorem KeysInv.reserved_le (h : KeysInv hash config s) (hthread : s.threads[i]? = some t)
    (hreserved : t.reserved = true) : s.limiter.keyCount ≠ 0 := by
  have hpos : 0 < s.threads.countP (·.reserved) :=
    List.countP_pos_iff.mpr ⟨t, List.mem_of_getElem? hthread, hreserved⟩
  have hcount := h.count
  unfold reservations at hcount
  omega

/-- The sweep erases a stale client, and gives back its place. -/
theorem KeysInv.erases (h : KeysInv hash config s) (hshards : config.shardCount ≠ 0) {now : Int}
    (hthread : s.threads[i]? = some (.sweeping key now)) {client : Bytes × ClientBucket}
    (hmem : client ∈ s.limiter.shard hash key) :
    s.limiter.keyCount ≠ 0 ∧
      KeysInv hash config (s.moves i (.sweeping key now) (setShard hash s.limiter key
        ((s.limiter.shard hash key).filter (·.1 ≠ client.1))
        (BoundedCounter.fetchSub sizeModulus s.limiter.keyCount))) := by
  have hshard := h.shard hshards key
  have hkeys := h.buckets _ (List.mem_of_getElem? hshard)
  have hlength := (Keyed.perm_cons_filter hkeys hmem).length_eq
  rw [List.length_cons] at hlength
  have hstored := h.stored_le hshards key
  -- the client that goes is stored, so that it was counted
  have hne : s.limiter.keyCount ≠ 0 := by omega
  have hsub := BoundedCounter.fetchSub_add_one sizeModulus hne
  refine ⟨hne, ?_⟩
  apply h.moves hshards hthread rfl (.inr rfl)
    ((s.limiter.shard hash key).filter (·.1 ≠ client.1))
  · exact ⟨rfl, rfl, fun other hother => h.placed _ _ hshard other (List.mem_of_mem_filter hother),
      hkeys.sublist (List.filter_sublist.map _)⟩
  · show BoundedCounter.fetchSub _ _ + _ + _ = _
    generalize BoundedCounter.fetchSub sizeModulus s.limiter.keyCount = less at hsub
    omega
  · have hcapacity := h.capacity
    show BoundedCounter.fetchSub _ _ ≤ _
    generalize BoundedCounter.fetchSub sizeModulus s.limiter.keyCount = less at hsub
    omega
  · trivial

/-- A thread that has reserved a place stores a bucket in it. -/
theorem KeysInv.stores (h : KeysInv hash config s) (hshards : config.shardCount ≠ 0) {now : Int}
    (hthread : s.threads[i]? = some (.storing key now)) (client : ClientBucket) :
    KeysInv hash config (s.moves i (.deciding key now) (setShard hash s.limiter key
      ((key, client) :: s.limiter.shard hash key) s.limiter.keyCount)) := by
  have hshard := h.shard hshards key
  have hfresh : (s.limiter.shard hash key).find? (·.1 = key) = none :=
    h.fits _ (List.mem_of_getElem? hthread)
  have htouched : Touched hash s.limiter key ((key, client) :: s.limiter.shard hash key)
      (setShard hash s.limiter key ((key, client) :: s.limiter.shard hash key)
        s.limiter.keyCount) := by
    refine ⟨rfl, rfl, ?_, ?_⟩
    · intro other hother
      rcases List.mem_cons.mp hother with rfl | hother
      · rfl
      · exact h.placed _ _ hshard other hother
    · rw [List.map_cons, List.nodup_cons]
      exact ⟨Keyed.find?_eq_none_iff.mp hfresh, h.buckets _ (List.mem_of_getElem? hshard)⟩
  apply h.moves hshards hthread rfl (.inr rfl) _ htouched
  · show s.limiter.keyCount + 1 + _ = s.limiter.keyCount + 0 + (_ + 1)
    omega
  · exact h.capacity
  · show (List.find? _ (RateLimiter.shard hash _ key)).isSome = true
    rw [htouched.shard_self (List.getElem?_eq_some_iff.mp hshard).1,
      List.find?_cons_of_pos (by simp)]
    rfl

/-- A thread takes a token, or finds none, and leaves. -/
theorem KeysInv.decides (h : KeysInv hash config s) (hshards : config.shardCount ≠ 0) {now : Int}
    (hthread : s.threads[i]? = some (.deciding key now)) {client : Bytes × ClientBucket}
    (hfind : (s.limiter.shard hash key).find? (·.1 = key) = some client) :
    KeysInv hash config (s.answer i (s.limiter.useBucket hash key client.2 now).1
      (s.limiter.useBucket hash key client.2 now).2) := by
  have hshard := h.shard hshards key
  have hkeys := h.buckets _ (List.mem_of_getElem? hshard)
  have hname : client.1 = key := by simpa using List.find?_some hfind
  -- the client is replaced, and the shard keeps its length
  have hlength := (Keyed.perm_cons_filter hkeys (List.mem_of_find?_eq_some hfind)).length_eq
  rw [List.length_cons, hname] at hlength
  obtain ⟨retryAfter, huse⟩ := RateLimiter.useBucket_eq hash s.limiter key client.2 now
  rw [huse]
  apply h.moves hshards hthread rfl (.inl rfl)
    ((key, RateLimiter.seen client.2 now) :: (s.limiter.shard hash key).filter (·.1 ≠ key))
  · refine ⟨?_, ?_, ?_, ?_⟩
    · rw [RateLimiter.record_config]
    · rw [RateLimiter.record_shards]
    · intro other hother
      rcases List.mem_cons.mp hother with rfl | hother
      · rfl
      · exact h.placed _ _ hshard other (List.mem_of_mem_filter hother)
    · rw [List.map_cons, List.nodup_cons]
      refine ⟨fun hmem => ?_, hkeys.sublist (List.filter_sublist.map _)⟩
      obtain ⟨other, hother, hsame⟩ := List.mem_map.mp hmem
      exact absurd hsame (by simpa using (List.mem_filter.mp hother).2)
  · rw [RateLimiter.record_keyCount]
    show s.limiter.keyCount + 0 + _ = s.limiter.keyCount + 0 + (_ + 1)
    omega
  · rw [RateLimiter.record_keyCount]
    exact h.capacity
  · trivial

/-- A thread takes a mutex that no other thread holds. -/
theorem KeysInv.locks (h : KeysInv hash config s) (hthread : s.threads[i]? = some .idle)
    (hfree : s.locked hash key = false) (now : Int) :
    KeysInv hash config (s.moves i (.sweeping key now) s.limiter) := by
  have hlt := (List.getElem?_eq_some_iff.mp hthread).1
  -- no other thread holds a key of this shard
  have hother : ∀ (j : Nat) (t' : CheckPoint) (key' : Bytes), s.threads[j]? = some t' →
      t'.key = some key' → s.limiter.shardFor hash key' ≠ s.limiter.shardFor hash key := by
    intro j t' key' ht' hkey' hsame
    have hlocked := List.any_eq_false.mp hfree t' (List.mem_of_getElem? ht')
    rw [hkey'] at hlocked
    exact hlocked (beq_iff_eq.mpr hsame)
  refine ⟨h.configured, h.shards, h.placed, h.buckets, ?_, h.capacity, ?_, ?_⟩
  · have hreserved := BoundedCounter.countP_set (·.reserved) hthread (.sweeping key now)
    have hcount := h.count
    show s.limiter.keyCount = _ + (s.threads.set i _).countP _
    rw [show (s.threads.set i (.sweeping key now)).countP (·.reserved) =
      s.threads.countP (·.reserved) from hreserved]
    exact hcount
  · intro j k t₁ t₂ key₁ key₂ ht₁ ht₂ hkey₁ hkey₂ hsame
    have ht₁ : (s.threads.set i (.sweeping key now))[j]? = some t₁ := ht₁
    have ht₂ : (s.threads.set i (.sweeping key now))[k]? = some t₂ := ht₂
    have hsame : s.limiter.shardFor hash key₁ = s.limiter.shardFor hash key₂ := hsame
    by_cases hij : i = j <;> by_cases hik : i = k
    · exact hij.symm.trans hik
    · subst hij
      rw [List.getElem?_set_self hlt, Option.some.injEq] at ht₁
      rw [List.getElem?_set_ne hik] at ht₂
      obtain rfl : key = key₁ := by rw [← ht₁] at hkey₁; exact Option.some.inj hkey₁
      exact absurd hsame.symm (hother k t₂ key₂ ht₂ hkey₂)
    · subst hik
      rw [List.getElem?_set_self hlt, Option.some.injEq] at ht₂
      rw [List.getElem?_set_ne hij] at ht₁
      obtain rfl : key = key₂ := by rw [← ht₂] at hkey₂; exact Option.some.inj hkey₂
      exact absurd hsame (hother j t₁ key₁ ht₁ hkey₁)
    · rw [List.getElem?_set_ne hij] at ht₁
      rw [List.getElem?_set_ne hik] at ht₂
      exact h.exclusive j k t₁ t₂ key₁ key₂ ht₁ ht₂ hkey₁ hkey₂ hsame
  · intro t' ht'
    rcases List.mem_or_eq_of_mem_set ht' with ht' | rfl
    · exact h.fits t' ht'
    · trivial

/-- **Step lemma.** -/
theorem KeysInv.run (h : KeysInv hash config s) (hshards : config.shardCount ≠ 0)
    (hthread : s.threads[i]? = some t) {action : Action}
    (hrun : s.run hash i t action = some s') :
    s.NoUnderflow (.run i action) s' ∧ KeysInv hash config s' := by
  have hcapacity := h.capacity
  unfold SharedLimiter.run at hrun
  split at hrun
  · -- the sweep erases a client
    next key now client =>
    split at hrun
    · next hmem =>
      obtain rfl := Option.some.inj hrun
      exact h.erases hshards hthread hmem.1
    · cases hrun
  · -- the lookup: an unknown key goes on to reserve its place
    next key now =>
    refine ⟨trivial, ?_⟩
    split at hrun
    · split at hrun
      · next hfound =>
        obtain rfl := Option.some.inj hrun
        exact h.goes_on hshards hthread rfl (.deciding key now) (.inr rfl) s.limiter rfl rfl rfl
          hcapacity hfound _
      · next hfound =>
        obtain rfl := Option.some.inj hrun
        rw [Bool.not_eq_true, Option.isSome_eq_false_iff, Option.isNone_iff_eq_none] at hfound
        exact h.goes_on hshards hthread rfl (.reserving key now .loading) (.inr rfl)
          s.limiter rfl rfl
          rfl hcapacity ⟨trivial, hfound⟩ _
    · cases hrun
  · -- the copy of the key throws after the sweep
    next key now =>
    refine ⟨fun t' ht' hreserved => h.reserved_le ht' hreserved, ?_⟩
    split at hrun
    · obtain rfl := Option.some.inj hrun
      exact h.goes_on hshards hthread rfl .idle (.inl rfl) s.limiter rfl rfl rfl hcapacity trivial _
    · cases hrun
  · -- the loop over the counter
    next key now attempt a =>
    refine ⟨trivial, ?_⟩
    obtain ⟨hvalid, hfresh⟩ : CheckPoint.Fits hash s.limiter (.reserving key now attempt) :=
      h.fits _ (List.mem_of_getElem? hthread)
    obtain ⟨⟨keyCount, attempt'⟩, haccess, rfl⟩ := Option.map_eq_some_iff.mp hrun
    rw [h.configured] at hvalid haccess
    -- it reads again, takes a place, or finds the limit full
    obtain ⟨-, hcases⟩ := BoundedCounter.access_cases hvalid haccess
    rcases hcases with ⟨rfl, hroom, rfl⟩ | ⟨rfl, hroom, rfl⟩ | ⟨rfl, hfull, rfl⟩
    · have hfits : CheckPoint.Fits hash s.limiter
          (.reserving key now (.looping s.limiter.keyCount)) := by
        refine ⟨?_, hfresh⟩
        rw [h.configured]
        exact hroom
      exact h.goes_on hshards hthread rfl (.reserving key now (.looping s.limiter.keyCount))
        (.inr rfl) { s.limiter with keyCount := s.limiter.keyCount } rfl rfl rfl hcapacity hfits _
    · exact h.goes_on hshards hthread rfl (.storing key now) (.inr rfl)
        { s.limiter with keyCount := s.limiter.keyCount + 1 } rfl rfl rfl hroom hfresh _
    · apply h.goes_on hshards hthread rfl .idle (.inl rfl) _ _ _ _ _ trivial
      · rw [RateLimiter.record_config]
      · rw [RateLimiter.record_shards]
      · rw [RateLimiter.record_keyCount]
        rfl
      · rw [RateLimiter.record_keyCount]
        exact hcapacity
  · obtain rfl := Option.some.inj hrun
    exact ⟨trivial, h.stores hshards hthread _⟩
  · -- the allocation throws, and the place is given back
    next key now =>
    obtain rfl := Option.some.inj hrun
    have hne := h.reserved_le hthread rfl
    have hsub := BoundedCounter.fetchSub_add_one sizeModulus hne
    refine ⟨fun _ _ _ => hne, ?_⟩
    generalize BoundedCounter.fetchSub sizeModulus s.limiter.keyCount = less at hsub
    have hless : less ≤ config.maxKeys := by omega
    exact h.goes_on hshards hthread rfl .idle (.inl rfl) { s.limiter with keyCount := less } rfl rfl
      hsub hless trivial _
  · next key now =>
    refine ⟨trivial, ?_⟩
    obtain ⟨client, hfind, rfl⟩ := Option.map_eq_some_iff.mp hrun
    exact h.decides hshards hthread hfind
  · cases hrun

theorem KeysInv.step (h : KeysInv hash config s) (hshards : config.shardCount ≠ 0) {e : Event}
    (hstep : s.step hash e = some s') : s.NoUnderflow e s' ∧ KeysInv hash config s' := by
  cases e with
  | lock i clientKey now =>
    simp only [SharedLimiter.step] at hstep
    split at hstep
    · next hthread =>
      split at hstep
      · cases hstep
      · next hfree =>
        obtain rfl := Option.some.inj hstep
        exact ⟨trivial, h.locks hthread (Bool.eq_false_iff.mpr hfree) now⟩
    · cases hstep
  | run i action =>
    obtain ⟨t, hthread, hrun⟩ := Option.bind_eq_some_iff.mp hstep
    exact h.run hshards hthread hrun

/-- A key is in one shard, and there once. -/
theorem KeysInv.accounted (h : KeysInv hash config s) : KeysAccounted config s := by
  refine ⟨h.count, h.capacity, h.placed.nodup_map (fun x y hsame => ?_) h.buckets⟩
  show s.limiter.shardFor hash x.1 = s.limiter.shardFor hash y.1
  rw [hsame]

theorem keysInv_init (hash : Bytes → Nat) {initialTime : Int} {r : RateLimiter}
    (hcreate : RateLimiter.create config initialTime = .ok r) (hclient : config.perClient = true)
    (threads : Nat) : config.shardCount ≠ 0 ∧ KeysInv hash config (init r threads) := by
  obtain ⟨haccepted, hkept⟩ := RateLimiter.kept_create hash hcreate hclient
  have hidle : ∀ t ∈ (init r threads).threads, t = .idle := fun t ht => List.eq_of_mem_replicate ht
  refine ⟨haccepted.2.2.1, hkept.configured, hkept.shards, ?_, ?_, ?_, hkept.capacity, ?_, ?_⟩
  · have hplaced := hkept.placed
    rw [← hkept.shards] at hplaced
    exact hplaced
  · intro shard hshard
    exact (hkept.keys.sublist ((List.sublist_flatten_of_mem hshard).map _))
  · have hnone : (init r threads).reservations = 0 := by
      refine List.countP_eq_zero.mpr fun t ht => ?_
      rw [hidle t ht]
      exact Bool.false_ne_true
    rw [hnone]
    exact hkept.count
  · intro i j t t' key key' ht _ hkey
    rw [hidle t (List.mem_of_getElem? ht)] at hkey
    cases hkey
  · intro t ht
    rw [hidle t ht]
    trivial

/-- **Client-key accounting.** In every run of any number of threads, the counter is the number
of the stored buckets and of the places reserved for one, no more than `max_keys`, and no key has
two buckets; and it is never decremented at zero. -/
theorem client_keys_accounted (hash : Bytes → Nat) {config : RateLimitConfig} {initialTime : Int}
    {r : RateLimiter} (hcreate : RateLimiter.create config initialTime = .ok r)
    (hclient : config.perClient = true) (threads : Nat) (events : List Event) :
    Machine.Always (step hash) (KeysAccounted config) (init r threads) events ∧
      Machine.EachStep (step hash) NoUnderflow (init r threads) events := by
  obtain ⟨hshards, hinit⟩ := keysInv_init hash hcreate hclient threads
  constructor
  · apply Machine.always_of_invariant (KeysInv hash config) (fun s h => h.accounted) _ events hinit
    exact fun s e s' h hstep => (h.step hshards hstep).2
  · apply Machine.eachStep_of_invariant (KeysInv hash config) _ events hinit
    exact fun s e s' h hstep => h.step hshards hstep

/-- Room for one client, in two shards. -/
def oneKey : RateLimitConfig :=
  { requestsPerSecond := 1, burst := 1, perClient := true, shardCount := 2, maxKeys := 1 }

/-- A hash that tells two clients apart. -/
def lastBit (key : Bytes) : Nat := (key.getLast?.getD 0).toNat % 2

/-- Two threads see room for one client.  The second one has counted before the exchange of the
    first one, whose client is turned away; then the allocation of the second one throws. -/
def twoThreads : List Event :=
  [.lock 0 (bytes "192.0.2.1") 0, .lock 1 (bytes "192.0.2.2") 0, .run 0 .find, .run 1 .find,
    .run 0 (.access .load), .run 1 (.access .load), .run 0 (.access (.exchange true)),
    .run 1 (.access (.exchange false)), .run 0 (.access (.exchange false)), .run 1 .raise]

theorem client_keys_accounted_twoThreads :
    ∃ r s, RateLimiter.create oneKey 0 = .ok r ∧
      Machine.run (step lastBit) (init r 2) twoThreads = some s ∧ KeysAccounted oneKey s ∧
      s.answers = [{ allowed := false, retryAfter := 1000, keyCapacityExhausted := true }] := by
  let r : RateLimiter := { config := oneKey, shards := [[], []] }
  have hcreate : RateLimiter.create oneKey 0 = .ok r := by decide +kernel
  have hcounts := (client_keys_accounted lastBit hcreate rfl 2 twoThreads).1
  cases hrun : Machine.run (step lastBit) (init r 2) twoThreads with
  | none => exact absurd hrun (by decide +kernel)
  | some s =>
    have hanswers : (Machine.run (step lastBit) (init r 2) twoThreads).map (·.answers) =
        some [{ allowed := false, retryAfter := 1000, keyCapacityExhausted := true }] := by
      decide +kernel
    rw [hrun, Option.map_some, Option.some.injEq] at hanswers
    exact ⟨r, s, hcreate, hrun, hcounts.last s hrun, hanswers⟩

end SharedLimiter
end PulseGate
