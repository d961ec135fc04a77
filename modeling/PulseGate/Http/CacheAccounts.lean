import PulseGate.Lib.Roster
import PulseGate.Http.ResponseCacheLru

namespace PulseGate.ResponseCache

/-!
# The statistics of the cache

What the counters of `ResponseCache::stats` say about the calls of `get` and `put` that there were,
and about the entries that are left.

* `Counts` — what one call does to the counters and to the number of entries;
* `cache_accounts` — in every run the counters are those of the answers that were given, and no
  entry is lost: what was stored is there, or was evicted, has expired, or was replaced.
-/

/-- The number of entries. -/
def entryCount (c : ResponseCache) : Nat := (c.shards.map fun s => s.lru.length).sum

def hasKey (c : ResponseCache) (key : Bytes) : Bool :=
  c.shards.any fun s => s.lru.any fun node => node.key = key

namespace Answer

def isHit : Answer → Bool
  | .got (some _) => true
  | _ => false

def isMiss : Answer → Bool
  | .got none => true
  | _ => false

def isStore : Answer → Bool
  | .stored ok => ok
  | _ => false

end Answer

def isGet : Call → Bool
  | .get _ _ => true
  | .put _ _ _ => false

/-- The call stores an entry in the place of another one. -/
def replaces (u : Used) (call : Call) (u' : Used) : Bool :=
  match call with
  | .get _ _ => false
  | .put key _ _ => u.cache.hasKey key && u'.answer == some (.stored true)

section

variable (hash : Bytes → Nat)

/-- The answers to the calls of a run. -/
def answers (u : Used) : List Call → List Answer
  | [] => []
  | call :: calls =>
    match step hash u call with
    | none => []
    | some u' => u'.answer.toList ++ answers u' calls

/-- How many entries were replaced in a run. -/
def replacements (u : Used) : List Call → Nat
  | [] => 0
  | call :: calls =>
    match step hash u call with
    | none => 0
    | some u' => (replaces u call u').toNat + replacements u' calls

end

/-- What a call does to the counters. -/
structure Counts (u : Used) (call : Call) (u' : Used) : Prop where
  answer : ∃ answer, u'.answer = some answer ∧
    u'.cache.stats.hits = u.cache.stats.hits + answer.isHit.toNat ∧
    u'.cache.stats.misses = u.cache.stats.misses + answer.isMiss.toNat ∧
    u'.cache.stats.stores = u.cache.stats.stores + answer.isStore.toNat ∧
    answer.isHit.toNat + answer.isMiss.toNat = (isGet call).toNat
  /-- Entries are stored, evicted, removed when they have expired, or replaced. -/
  entries : u'.cache.entryCount + u'.cache.stats.evictions + u'.cache.stats.expired +
      (replaces u call u').toNat + u.cache.stats.stores =
    u'.cache.stats.stores + u.cache.entryCount + u.cache.stats.evictions + u.cache.stats.expired

variable {hash : Bytes → Nat} {config : ResponseCacheConfig} {c : ResponseCache} {key : Bytes}
  {s : Shard} {u u' : Used}

theorem entryCount_set (hs : c.shards[c.shardFor hash key]? = some s) (s' : Shard)
    (stats : CacheStats) :
    entryCount { c with shards := c.shards.set (c.shardFor hash key) s', stats := stats } +
      s.lru.length = c.entryCount + s'.lru.length :=
  Roster.sum_set (fun s : Shard => s.lru.length) hs s'

/-- The loop of `put` counts the nodes that it drops. -/
theorem Shard.Consistent.evict_length (h : s.Consistent) {entryCharge evicted : Nat} {s' : Shard}
    (hevict : s.evict entryCharge = some (s', evicted)) :
    s'.lru.length + evicted = s.lru.length := by
  have hrun := Option.join_eq_some_iff.mp hevict
  refine (Loop.Ends.of_run hrun).result
    (fun t => t.1.Consistent ∧ t.1.lru.length + t.2 = s.lru.length)
    (P := fun r => ∀ t ∈ r, t.1.lru.length + t.2 = s.lru.length) ?_ ?_ ⟨h, rfl⟩ (s', evicted) rfl
  · rintro ⟨t, n⟩ t' ⟨hconsistent, hlength⟩ hnext
    simp only [Shard.evictBody] at hnext
    split at hnext
    · cases hnext
    next last hlast =>
    split at hnext
    · cases hnext
    have hmem := List.mem_of_getLast? hlast
    rw [hconsistent.erase_eq hmem] at hnext
    obtain rfl := Sum.inr.inj hnext
    obtain ⟨init, hinit⟩ := List.getLast?_eq_some_iff.mp hlast
    refine ⟨hconsistent.without hmem, ?_⟩
    simp only [hconsistent.lru_without_last hinit] at hlength ⊢
    rw [hinit, List.length_append, List.length_singleton] at hlength
    omega
  · rintro ⟨t, n⟩ r ⟨hconsistent, hlength⟩ hdone
    simp only [Shard.evictBody] at hdone
    split at hdone
    · obtain rfl := Sum.inl.inj hdone
      rintro _ ⟨⟩
      exact hlength
    next last hlast =>
    split at hdone
    · obtain rfl := Sum.inl.inj hdone
      rintro _ ⟨⟩
      exact hlength
    rw [hconsistent.erase_eq (List.mem_of_getLast? hlast)] at hdone
    cases hdone

/-- A key is in the shard that it belongs to, or in none. -/
theorem Sound.hasKey_iff (h : Sound hash config c)
    (hs : c.shards[c.shardFor hash key]? = some s) :
    c.hasKey key = true ↔ key ∈ s.lru.map (·.key) := by
  simp only [hasKey, List.any_eq_true, decide_eq_true_eq, List.mem_map]
  constructor
  · rintro ⟨t, ht, node, hnode, rfl⟩
    obtain ⟨i, hi⟩ := List.mem_iff_getElem?.mp ht
    have hplace := h.placed i t hi node hnode
    rw [hplace, hi] at hs
    exact ⟨node, Option.some.inj hs ▸ hnode, rfl⟩
  · rintro ⟨node, hnode, rfl⟩
    exact ⟨s, List.mem_of_getElem? hs, node, hnode, rfl⟩

theorem Shard.Consistent.length_filter (h : s.Consistent) {node : LruNode} (hnode : node ∈ s.lru) :
    (s.lru.filter (·.key ≠ node.key)).length + 1 = s.lru.length :=
  (Keyed.perm_cons_filter h.keys hnode).length_eq.symm

theorem counts_get (h : Sound hash config u.cache) {now : Int}
    (hstep : step hash u (.get key now) = some u') : Counts u (.get key now) u' := by
  obtain ⟨s, hs, hconsistent⟩ := h.exists_shard key
  obtain ⟨⟨response, c'⟩, hget, rfl⟩ := Option.map_eq_some_iff.mp hstep
  rcases hconsistent.cases key with ⟨hkey, hfind⟩ | ⟨node, hnode, rfl, hfind, hiterator⟩
  · rw [get, hs, Option.bind_some, hfind] at hget
    obtain ⟨rfl, rfl⟩ := Prod.mk.inj (Option.some.inj hget)
    refine ⟨⟨_, rfl, rfl, rfl, rfl, rfl⟩, ?_⟩
    show u.cache.entryCount + _ + _ + 0 + _ = _
    simp only
    omega
  · by_cases hold : node.entry.expiresAt ≤ now
    · simp only [get, hs, Option.bind_some, hfind, hiterator, if_pos hold,
        hconsistent.erase_eq hnode, Option.map_some] at hget
      obtain ⟨rfl, rfl⟩ := Prod.mk.inj (Option.some.inj hget)
      refine ⟨⟨_, rfl, rfl, rfl, rfl, rfl⟩, ?_⟩
      -- the entry that has expired is gone
      have hset := entryCount_set hs (s.without node)
        { u.cache.stats with expired := u.cache.stats.expired + 1,
                             misses := u.cache.stats.misses + 1 }
      have hlength : (s.without node).lru.length + 1 = s.lru.length :=
        hconsistent.length_filter hnode
      simp only [replaces, Bool.toNat_false] at hset ⊢
      omega
    · simp only [get, hs, Option.bind_some, hfind, hiterator, if_neg hold] at hget
      obtain ⟨rfl, rfl⟩ := Prod.mk.inj (Option.some.inj hget)
      refine ⟨⟨_, rfl, rfl, rfl, rfl, rfl⟩, ?_⟩
      have hset := entryCount_set hs (s.splice node)
        { u.cache.stats with hits := u.cache.stats.hits + 1 }
      have hlength : (s.splice node).lru.length = s.lru.length := by
        have hfilter := hconsistent.length_filter hnode
        rw [Shard.splice, Keyed.filter_ne_iff hconsistent.keys hconsistent.iterators hnode,
          List.length_cons, hfilter]
      simp only [replaces, Bool.toNat_false] at hset ⊢
      omega

theorem counts_put (h : Sound hash config u.cache) {response : HttpResponse} {now : Int}
    (hstep : step hash u (.put key response now) = some u') :
    Counts u (.put key response now) u' := by
  obtain ⟨s, hs, hconsistent⟩ := h.exists_shard key
  obtain ⟨⟨ok, c'⟩, hput, rfl⟩ := Option.map_eq_some_iff.mp hstep
  by_cases hlarge : s.maxBytes < charge key response
  · simp only [put, hs, Option.bind_some, if_pos hlarge] at hput
    obtain ⟨rfl, rfl⟩ := Prod.mk.inj (Option.some.inj hput)
    refine ⟨⟨_, rfl, rfl, rfl, rfl, rfl⟩, ?_⟩
    have hnone : replaces u (.put key response now) ⟨u.cache, some (.stored false)⟩ = false := by
      simp [replaces]
    rw [hnone]
    show _ + 0 + _ = _
    simp only
    omega
  · obtain ⟨s₁, herase, h₁, hlru₁, -⟩ := hconsistent.eraseKey key
    obtain ⟨s₂, evicted, hevict, -⟩ := h₁.evict (charge key response)
    have hevicted := h₁.evict_length hevict
    simp only [put, hs, Option.bind_some, if_neg hlarge, herase, hevict, Option.map_some] at hput
    obtain ⟨rfl, rfl⟩ := Prod.mk.inj (Option.some.inj hput)
    refine ⟨⟨_, rfl, rfl, rfl, rfl, rfl⟩, ?_⟩
    generalize CacheEntry.mk response (expiry u.cache.config now) (charge key response) = entry
    have hset := entryCount_set hs (s₂.emplace key entry)
      { u.cache.stats with evictions := u.cache.stats.evictions + evicted,
                           stores := u.cache.stats.stores + 1 }
    have hfront : (s₂.emplace key entry).lru.length = s₂.lru.length + 1 := rfl
    -- the entry of the key, if there is one, goes first
    have hreplaced : s₁.lru.length + (u.cache.hasKey key).toNat = s.lru.length := by
      have hfilter : s₁.lru = s.lru.filter (·.key ≠ key) := hlru₁
      rw [hfilter]
      cases hkey : u.cache.hasKey key with
      | false =>
        have hnone : key ∉ s.lru.map (·.key) := fun hmem => by
          rw [(h.hasKey_iff hs).mpr hmem] at hkey
          cases hkey
        refine congrArg List.length (List.filter_eq_self.mpr fun node hnode => ?_)
        exact decide_eq_true fun heq => hnone (heq ▸ List.mem_map_of_mem hnode)
      | true =>
        obtain ⟨node, hnode, rfl⟩ := List.mem_map.mp ((h.hasKey_iff hs).mp hkey)
        exact hconsistent.length_filter hnode
    simp only [replaces, beq_self_eq_true, Bool.and_true] at hset ⊢
    omega

theorem step_counts (h : Sound hash config u.cache) {call : Call}
    (hstep : step hash u call = some u') : Counts u call u' := by
  cases call with
  | get key now => exact counts_get h hstep
  | put key response now => exact counts_put h hstep

/-- What holds at the end of a run. -/
theorem run_counts (h : Sound hash config u.cache) {calls : List Call}
    (hrun : Machine.run (step hash) u calls = some u') :
    u'.cache.stats.hits = u.cache.stats.hits + (answers hash u calls).countP Answer.isHit ∧
      u'.cache.stats.misses = u.cache.stats.misses + (answers hash u calls).countP Answer.isMiss ∧
      u'.cache.stats.stores = u.cache.stats.stores + (answers hash u calls).countP Answer.isStore ∧
      (answers hash u calls).countP Answer.isHit + (answers hash u calls).countP Answer.isMiss =
        calls.countP isGet ∧
      u'.cache.entryCount + u'.cache.stats.evictions + u'.cache.stats.expired +
          replacements hash u calls + u.cache.stats.stores =
        u'.cache.stats.stores + u.cache.entryCount + u.cache.stats.evictions +
          u.cache.stats.expired := by
  induction calls generalizing u with
  | nil =>
    obtain rfl := Option.some.inj hrun
    refine ⟨rfl, rfl, rfl, rfl, ?_⟩
    simp only [replacements]
    omega
  | cons call calls ih =>
    obtain ⟨u₁, hu₁, hrest⟩ := Option.bind_eq_some_iff.mp hrun
    obtain ⟨u₂, hu₂, -, hsound⟩ := step_spec h call
    obtain rfl := Option.some.inj (hu₁.symm.trans hu₂)
    obtain ⟨⟨answer, hanswer, hhits, hmisses, hstores, hlookup⟩, hentries⟩ := step_counts h hu₁
    obtain ⟨ihhits, ihmisses, ihstores, ihlookups, ihentries⟩ := ih hsound hrest
    have hanswers : answers hash u (call :: calls) = answer :: answers hash u₁ calls := by
      rw [answers, hu₁]
      simp only [hanswer, Option.toList_some, List.singleton_append]
    have hreplacements : replacements hash u (call :: calls) =
        (replaces u call u₁).toNat + replacements hash u₁ calls := by
      rw [replacements, hu₁]
    have hcount : ∀ p : Answer → Bool, (answer :: answers hash u₁ calls).countP p =
        (answers hash u₁ calls).countP p + (p answer).toNat := by
      intro p
      rw [List.countP_cons]
      cases p answer <;> rfl
    have hgets : (call :: calls).countP isGet = calls.countP isGet + (isGet call).toNat := by
      rw [List.countP_cons]
      cases isGet call <;> rfl
    rw [hanswers, hreplacements, hcount, hcount, hcount, hgets]
    omega

/-- **The statistics of the cache.** In every run of a cache that the constructor has accepted,
`hits` and `misses` are the lookups that found an entry and those that did not, `stores` is the
number of responses that were stored, and what was stored is accounted for: it is in the cache, or
was evicted, or was removed when it had expired, or was replaced by a response for the same key. -/
theorem cache_accounts (hash : Bytes → Nat) (hcreate : create config = .ok c) (calls : List Call) :
    ∃ u, Machine.run (step hash) ⟨c, none⟩ calls = some u ∧
      u.cache.stats.hits = (answers hash ⟨c, none⟩ calls).countP Answer.isHit ∧
      u.cache.stats.misses = (answers hash ⟨c, none⟩ calls).countP Answer.isMiss ∧
      u.cache.stats.hits + u.cache.stats.misses = calls.countP isGet ∧
      u.cache.stats.stores = (answers hash ⟨c, none⟩ calls).countP Answer.isStore ∧
      u.cache.stats.stores = u.cache.entryCount + u.cache.stats.evictions +
        u.cache.stats.expired + replacements hash ⟨c, none⟩ calls := by
  have hsound : Sound hash c.config c := sound_create hcreate
  obtain ⟨u, hrun⟩ := Machine.exists_run_of_invariant (fun u : Used => Sound hash c.config u.cache)
    (fun u call hu => by
      obtain ⟨u', hu', -, hsound'⟩ := step_spec hu call
      exact ⟨u', hu', hsound'⟩) calls (s := ⟨c, none⟩) hsound
  obtain ⟨hhits, hmisses, hstores, hlookups, hentries⟩ := run_counts (u := ⟨c, none⟩) hsound hrun
  have hempty : c.stats = {} ∧ c.entryCount = 0 := by
    obtain ⟨-, -, rfl⟩ := create_eq_ok hcreate
    refine ⟨rfl, ?_⟩
    rw [entryCount, List.map_map]
    exact List.sum_eq_zero fun n hn => by
      obtain ⟨_, _, rfl⟩ := List.mem_map.mp hn
      rfl
  simp only [hempty.1, hempty.2] at hhits hmisses hstores hentries
  exact ⟨u, hrun, by omega, by omega, by omega, by omega, by omega⟩

theorem cache_accounts_small :
    ∃ u, Machine.run (step fun _ => 0) ⟨small, none⟩ smallCalls = some u ∧
      u.cache.stats.hits = (answers (fun _ => 0) ⟨small, none⟩ smallCalls).countP Answer.isHit ∧
      u.cache.stats.misses = (answers (fun _ => 0) ⟨small, none⟩ smallCalls).countP Answer.isMiss ∧
      u.cache.stats.hits + u.cache.stats.misses = smallCalls.countP isGet ∧
      u.cache.stats.stores = (answers (fun _ => 0) ⟨small, none⟩ smallCalls).countP
        Answer.isStore ∧
      u.cache.stats.stores = u.cache.entryCount + u.cache.stats.evictions +
        u.cache.stats.expired + replacements (fun _ => 0) ⟨small, none⟩ smallCalls :=
  have hcreate : create small.config = .ok small := by decide
  cache_accounts (fun _ => 0) hcreate smallCalls

end PulseGate.ResponseCache
