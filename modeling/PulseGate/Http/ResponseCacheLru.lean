import PulseGate.Lib.Lru
import PulseGate.Http.ResponseCache

namespace PulseGate.ResponseCache

/-!
# The response cache is a bounded LRU map

A shard refines `Lru.Cache`: its list is the list of items, from the one used last, and the
index and the byte count say what the list says (`Shard.Consistent`).

* `Shard.Gets`, `Shard.Puts` — what one call does to the shard of its key;
* `refines_lru` — every call of every run does just that, and keeps the shards consistent.
-/

namespace Shard

/-- The charge of a node. -/
def size (node : LruNode) : Nat := node.entry.charge

/-- The index maps the keys of the list to their nodes, and `currentBytes` is the sum of the
    charges. -/
structure Consistent (s : Shard) : Prop where
  keys : (s.lru.map (·.key)).Nodup
  iterators : (s.lru.map (·.iterator)).Nodup
  allocated : ∀ node ∈ s.lru, node.iterator < s.allocated
  index : s.index.Perm (s.lru.map fun node => (node.key, node.iterator))
  charges : ∀ node ∈ s.lru, node.entry.charge = charge node.key node.entry.response
  bytes : s.currentBytes = (s.lru.map (·.entry.charge)).sum
  fits : s.currentBytes ≤ s.maxBytes

/-- The bounded map of a shard. -/
def Consistent.view {s : Shard} (h : s.Consistent) :
    Lru.Cache LruNode.key size s.maxBytes where
  items := s.lru
  nodup := h.keys
  fits := h.bytes.symm.trans_le h.fits

/-! ### Looking up -/

variable {s : Shard}

theorem Consistent.index_keys (h : s.Consistent) : (s.index.map Prod.fst).Nodup := by
  have hmap := h.index.map Prod.fst
  rw [List.map_map] at hmap
  exact hmap.nodup_iff.mpr h.keys

theorem Consistent.find_of_mem (h : s.Consistent) {node : LruNode} (hnode : node ∈ s.lru) :
    s.find node.key = some node.iterator := by
  have hmem : (node.key, node.iterator) ∈ s.index :=
    h.index.mem_iff.mpr (List.mem_map_of_mem hnode)
  have hfind := Keyed.find?_of_mem h.index_keys hmem
  rw [find, hfind]
  rfl

theorem Consistent.find_of_not_mem (h : s.Consistent) {key : Bytes}
    (hkey : key ∉ s.lru.map (·.key)) : s.find key = none := by
  have hmap := h.index.map Prod.fst
  rw [List.map_map] at hmap
  have hnone := Keyed.find?_eq_none_iff.mpr (mt hmap.mem_iff.mp hkey)
  rw [find, hnone]
  rfl

theorem Consistent.node_of_mem (h : s.Consistent) {node : LruNode} (hnode : node ∈ s.lru) :
    s.node node.iterator = some node :=
  Keyed.find?_of_mem h.iterators hnode

/-- A key is in no node, or in one that the index finds. -/
theorem Consistent.cases (h : s.Consistent) (key : Bytes) :
    (key ∉ s.lru.map (·.key) ∧ s.find key = none) ∨
      ∃ node ∈ s.lru, node.key = key ∧ s.find key = some node.iterator ∧
        s.node node.iterator = some node := by
  by_cases hkey : key ∈ s.lru.map (·.key)
  · obtain ⟨node, hnode, rfl⟩ := List.mem_map.mp hkey
    exact .inr ⟨node, hnode, rfl, h.find_of_mem hnode, h.node_of_mem hnode⟩
  · exact .inl ⟨hkey, h.find_of_not_mem hkey⟩

/-! ### Erasing -/

/-- The shard without a node of its list. -/
def without (s : Shard) (node : LruNode) : Shard :=
  { s with currentBytes := s.currentBytes - node.entry.charge,
           index := s.index.filter (·.1 ≠ node.key),
           lru := s.lru.filter (·.key ≠ node.key) }

theorem Consistent.erase_eq (h : s.Consistent) {node : LruNode} (hnode : node ∈ s.lru) :
    s.erase node.iterator = some (s.without node) := by
  rw [erase, h.node_of_mem hnode, Option.map_some, without,
    Keyed.filter_ne_iff h.keys h.iterators hnode]

theorem Consistent.without (h : s.Consistent) {node : LruNode} (hnode : node ∈ s.lru) :
    (s.without node).Consistent where
  keys := (h.view.erase node.key).nodup
  iterators := h.iterators.sublist (List.filter_sublist.map _)
  allocated other hother := h.allocated other (List.mem_of_mem_filter hother)
  index := by
    have hfilter := h.index.filter fun entry => entry.1 ≠ node.key
    rw [List.filter_map] at hfilter
    exact hfilter
  charges other hother := h.charges other (List.mem_of_mem_filter hother)
  bytes := by
    have hsum : Lru.total size (s.lru.filter (·.key ≠ node.key)) =
        Lru.total size s.lru - size node := Lru.total_filter_ne h.keys hnode
    show s.currentBytes - node.entry.charge = _
    rw [h.bytes]
    exact hsum.symm
  fits := (Nat.sub_le _ _).trans h.fits

/-! ### Moving to the front -/

theorem Consistent.splice (h : s.Consistent) {node : LruNode} (hnode : node ∈ s.lru) :
    (s.splice node).Consistent := by
  have heq : (s.splice node).lru = (h.view.touch node hnode).items := by
    rw [Shard.splice, Keyed.filter_ne_iff h.keys h.iterators hnode]
    rfl
  have hperm : s.lru.Perm (s.splice node).lru := by
    rw [heq]
    exact Keyed.perm_cons_filter h.keys hnode
  exact
    { keys := heq ▸ (h.view.touch node hnode).nodup
      iterators := (hperm.map _).nodup_iff.mp h.iterators
      allocated := fun other hother => h.allocated other (hperm.mem_iff.mpr hother)
      index := h.index.trans (hperm.map _)
      charges := fun other hother => h.charges other (hperm.mem_iff.mpr hother)
      bytes := h.bytes.trans (hperm.map _).sum_eq
      fits := h.fits }

/-! ### Evicting -/

theorem Consistent.lru_without_last (h : s.Consistent) {init : List LruNode} {last : LruNode}
    (hlru : s.lru = init ++ [last]) : (s.without last).lru = init := by
  have hkeys := h.keys
  rw [hlru] at hkeys
  show s.lru.filter _ = init
  rw [hlru, Keyed.filter_ne_append_cons hkeys, List.append_nil]

/-- The loop drops nodes from the end of the list until the entry has room. -/
theorem Consistent.run_evict (entryCharge : Nat) {n : Nat} (h : s.Consistent)
    (hn : s.lru.length < n) (evicted : Nat) :
    ∃ s' evicted', Loop.run (evictBody entryCharge) n (s, evicted) = some (some (s', evicted')) ∧
      s'.Consistent ∧ s'.lru = Lru.keep size (s.maxBytes - entryCharge) s.lru ∧
      s'.maxBytes = s.maxBytes ∧ s'.allocated = s.allocated := by
  induction n generalizing s evicted with
  | zero => omega
  | succ n ih =>
    rcases List.eq_nil_or_concat' s.lru with hnil | ⟨init, last, hconcat⟩
    · refine ⟨s, evicted, ?_, h, ?_, rfl, rfl⟩
      · simp [Loop.run, evictBody, hnil]
      · rw [hnil]
        rfl
    · have hlast : s.lru.getLast? = some last := by simp [hconcat]
      have hmem : last ∈ s.lru := by simp [hconcat]
      have htotal : Lru.total size s.lru = s.currentBytes := h.bytes.symm
      -- the loop stops as soon as the entry fits
      by_cases hroom : s.currentBytes ≤ s.maxBytes - entryCharge
      · refine ⟨s, evicted, ?_, h, ?_, rfl, rfl⟩
        · simp [Loop.run, evictBody, hlast, hroom]
        · exact (Lru.keep_of_total_le (htotal.trans_le hroom)).symm
      · -- the last node goes, and the loop starts again without it
        have hinit := h.lru_without_last hconcat
        have hlength : (s.without last).lru.length < n := by
          rw [hinit]
          rw [hconcat, List.length_append, List.length_singleton] at hn
          omega
        obtain ⟨s', evicted', hrun, hcons, hlru, hmax, hallocated⟩ :=
          ih (h.without hmem) hlength (evicted + 1)
        refine ⟨s', evicted', ?_, hcons, ?_, hmax, hallocated⟩
        · simp only [Loop.run, evictBody, hlast, if_neg hroom, h.erase_eq hmem]
          exact hrun
        · rw [hlru, hinit]
          have hover : s.maxBytes - entryCharge < Lru.total size (init ++ [last]) := by
            rw [← hconcat, htotal]
            omega
          rw [hconcat, Lru.keep_concat hover]
          rfl

theorem Consistent.evict (h : s.Consistent) (entryCharge : Nat) :
    ∃ s' evicted, s.evict entryCharge = some (s', evicted) ∧ s'.Consistent ∧
      s'.lru = Lru.keep size (s.maxBytes - entryCharge) s.lru ∧ s'.maxBytes = s.maxBytes ∧
      s'.allocated = s.allocated := by
  obtain ⟨s', evicted, hrun, hrest⟩ :=
    h.run_evict entryCharge (Nat.lt_succ_self s.lru.length) 0
  exact ⟨s', evicted, by rw [Shard.evict, hrun]; rfl, hrest⟩

/-! ### Storing -/

/-- `put` first erases the node of its key. -/
theorem Consistent.eraseKey (h : s.Consistent) (key : Bytes) :
    ∃ s₁, s.eraseKey key = some s₁ ∧ s₁.Consistent ∧ s₁.lru = (h.view.erase key).items ∧
      s₁.maxBytes = s.maxBytes := by
  rcases h.cases key with ⟨hkey, hfind⟩ | ⟨node, hnode, rfl, hfind, -⟩
  · refine ⟨s, by rw [Shard.eraseKey, hfind], h, ?_, rfl⟩
    have hall : s.lru.filter (·.key ≠ key) = s.lru := by
      apply List.filter_eq_self.mpr
      intro other hother
      have hne : other.key ≠ key := fun heq => hkey (heq ▸ List.mem_map_of_mem hother)
      simpa using hne
    exact hall.symm
  · have herase : s.eraseKey node.key = some (s.without node) := by
      rw [Shard.eraseKey, hfind]
      exact h.erase_eq hnode
    exact ⟨s.without node, herase, h.without hnode, rfl, rfl⟩

/-- The node that `emplace` puts in front. -/
def newNode (s : Shard) (key : Bytes) (entry : CacheEntry) : LruNode :=
  { iterator := s.allocated, key := key, entry := entry }

/-- A shard that was made ready for the entry is consistent with the entry in it. -/
theorem Consistent.emplace {s s₂ : Shard} {key : Bytes} {entry : CacheEntry} (h : s.Consistent)
    (h₂ : s₂.Consistent) (hfits : size (s₂.newNode key entry) ≤ s.maxBytes)
    (hcharge : entry.charge = charge key entry.response) (hmax : s₂.maxBytes = s.maxBytes)
    (hlru : s₂.newNode key entry :: s₂.lru =
      (h.view.insert (s₂.newNode key entry) hfits).items) :
    (s₂.emplace key entry).Consistent := by
  have hkeys : ((s₂.newNode key entry :: s₂.lru).map (·.key)).Nodup := by
    rw [hlru]
    exact (h.view.insert (s₂.newNode key entry) hfits).nodup
  have htotal := (h.view.insert (s₂.newNode key entry) hfits).fits
  rw [← hlru, Lru.total_cons] at htotal
  -- the key was erased first, so that the index takes the new node
  have hnone : s₂.find key = none := h₂.find_of_not_mem (List.nodup_cons.mp hkeys).1
  have hbytes : s₂.currentBytes = Lru.total size s₂.lru := h₂.bytes
  exact
    { keys := hkeys
      iterators := by
        refine List.nodup_cons.mpr ⟨?_, h₂.iterators⟩
        intro hmem
        obtain ⟨node, hnode, heq⟩ := List.mem_map.mp hmem
        exact absurd heq (h₂.allocated node hnode).ne
      allocated := by
        intro node hnode
        rcases List.mem_cons.mp hnode with rfl | hnode
        · exact Nat.lt_succ_self s₂.allocated
        · exact Nat.lt_succ_of_lt (h₂.allocated node hnode)
      index := by
        show (if (s₂.find key).isSome then s₂.index else (key, s₂.allocated) :: s₂.index).Perm _
        rw [hnone]
        exact h₂.index.cons (key, s₂.allocated)
      charges := by
        intro node hnode
        rcases List.mem_cons.mp hnode with rfl | hnode
        · exact hcharge
        · exact h₂.charges node hnode
      bytes := by
        show s₂.currentBytes + entry.charge = entry.charge + (s₂.lru.map _).sum
        rw [h₂.bytes]
        exact Nat.add_comm _ _
      fits := by
        show s₂.currentBytes + entry.charge ≤ s₂.maxBytes
        rw [hbytes, hmax, Nat.add_comm]
        exact htotal }

/-! ### What the calls do -/

/-- What `get` answers, and what becomes of the shard of its key: nothing is found, an entry
    has expired and is removed, or an entry is found and moved to the front. -/
inductive Gets (key : Bytes) (now : Int) (s : Shard) : Option HttpResponse → Shard → Prop
  | absent (hkey : key ∉ s.lru.map (·.key)) : Gets key now s none s
  | expired {before after : List LruNode} {node : LruNode} (hlru : s.lru = before ++ node :: after)
      (hkey : node.key = key) (hold : node.entry.expiresAt ≤ now) :
      Gets key now s none
        { s with lru := before ++ after,
                 index := s.index.filter (·.1 ≠ key),
                 currentBytes := s.currentBytes - node.entry.charge }
  | hit {before after : List LruNode} {node : LruNode} (hlru : s.lru = before ++ node :: after)
      (hkey : node.key = key) (hlive : now < node.entry.expiresAt) :
      Gets key now s (some node.entry.response) { s with lru := node :: (before ++ after) }

/-- What `put` answers, and what becomes of the shard of its key: the entry is too large, or
    it replaces the one of its key, and as few others as possible go from the end. -/
inductive Puts (key : Bytes) (response : HttpResponse) (expiresAt : Int) (s : Shard) :
    Bool → Shard → Prop
  | tooLarge (hlarge : s.maxBytes < charge key response) : Puts key response expiresAt s false s
  | stored {s' : Shard} {node : LruNode} {kept evicted : List LruNode}
      (hkey : node.key = key)
      (hentry : node.entry =
        { response := response, expiresAt := expiresAt, charge := charge key response })
      (hlru : s'.lru = node :: kept)
      (hothers : s.lru.filter (·.key ≠ key) = kept ++ evicted)
      (hsingle : s'.lru.filter (·.key = key) = [node])
      (hneeded : ∀ more, more <+: evicted → more ≠ [] →
        s'.maxBytes < ((s'.lru ++ more).map (·.entry.charge)).sum)
      (hmax : s'.maxBytes = s.maxBytes) : Puts key response expiresAt s true s'

/-- An expired node is removed, a live one moved to the front. -/
theorem Consistent.gets (h : s.Consistent) {node : LruNode} (hnode : node ∈ s.lru) (now : Int) :
    if node.entry.expiresAt ≤ now then Gets node.key now s none (s.without node)
    else Gets node.key now s (some node.entry.response) (s.splice node) := by
  obtain ⟨before, after, hlru⟩ := List.append_of_mem hnode
  have hrest : s.lru.filter (·.key ≠ node.key) = before ++ after := by
    have hkeys := h.keys
    rw [hlru] at hkeys ⊢
    exact Keyed.filter_ne_append_cons hkeys
  by_cases hold : node.entry.expiresAt ≤ now
  · rw [if_pos hold, Shard.without, hrest]
    exact .expired hlru rfl hold
  · rw [if_neg hold, Shard.splice, Keyed.filter_ne_iff h.keys h.iterators hnode, hrest]
    exact .hit hlru rfl (by omega)

/-- Storing puts the entry in front of what `Lru.keep` keeps of the others. -/
theorem puts {s₂ : Shard} {key : Bytes} {response : HttpResponse} {expiresAt : Int}
    {entry : CacheEntry}
    (hentry : entry =
      { response := response, expiresAt := expiresAt, charge := charge key response })
    (hmax : s₂.maxBytes = s.maxBytes)
    (hlru : s₂.lru =
      Lru.keep size (s.maxBytes - charge key response) (s.lru.filter (·.key ≠ key))) :
    Puts key response expiresAt s true (s₂.emplace key entry) := by
  obtain ⟨evicted, hevicted⟩ :=
    Lru.keep_isPrefixOf size (s.maxBytes - charge key response) (s.lru.filter (·.key ≠ key))
  rw [← hlru] at hevicted
  have hfront : (s₂.emplace key entry).lru = s₂.newNode key entry :: s₂.lru := rfl
  refine .stored rfl hentry hfront hevicted.symm ?_ ?_ hmax
  · -- the nodes that are kept have other keys
    have hothers : s₂.lru.filter (·.key = key) = [] := by
      apply List.filter_eq_nil_iff.mpr
      intro node hnode
      have hmem : node ∈ s.lru.filter (·.key ≠ key) :=
        hevicted ▸ List.mem_append_left evicted hnode
      simpa using (List.mem_filter.mp hmem).2
    rw [hfront, List.filter_cons_of_pos (by simp [newNode]), hothers]
  · -- with one more of the evicted nodes the entry would not fit
    intro more hmore hne
    by_contra hle
    have hpart : s₂.lru ++ more <+: s.lru.filter (·.key ≠ key) := by
      rw [← hevicted]
      exact (List.prefix_append_right_inj s₂.lru).mpr hmore
    have htotal : Lru.total size (s₂.lru ++ more) ≤ s.maxBytes - charge key response := by
      have hsum : ((s₂.emplace key entry).lru ++ more).map (·.entry.charge) =
          charge key response :: (s₂.lru ++ more).map size := by
        rw [hentry]
        rfl
      rw [hsum, List.sum_cons] at hle
      have hmax' : (s₂.emplace key entry).maxBytes = s.maxBytes := hmax
      simp only [Lru.total]
      omega
    have hlength := (Lru.prefix_keep hpart htotal).length_le
    rw [← hlru, List.length_append] at hlength
    exact hne (List.eq_nil_of_length_eq_zero (by omega))

end Shard

/-! ### The shard of a key -/

variable {hash : Bytes → Nat} {c c' : ResponseCache} {key : Bytes}

/-- A call for a key changes the shard of the key, from `s` to `s'`, and no other. -/
structure Changes (hash : Bytes → Nat) (key : Bytes) (c : ResponseCache) (s s' : Shard)
    (c' : ResponseCache) : Prop where
  shard : c.shards[c.shardFor hash key]? = some s
  shards : c'.shards = c.shards.set (c.shardFor hash key) s'
  config : c'.config = c.config

theorem set_same {s : Shard} (hs : c.shards[c.shardFor hash key]? = some s) :
    c.shards = c.shards.set (c.shardFor hash key) s := by
  obtain ⟨hlt, hget⟩ := List.getElem?_eq_some_iff.mp hs
  rw [← hget, List.set_getElem_self]

theorem get_spec {s : Shard} (hs : c.shards[c.shardFor hash key]? = some s) (h : s.Consistent)
    (now : Int) :
    ∃ answer c' s', get hash c key now = some (answer, c') ∧ Changes hash key c s s' c' ∧
      s.Gets key now answer s' ∧ s'.Consistent := by
  rcases h.cases key with ⟨hkey, hfind⟩ | ⟨node, hnode, rfl, hfind, hiterator⟩
  · have hget : get hash c key now =
        some (none, { c with stats.misses := c.stats.misses + 1 }) := by
      rw [get, hs, Option.bind_some, hfind]
    exact ⟨none, _, s, hget, ⟨hs, set_same hs, rfl⟩, .absent hkey, h⟩
  · have hgets := h.gets hnode now
    by_cases hold : node.entry.expiresAt ≤ now
    · rw [if_pos hold] at hgets
      have hget : get hash c node.key now =
          some (none, { c with shards := c.shards.set (c.shardFor hash node.key) (s.without node),
                               stats.expired := c.stats.expired + 1,
                               stats.misses := c.stats.misses + 1 }) := by
        simp only [get, hs, Option.bind_some, hfind, hiterator, if_pos hold, h.erase_eq hnode,
          Option.map_some]
      exact ⟨none, _, s.without node, hget, ⟨hs, rfl, rfl⟩, hgets, h.without hnode⟩
    · rw [if_neg hold] at hgets
      have hget : get hash c node.key now =
          some (some node.entry.response,
            { c with shards := c.shards.set (c.shardFor hash node.key) (s.splice node),
                     stats.hits := c.stats.hits + 1 }) := by
        simp only [get, hs, Option.bind_some, hfind, hiterator, if_neg hold]
      exact ⟨some node.entry.response, _, s.splice node, hget, ⟨hs, rfl, rfl⟩, hgets,
        h.splice hnode⟩

theorem put_spec {s : Shard} (hs : c.shards[c.shardFor hash key]? = some s) (h : s.Consistent)
    (response : HttpResponse) (now : Int) :
    ∃ ok c' s', put hash c key response now = some (ok, c') ∧ Changes hash key c s s' c' ∧
      s.Puts key response (expiry c.config now) ok s' ∧ s'.Consistent := by
  by_cases hlarge : s.maxBytes < charge key response
  · refine ⟨false, c, s, ?_, ⟨hs, set_same hs, rfl⟩, .tooLarge hlarge, h⟩
    simp only [put, hs, Option.bind_some, if_pos hlarge]
  · have hfits : charge key response ≤ s.maxBytes := by omega
    obtain ⟨s₁, herase, h₁, hlru₁, hmax₁⟩ := h.eraseKey key
    obtain ⟨s₂, evicted, hevict, h₂, hlru₂, hmax₂, -⟩ := h₁.evict (charge key response)
    rw [hmax₁, hlru₁] at hlru₂
    have hmax : s₂.maxBytes = s.maxBytes := hmax₂.trans hmax₁
    generalize hentry : CacheEntry.mk response (expiry c.config now) (charge key response) = entry
    have hput : put hash c key response now =
        some (true, { c with
          shards := c.shards.set (c.shardFor hash key) (s₂.emplace key entry),
          stats.evictions := c.stats.evictions + evicted,
          stats.stores := c.stats.stores + 1 }) := by
      simp only [put, hs, Option.bind_some, if_neg hlarge, herase, hevict, Option.map_some,
        hentry]
    refine ⟨true, _, s₂.emplace key entry, hput, ⟨hs, rfl, rfl⟩,
      Shard.puts hentry.symm hmax hlru₂, ?_⟩
    subst hentry
    refine h.emplace h₂ hfits rfl hmax ?_
    rw [hlru₂]
    rfl

/-! ### Whole runs -/

namespace Shard

variable {s s' : Shard} {now expiresAt : Int} {answer : Option HttpResponse}
  {response : HttpResponse} {ok : Bool} {node : LruNode}

theorem Gets.maxBytes (h : Gets key now s answer s') : s'.maxBytes = s.maxBytes := by
  cases h <;> rfl

theorem Puts.maxBytes (h : Puts key response expiresAt s ok s') : s'.maxBytes = s.maxBytes := by
  cases h with
  | tooLarge => rfl
  | stored hkey hentry hlru hothers hsingle hneeded hmax => exact hmax

/-- A lookup adds no nodes. -/
theorem Gets.mem (h : Gets key now s answer s') (hnode : node ∈ s'.lru) : node ∈ s.lru := by
  cases h with
  | absent => exact hnode
  | expired hlru =>
    rw [hlru]
    exact List.mem_append.mpr ((List.mem_append.mp hnode).imp_right (List.mem_cons_of_mem _))
  | hit hlru =>
    rw [hlru]
    exact List.perm_middle.mem_iff.mpr hnode

/-- Storing adds one node, in the place of the one of the key. -/
theorem Puts.mem (h : Puts key response expiresAt s ok s') (hnode : node ∈ s'.lru) :
    (node ∈ s.lru ∧ (ok = true → node.key ≠ key)) ∨
      (ok = true ∧ node.key = key ∧ node.entry =
        { response := response, expiresAt := expiresAt, charge := charge key response }) := by
  cases h with
  | tooLarge => exact .inl ⟨hnode, fun h => absurd h (by decide)⟩
  | stored hkey hentry hlru hothers =>
    rw [hlru] at hnode
    rcases List.mem_cons.mp hnode with rfl | hkept
    · exact .inr ⟨rfl, hkey, hentry⟩
    · have hold : node ∈ s.lru.filter (·.key ≠ key) := hothers ▸ List.mem_append_left _ hkept
      obtain ⟨hmem, hne⟩ := List.mem_filter.mp hold
      exact .inl ⟨hmem, fun _ => by simpa using hne⟩

end Shard

/-- What holds of the cache between two calls. -/
structure Sound (hash : Bytes → Nat) (config : ResponseCacheConfig) (c : ResponseCache) :
    Prop where
  configured : c.config = config
  budgets : c.shards.map (·.maxBytes) = (List.range config.shardCount).map (budget config)
  positive : config.shardCount ≠ 0
  consistent : ∀ s ∈ c.shards, s.Consistent
  /-- Every node is in the shard of its key. -/
  placed : ∀ i s, c.shards[i]? = some s → ∀ node ∈ s.lru, c.shardFor hash node.key = i

theorem Sound.exists_shard {config : ResponseCacheConfig} (h : Sound hash config c)
    (key : Bytes) : ∃ s, c.shards[c.shardFor hash key]? = some s ∧ s.Consistent := by
  have hlength := congrArg List.length h.budgets
  rw [List.length_map, List.length_map, List.length_range] at hlength
  have hlt : c.shardFor hash key < c.shards.length :=
    Nat.mod_lt _ (by rw [hlength]; exact Nat.pos_of_ne_zero h.positive)
  exact ⟨c.shards[c.shardFor hash key], List.getElem?_eq_getElem hlt,
    h.consistent _ (List.getElem_mem hlt)⟩

theorem Changes.shardFor_eq {s s' : Shard} (h : Changes hash key c s s' c') (key' : Bytes) :
    c'.shardFor hash key' = c.shardFor hash key' := by
  rw [shardFor, shardFor, h.shards, List.length_set]

/-- A call that keeps its shard consistent keeps the cache sound. -/
theorem Sound.changes {config : ResponseCacheConfig} {s s' : Shard} (h : Sound hash config c)
    (hchanges : Changes hash key c s s' c') (hs' : s'.Consistent)
    (hmax : s'.maxBytes = s.maxBytes)
    (hmem : ∀ node ∈ s'.lru, node ∈ s.lru ∨ node.key = key) : Sound hash config c' where
  configured := hchanges.config.trans h.configured
  positive := h.positive
  budgets := by
    obtain ⟨hlt, hs⟩ := List.getElem?_eq_some_iff.mp hchanges.shard
    rw [← h.budgets, hchanges.shards, List.map_set, hmax]
    have hlt' : c.shardFor hash key < (c.shards.map (·.maxBytes)).length := by simpa using hlt
    have hsame := List.set_getElem_self hlt'
    simpa [hs] using hsame
  consistent := by
    intro s₁ hs₁
    rw [hchanges.shards] at hs₁
    rcases List.mem_or_eq_of_mem_set hs₁ with hold | rfl
    · exact h.consistent s₁ hold
    · exact hs'
  placed := by
    intro i s₁ hs₁ node hnode
    rw [hchanges.shardFor_eq]
    rw [hchanges.shards] at hs₁
    by_cases hi : c.shardFor hash key = i
    · obtain ⟨hlt, -⟩ := List.getElem?_eq_some_iff.mp hchanges.shard
      rw [← hi, List.getElem?_set_self hlt, Option.some.injEq] at hs₁
      subst hs₁
      rcases hmem node hnode with hold | rfl
      · exact (h.placed _ s hchanges.shard node hold).trans hi
      · exact hi
    · rw [List.getElem?_set_ne hi] at hs₁
      exact h.placed i s₁ hs₁ node hnode

/-- What a call does to the cache. -/
def Serves (hash : Bytes → Nat) (u : Used) : Call → Used → Prop
  | .get key now, u' => ∃ answer s s', u'.answer = some (.got answer) ∧
      Changes hash key u.cache s s' u'.cache ∧ s.Gets key now answer s'
  | .put key response now, u' => ∃ ok s s', u'.answer = some (.stored ok) ∧
      Changes hash key u.cache s s' u'.cache ∧
      s.Puts key response (expiry u.cache.config now) ok s'

theorem step_spec {config : ResponseCacheConfig} {u : Used} (h : Sound hash config u.cache)
    (call : Call) :
    ∃ u', step hash u call = some u' ∧ Serves hash u call u' ∧ Sound hash config u'.cache := by
  cases call with
  | get key now =>
    obtain ⟨s, hs, hcons⟩ := h.exists_shard key
    obtain ⟨answer, c', s', hget, hchanges, hgets, hs'⟩ := get_spec hs hcons now
    refine ⟨⟨c', some (.got answer)⟩, ?_, ⟨answer, s, s', rfl, hchanges, hgets⟩, ?_⟩
    · rw [step, hget, Option.map_some]
    · exact h.changes hchanges hs' hgets.maxBytes fun node hnode => .inl (hgets.mem hnode)
  | put key response now =>
    obtain ⟨s, hs, hcons⟩ := h.exists_shard key
    obtain ⟨ok, c', s', hput, hchanges, hputs, hs'⟩ := put_spec hs hcons response now
    refine ⟨⟨c', some (.stored ok)⟩, ?_, ⟨ok, s, s', rfl, hchanges, hputs⟩, ?_⟩
    · rw [step, hput, Option.map_some]
    · exact h.changes hchanges hs' hputs.maxBytes fun node hnode =>
        (hputs.mem hnode).imp (fun hold => hold.1) (fun hnew => hnew.2.1)

/-! ### The budgets -/

theorem sum_ones (n r : Nat) :
    ((List.range n).map fun index => if index < r then 1 else 0).sum = min n r := by
  induction n with
  | zero => simp
  | succ n ih =>
    rw [List.range_succ, List.map_append, List.sum_append, ih]
    by_cases h : n < r <;> simp [h] <;> omega

theorem sum_budget (config : ResponseCacheConfig) (h : config.shardCount ≠ 0) :
    ((List.range config.shardCount).map (budget config)).sum = config.maxBytes := by
  have hones := sum_ones config.shardCount (config.maxBytes % config.shardCount)
  have hlt := Nat.mod_lt config.maxBytes (Nat.pos_of_ne_zero h)
  have hdiv := Nat.div_add_mod config.maxBytes config.shardCount
  have hsplit : budget config = fun index => config.maxBytes / config.shardCount +
      if index < config.maxBytes % config.shardCount then 1 else 0 := rfl
  rw [hsplit, List.sum_map_add, hones, List.map_const', List.sum_replicate_nat, List.length_range,
    Nat.min_eq_right hlt.le]
  exact hdiv

/-- What the constructor accepts, and what it makes of it. -/
theorem create_eq_ok {config : ResponseCacheConfig} (hcreate : create config = .ok c) :
    validConfig config = true ∧
      (config.varyHeaders.map normalizeHeaderName).all isValidHeaderName = true ∧
      c = { config := { config with
              varyHeaders := sortUnique (config.varyHeaders.map normalizeHeaderName) },
            shards := (List.range config.shardCount).map fun index =>
              { maxBytes := budget config index } } := by
  unfold create at hcreate
  by_cases hvalid : validConfig config = true
  · by_cases hnames : (config.varyHeaders.map normalizeHeaderName).all isValidHeaderName = true
    · simp only [hvalid, hnames, Bool.not_true, Bool.false_eq_true, if_false] at hcreate
      split at hcreate
      · cases hcreate
      · exact ⟨hvalid, hnames, (Except.ok.inj hcreate).symm⟩
    · simp [hvalid, hnames] at hcreate
  · simp [hvalid] at hcreate

theorem Shard.consistent_empty (maxBytes : Nat) : Consistent { maxBytes := maxBytes } where
  keys := List.nodup_nil
  iterators := List.nodup_nil
  allocated _ hnode := absurd hnode List.not_mem_nil
  index := List.Perm.nil
  charges _ hnode := absurd hnode List.not_mem_nil
  bytes := rfl
  fits := Nat.zero_le maxBytes

theorem shardCount_ne_zero {config : ResponseCacheConfig} (h : validConfig config = true) :
    config.shardCount ≠ 0 := by
  intro hzero
  simp [validConfig, hzero] at h

theorem sound_create {config : ResponseCacheConfig} (hcreate : create config = .ok c) :
    Sound hash c.config c := by
  obtain ⟨hvalid, -, rfl⟩ := create_eq_ok hcreate
  refine ⟨rfl, ?_, shardCount_ne_zero hvalid, ?_, ?_⟩
  · rw [List.map_map]
    rfl
  · intro s hs
    obtain ⟨index, -, rfl⟩ := List.mem_map.mp hs
    exact Shard.consistent_empty _
  · intro i s hs node hnode
    obtain ⟨index, -, rfl⟩ := List.mem_map.mp (List.mem_of_getElem? hs)
    exact absurd hnode List.not_mem_nil

/-- **The cache is a bounded LRU map.** No run uses an iterator to a node that is gone, all
    shards are consistent in every state and share the byte budget, and every call does to
    the shard of its key what the map says, and nothing to the others. -/
theorem refines_lru (hash : Bytes → Nat) {config : ResponseCacheConfig}
    (hcreate : create config = .ok c) (calls : List Call) :
    (∃ u, Machine.run (step hash) ⟨c, none⟩ calls = some u) ∧
      Machine.Always (step hash) (fun u => (u.cache.shards.map (·.maxBytes)).sum = config.maxBytes ∧
        ∀ s ∈ u.cache.shards, s.Consistent) ⟨c, none⟩ calls ∧
      Machine.EachStep (step hash) (Serves hash) ⟨c, none⟩ calls := by
  have hsound : Sound hash c.config c := sound_create hcreate
  have hbudget : c.config.maxBytes = config.maxBytes := by
    obtain ⟨-, -, rfl⟩ := create_eq_ok hcreate
    rfl
  -- what one call preserves, for the run and for its answers
  have hstep : ∀ (u : Used) (call : Call) (u' : Used), Sound hash c.config u.cache →
      step hash u call = some u' → Serves hash u call u' ∧ Sound hash c.config u'.cache := by
    intro u call u' hu hu'
    obtain ⟨u₁, hu₁, hserves, hsound'⟩ := step_spec hu call
    obtain rfl := Option.some.inj (hu₁.symm.trans hu')
    exact ⟨hserves, hsound'⟩
  refine ⟨?_, ?_, ?_⟩
  · apply Machine.exists_run_of_invariant (fun u => Sound hash c.config u.cache) _ calls hsound
    intro u call hu
    obtain ⟨u', hu', -, hsound'⟩ := step_spec hu call
    exact ⟨u', hu', hsound'⟩
  · apply Machine.always_of_invariant (fun u => Sound hash c.config u.cache) _ _ calls hsound
    · intro u hu
      refine ⟨?_, hu.consistent⟩
      rw [hu.budgets, sum_budget c.config hu.positive, hbudget]
    · exact fun u call u' hu hu' => (hstep u call u' hu hu').2
  · exact Machine.eachStep_of_invariant (fun u => Sound hash c.config u.cache) hstep calls hsound

/-- A cache of 8 bytes with one shard. -/
def small : ResponseCache :=
  { config := { ttl := 10, maxEntryBytes := 8, maxBytes := 8, shardCount := 1 },
    shards := [{ maxBytes := 8 }] }

def letter (c : String) : HttpResponse := { body := bytes c }

/-- The third entry has room for one of the others, and `a` was used last. -/
def smallCalls : List Call :=
  [.put (bytes "a") (letter "a") 0, .put (bytes "b") (letter "b") 0, .get (bytes "a") 0,
    .put (bytes "c") (letter "c") 0]

theorem refines_lru_small :
    Machine.EachStep (step fun _ => 0) (Serves fun _ => 0) ⟨small, none⟩ smallCalls ∧
      ((Machine.run (step fun _ => 0) ⟨small, none⟩ smallCalls).map fun u =>
        u.cache.shards.map fun s => s.lru.map (·.key)) = some [[bytes "c", bytes "a"]] :=
  have hcreate : create small.config = .ok small := by decide
  ⟨(refines_lru (fun _ => 0) hcreate smallCalls).2.2, by decide⟩

end PulseGate.ResponseCache
