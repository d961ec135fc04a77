import PulseGate.Http.CacheSoundness
import PulseGate.Http.Config

namespace PulseGate.ResponseCache

/-!
# How long an entry is served

`expires_at` is `now + config_.ttl`: the milliseconds become nanoseconds and are added to the
time of `put` in 64 bits.  The loader lets every number of milliseconds pass that the 64-bit
type holds.

* `Gets.mem_or_expired` — a lookup removes nothing but an entry of its key that has expired;
* `Keeps.step` — while no other call removes the entry, it is there until a lookup finds it
  expired;
* `Keeps.get` — what a lookup then answers;
* `freshFor_iff` — the entry is served for the time to live, up to a day, and not after it,
  exactly when the sum is a time point.
-/

/-- A day, in nanoseconds. -/
def day : Int := milliseconds (24 * 60 * 60 * 1000)

/-- The cache has an entry for the key. -/
def Has (c : ResponseCache) (key : Bytes) : Prop := ∃ node, c.Holds node ∧ node.key = key

/-- A call neither replaces the entry of the key nor evicts it. -/
def Spares (key : Bytes) (u : Used) : Call → Used → Prop
  | .get _ _, _ => True
  | .put other _ _, u' =>
    (other = key → u'.answer = some (.stored false)) ∧
      (other ≠ key → u.cache.Has key → u'.cache.Has key)

/-- No lookup of the key is both past the end of its entry and later than `t`. -/
def Timely (key : Bytes) (ends t : Int) (calls : List Call) : Prop :=
  ∀ s, Call.get key s ∈ calls → s < ends ∨ s ≤ t

/-- What storing a response at `now` promises: its end is computed without an overflow, and
    however the cache is used as long as the entry is neither replaced nor evicted, a lookup
    finds the response before the time to live and the day are over, and nothing once the time
    to live is over. -/
structure FreshFor (hash : Bytes → Nat) (ttl : Int) (key : Bytes) (response : HttpResponse)
    (now : Int) (u : Used) : Prop where
  computed : expiry u.cache.config now = now + milliseconds ttl
  served : ∀ (calls : List Call) (u' : Used), Machine.run (step hash) u calls = some u' →
    Machine.EachStep (step hash) (Spares key) u calls →
    ∀ t, now ≤ t → t ≤ timeMax → Timely key (now + milliseconds ttl) t calls →
      ∃ answer c', get hash u'.cache key t = some (answer, c') ∧
        (t < min (now + milliseconds ttl) (now + day) → answer = some response) ∧
        (now + milliseconds ttl ≤ t → answer = none)

variable {hash : Bytes → Nat} {config : ResponseCacheConfig} {c c' : ResponseCache}
  {key : Bytes} {response : HttpResponse} {node : LruNode} {u u' : Used} {t e : Int}

/-! ### What stays in the cache -/

/-- A lookup removes nothing but an entry of its key that has expired. -/
theorem Shard.Gets.mem_or_expired {s s' : Shard} {now : Int} {answer : Option HttpResponse}
    (h : Shard.Gets key now s answer s') (hnode : node ∈ s.lru) :
    node ∈ s'.lru ∨ (node.key = key ∧ node.entry.expiresAt ≤ now) := by
  cases h with
  | absent => exact .inl hnode
  | expired hlru hkey hold =>
    rw [hlru] at hnode
    rcases List.mem_cons.mp (List.perm_middle.mem_iff.mp hnode) with rfl | hrest
    · exact .inr ⟨hkey, hold⟩
    · exact .inl hrest
  | hit hlru =>
    rw [hlru] at hnode
    exact .inl (List.perm_middle.mem_iff.mp hnode)

/-- A node stays in the cache unless it goes from the shard of the call. -/
theorem Changes.holds {s s' : Shard} (h : Changes hash key c s s' c') (hnode : c.Holds node)
    (hmem : node ∈ s.lru → node ∈ s'.lru ∨ c'.Holds node) : c'.Holds node := by
  obtain ⟨s₁, hs₁, hnode₁⟩ := hnode
  obtain ⟨i, hi⟩ := List.mem_iff_getElem?.mp hs₁
  obtain ⟨hlt, -⟩ := List.getElem?_eq_some_iff.mp h.shard
  by_cases hsame : c.shardFor hash key = i
  · obtain rfl : s = s₁ := Option.some.inj (h.shard.symm.trans (hsame ▸ hi))
    rcases hmem hnode₁ with hmem' | hheld
    · refine ⟨s', ?_, hmem'⟩
      rw [h.shards]
      exact List.mem_of_getElem? (List.getElem?_set_self hlt)
    · exact hheld
  · refine ⟨s₁, ?_, hnode₁⟩
    rw [h.shards]
    apply List.mem_of_getElem? (i := i)
    rw [List.getElem?_set_ne hsame]
    exact hi

/-- An entry that is held is in the shard of its key. -/
theorem Sound.mem_shard (h : Sound hash config c) (hnode : c.Holds node) {s : Shard}
    (hs : c.shards[c.shardFor hash node.key]? = some s) : node ∈ s.lru := by
  obtain ⟨s₁, hs₁, hnode₁⟩ := hnode
  obtain ⟨i, hi⟩ := List.mem_iff_getElem?.mp hs₁
  rw [h.placed i s₁ hi node hnode₁] at hs
  exact Option.some.inj (hi.symm.trans hs) ▸ hnode₁

/-! ### The entry, from its storage on -/

/-- What holds of an entry that ends at `e`, before a lookup at `t`: it is the only one of its
    key, and it is there unless it has ended by then. -/
structure Keeps (hash : Bytes → Nat) (config : ResponseCacheConfig) (key : Bytes)
    (response : HttpResponse) (e t : Int) (c : ResponseCache) : Prop where
  sound : Sound hash config c
  entry : ∀ node, c.Holds node → node.key = key →
    node.entry.response = response ∧ node.entry.expiresAt = e
  kept : c.Has key ∨ e ≤ t

/-- **Step lemma.** -/
theorem Keeps.step (h : Keeps hash config key response e t u.cache) {call : Call}
    (hstep : step hash u call = some u') (hspares : Spares key u call u')
    (htimely : ∀ s, call = .get key s → s < e ∨ s ≤ t) :
    Keeps hash config key response e t u'.cache := by
  obtain ⟨u₁, hu₁, hserves, hsound'⟩ := step_spec h.sound call
  obtain rfl := Option.some.inj (hu₁.symm.trans hstep)
  cases call with
  | get other now =>
    obtain ⟨answer, s, s', -, hchanges, hgets⟩ := hserves
    have hheld : ∀ node ∈ s.lru, u.cache.Holds node :=
      fun node hnode => ⟨s, List.mem_of_getElem? hchanges.shard, hnode⟩
    refine ⟨hsound', ?_, ?_⟩
    · intro node hnode hkey
      rcases h.sound.holds_changes hchanges hnode with hmem | ⟨hold, -⟩
      · exact h.entry node (hheld node (hgets.mem hmem)) hkey
      · exact h.entry node hold hkey
    · rcases h.kept with ⟨node, hnode, hkey⟩ | hended
      · by_cases hexpired : other = key ∧ e ≤ now
        · -- a lookup that finds the entry expired is not later than `t`
          obtain ⟨rfl, hlate⟩ := hexpired
          rcases htimely now rfl with hearly | hbefore
          · omega
          · exact .inr (hlate.trans hbefore)
        · refine .inl ⟨node, hchanges.holds hnode fun hmem => ?_, hkey⟩
          rcases hgets.mem_or_expired hmem with hmem' | ⟨hother, hold⟩
          · exact .inl hmem'
          · -- an entry dropped as expired is another one
            have hend := (h.entry node hnode hkey).2
            exact absurd ⟨hother.symm.trans hkey, hend ▸ hold⟩ hexpired
      · exact .inr hended
  | put other response' now =>
    obtain ⟨ok, s, s', hanswer, hchanges, hputs⟩ := hserves
    have hheld : ∀ node ∈ s.lru, u.cache.Holds node :=
      fun node hnode => ⟨s, List.mem_of_getElem? hchanges.shard, hnode⟩
    by_cases hother : other = key
    · -- nothing was stored for the key, and the shard stays as it is
      have hok := hspares.1 hother
      rw [hanswer, Option.some.injEq, Answer.stored.injEq] at hok
      subst hok
      cases hputs with
      | tooLarge =>
        refine ⟨hsound', ?_, ?_⟩
        · intro node hnode hkey
          rcases h.sound.holds_changes hchanges hnode with hmem | ⟨hold, -⟩
          · exact h.entry node (hheld node hmem) hkey
          · exact h.entry node hold hkey
        · refine h.kept.imp_left ?_
          rintro ⟨node, hnode, hkey⟩
          exact ⟨node, hchanges.holds hnode fun hmem => .inl hmem, hkey⟩
    · refine ⟨hsound', ?_, h.kept.imp_left (hspares.2 hother)⟩
      intro node hnode hkey
      rcases h.sound.holds_changes hchanges hnode with hmem | ⟨hold, -⟩
      · rcases hputs.mem hmem with ⟨hold, -⟩ | ⟨-, hnew, -⟩
        · exact h.entry node (hheld node hold) hkey
        · exact absurd (hnew.symm.trans hkey) hother
      · exact h.entry node hold hkey

/-- **Run lemma.** -/
theorem Keeps.run (h : Keeps hash config key response e t u.cache) {calls : List Call}
    (hrun : Machine.run (ResponseCache.step hash) u calls = some u')
    (hspares : Machine.EachStep (ResponseCache.step hash) (Spares key) u calls)
    (htimely : Timely key e t calls) : Keeps hash config key response e t u'.cache := by
  induction calls generalizing u with
  | nil =>
    obtain rfl := Option.some.inj hrun
    exact h
  | cons call calls ih =>
    obtain ⟨u₁, hstep, hrest⟩ := Option.bind_eq_some_iff.mp hrun
    obtain ⟨hspares₁, hspares'⟩ := hspares u₁ hstep
    apply ih (h.step hstep hspares₁ ?_) hrest hspares'
    · exact fun s hs => htimely s (List.mem_cons_of_mem call hs)
    · rintro s rfl
      exact htimely s List.mem_cons_self

/-- What a lookup at `t` answers. -/
theorem Keeps.get (h : Keeps hash config key response e t c) :
    ∃ c', get hash c key t = some (if t < e then some response else none, c') := by
  obtain ⟨s, hs, hcons⟩ := h.sound.exists_shard key
  obtain ⟨answer, c', s', hget, -, hgets, -⟩ := get_spec hs hcons t
  refine ⟨c', hget.trans ?_⟩
  have hheld : ∀ node ∈ s.lru, c.Holds node := fun node hnode => ⟨s, List.mem_of_getElem? hs, hnode⟩
  cases hgets with
  | absent hkey =>
    rcases h.kept with ⟨node, hnode, rfl⟩ | hended
    · exact absurd (List.mem_map_of_mem (h.sound.mem_shard hnode hs)) hkey
    · rw [if_neg (by omega)]
  | @expired before after node hlru hkey hold =>
    have hend := (h.entry node (hheld node (by simp [hlru])) hkey).2
    rw [if_neg (by omega)]
  | @hit before after node hlru hkey hlive =>
    obtain ⟨hresponse, hend⟩ := h.entry node (hheld node (by simp [hlru])) hkey
    rw [if_pos (by omega), hresponse]

/-- A response that was stored is there. -/
theorem keeps_put {now : Int} (h : Sound hash config u.cache)
    (hput : step hash u (.put key response now) = some u')
    (hstored : u'.answer = some (.stored true)) :
    Keeps hash config key response (expiry config now) t u'.cache := by
  obtain ⟨u₁, hu₁, ⟨ok, s, s', hanswer, hchanges, hputs⟩, hsound'⟩ :=
    step_spec h (.put key response now)
  obtain rfl := Option.some.inj (hu₁.symm.trans hput)
  rw [hanswer, Option.some.injEq, Answer.stored.injEq] at hstored
  subst hstored
  refine ⟨hsound', ?_, .inl ?_⟩
  · intro node hnode hkey
    rcases h.holds_changes hchanges hnode with hmem | ⟨-, hne⟩
    · -- in the shard that has changed
      rcases hputs.mem hmem with ⟨-, hne⟩ | ⟨-, -, hentry⟩
      · exact absurd hkey (hne rfl)
      · rw [hentry, ← h.configured]
        exact ⟨rfl, rfl⟩
    · exact absurd hkey hne
  · obtain ⟨hlt, -⟩ := List.getElem?_eq_some_iff.mp hchanges.shard
    -- the entry that was stored is held
    have hs' : s' ∈ u₁.cache.shards := by
      rw [hchanges.shards]
      exact List.mem_of_getElem? (List.getElem?_set_self hlt)
    cases hputs with
    | @stored s' node kept evicted hkey hentry hlru =>
      exact ⟨node, ⟨s', hs', by simp [hlru]⟩, hkey⟩

/-! ### The exact condition -/

/-- The end of an entry is exact when the sum is a time point. -/
theorem expiry_eq_iff {now : Int} (httl : 0 < config.ttl) (hnow : 0 ≤ now) :
    expiry config now = now + milliseconds config.ttl ↔
      config.ttl ≤ (timeMax - now) / 1000000 := by
  have hsum : milliseconds config.ttl = 1000000 * config.ttl := rfl
  have hmax : timeMax = 2 ^ 63 - 1 := rfl
  rw [expiry, hsum, hmax, Int.le_ediv_iff_mul_le (by decide)]
  constructor
  · intro h
    have hlt : (now + 1000000 * config.ttl).bmod (2 ^ 64) < 2 ^ 63 := by
      have hbound := @Int.bmod_lt (now + 1000000 * config.ttl) (2 ^ 64) (by decide)
      omega
    omega
  · intro h
    exact Int.bmod_eq_of_le (by omega) (by omega)

/-- **How long an entry is served.** In a cache that was used in any way, a response that is
    stored is served as it should be exactly when its time to live ends within the range of
    the 64-bit nanoseconds. -/
theorem freshFor_iff (hash : Bytes → Nat) (hcreate : create config = .ok c) (before : List Call)
    (hbefore : Machine.run (step hash) ⟨c, none⟩ before = some u) {now : Int} (hnow : 0 ≤ now)
    (hput : step hash u (.put key response now) = some u')
    (hstored : u'.answer = some (.stored true)) :
    FreshFor hash config.ttl key response now u' ↔ config.ttl ≤ (timeMax - now) / 1000000 := by
  obtain ⟨hvalid, -, hc⟩ := create_eq_ok hcreate
  have httl : c.config.ttl = config.ttl := by rw [hc]
  have hpositive : 0 < c.config.ttl := by
    by_contra hle
    simp [validConfig, ← httl, not_lt.mp hle] at hvalid
  -- the cache is sound after whatever came before
  have hsound : Sound hash c.config u.cache := by
    apply (Machine.always_of_invariant (fun u : Used => Sound hash c.config u.cache)
      (fun _ h => h) ?_ before ?_).last u hbefore
    · intro u call u' hu hu'
      obtain ⟨u₁, hu₁, -, hsound'⟩ := step_spec hu call
      exact Option.some.inj (hu₁.symm.trans hu') ▸ hsound'
    · exact sound_create hcreate
  have hconfig : u'.cache.config = c.config :=
    (keeps_put (t := now) hsound hput hstored).sound.configured
  rw [← httl]
  constructor
  · intro h
    have hcomputed := h.computed
    rw [hconfig] at hcomputed
    exact (expiry_eq_iff hpositive hnow).mp hcomputed
  · intro hle
    have hend := (expiry_eq_iff hpositive hnow).mpr hle
    refine ⟨hconfig ▸ hend, ?_⟩
    intro calls u₂ hrun hspares t _ _ htimely
    rw [← hend] at htimely ⊢
    obtain ⟨c', hget⟩ := ((keeps_put hsound hput hstored).run hrun hspares htimely).get
    refine ⟨_, c', hget, ?_, ?_⟩
    · intro hearly
      exact if_pos (lt_min_iff.mp hearly).1
    · intro hlate
      exact if_neg (by omega)

theorem freshFor_iff_small :
    ∃ u, step (fun _ => 0) ⟨small, none⟩ (.put (bytes "a") (letter "a") 0) = some u ∧
      FreshFor (fun _ => 0) 10 (bytes "a") (letter "a") 0 u :=
  have hcreate : create small.config = .ok small := by decide
  ⟨_, rfl, (freshFor_iff (fun _ => 0) hcreate [] rfl (by decide) rfl rfl).mpr
    (by decide)⟩

/-- The longest time to live that the loader lets pass. -/
def longest : ResponseCache :=
  { config := { ttl := 2 ^ 63 - 1, maxEntryBytes := 8, maxBytes := 8, shardCount := 1 },
    shards := [{ maxBytes := 8 }] }

/-- In nanoseconds it is `-1000000`, so the entry has ended before it is stored. -/
theorem longest_not_fresh :
    ({ Config.oneRoute with
        routes := [{ pathPrefix := bytes "/", upstream := bytes "u",
                     cache := some longest.config }] } : Config).validate = [] ∧
      create longest.config = .ok longest ∧
      ∃ u, step (fun _ => 0) ⟨longest, none⟩ (.put (bytes "a") (letter "a") 0) = some u ∧
        u.answer = some (.stored true) ∧
        (get (fun _ => 0) u.cache (bytes "a") 0).map (·.1) = some none ∧
        ¬ FreshFor (fun _ => 0) (2 ^ 63 - 1) (bytes "a") (letter "a") 0 u := by
  have hnone : ∀ u, step (fun _ => 0) ⟨longest, none⟩ (.put (bytes "a") (letter "a") 0) = some u →
      (get (fun _ => 0) u.cache (bytes "a") 0).map (·.1) = some none := by
    rintro u hu
    cases hu
    decide +kernel
  refine ⟨by decide +kernel, by decide, _, rfl, rfl, hnone _ rfl, ?_⟩
  intro hfresh
  have htimely : Timely (bytes "a") (0 + milliseconds (2 ^ 63 - 1)) 0 [] :=
    fun _ hs => absurd hs List.not_mem_nil
  obtain ⟨answer, c', hget, hserved, -⟩ :=
    hfresh.served [] _ rfl trivial 0 (le_refl 0) (by decide) htimely
  have hfound := hnone _ rfl
  rw [hget, Option.map_some, hserved (by decide)] at hfound
  exact absurd (Option.some.inj hfound) nofun

end PulseGate.ResponseCache
