import PulseGate.Http.Router
import PulseGate.Http.ResponseCacheLru

namespace PulseGate

/-!
# What is served from the cache

* `hit_sound` — along every run of a router, whatever handlers return and however requests
  overlap, a response with `X-Cache: HIT` is the one the handler returned for the latest stored
  request with the same key, less than `ttl` ago, and both requests and the response are of
  the kind that may be stored.
-/

/-! ### What may be stored -/

namespace ResponseCache

/-- A loop over a list looks at all its members, but an empty one at the end. -/
theorem mem_listItemsFrom {item : Bytes} (hitem : 44 ∉ item) (value : Bytes) :
    ∀ member ∈ (item ++ value).splitOn 44, member ∈ listItemsFrom item value ∨ member = [] := by
  induction value generalizing item with
  | nil =>
    rw [List.append_nil, List.splitOn_eq_singleton hitem]
    exact fun member hmember => .inl hmember
  | cons c value ih =>
    by_cases hcomma : c = 44
    · subst hcomma
      have hsplit : (item ++ 44 :: value).splitOn 44 = item :: value.splitOn 44 := by
        rw [List.splitOn_append_cons_self, List.splitOn_eq_singleton hitem]
        rfl
      rw [hsplit, listItemsFrom, if_pos rfl]
      intro member hmember
      rcases List.mem_cons.mp hmember with rfl | hmember
      · exact .inl List.mem_cons_self
      · by_cases hvalue : value = []
        · subst hvalue
          exact .inr (by simpa using hmember)
        · have hrest := ih List.not_mem_nil member hmember
          simpa [hvalue] using hrest.imp_left .inr
    · have hnext : 44 ∉ item ++ [c] := by
        simpa [hitem] using fun heq : 44 = c => hcomma heq.symm
      have hjoin : item ++ c :: value = item ++ [c] ++ value := by simp
      rw [hjoin, listItemsFrom, if_neg hcomma]
      exact ih hnext

theorem mem_listItems {value member : Bytes} (hmember : member ∈ value.splitOn 44) :
    member ∈ listItems value ∨ member = [] := by
  by_cases hvalue : value = []
  · subst hvalue
    exact .inr (by simpa using hmember)
  · have hitems := mem_listItemsFrom List.not_mem_nil value member hmember
    simpa [listItems, hvalue] using hitems

/-- The request carries neither `Authorization` nor `Cookie`. -/
def Anonymous (request : HttpRequest) : Prop :=
  ∀ header ∈ request.headers.entries,
    header.name ≠ bytes "authorization" ∧ header.name ≠ bytes "cookie"

/-- A response that may be served to everyone whose request has the same key. -/
structure Shareable (config : ResponseCacheConfig) (response : HttpResponse) : Prop where
  status : response.statusCode = 200
  unwritten : response.alreadyWritten = false
  noSetCookie : ∀ header ∈ response.headers.entries, header.name ≠ bytes "set-cookie"
  /-- In any header line and at any place of its list. -/
  noDirective : ∀ header ∈ response.headers.entries, header.name = bytes "cache-control" →
    ∀ member ∈ header.value.splitOn 44,
      directiveName member ≠ bytes "no-store" ∧ directiveName member ≠ bytes "private"
  vary : ∀ header ∈ response.headers.entries, header.name = bytes "vary" →
    ∀ member ∈ header.value.splitOn 44, member ≠ [] →
      ∃ configured ∈ config.varyHeaders,
        normalizeHeaderName configured = normalizeHeaderName (trim member)

end ResponseCache

namespace Headers

theorem contains_eq_false_iff {h : Headers} {name : Bytes} :
    h.contains name = false ↔ ∀ header ∈ h.entries, header.name ≠ normalizeHeaderName name := by
  simp [contains, get, List.find?_eq_none]

theorem mem_values {h : Headers} {name : Bytes} {header : Header} (hmem : header ∈ h.entries)
    (hname : header.name = normalizeHeaderName name) : header.value ∈ h.values name :=
  List.mem_map_of_mem (List.mem_filter.mpr ⟨hmem, by simpa using hname⟩)

end Headers

namespace ResponseCache

theorem cacheableRequest_anonymous {request : HttpRequest}
    (h : cacheableRequest request = true) : Anonymous request := by
  simp only [cacheableRequest, Bool.and_eq_true, Bool.not_eq_true',
    Headers.contains_eq_false_iff] at h
  exact fun header hheader => ⟨h.1.2 header hheader, h.2 header hheader⟩

theorem containsDirective_false {value directive member : Bytes}
    (h : containsDirective value directive = false) (hdirective : directive ≠ [])
    (hmember : member ∈ value.splitOn 44) : directiveName member ≠ directive := by
  rcases mem_listItems hmember with hitem | rfl
  · have hall := List.any_eq_false.mp h member hitem
    simpa using hall
  · exact fun hnil => hdirective hnil.symm

theorem cacheableResponse_shareable {config : ResponseCacheConfig} {response : HttpResponse}
    (h : cacheableResponse response config = true) : Shareable config response := by
  simp only [cacheableResponse, Bool.and_eq_true, decide_eq_true_eq, Bool.not_eq_true'] at h
  obtain ⟨⟨⟨⟨hstatus, hwritten⟩, -⟩, hsensitive⟩, hvary⟩ := h
  simp only [hasSensitiveResponseHeaders, Bool.or_eq_false_iff,
    Headers.contains_eq_false_iff] at hsensitive
  refine ⟨hstatus, hwritten, hsensitive.1, ?_, ?_⟩
  · intro header hheader hname member hmember
    have hvalue := List.any_eq_false.mp hsensitive.2 header.value
      (Headers.mem_values hheader hname)
    simp only [Bool.or_eq_true, not_or, Bool.not_eq_true] at hvalue
    exact ⟨containsDirective_false hvalue.1 (by decide) hmember,
      containsDirective_false hvalue.2 (by decide) hmember⟩
  · intro header hheader hname member hmember hne
    have hvalue := List.all_eq_true.mp hvary header.value (Headers.mem_values hheader hname)
    have hitem := (mem_listItems hmember).resolve_right hne
    have hcovered := List.all_eq_true.mp hvalue member hitem
    simp only [Bool.and_eq_true, List.any_eq_true, decide_eq_true_eq] at hcovered
    exact hcovered.2

/-! ### What the cache holds -/

variable {hash : Bytes → Nat} {config : ResponseCacheConfig} {c c' : ResponseCache}
  {key : Bytes} {node : LruNode}

/-- The node is in the list of a shard. -/
def Holds (c : ResponseCache) (node : LruNode) : Prop := ∃ s ∈ c.shards, node ∈ s.lru

/-- After a call the cache holds the nodes of the changed shard, and nodes of other keys that
    it held before. -/
theorem Sound.holds_changes (h : Sound hash config c) {s s' : Shard}
    (hchanges : Changes hash key c s s' c') (hnode : c'.Holds node) :
    node ∈ s'.lru ∨ (c.Holds node ∧ node.key ≠ key) := by
  obtain ⟨s₁, hs₁, hmem⟩ := hnode
  obtain ⟨i, hi⟩ := List.mem_iff_getElem?.mp hs₁
  rw [hchanges.shards] at hi
  by_cases hsame : c.shardFor hash key = i
  · obtain ⟨hlt, -⟩ := List.getElem?_eq_some_iff.mp hchanges.shard
    rw [← hsame, List.getElem?_set_self hlt, Option.some.injEq] at hi
    exact .inl (hi ▸ hmem)
  · rw [List.getElem?_set_ne hsame] at hi
    refine .inr ⟨⟨s₁, List.mem_of_getElem? hi, hmem⟩, ?_⟩
    rintro rfl
    exact hsame (h.placed i s₁ hi node hmem)

/-- A lookup adds nothing, and finds what is held and has not expired. -/
theorem Sound.get (h : Sound hash config c) (key : Bytes) (now : Int) :
    ∃ answer c', get hash c key now = some (answer, c') ∧ Sound hash config c' ∧
      (∀ node, c'.Holds node → c.Holds node) ∧
      ∀ response ∈ answer, ∃ node, c.Holds node ∧ node.key = key ∧
        node.entry.response = response ∧ now < node.entry.expiresAt := by
  obtain ⟨s, hs, hcons⟩ := h.exists_shard key
  obtain ⟨answer, c', s', hget, hchanges, hgets, hs'⟩ := get_spec hs hcons now
  have hheld : ∀ node ∈ s.lru, c.Holds node :=
    fun node hnode => ⟨s, List.mem_of_getElem? hs, hnode⟩
  refine ⟨answer, c', hget, ?_, ?_, ?_⟩
  · exact h.changes hchanges hs' hgets.maxBytes fun node hnode => .inl (hgets.mem hnode)
  · intro node hnode
    rcases h.holds_changes hchanges hnode with hmem | hother
    · exact hheld node (hgets.mem hmem)
    · exact hother.1
  · intro response hresponse
    cases hgets with
    | absent => exact absurd hresponse (by simp)
    | expired => exact absurd hresponse (by simp)
    | @hit before after node hlru hkey hlive =>
      obtain rfl : node.entry.response = response := by simpa using hresponse
      have hmem : node ∈ s.lru := by simp [hlru]
      exact ⟨node, hheld node hmem, hkey, rfl, hlive⟩

/-- Storing adds one node, and removes the others of its key. -/
theorem Sound.put (h : Sound hash config c) (key : Bytes) (response : HttpResponse)
    (now : Int) :
    ∃ ok c', put hash c key response now = some (ok, c') ∧ Sound hash config c' ∧
      ∀ node, c'.Holds node →
        (c.Holds node ∧ (ok = true → node.key ≠ key)) ∨
          (ok = true ∧ node.key = key ∧ node.entry.response = response ∧
            node.entry.expiresAt = expiry config now) := by
  obtain ⟨s, hs, hcons⟩ := h.exists_shard key
  obtain ⟨ok, c', s', hput, hchanges, hputs, hs'⟩ := put_spec hs hcons response now
  refine ⟨ok, c', hput, ?_, ?_⟩
  · exact h.changes hchanges hs' hputs.maxBytes fun node hnode =>
      (hputs.mem hnode).imp (fun hold => hold.1) (fun hnew => hnew.2.1)
  · intro node hnode
    rcases h.holds_changes hchanges hnode with hmem | hother
    · rcases hputs.mem hmem with ⟨hold, hne⟩ | ⟨hok, hkey, hentry⟩
      · exact .inl ⟨⟨s, List.mem_of_getElem? hs, hold⟩, hne⟩
      · rw [hentry, ← h.configured]
        exact .inr ⟨hok, hkey, rfl, rfl⟩
    · exact .inl ⟨hother.1, fun _ => hother.2⟩

end ResponseCache

/-! ### Headers the router sets -/

namespace Headers

theorem get_set_self (h : Headers) (name value : Bytes) :
    (h.set name value).get name = some value := by
  have hnone : (h.erase name).entries.find? (·.name = normalizeHeaderName name) = none := by
    apply List.find?_eq_none.mpr
    intro header hheader
    simpa [erase] using (List.mem_filter.mp hheader).2
  rw [set, add, get, List.find?_append, hnone]
  simp

theorem get_set_of_ne (h : Headers) {name name' : Bytes} (value : Bytes)
    (hne : normalizeHeaderName name' ≠ normalizeHeaderName name) :
    (h.set name value).get name' = h.get name' := by
  have herase : ∀ entries : List Header,
      (entries.filter (·.name ≠ normalizeHeaderName name)).find?
        (·.name = normalizeHeaderName name') =
          entries.find? (·.name = normalizeHeaderName name') := by
    intro entries
    rw [List.find?_filter]
    congr 1
    funext header
    by_cases hname : header.name = normalizeHeaderName name' <;> simp [hname, hne]
  rw [set, add, get, List.find?_append, erase, herase, get]
  simp [hne.symm]

theorem erase_set_self (h : Headers) (name value : Bytes) :
    (h.set name value).erase name = h.erase name := by
  simp [set, add, erase, List.filter_filter]

theorem erase_comm (h : Headers) (name name' : Bytes) :
    (h.erase name).erase name' = (h.erase name').erase name := by
  simp only [erase, List.filter_filter]
  congr 2
  funext header
  exact Bool.and_comm _ _

end Headers

namespace Router

variable {hash : Bytes → Nat} {r r' : Router} {name name' : Bytes} {cache : ResponseCache}

theorem cache_setCache_self (r : Router) (name : Bytes) (cache : ResponseCache) :
    (r.setCache name cache).cache name = some cache := by
  simp [Router.cache, setCache]

theorem cache_setCache_of_ne (h : name' ≠ name) (r : Router) (cache : ResponseCache) :
    (r.setCache name cache).cache name' = r.cache name' := by
  have hfind : (r.routeCaches.filter (·.1 ≠ name)).find? (·.1 = name') =
      r.routeCaches.find? (·.1 = name') := by
    rw [List.find?_filter]
    congr 1
    funext entry
    by_cases hname : entry.1 = name' <;> simp [hname, h]
  rw [Router.cache, setCache, List.find?_cons_of_neg (by simpa using h.symm), hfind, Router.cache]

/-! ### The two halves of `handle` -/

/-- The header by which the router tells what the cache did. -/
def xCache (response : HttpResponse) : Option Bytes := response.headers.get (bytes "X-Cache")

/-- A response without the headers that the router sets. -/
def plain (response : HttpResponse) : HttpResponse :=
  { response with
    headers := (response.headers.erase (bytes "X-Cache")).erase (bytes "X-Request-Id") }

theorem xCache_withId (context : RoutedContext) (response : HttpResponse) :
    xCache (withId context response) = xCache response :=
  Headers.get_set_of_ne _ _ (by decide)

theorem xCache_setHeader (response : HttpResponse) (value : Bytes) :
    xCache (setHeader response (bytes "X-Cache") value) = some value :=
  Headers.get_set_self _ _ _

theorem plain_withId (context : RoutedContext) (response : HttpResponse) (value : Bytes) :
    plain (withId context (setHeader response (bytes "X-Cache") value)) = plain response := by
  simp only [plain, withId, setHeader]
  rw [Headers.erase_comm, Headers.erase_set_self, Headers.erase_comm, Headers.erase_set_self]

/-- What `start` comes to. -/
inductive Starts (hash : Bytes → Nat) (r : Router) (request : HttpRequest) (now : Int) :
    Started → Router → Prop
  /-- A limiter refuses the request, or no route matches. -/
  | refused {route : Option Bytes} {response : HttpResponse} {context : RoutedContext}
      (hheader : xCache response = none) :
      Starts hash r request now (.answered route response context) r
  | uncached {p : Pending} (hrequest : p.request = request)
      (hconfigured : p.cacheConfigured = (r.cache p.route.name).isSome) (hkey : p.cacheKey = none) :
      Starts hash r request now (.calling p) r
  | hit {name : Bytes} {cache cache' : ResponseCache} {cached : HttpResponse}
      {context context' : RoutedContext} (hcache : r.cache name = some cache)
      (hcacheable : ResponseCache.cacheableRequest request = true)
      (hget : cache.get hash (ResponseCache.makeKey request cache.config) now =
        some (some cached, cache')) :
      Starts hash r request now
        (.answered (some name)
          (withId context (setHeader cached (bytes "X-Cache") (bytes "HIT"))) context')
        (r.setCache name cache')
  | miss {p : Pending} {cache cache' : ResponseCache} (hrequest : p.request = request)
      (hcache : r.cache p.route.name = some cache) (hconfigured : p.cacheConfigured = true)
      (hcacheable : ResponseCache.cacheableRequest request = true)
      (hkey : p.cacheKey = some (ResponseCache.makeKey request cache.config))
      (hget : cache.get hash (ResponseCache.makeKey request cache.config) now =
        some (none, cache')) :
      Starts hash r request now (.calling p) (r.setCache p.route.name cache')

theorem xCache_makeRateLimited (context : RoutedContext) (decision : RateLimitDecision) :
    xCache (withId context (makeRateLimited decision)) = none := by
  rw [xCache_withId, xCache, makeRateLimited]
  rfl

theorem xCache_unmatched (context : RoutedContext) (routes : List Route) (path : Bytes) :
    xCache (withId context (unmatched routes path)) = none := by
  rw [xCache_withId, xCache, unmatched]
  split <;> rfl

theorem starts_of_lookup {route : Route} {context : RoutedContext} {request : HttpRequest}
    {now : Int} {started : Started}
    (h : r.lookup hash route context request now = some (started, r')) :
    Starts hash r request now started r' := by
  unfold lookup at h
  cases hcache : r.cache route.name with
  | none =>
    simp only [hcache, Option.some.injEq, Prod.mk.injEq] at h
    obtain ⟨rfl, rfl⟩ := h
    exact .uncached rfl (by rw [hcache]; rfl) rfl
  | some cache =>
    by_cases hcacheable : ResponseCache.cacheableRequest request = true
    · simp only [hcache, hcacheable, if_true] at h
      obtain ⟨⟨cached, cache'⟩, hget, hstarted⟩ := Option.map_eq_some_iff.mp h
      cases cached with
      | none =>
        obtain ⟨rfl, rfl⟩ := Prod.mk.inj hstarted
        exact .miss rfl hcache rfl hcacheable rfl hget
      | some cached =>
        obtain ⟨rfl, rfl⟩ := Prod.mk.inj hstarted
        exact .hit hcache hcacheable hget
    · simp only [hcache, hcacheable, Bool.false_eq_true, if_false, Option.some.injEq,
        Prod.mk.injEq] at h
      obtain ⟨rfl, rfl⟩ := h
      exact .uncached rfl (by rw [hcache]; rfl) rfl

theorem starts_of_start {context : RoutedContext} {request : HttpRequest}
    {decisions : Decisions} {now : Int} {started : Started}
    (h : r.start hash context request decisions now = some (started, r')) :
    Starts hash r request now started r' := by
  unfold start at h
  by_cases hglobal : (r.globalLimiter && !decisions.globally.allowed) = true
  · rw [if_pos hglobal] at h
    obtain ⟨rfl, rfl⟩ := Prod.mk.inj (Option.some.inj h)
    exact .refused (xCache_makeRateLimited context _)
  · rw [if_neg hglobal] at h
    dsimp only at h
    split at h
    · obtain ⟨rfl, rfl⟩ := Prod.mk.inj (Option.some.inj h)
      exact .refused (xCache_unmatched context _ _)
    · next route hroute =>
      split at h
      · obtain ⟨rfl, rfl⟩ := Prod.mk.inj (Option.some.inj h)
        exact .refused (xCache_makeRateLimited _ _)
      · exact starts_of_lookup h

/-- What `finish` comes to. -/
inductive Finishes (hash : Bytes → Nat) (r : Router) (p : Pending)
    (outcome : Option HttpResponse) (now : Int) : HttpResponse → Router → Prop
  | uncached {response : HttpResponse} (hkey : p.cacheKey = none)
      (hconfigured : p.cacheConfigured = false) : Finishes hash r p outcome now response r
  | bypass {response : HttpResponse} (hheader : xCache response = some (bytes "BYPASS")) :
      Finishes hash r p outcome now response r
  | stored {key : Bytes} {cache cache' : ResponseCache} {produced : HttpResponse}
      {context : RoutedContext} (hkey : p.cacheKey = some key)
      (hcache : r.cache p.route.name = some cache) (hmethod : p.request.method = .Get)
      (hproduced : outcome = some produced)
      (hcacheable : ResponseCache.cacheableResponse produced cache.config = true)
      (hput : cache.put hash key produced now = some (true, cache')) :
      Finishes hash r p outcome now
        (withId context (setHeader produced (bytes "X-Cache") (bytes "MISS")))
        (r.setCache p.route.name cache')

theorem finishes_of_finish {p : Pending} {context context' : RoutedContext}
    {outcome : Option HttpResponse} {now : Int} {response : HttpResponse}
    (h : r.finish hash p context outcome now = some (response, context', r')) :
    Finishes hash r p outcome now response r' := by
  -- what is not stored is marked BYPASS
  have hbypass : ∀ (context : RoutedContext) (given : HttpResponse),
      xCache (withId context (setHeader given (bytes "X-Cache") (bytes "BYPASS"))) =
        some (bytes "BYPASS") :=
    fun context given => (xCache_withId context _).trans (xCache_setHeader given _)
  unfold finish at h
  dsimp only at h
  split at h
  · next key hkey =>
    split at h
    · exact absurd h (by simp)
    · next cache hcache =>
      split at h
      · next hok =>
        obtain ⟨⟨stored, cache'⟩, hput, hfinished⟩ := Option.bind_eq_some_iff.mp h
        cases stored with
        | false =>
          simp only [Bool.false_eq_true, if_false, Option.some.injEq, Prod.mk.injEq] at hfinished
          obtain ⟨rfl, -, rfl⟩ := hfinished
          exact .bypass (hbypass _ _)
        | true =>
          simp only [if_true, Option.some.injEq, Prod.mk.injEq] at hfinished
          obtain ⟨rfl, -, rfl⟩ := hfinished
          cases outcome with
          -- the error response for a handler that raised is not cacheable
          | none => exact absurd hok.2 (by simp [ResponseCache.cacheableResponse, makeError])
          | some produced => exact .stored hkey hcache hok.1 rfl hok.2 hput
      · simp only [Option.some.injEq, Prod.mk.injEq] at h
        obtain ⟨rfl, -, rfl⟩ := h
        exact .bypass (hbypass _ _)
  · next hkey =>
    by_cases hconfigured : p.cacheConfigured = true
    · simp only [hconfigured, if_true, Option.some.injEq, Prod.mk.injEq] at h
      obtain ⟨rfl, -, rfl⟩ := h
      exact .bypass (hbypass _ _)
    · simp only [hconfigured, Bool.false_eq_true, if_false, Option.some.injEq,
        Prod.mk.injEq] at h
      obtain ⟨rfl, -, rfl⟩ := h
      exact .uncached hkey (by simpa using hconfigured)

end Router

/-! ### Whole runs -/

namespace RouterRun

open ResponseCache Router

variable {hash : Bytes → Nat} {s s' : RouterRun} {e : Event} {name : Bytes}
  {config : ResponseCacheConfig} {log : List HandledRequest}

/-- The response to the request was stored under the key. -/
def Stores (name : Bytes) (config : ResponseCacheConfig) (key : Bytes) (x : HandledRequest) :
    Prop :=
  x.route = some name ∧ makeKey x.request config = key ∧ xCache x.response = some (bytes "MISS")

/-- The request is the last one in the log whose response was stored under the key. -/
def LastStored (log : List HandledRequest) (name : Bytes) (config : ResponseCacheConfig)
    (key : Bytes) (x : HandledRequest) : Prop :=
  Stores name config key x ∧ ∃ later earlier, log = later ++ x :: earlier ∧
    ∀ y ∈ later, ¬ Stores name config key y

/-- A response from the cache of its route is the one that the handler returned for the `GET`
    request whose response was stored last under the same key, less than `ttl` ago; neither
    request carries credentials, and the response may be shared. -/
def HitSound (s : RouterRun) (hit : HandledRequest) : Prop :=
  ∀ name cache, hit.route = some name → s.router.cache name = some cache →
    xCache hit.response = some (bytes "HIT") →
      ∃ stored produced,
        LastStored s.log name cache.config (makeKey hit.request cache.config) stored ∧
        stored.request.method = .Get ∧ stored.produced = some produced ∧
        plain hit.response = plain produced ∧
        hit.time - stored.time < milliseconds cache.config.ttl ∧
        Anonymous stored.request ∧ Anonymous hit.request ∧ Shareable cache.config produced

/-- Every request that a step answers is answered soundly. -/
def AnswersSoundly (s : RouterRun) (_ : Event) (s' : RouterRun) : Prop :=
  ∀ hit, s'.log = hit :: s.log → HitSound s hit

/-- Where an entry of the cache comes from. -/
def Origin (log : List HandledRequest) (name : Bytes) (config : ResponseCacheConfig)
    (node : LruNode) : Prop :=
  ∃ stored, LastStored log name config node.key stored ∧ stored.request.method = .Get ∧
    cacheableRequest stored.request = true ∧ stored.produced = some node.entry.response ∧
    cacheableResponse node.entry.response config = true ∧
    node.entry.expiresAt = expiry config stored.time

/-- A pending request fits the router it was started by. -/
structure Fits (r : Router) (p : Pending) : Prop where
  configured : p.cacheConfigured = (r.cache p.route.name).isSome
  key : ∀ key ∈ p.cacheKey, ∃ cache, r.cache p.route.name = some cache ∧
    key = makeKey p.request cache.config ∧ cacheableRequest p.request = true

/-- What holds of a router between two steps. -/
structure Inv (hash : Bytes → Nat) (s : RouterRun) : Prop where
  sound : ∀ name cache, s.router.cache name = some cache →
    Sound hash cache.config cache ∧ 0 < cache.config.ttl
  held : ∀ name cache, s.router.cache name = some cache → ∀ node, cache.Holds node →
    Origin s.log name cache.config node
  fits : ∀ p ∈ s.pending, Fits s.router p
  clock : -2 ^ 63 ≤ s.clock
  times : ∀ x ∈ s.log, -2 ^ 63 ≤ x.time

/-- A request that stores nothing under the key changes no origin. -/
theorem Origin.cons {node : LruNode} (h : Origin log name config node) {x : HandledRequest}
    (hx : ¬ Stores name config node.key x) : Origin (x :: log) name config node := by
  obtain ⟨stored, ⟨hstores, later, earlier, rfl, hlater⟩, hrest⟩ := h
  refine ⟨stored, ⟨hstores, x :: later, earlier, rfl, ?_⟩, hrest⟩
  intro y hy
  rcases List.mem_cons.mp hy with rfl | hy
  · exact hx
  · exact hlater y hy

/-- An entry expires within `ttl` of its time. -/
theorem expiry_le {now : Int} (httl : 0 < config.ttl) (hnow : -2 ^ 63 ≤ now) :
    expiry config now ≤ now + milliseconds config.ttl := by
  have hpositive : 0 < milliseconds config.ttl := by
    rw [milliseconds]
    omega
  exact bmod_le_of_ge (by omega)

/-! ### What keeps the invariant -/

variable {cache cache' : ResponseCache}

/-- A request that stores nothing in any cache. -/
def Quiet (r : Router) (x : HandledRequest) : Prop :=
  ∀ name cache, r.cache name = some cache → ∀ key, ¬ Stores name cache.config key x

theorem quiet_of_xCache {r : Router} {x : HandledRequest}
    (h : xCache x.response ≠ some (bytes "MISS")) : Quiet r x :=
  fun _ _ _ _ hstores => h hstores.2.2

/-- A quiet request is answered. -/
theorem Inv.answer (h : Inv hash s) {x : HandledRequest} (hquiet : Quiet s.router x)
    (htime : x.time = s.clock) : Inv hash { s with log := x :: s.log } where
  sound := h.sound
  held name cache hcache node hnode :=
    (h.held name cache hcache node hnode).cons (hquiet name cache hcache node.key)
  fits := h.fits
  clock := h.clock
  times y hy := by
    rcases List.mem_cons.mp hy with rfl | hy
    · exact htime ▸ h.clock
    · exact h.times y hy

theorem Inv.call (h : Inv hash s) {p : Pending} (hp : Fits s.router p) :
    Inv hash { s with pending := s.pending ++ [p] } where
  sound := h.sound
  held := h.held
  fits q hq := by
    rcases List.mem_append.mp hq with hq | hq
    · exact h.fits q hq
    · exact List.mem_singleton.mp hq ▸ hp
  clock := h.clock
  times := h.times

theorem Inv.eraseIdx (h : Inv hash s) (i : Nat) :
    Inv hash { s with pending := s.pending.eraseIdx i } where
  sound := h.sound
  held := h.held
  fits p hp := h.fits p (List.mem_of_mem_eraseIdx hp)
  clock := h.clock
  times := h.times

/-- The caches after a change of one. -/
theorem cache_setCache_cases {r : Router} {name' : Bytes} {found : ResponseCache}
    (h : (r.setCache name cache').cache name' = some found) :
    (name' = name ∧ found = cache') ∨ (name' ≠ name ∧ r.cache name' = some found) := by
  by_cases hname : name' = name
  · subst hname
    rw [cache_setCache_self, Option.some.injEq] at h
    exact .inl ⟨rfl, h.symm⟩
  · rw [cache_setCache_of_ne hname] at h
    exact .inr ⟨hname, h⟩

theorem Fits.setCache {r : Router} {p : Pending} (h : Fits r p) (hcache : r.cache name = some cache)
    (hconfig : cache'.config = cache.config) : Fits (r.setCache name cache') p := by
  by_cases hname : p.route.name = name
  · have hself := cache_setCache_self r name cache'
    rw [← hname] at hself hcache
    refine ⟨?_, fun key hkey => ⟨cache', hname ▸ hself, ?_⟩⟩
    · rw [h.configured, hcache, ← hname, hself]
      rfl
    · obtain ⟨found, hfound, hrest⟩ := h.key key hkey
      obtain rfl := Option.some.inj (hcache.symm.trans hfound)
      rwa [hconfig]
  · have hother := cache_setCache_of_ne hname r cache'
    exact ⟨by rw [hother]; exact h.configured, by rw [hother]; exact h.key⟩

/-- One cache changes, and all that it holds has an origin. -/
theorem Inv.setCache (h : Inv hash s) (hcache : s.router.cache name = some cache)
    (hsound : Sound hash cache.config cache')
    (hheld : ∀ node, cache'.Holds node → Origin s.log name cache.config node) :
    Inv hash { s with router := s.router.setCache name cache' } where
  sound name' found hfound := by
    rcases cache_setCache_cases hfound with ⟨rfl, rfl⟩ | ⟨-, hold⟩
    · exact ⟨hsound.configured.symm ▸ hsound, hsound.configured.symm ▸ (h.sound _ _ hcache).2⟩
    · exact h.sound name' found hold
  held name' found hfound := by
    rcases cache_setCache_cases hfound with ⟨rfl, rfl⟩ | ⟨-, hold⟩
    · rw [hsound.configured]
      exact hheld
    · exact h.held name' found hold
  fits p hp := (h.fits p hp).setCache hcache hsound.configured
  clock := h.clock
  times := h.times

/-- A lookup keeps the invariant, whatever it finds. -/
theorem Inv.lookup (h : Inv hash s) (hcache : s.router.cache name = some cache) {key : Bytes}
    {now : Int} {answer : Option HttpResponse}
    (hget : cache.get hash key now = some (answer, cache')) :
    Inv hash { s with router := s.router.setCache name cache' } ∧
      ∀ response ∈ answer, ∃ node, cache.Holds node ∧ node.key = key ∧
        node.entry.response = response ∧ now < node.entry.expiresAt := by
  obtain ⟨answer', cache'', hget', hsound, hsubset, hfound⟩ :=
    (h.sound name cache hcache).1.get key now
  obtain ⟨rfl, rfl⟩ := Prod.mk.inj (Option.some.inj (hget'.symm.trans hget))
  refine ⟨h.setCache hcache hsound ?_, hfound⟩
  exact fun node hnode => h.held name cache hcache node (hsubset node hnode)

theorem Inv.configured_get (h : Inv hash s) (hcache : s.router.cache name = some cache)
    {key : Bytes} {now : Int} {answer : Option HttpResponse}
    (hget : cache.get hash key now = some (answer, cache')) : cache'.config = cache.config := by
  obtain ⟨answer', cache'', hget', hsound, -⟩ := (h.sound name cache hcache).1.get key now
  obtain ⟨rfl, rfl⟩ := Prod.mk.inj (Option.some.inj (hget'.symm.trans hget))
  exact hsound.configured

/-- A response that is stored is the origin of its entry. -/
theorem Inv.store (h : Inv hash s) {p : Pending} (hp : Fits s.router p) {key : Bytes}
    {produced : HttpResponse} (hkey : p.cacheKey = some key)
    (hcache : s.router.cache p.route.name = some cache) (hmethod : p.request.method = .Get)
    (hcacheable : cacheableResponse produced cache.config = true)
    (hput : cache.put hash key produced s.clock = some (true, cache')) {x : HandledRequest}
    (hrequest : x.request = p.request) (hroute : x.route = some p.route.name)
    (hproduced : x.produced = some produced) (hmiss : xCache x.response = some (bytes "MISS"))
    (htime : x.time = s.clock) :
    Inv hash { s with router := s.router.setCache p.route.name cache', log := x :: s.log } := by
  obtain ⟨found, hfound, hkey', hanonymous⟩ := hp.key key hkey
  obtain rfl := Option.some.inj (hcache.symm.trans hfound)
  rw [← hrequest] at hkey' hmethod hanonymous
  rw [← htime] at hput
  obtain ⟨ok, cache'', hput', hsound, hholds⟩ :=
    (h.sound p.route.name cache hcache).1.put key produced x.time
  obtain ⟨rfl, rfl⟩ := Prod.mk.inj (Option.some.inj (hput'.symm.trans hput))
  refine ⟨?_, ?_, fun q hq => (h.fits q hq).setCache hcache hsound.configured, h.clock, ?_⟩
  · intro name' found hfound'
    rcases cache_setCache_cases hfound' with ⟨rfl, rfl⟩ | ⟨-, hold⟩
    · exact ⟨hsound.configured.symm ▸ hsound, hsound.configured.symm ▸ (h.sound _ _ hcache).2⟩
    · exact h.sound name' found hold
  · intro name' found hfound' node hnode
    rcases cache_setCache_cases hfound' with ⟨rfl, rfl⟩ | ⟨hother, hold⟩
    · rw [hsound.configured]
      rcases hholds node hnode with ⟨hheld, hne⟩ | ⟨-, rfl, rfl, hexpires⟩
      · -- the entry of another key
        apply (h.held p.route.name cache hcache node hheld).cons
        intro hstores
        exact hne rfl (hstores.2.1.symm.trans hkey'.symm)
      · -- the new entry is what this request has stored
        have hlast : LastStored (x :: s.log) p.route.name cache.config node.key x :=
          ⟨⟨hroute, hkey'.symm, hmiss⟩, [], s.log, rfl, fun y hy => absurd hy List.not_mem_nil⟩
        exact ⟨x, hlast, hmethod, hanonymous, hproduced, hcacheable, hexpires⟩
    · -- the cache of another route
      apply (h.held name' found hold node hnode).cons
      intro hstores
      exact hother (Option.some.inj (hroute.symm.trans hstores.1)).symm
  · intro y hy
    rcases List.mem_cons.mp hy with rfl | hy
    · exact htime ▸ h.clock
    · exact h.times y hy

/-! ### Answers -/

/-- A response without `X-Cache: HIT` promises nothing. -/
theorem hitSound_of_xCache {x : HandledRequest} (h : xCache x.response ≠ some (bytes "HIT")) :
    HitSound s x :=
  fun _ _ _ _ hhit => absurd hhit h

/-- What the cache finds has an origin, and the origin is what is said of a hit. -/
theorem Inv.hitSound (h : Inv hash s) {hit : HandledRequest} {cached : HttpResponse}
    {context : RoutedContext} (hroute : hit.route = some name)
    (hcache : s.router.cache name = some cache)
    (hcacheable : cacheableRequest hit.request = true)
    (hget : cache.get hash (makeKey hit.request cache.config) s.clock = some (some cached, cache'))
    (hresponse : hit.response =
      withId context (setHeader cached (bytes "X-Cache") (bytes "HIT")))
    (htime : hit.time = s.clock) : HitSound s hit := by
  intro name' found hroute' hfound _
  obtain rfl := Option.some.inj (hroute.symm.trans hroute')
  obtain rfl := Option.some.inj (hcache.symm.trans hfound)
  -- the entry of the hit, and the request that stored it
  obtain ⟨node, hheld, hkey, rfl, hlive⟩ := (h.lookup hcache hget).2 cached rfl
  obtain ⟨stored, hlast, hmethod, hrequest, hproduced, hstorable, hexpires⟩ :=
    h.held name cache hcache node hheld
  rw [hkey] at hlast
  have hmem : stored ∈ s.log := by
    obtain ⟨-, later, earlier, hlog, -⟩ := hlast
    rw [hlog]
    exact List.mem_append_right later List.mem_cons_self
  refine ⟨stored, node.entry.response, hlast, hmethod, hproduced, ?_, ?_,
    cacheableRequest_anonymous hrequest, cacheableRequest_anonymous hcacheable,
    cacheableResponse_shareable hstorable⟩
  · rw [hresponse]
    exact plain_withId context _ _
  · have hexpiry := expiry_le (h.sound name cache hcache).2 (h.times stored hmem)
    rw [htime]
    omega

/-- **Step lemma.** -/
theorem Inv.step (h : Inv hash s) (hstep : step hash s e = some s') :
    AnswersSoundly s e s' ∧ Inv hash s' := by
  -- an answer that adds `x` to the log is about `x`
  have hanswers : ∀ x : HandledRequest, HitSound s x → ∀ hit, x :: s.log = hit :: s.log →
      HitSound s hit := by
    rintro x hx hit heq
    exact (List.cons.inj heq).1 ▸ hx
  have hnothing : ∀ hit : HandledRequest, s.log = hit :: s.log → HitSound s hit :=
    fun hit heq => absurd (congrArg List.length heq) (by simp)
  cases e with
  | request context request decisions =>
    obtain ⟨⟨started, router⟩, hstart, rfl⟩ := Option.map_eq_some_iff.mp hstep
    cases starts_of_start hstart with
    | refused hheader =>
      refine ⟨hanswers _ (hitSound_of_xCache ?_), h.answer (quiet_of_xCache ?_) rfl⟩ <;>
        simp [hheader]
    | uncached hrequest hconfigured hkey =>
      refine ⟨hnothing, h.call ⟨hconfigured, fun key hmem => ?_⟩⟩
      rw [hkey] at hmem
      exact absurd hmem (by simp)
    | @hit name cache cache' cached context context' hcache hcacheable hget =>
      have hheader := (xCache_withId context _).trans (xCache_setHeader cached (bytes "HIT"))
      refine ⟨hanswers _ (h.hitSound rfl hcache hcacheable hget rfl rfl), ?_⟩
      refine (h.lookup hcache hget).1.answer (quiet_of_xCache ?_) rfl
      rw [hheader]
      decide
    | miss hrequest hcache hconfigured hcacheable hkey hget =>
      refine ⟨hnothing, (h.lookup hcache hget).1.call ?_⟩
      have hfits : Fits s.router _ := ⟨by rw [hconfigured, hcache]; rfl, fun key hmem => ?_⟩
      · exact hfits.setCache hcache (h.configured_get hcache hget)
      · rw [hkey] at hmem
        exact ⟨_, hcache, (Option.some.inj hmem).symm ▸ hrequest ▸ rfl, hrequest ▸ hcacheable⟩
  | handled i context outcome =>
    obtain ⟨p, hp, hanswer⟩ := Option.bind_eq_some_iff.mp hstep
    obtain ⟨⟨response, context', router⟩, hfinish, rfl⟩ := Option.map_eq_some_iff.mp hanswer
    have hfits := h.fits p (List.mem_of_getElem? hp)
    cases finishes_of_finish hfinish with
    | uncached hkey hconfigured =>
      -- the route of the request has no cache
      have hnone : s.router.cache p.route.name = none := by
        apply Option.isNone_iff_eq_none.mp
        rw [← Option.not_isSome, ← hfits.configured, hconfigured]
        rfl
      refine ⟨hanswers _ ?_, Inv.answer (h.eraseIdx i) ?_ rfl⟩
      · intro name cache hroute hcache
        obtain rfl := Option.some.inj hroute
        exact absurd (hnone.symm.trans hcache) (by simp)
      · intro name cache hcache key hstores
        obtain rfl := Option.some.inj hstores.1
        exact absurd (hnone.symm.trans hcache) (by simp)
    | bypass hheader =>
      refine ⟨hanswers _ (hitSound_of_xCache ?_),
        Inv.answer (h.eraseIdx i) (quiet_of_xCache ?_) rfl⟩
      · rw [hheader]
        decide
      · rw [hheader]
        decide
    | @stored key cache cache' produced context hkey hcache hmethod hproduced hcacheable hput =>
      have hheader := (xCache_withId context _).trans (xCache_setHeader produced (bytes "MISS"))
      refine ⟨hanswers _ (hitSound_of_xCache ?_), ?_⟩
      · rw [hheader]
        decide
      · exact Inv.store (h.eraseIdx i) hfits hkey hcache hmethod hcacheable hput rfl rfl hproduced
          hheader rfl
  | advance duration =>
    obtain rfl := Option.some.inj hstep
    refine ⟨hnothing, h.sound, h.held, h.fits, ?_, h.times⟩
    have hclock := h.clock
    show -2 ^ 63 ≤ s.clock + duration
    omega

/-- The event can happen: a request can come and time can pass at any time, and a handler
    returns once. -/
def Possible (s : RouterRun) : Event → Prop
  | .handled i _ _ => i < s.pending.length
  | _ => True

/-- No use of a cache is stuck. -/
theorem Inv.isSome_start (h : Inv hash s) (context : RoutedContext) (request : HttpRequest)
    (decisions : Decisions) :
    (s.router.start hash context request decisions s.clock).isSome = true := by
  have hlookup : ∀ route context,
      (s.router.lookup hash route context request s.clock).isSome = true := by
    intro route context
    unfold Router.lookup
    split
    · rfl
    · next cache hcache =>
      split
      · obtain ⟨answer, cache', hget, -⟩ :=
          (h.sound route.name cache hcache).1.get (makeKey request cache.config) s.clock
        simp [hget]
      · rfl
  unfold Router.start
  dsimp only
  split
  · rfl
  · split
    · rfl
    · split
      · rfl
      · exact hlookup _ _

theorem Inv.isSome_finish (h : Inv hash s) {p : Pending} (hp : Fits s.router p)
    (context : RoutedContext) (outcome : Option HttpResponse) :
    (s.router.finish hash p context outcome s.clock).isSome = true := by
  unfold Router.finish
  dsimp only
  split
  · next key hkey =>
    obtain ⟨cache, hcache, -⟩ := hp.key key hkey
    simp only [hcache]
    split
    · obtain ⟨ok, cache', hput, -⟩ := (h.sound p.route.name cache hcache).1.put key
        (outcome.getD
          (makeError 500 (bytes "Internal Server Error") (bytes "internal server error\n"))) s.clock
      rw [hput, Option.bind_some]
      split <;> rfl
    · rfl
  · split <;> rfl

theorem isSome_step (h : Inv hash s) (hpossible : Possible s e) :
    (step hash s e).isSome = true := by
  cases e with
  | request context request decisions =>
    simp only [step, Option.isSome_map]
    exact h.isSome_start context request decisions
  | handled i context outcome =>
    have hp : s.pending[i]? = some s.pending[i] := List.getElem?_eq_getElem hpossible
    simp only [step, hp, Option.bind_some, Option.isSome_map]
    exact h.isSome_finish (h.fits _ (List.getElem_mem hpossible)) context outcome
  | advance duration => rfl

/-! ### The first state -/

/-- The caches of the router are sound and hold nothing. -/
def Fresh (hash : Bytes → Nat) (r : Router) : Prop :=
  ∀ name cache, r.cache name = some cache →
    (Sound hash cache.config cache ∧ 0 < cache.config.ttl) ∧ ∀ node, ¬ cache.Holds node

theorem fresh_create {cache : ResponseCache} (hcreate : ResponseCache.create config = .ok cache) :
    (Sound hash cache.config cache ∧ 0 < cache.config.ttl) ∧ ∀ node, ¬ cache.Holds node := by
  have hsound : Sound hash cache.config cache := sound_create hcreate
  obtain ⟨hvalid, -, rfl⟩ := create_eq_ok hcreate
  refine ⟨⟨hsound, ?_⟩, ?_⟩
  · by_contra httl
    simp [validConfig, not_lt.mp httl] at hvalid
  · rintro node ⟨s, hs, hnode⟩
    obtain ⟨index, -, rfl⟩ := List.mem_map.mp hs
    exact absurd hnode List.not_mem_nil

/-- Neither the list of the routes nor that of the limiters bears on a cache. -/
theorem Fresh.congr {r r' : Router} (h : Fresh hash r) (heq : r'.routeCaches = r.routeCaches) :
    Fresh hash r' := by
  intro name cache hcache
  rw [Router.cache, heq] at hcache
  exact h name cache hcache

/-- A cache that is added is new. -/
theorem fresh_addCache {r r' : Router} {cacheConfig : Option ResponseCacheConfig}
    (h : Fresh hash r) (hadd : r.addCache name cacheConfig = .ok r') : Fresh hash r' := by
  cases cacheConfig with
  | none => exact Except.ok.inj hadd ▸ h
  | some config =>
    obtain ⟨cache, hcreate, rfl⟩ := Loop.map_eq_ok.mp hadd
    intro name' found hfound
    rcases cache_setCache_cases hfound with ⟨-, rfl⟩ | ⟨-, hold⟩
    · exact fresh_create hcreate
    · exact h name' found hold

theorem fresh_add {r r' : Router} {route : Route} {rateLimit : Option RateLimitConfig}
    {cacheConfig : Option ResponseCacheConfig} (h : Fresh hash r)
    (hadd : r.add route rateLimit cacheConfig = .ok r') : Fresh hash r' := by
  unfold add at hadd
  split at hadd
  · exact absurd hadd (by simp)
  · obtain ⟨r₁, hlimiter, hadd⟩ := Loop.bind_eq_ok.mp hadd
    obtain ⟨r₂, hcached, hadd⟩ := Loop.bind_eq_ok.mp hadd
    obtain rfl := Except.ok.inj hadd
    have hr₁ : Fresh hash r₁ := by
      cases rateLimit with
      | none => exact Except.ok.inj hlimiter ▸ h
      | some limit =>
        obtain ⟨_, -, rfl⟩ := Loop.map_eq_ok.mp hlimiter
        exact h.congr rfl
    exact (fresh_addCache hr₁ hcached).congr rfl

/-- **Base of the invariant.** -/
theorem fresh_build {globalLimiter : Bool} {additions : List Addition} {r : Router}
    (hbuild : build globalLimiter additions = .ok r) : Fresh hash r := by
  apply Loop.foldlM_invariant _ additions _ hbuild
  · exact fun r addition r' hr hadd => fresh_add hr hadd
  · exact fun name cache hcache => absurd hcache (by simp [Router.cache])

theorem Fresh.inv {r : Router} (h : Fresh hash r) (start : Int64) :
    Inv hash { router := r, clock := start.toInt } where
  sound name cache hcache := (h name cache hcache).1
  held name cache hcache node hnode := absurd hnode ((h name cache hcache).2 node)
  fits _ hp := absurd hp List.not_mem_nil
  clock := start.le_toInt
  times _ hx := absurd hx List.not_mem_nil

/-- **Cache soundness.** Whatever requests come, however they overlap, whatever their handlers
    return and however time passes, the router is never stuck and every response from a cache
    is sound. -/
theorem hit_sound (hash : Bytes → Nat) (globalLimiter : Bool) (additions : List Addition)
    {r : Router} (hbuild : build globalLimiter additions = .ok r) (start : Int64)
    (events : List Event) :
    Machine.Always (step hash) (fun s => ∀ e, Possible s e → (step hash s e).isSome = true)
        { router := r, clock := start.toInt } events ∧
      Machine.EachStep (step hash) AnswersSoundly
        { router := r, clock := start.toInt } events := by
  have hinv : Inv hash { router := r, clock := start.toInt } := (fresh_build hbuild).inv start
  refine ⟨?_, ?_⟩
  · apply Machine.always_of_invariant (Inv hash) _ _ events hinv
    · exact fun s h e hpossible => isSome_step h hpossible
    · exact fun s e s' h hstep => (h.step hstep).2
  · apply Machine.eachStep_of_invariant (Inv hash) _ events hinv
    exact fun s e s' h hstep => h.step hstep

/-- A route whose responses are stored for a second, in a cache with one shard. -/
def cachedRoute : Addition :=
  ({ method := .Get, pattern := bytes "/a", name := bytes "a" }, none,
    some { ttl := 1000, maxEntryBytes := 100, maxBytes := 100, shardCount := 1 })

def cachedRouter : Router :=
  { routes := [cachedRoute.1],
    routeCaches := [(bytes "a",
      { config := { ttl := 1000, maxEntryBytes := 100, maxBytes := 100, shardCount := 1 },
        shards := [{ maxBytes := 100 }] })] }

def someContext : RoutedContext :=
  { requestId := bytes "1", peer := none, writeDownstream := false }

/-- A request for the route, its handler, and the same request again half a second later and
    another second later. -/
def threeRequests : List Event :=
  [.request someContext { method := .Get, target := bytes "/a" } {},
    .handled 0 someContext (some { body := bytes "x" }), .advance 500000000,
    .request someContext { method := .Get, target := bytes "/a" } {}, .advance 1000000000,
    .request someContext { method := .Get, target := bytes "/a" } {}]

/-- The second request is answered from the cache, the third one waits for its handler. -/
theorem hit_sound_threeRequests :
    Machine.EachStep (step fun _ => 0) AnswersSoundly { router := cachedRouter, clock := 0 }
        threeRequests ∧
      ((Machine.run (step fun _ => 0) { router := cachedRouter, clock := 0 } threeRequests).map
        fun s => (s.log.map (xCache ·.response), s.pending.length)) =
          some ([some (bytes "HIT"), some (bytes "MISS")], 1) :=
  have hbuild : build false [cachedRoute] = .ok cachedRouter := by decide +kernel
  ⟨(hit_sound (fun _ => 0) false [cachedRoute] hbuild 0 threeRequests).2, by decide +kernel⟩

end RouterRun
end PulseGate
