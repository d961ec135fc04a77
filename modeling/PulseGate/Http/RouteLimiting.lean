import PulseGate.Http.Router

namespace PulseGate

/-!
# Routes that are added while requests are handled

`Router` publishes its routes, its limiters and its caches behind three atomic pointers.  `add`
holds a mutex, prepares all three maps and stores one after the other; `handle` loads one after
the other.  Each load and each store is one step.  A limiter or a cache is known by the number
of the addition that has made it, which is the place of its route.

* `guarded_iff` — when a handler runs behind the limiter and the cache of its route.
-/

namespace Router

def hasLimiter (a : Addition) : Bool := a.2.1.isSome

def hasCache (a : Addition) : Bool := a.2.2.isSome

/-- `add` does not throw. -/
def accepts (a : Addition) : Bool := (({} : Router).add a.1 a.2.1 a.2.2).isOk

/-- A map from route names to limiters, or to caches. -/
abbrev Installed := List (Bytes × Nat)

/-- What the addition with number `k` does to a map; `has` tells whether it has an entry. -/
def install (has : Addition → Bool) (table : Installed) (k : Nat) (a : Addition) : Installed :=
  if has a then (a.1.name, k) :: table.filter (·.1 ≠ a.1.name) else table

def lookupInstalled (table : Installed) (name : Bytes) : Option Nat :=
  (table.find? (·.1 = name)).map (·.2)

/-- The map after some additions. -/
def tableOf (has : Addition → Bool) (additions : List Addition) : Installed :=
  additions.zipIdx.foldl (fun table e => install has table e.2 e.1) []

end Router

/-- What `add` has prepared to publish. -/
structure RouterUpdate where
  routes : List Route
  limiters : Router.Installed
  caches : Router.Installed
  deriving DecidableEq, Repr

/-- The next store of an addition. -/
inductive AddStage
  | storingRoutes
  | storingLimiters
  | storingCaches
  deriving DecidableEq, Repr

/-- Where a request is in `handle`, with what it has loaded. -/
inductive HandlePoint
  | entered (request : HttpRequest)
  | matched (request : HttpRequest) (place : Nat) (route : Route)
  /-- Let through by the limiter that it has found, among those of the first `limitersSeen`
      additions. -/
  | limited (request : HttpRequest) (place : Nat) (route : Route) (limiter : Option Nat)
      (limitersSeen : Nat)
  | answered
  deriving DecidableEq, Repr

/-- A call of the handler of the route at `place`. -/
structure Dispatch where
  place : Nat
  limiter : Option Nat
  limitersSeen : Nat
  cache : Option Nat
  cachesSeen : Nat
  deriving DecidableEq, Repr

/-- A router in use: what is published, and the addition that holds the mutex.  The additions, how
    many of them have stored their limiters and their caches, and the calls of handlers are
    kept for the statements about runs. -/
structure SharedRouter where
  routes : List Route := []
  limiters : Router.Installed := []
  caches : Router.Installed := []
  adding : Option (AddStage × RouterUpdate) := none
  handles : List HandlePoint := []
  additions : List Router.Addition := []
  limitersStored : Nat := 0
  cachesStored : Nat := 0
  dispatched : List Dispatch := []
  deriving DecidableEq, Repr

namespace SharedRouter

open Router

inductive Event
  /-- `add` takes the mutex, and prepares its update. -/
  | add (a : Addition)
  /-- `add` makes its next store; after the last one it releases the mutex. -/
  | store
  /-- A request has passed the global limiter. -/
  | handle (request : HttpRequest)
  | loadRoutes (i : Nat)
  /-- The limiter of the route, if there is one, decides. -/
  | loadLimiters (i : Nat) (allowed : Bool)
  /-- The cache of the route, if there is one and the request is cacheable, has a response. -/
  | loadCaches (i : Nat) (hit : Bool)
  deriving DecidableEq, Repr

/-- The update of an addition. -/
def prepare (s : SharedRouter) (a : Addition) : RouterUpdate :=
  { routes := s.routes ++ [a.1],
    limiters := install hasLimiter s.limiters s.additions.length a,
    caches := install hasCache s.caches s.additions.length a }

def storeNext (s : SharedRouter) (stage : AddStage) (update : RouterUpdate) : SharedRouter :=
  match stage with
  | .storingRoutes =>
    { s with routes := update.routes, adding := some (.storingLimiters, update) }
  | .storingLimiters =>
    { s with limiters := update.limiters, adding := some (.storingCaches, update),
             limitersStored := s.additions.length }
  | .storingCaches =>
    { s with caches := update.caches, adding := none, cachesStored := s.additions.length }

def move (s : SharedRouter) (i : Nat) (next : HandlePoint) : SharedRouter :=
  { s with handles := s.handles.set i next }

/-- The route that a request is for, in the published routes. -/
def findRoute (s : SharedRouter) (request : HttpRequest) : HandlePoint :=
  match s.routes.findIdx? (routeMatches · request.method (pathPart request.target)) with
  | none => .answered
  | some place =>
    match s.routes[place]? with
    | none => .answered
    | some route => .matched request place route

def step (s : SharedRouter) : Event → Option SharedRouter
  | .add a =>
    -- the mutex of `add` is held by one thread
    if s.adding.isNone && accepts a then
      some { s with adding := some (.storingRoutes, s.prepare a), additions := s.additions ++ [a] }
    else none
  | .store => s.adding.map fun (stage, update) => s.storeNext stage update
  | .handle request => some { s with handles := s.handles ++ [.entered request] }
  | .loadRoutes i =>
    match s.handles[i]? with
    | some (.entered request) => some (s.move i (s.findRoute request))
    | _ => none
  | .loadLimiters i allowed =>
    match s.handles[i]? with
    | some (.matched request place route) =>
      -- the second load of the snapshot pointers, after the one of the routes
      let limiter := lookupInstalled s.limiters route.name
      if limiter.isSome && !allowed then some (s.move i .answered)
      else some (s.move i (.limited request place route limiter s.limitersStored))
    | _ => none
  | .loadCaches i hit =>
    match s.handles[i]? with
    | some (.limited request place route limiter limitersSeen) =>
      -- the third one
      let cache := lookupInstalled s.caches route.name
      if cache.isSome && ResponseCache.cacheableRequest request && hit then
        some (s.move i .answered)
      else
        some { s.move i .answered with
          dispatched := { place := place, limiter := limiter, limitersSeen := limitersSeen,
                          cache := cache, cachesSeen := s.cachesStored } :: s.dispatched }
    | _ => none

/-! ### The property and its condition -/

/-- The request was checked against a limiter that was installed for the name of the route by its
    addition or a later one, and served with a cache, where the route has them. -/
def Guarded (additions : List Addition) (d : Dispatch) : Prop :=
  ∀ a, additions[d.place]? = some a →
    (hasLimiter a = true → ∃ k, d.limiter = some k ∧ d.place ≤ k ∧
      ∃ a', additions[k]? = some a' ∧ a'.1.name = a.1.name ∧ hasLimiter a' = true) ∧
    (hasCache a = true → d.cache.isSome = true)

/-- The limiters were loaded after the addition of the route had stored them, and the caches
    after it, or an earlier addition with a cache for the name, had stored them. -/
def LoadedInTime (additions : List Addition) (d : Dispatch) : Prop :=
  ∀ a, additions[d.place]? = some a →
    (hasLimiter a = true → d.place < d.limitersSeen) ∧
    (hasCache a = true → ∃ k a', k < d.cachesSeen ∧ additions[k]? = some a' ∧
      a'.1.name = a.1.name ∧ hasCache a' = true)

/-! ### Maps -/

variable {has : Addition → Bool} {additions : List Addition} {a : Addition} {name : Bytes}

theorem tableOf_concat (has : Addition → Bool) (additions : List Addition) (a : Addition) :
    tableOf has (additions ++ [a]) = install has (tableOf has additions) additions.length a := by
  unfold tableOf
  rw [List.zipIdx_append, List.foldl_append]
  simp

theorem lookup_install (has : Addition → Bool) (table : Installed) (k : Nat) (a : Addition)
    (name : Bytes) : lookupInstalled (install has table k a) name =
      if has a = true ∧ a.1.name = name then some k else lookupInstalled table name := by
  unfold install lookupInstalled
  by_cases hhas : has a = true
  · by_cases hname : a.1.name = name
    · simp [hhas, hname]
    · rw [if_pos hhas, if_neg (fun h => hname h.2), List.find?_cons_of_neg (by simpa using hname),
        List.find?_filter]
      congr 2
      ext entry
      by_cases hentry : entry.1 = name
      · simp [hentry, Ne.symm hname]
      · simp [hentry]
  · simp [hhas]

/-- The last addition with an entry for a name, if there is one. -/
inductive Latest (has : Addition → Bool) (additions : List Addition) (name : Bytes) :
    Option Nat → Prop
  | missing (h : ∀ (k : Nat) (a : Addition), additions[k]? = some a → a.1.name = name →
      has a = false) : Latest has additions name none
  | found {k : Nat} {a : Addition} (hk : additions[k]? = some a) (hname : a.1.name = name)
      (hhas : has a = true)
      (h : ∀ (k' : Nat) (a' : Addition), k < k' → additions[k']? = some a' → a'.1.name = name →
        has a' = false) : Latest has additions name (some k)

theorem latest_tableOf (has : Addition → Bool) (additions : List Addition) (name : Bytes) :
    Latest has additions name (lookupInstalled (tableOf has additions) name) := by
  induction additions using List.reverseRecOn with
  | nil => exact .missing fun k a h => by simp at h
  | append_singleton additions a ih =>
    rw [tableOf_concat, lookup_install]
    have hlast : (additions ++ [a])[additions.length]? = some a := by simp
    -- an addition is the last one, or one before it
    have hcases (k : Nat) (a' : Addition) (hk : (additions ++ [a])[k]? = some a') :
        k = additions.length ∧ a' = a ∨ additions[k]? = some a' := by
      rcases Nat.lt_or_ge k additions.length with hlt | hge
      · rw [List.getElem?_append_left hlt] at hk
        exact .inr hk
      · have hlength := (List.getElem?_eq_some_iff.mp hk).1
        rw [List.length_append, List.length_singleton] at hlength
        obtain rfl : k = additions.length := by omega
        exact .inl ⟨rfl, (Option.some.inj (hlast.symm.trans hk)).symm⟩
    by_cases hown : has a = true ∧ a.1.name = name
    · rw [if_pos hown]
      refine .found hlast hown.2 hown.1 fun k' a' hlt hk' _ => ?_
      have hlength := (List.getElem?_eq_some_iff.mp hk').1
      rw [List.length_append, List.length_singleton] at hlength
      omega
    · rw [if_neg hown]
      have hother (a' : Addition) (heq : a' = a) (hname : a'.1.name = name) : has a' = false := by
        subst heq
        exact Bool.eq_false_iff.mpr fun hhas => hown ⟨hhas, hname⟩
      generalize lookupInstalled (tableOf has additions) name = found at ih ⊢
      cases ih with
      | missing h =>
        refine .missing fun k a' hk hname => ?_
        rcases hcases k a' hk with ⟨-, heq⟩ | hk
        · exact hother a' heq hname
        · exact h k a' hk hname
      | found hk hname hhas h =>
        have hlt := (List.getElem?_eq_some_iff.mp hk).1
        refine .found ((List.getElem?_append_left hlt).trans hk) hname hhas ?_
        intro k' a' hk' hget hname'
        rcases hcases k' a' hget with ⟨-, heq⟩ | hget
        · exact hother a' heq hname'
        · exact h k' a' hk' hget hname'

/-- An entry that was found in the map of the first additions. -/
structure Seen (has : Addition → Bool) (additions : List Addition) (seen : Nat) (name : Bytes)
    (found : Option Nat) : Prop where
  le : seen ≤ additions.length
  lookup : found = lookupInstalled (tableOf has (additions.take seen)) name

theorem Seen.append {seen : Nat} {found : Option Nat} (h : Seen has additions seen name found)
    (a : Addition) : Seen has (additions ++ [a]) seen name found := by
  refine ⟨?_, ?_⟩
  · rw [List.length_append]
    exact Nat.le_add_right_of_le h.le
  · rw [List.take_append_of_le_length h.le]
    exact h.lookup

/-- An entry is found that is not older than an addition exactly if the map has its own. -/
theorem Seen.found_iff {place seen : Nat} {found : Option Nat}
    (h : Seen has additions seen a.1.name found) (hplace : additions[place]? = some a)
    (hhas : has a = true) :
    (∃ k, found = some k ∧ place ≤ k ∧
      ∃ a', additions[k]? = some a' ∧ a'.1.name = a.1.name ∧ has a' = true) ↔ place < seen := by
  have hlatest := latest_tableOf has (additions.take seen) a.1.name
  rw [← h.lookup] at hlatest
  have htake (k : Nat) (hlt : k < seen) : (additions.take seen)[k]? = additions[k]? :=
    List.getElem?_take_of_lt hlt
  constructor
  · rintro ⟨k, rfl, hle, -⟩
    cases hlatest with
    | found hk hname _ _ =>
      have hlt := (List.getElem?_eq_some_iff.mp hk).1
      rw [List.length_take] at hlt
      omega
  · intro hlt
    have hplace' := (htake place hlt).trans hplace
    cases hlatest with
    | missing hnone => exact absurd (hnone place a hplace' rfl) (by simp [hhas])
    | @found k a' hk hname hhas' hlast =>
      have hk_lt := (List.getElem?_eq_some_iff.mp hk).1
      rw [List.length_take] at hk_lt
      rw [htake k (by omega)] at hk
      refine ⟨k, rfl, ?_, a', hk, hname, hhas'⟩
      by_contra hearlier
      exact absurd (hlast place a (by omega) hplace' rfl) (by simp [hhas])

theorem Seen.isSome_iff {seen : Nat} {found : Option Nat}
    (h : Seen has additions seen name found) :
    found.isSome = true ↔ ∃ k a', k < seen ∧ additions[k]? = some a' ∧ a'.1.name = name ∧
      has a' = true := by
  have hlatest := latest_tableOf has (additions.take seen) name
  rw [← h.lookup] at hlatest
  have htake (k : Nat) (hlt : k < seen) : (additions.take seen)[k]? = additions[k]? :=
    List.getElem?_take_of_lt hlt
  cases hlatest with
  | missing hnone =>
    refine iff_of_false (by simp) ?_
    rintro ⟨k, a', hlt, hk, hname, hhas⟩
    exact absurd (hnone k a' ((htake k hlt).trans hk) hname) (by simp [hhas])
  | @found k a' hk hname hhas _ =>
    refine iff_of_true rfl ?_
    have hk_lt := (List.getElem?_eq_some_iff.mp hk).1
    rw [List.length_take] at hk_lt
    have hlt : k < seen := by omega
    exact ⟨k, a', hlt, (htake k hlt).symm.trans hk, hname, hhas⟩

/-! ### An addition on its own -/

/-- What is published is what the router of one thread has. -/
structure Publishes (s : SharedRouter) (r : Router) : Prop where
  routes : s.routes = r.routes
  limiters : ∀ name, (lookupInstalled s.limiters name).isSome = true ↔ name ∈ r.routeLimiters
  caches : ∀ name, (lookupInstalled s.caches name).isSome = (r.cache name).isSome

theorem addLimiter_cases {r r' : Router} {name : Bytes} {rateLimit : Option RateLimitConfig}
    (h : r.addLimiter name rateLimit = .ok r') :
    (∀ r₁ : Router, ∃ r₂, r₁.addLimiter name rateLimit = .ok r₂) ∧ r'.routes = r.routes ∧
      r'.routeCaches = r.routeCaches ∧
      r'.routeLimiters =
        if rateLimit.isSome then name :: r.routeLimiters else r.routeLimiters := by
  cases rateLimit with
  | none =>
    obtain rfl := Except.ok.inj h
    exact ⟨fun r₁ => ⟨r₁, rfl⟩, rfl, rfl, rfl⟩
  | some config =>
    cases hcreate : RateLimiter.create config 0 with
    | error exception => simp [addLimiter, hcreate, Except.map] at h
    | ok limiter =>
      simp only [addLimiter, hcreate, Except.map] at h
      obtain rfl := Except.ok.inj h
      exact ⟨fun r₁ => ⟨_, by rw [addLimiter, hcreate]; rfl⟩, rfl, rfl, rfl⟩

theorem addCache_cases {r r' : Router} {name : Bytes} {cache : Option ResponseCacheConfig}
    (h : r.addCache name cache = .ok r') :
    (∀ r₁ : Router, ∃ r₂, r₁.addCache name cache = .ok r₂) ∧ r'.routes = r.routes ∧
      r'.routeLimiters = r.routeLimiters ∧ ∀ other, (r'.cache other).isSome =
        if cache.isSome = true ∧ name = other then true else (r.cache other).isSome := by
  cases cache with
  | none =>
    obtain rfl := Except.ok.inj h
    exact ⟨fun r₁ => ⟨r₁, rfl⟩, rfl, rfl, fun _ => rfl⟩
  | some config =>
    cases hcreate : ResponseCache.create config with
    | error exception => simp [addCache, hcreate, Except.map] at h
    | ok made =>
      simp only [addCache, hcreate, Except.map] at h
      obtain rfl := Except.ok.inj h
      refine ⟨fun r₁ => ?_, rfl, rfl, fun other => ?_⟩
      · exact ⟨_, by rw [addCache, hcreate]; rfl⟩
      · unfold Router.cache setCache
        by_cases hname : name = other
        · simp [hname]
        · rw [if_neg (fun hown => hname hown.2), List.find?_cons_of_neg (by simpa using hname),
            List.find?_filter, Option.isSome_map, Option.isSome_map]
          congr 2
          ext entry
          by_cases hentry : entry.1 = other
          · simp [hentry, Ne.symm hname]
          · simp [hentry]

/-- **An addition on its own** publishes what `Router.add` makes. -/
theorem add_publishes {s : SharedRouter} {r r' : Router} {a : Addition} (h : s.Publishes r)
    (hfree : s.adding = none) (hadd : r.add a.1 a.2.1 a.2.2 = .ok r') :
    ∃ s', Machine.run step s [.add a, .store, .store, .store] = some s' ∧ s'.Publishes r' ∧
      s'.adding = none := by
  unfold Router.add at hadd
  split at hadd
  · cases hadd
  · next hvalid =>
    cases hlimiter : r.addLimiter a.1.name a.2.1 with
    | error exception =>
      rw [hlimiter] at hadd
      cases hadd
    | ok r₁ =>
      cases hcache : r₁.addCache a.1.name a.2.2 with
      | error exception =>
        simp only [hlimiter, hcache, bind, Except.bind] at hadd
        cases hadd
      | ok r₂ =>
        simp only [hlimiter, hcache, bind, Except.bind, pure, Except.pure] at hadd
        obtain rfl := Except.ok.inj hadd
        obtain ⟨hlimiter_ok, hroutes₁, hcaches₁, hlimiters₁⟩ := addLimiter_cases hlimiter
        obtain ⟨hcache_ok, hroutes₂, hlimiters₂, hcaches₂⟩ := addCache_cases hcache
        -- what this router accepts, an empty one accepts
        have haccepts : accepts a = true := by
          obtain ⟨r₃, hr₃⟩ := hlimiter_ok {}
          obtain ⟨r₄, hr₄⟩ := hcache_ok r₃
          unfold accepts Router.add
          rw [if_neg hvalid]
          simp only [hr₃, hr₄, bind, Except.bind]
          rfl
        -- the three stores, one after another
        have hrun : Machine.run step s [.add a, .store, .store, .store] = some
            { s with
              routes := s.routes ++ [a.1],
              limiters := install hasLimiter s.limiters s.additions.length a,
              caches := install hasCache s.caches s.additions.length a,
              adding := none,
              additions := s.additions ++ [a],
              limitersStored := (s.additions ++ [a]).length,
              cachesStored := (s.additions ++ [a]).length } := by
          simp only [Machine.run, step, hfree, haccepts]
          rfl
        refine ⟨_, hrun, ⟨?_, fun name => ?_, fun name => ?_⟩, rfl⟩
        · show s.routes ++ [a.1] = r₂.routes ++ [a.1]
          rw [h.routes, hroutes₂, hroutes₁]
        · show (lookupInstalled (install hasLimiter s.limiters _ a) name).isSome = true ↔
            name ∈ r₂.routeLimiters
          have hold := h.limiters name
          rw [lookup_install, hlimiters₂, hlimiters₁, hasLimiter]
          by_cases hhas : a.2.1.isSome = true
          · by_cases hname : a.1.name = name
            · simp [hhas, hname]
            · simp [hhas, hname, hold, Ne.symm hname]
          · simp [hhas, hold]
        · show (lookupInstalled (install hasCache s.caches _ a) name).isSome =
            (r₂.cache name).isSome
          have hold := h.caches name
          have hsame : (r₁.cache name).isSome = (r.cache name).isSome := by
            rw [Router.cache, Router.cache, hcaches₁]
          rw [lookup_install, hcaches₂, hsame, ← hold, hasCache]
          split <;> rfl

/-! ### Between two steps -/

/-- What a request in `handle` has loaded. -/
def HandleFits (additions : List Addition) : HandlePoint → Prop
  | .entered _ | .answered => True
  | .matched _ place route => ∃ a, additions[place]? = some a ∧ a.1 = route
  | .limited _ place route limiter limitersSeen =>
    (∃ a, additions[place]? = some a ∧ a.1 = route) ∧
      Seen hasLimiter additions limitersSeen route.name limiter

/-- What a call of a handler has loaded. -/
structure DispatchFits (additions : List Addition) (d : Dispatch) (a : Addition) : Prop where
  place : additions[d.place]? = some a
  limiter : Seen hasLimiter additions d.limitersSeen a.1.name d.limiter
  cache : Seen hasCache additions d.cachesSeen a.1.name d.cache

/-- **The exact condition** for one call of a handler. -/
theorem DispatchFits.isGuarded_iff {d : Dispatch} (h : DispatchFits additions d a) :
    Guarded additions d ↔ LoadedInTime additions d := by
  have hown (a' : Addition) (ha' : additions[d.place]? = some a') : a' = a :=
    Option.some.inj (ha'.symm.trans h.place)
  unfold Guarded LoadedInTime
  apply forall₂_congr
  intro a' ha'
  obtain rfl := hown a' ha'
  rw [h.cache.isSome_iff]
  apply and_congr_left'
  exact forall_congr' fun hhas => h.limiter.found_iff h.place hhas

/-- How far the addition in progress has come, and what it has prepared. -/
def AddFits (s : SharedRouter) : Option (AddStage × RouterUpdate) → Prop
  | none => s.routes.length = s.additions.length ∧ s.limitersStored = s.additions.length ∧
      s.cachesStored = s.additions.length
  | some (stage, update) =>
    (update.routes = s.additions.map (·.1) ∧ update.limiters = tableOf hasLimiter s.additions ∧
      update.caches = tableOf hasCache s.additions) ∧
    match stage with
    | .storingRoutes => True
    | .storingLimiters => s.routes.length = s.additions.length
    | .storingCaches =>
      s.routes.length = s.additions.length ∧ s.limitersStored = s.additions.length

/-- What holds between two steps. -/
structure Inv (s : SharedRouter) : Prop where
  routes : s.routes = (s.additions.take s.routes.length).map (·.1)
  stored : s.limitersStored ≤ s.additions.length ∧ s.cachesStored ≤ s.additions.length
  limiters : s.limiters = tableOf hasLimiter (s.additions.take s.limitersStored)
  caches : s.caches = tableOf hasCache (s.additions.take s.cachesStored)
  adding : s.AddFits s.adding
  handles : ∀ h ∈ s.handles, HandleFits s.additions h
  dispatched : ∀ d ∈ s.dispatched, ∃ a, DispatchFits s.additions d a

theorem getElem?_concat {k : Nat} {a b : Addition} (h : additions[k]? = some a) :
    (additions ++ [b])[k]? = some a :=
  (List.getElem?_append_left (List.getElem?_eq_some_iff.mp h).1).trans h

theorem HandleFits.append {h : HandlePoint} (hfits : HandleFits additions h) (b : Addition) :
    HandleFits (additions ++ [b]) h := by
  cases h with
  | entered _ | answered => trivial
  | matched request place route =>
    obtain ⟨a, ha, hroute⟩ := hfits
    exact ⟨a, getElem?_concat ha, hroute⟩
  | limited request place route limiter limitersSeen =>
    obtain ⟨⟨a, ha, hroute⟩, hseen⟩ := hfits
    exact ⟨⟨a, getElem?_concat ha, hroute⟩, hseen.append b⟩

variable {s s' : SharedRouter} {i : Nat} {next : HandlePoint}

theorem Inv.move (h : s.Inv) (i : Nat) (hnext : HandleFits s.additions next) :
    (s.move i next).Inv := by
  refine ⟨h.routes, h.stored, h.limiters, h.caches, h.adding, ?_, h.dispatched⟩
  intro other hother
  rcases List.mem_or_eq_of_mem_set hother with hother | rfl
  · exact h.handles other hother
  · exact hnext

theorem Inv.prepares (h : s.Inv) (hfree : s.adding = none) (a : Addition) :
    Inv { s with adding := some (.storingRoutes, s.prepare a),
                 additions := s.additions ++ [a] } := by
  have hadding := h.adding
  rw [hfree] at hadding
  obtain ⟨hroutes, hlimiters, hcaches⟩ := hadding
  -- what is published speaks of the earlier additions only
  have htake (k : Nat) (hk : k ≤ s.additions.length) :
      (s.additions ++ [a]).take k = s.additions.take k := List.take_append_of_le_length hk
  have hold_routes := h.routes
  have hold_limiters := h.limiters
  have hold_caches := h.caches
  rw [hroutes, List.take_length] at hold_routes
  rw [hlimiters, List.take_length] at hold_limiters
  rw [hcaches, List.take_length] at hold_caches
  refine ⟨?_, ?_, ?_, ?_, ⟨⟨?_, ?_, ?_⟩, trivial⟩, ?_, ?_⟩
  · show s.routes = ((s.additions ++ [a]).take s.routes.length).map _
    rw [htake _ hroutes.le]
    exact h.routes
  · show _ ≤ (s.additions ++ [a]).length ∧ _ ≤ (s.additions ++ [a]).length
    rw [List.length_append]
    exact ⟨Nat.le_add_right_of_le h.stored.1, Nat.le_add_right_of_le h.stored.2⟩
  · show s.limiters = tableOf hasLimiter ((s.additions ++ [a]).take s.limitersStored)
    rw [htake _ h.stored.1]
    exact h.limiters
  · show s.caches = tableOf hasCache ((s.additions ++ [a]).take s.cachesStored)
    rw [htake _ h.stored.2]
    exact h.caches
  · show s.routes ++ [a.1] = (s.additions ++ [a]).map _
    rw [List.map_append, ← hold_routes]
    rfl
  · show install hasLimiter s.limiters _ a = tableOf hasLimiter (s.additions ++ [a])
    rw [tableOf_concat, ← hold_limiters]
  · show install hasCache s.caches _ a = tableOf hasCache (s.additions ++ [a])
    rw [tableOf_concat, ← hold_caches]
  · exact fun other hother => (h.handles other hother).append a
  · intro d hd
    obtain ⟨b, hfits⟩ := h.dispatched d hd
    exact ⟨b, getElem?_concat hfits.place, hfits.limiter.append a, hfits.cache.append a⟩

theorem Inv.stores (h : s.Inv) {stage : AddStage} {update : RouterUpdate}
    (hadding : s.adding = some (stage, update)) : (s.storeNext stage update).Inv := by
  have hfits := h.adding
  rw [hadding] at hfits
  obtain ⟨⟨hroutes, hlimiters, hcaches⟩, hstage⟩ := hfits
  have hlength : update.routes.length = s.additions.length := by rw [hroutes, List.length_map]
  cases stage with
  | storingRoutes =>
    refine ⟨?_, h.stored, h.limiters, h.caches, ⟨⟨hroutes, hlimiters, hcaches⟩, hlength⟩,
      h.handles, h.dispatched⟩
    show update.routes = (s.additions.take update.routes.length).map _
    rw [hlength, List.take_length]
    exact hroutes
  | storingLimiters =>
    refine ⟨h.routes, ⟨le_refl _, h.stored.2⟩, ?_, h.caches,
      ⟨⟨hroutes, hlimiters, hcaches⟩, hstage, rfl⟩, h.handles, h.dispatched⟩
    show update.limiters = tableOf hasLimiter (s.additions.take s.additions.length)
    rw [List.take_length]
    exact hlimiters
  | storingCaches =>
    refine ⟨h.routes, ⟨h.stored.1, le_refl _⟩, h.limiters, ?_, ⟨hstage.1, hstage.2, rfl⟩,
      h.handles, h.dispatched⟩
    show update.caches = tableOf hasCache (s.additions.take s.additions.length)
    rw [List.take_length]
    exact hcaches

theorem Inv.findRoute (h : s.Inv) (request : HttpRequest) :
    HandleFits s.additions (s.findRoute request) := by
  unfold SharedRouter.findRoute
  split
  · trivial
  · next place _ =>
    split
    · trivial
    · next route hroute =>
      rw [h.routes, List.getElem?_map, Option.map_eq_some_iff] at hroute
      obtain ⟨a, ha, hname⟩ := hroute
      have hlt := (List.getElem?_eq_some_iff.mp ha).1
      rw [List.length_take] at hlt
      rw [List.getElem?_take_of_lt (by omega)] at ha
      exact ⟨a, ha, hname⟩

/-- **Step lemma.** -/
theorem Inv.step (h : s.Inv) {e : Event} (hstep : s.step e = some s') : s'.Inv := by
  cases e with
  | add a =>
    simp only [SharedRouter.step] at hstep
    split at hstep
    · next hfree =>
      obtain rfl := Option.some.inj hstep
      rw [Bool.and_eq_true, Option.isNone_iff_eq_none] at hfree
      exact h.prepares hfree.1 a
    · cases hstep
  | store =>
    obtain ⟨⟨stage, update⟩, hadding, rfl⟩ := Option.map_eq_some_iff.mp hstep
    exact h.stores hadding
  | handle request =>
    obtain rfl := Option.some.inj hstep
    refine ⟨h.routes, h.stored, h.limiters, h.caches, h.adding, ?_, h.dispatched⟩
    intro other hother
    rcases List.mem_append.mp hother with hother | hother
    · exact h.handles other hother
    · rw [List.mem_singleton.mp hother]
      trivial
  | loadRoutes i =>
    simp only [SharedRouter.step] at hstep
    split at hstep
    · next request _ =>
      obtain rfl := Option.some.inj hstep
      exact h.move i (h.findRoute request)
    · cases hstep
  -- the limiter is looked up in the table that is stored now
  | loadLimiters i allowed =>
    simp only [SharedRouter.step] at hstep
    split at hstep
    · next request place route hpoint =>
      have hfits : HandleFits s.additions (.matched request place route) :=
        h.handles _ (List.mem_of_getElem? hpoint)
      split at hstep
      · obtain rfl := Option.some.inj hstep
        exact h.move i trivial
      · obtain rfl := Option.some.inj hstep
        refine h.move i ⟨hfits, h.stored.1, ?_⟩
        rw [h.limiters]
    · cases hstep
  | loadCaches i hit =>
    simp only [SharedRouter.step] at hstep
    split at hstep
    · next request place route limiter limitersSeen hpoint =>
      obtain ⟨⟨a, ha, rfl⟩, hlimiter⟩ :
          HandleFits s.additions (.limited request place route limiter limitersSeen) :=
        h.handles _ (List.mem_of_getElem? hpoint)
      split at hstep
      · obtain rfl := Option.some.inj hstep
        exact h.move i trivial
      · obtain rfl := Option.some.inj hstep
        -- the dispatch joins the log, with the limiter and the cache it was given
        have hmoved : (s.move i .answered).Inv := h.move i trivial
        refine ⟨hmoved.routes, hmoved.stored, hmoved.limiters, hmoved.caches, hmoved.adding,
          hmoved.handles, ?_⟩
        intro d hd
        rcases List.mem_cons.mp hd with rfl | hd
        · have hcache := congrArg (lookupInstalled · a.1.name) h.caches
          exact ⟨a, ha, hlimiter, h.stored.2, hcache⟩
        · exact h.dispatched d hd
    · cases hstep

theorem inv_init : Inv {} :=
  ⟨rfl, ⟨le_refl _, le_refl _⟩, rfl, rfl, ⟨rfl, rfl, rfl⟩,
    fun _ h => absurd h List.not_mem_nil, fun _ h => absurd h List.not_mem_nil⟩

/-- **When a handler runs behind its limiter and its cache.** In every run of additions and
requests, every call of a handler is guarded exactly if every one has loaded the limiters and the
caches in time. -/
theorem guarded_iff (events : List Event) :
    Machine.Always step (fun s => ∀ d ∈ s.dispatched, Guarded s.additions d) {} events ↔
      Machine.Always step (fun s => ∀ d ∈ s.dispatched, LoadedInTime s.additions d) {} events := by
  apply Machine.always_congr Inv _ _ events inv_init
  · intro s h
    apply forall₂_congr
    intro d hd
    obtain ⟨a, hfits⟩ := h.dispatched d hd
    exact hfits.isGuarded_iff
  · exact fun s e s' h _ hstep => h.step hstep

/-- A route for the users, with a limiter and a cache, that is added while a request is handled. -/
def usersRoute : Addition :=
  ({ method := .Get, pattern := bytes "/users", name := bytes "users" },
    some { requestsPerSecond := 1, burst := 1 }, some {})

/-- The request loads the routes after they have been stored, and the rest before. -/
def requestMeanwhile : List Event :=
  [.add usersRoute, .handle { method := .Get, target := bytes "/users" }, .store, .loadRoutes 0,
    .loadLimiters 0 true, .loadCaches 0 false, .store, .store]

theorem unguarded_meanwhile :
    ¬ Machine.Always step (fun s => ∀ d ∈ s.dispatched, Guarded s.additions d) {}
      requestMeanwhile := by
  intro h
  have hlast : ((Machine.run step {} requestMeanwhile).map fun s => (s.additions, s.dispatched)) =
      some ([usersRoute], [⟨0, none, 0, none, 0⟩]) := by decide +kernel
  obtain ⟨s, hrun, hs⟩ := Option.map_eq_some_iff.mp hlast
  obtain ⟨hadditions, hdispatched⟩ := Prod.mk.inj hs
  have hguarded := h.last s hrun
  rw [hadditions, hdispatched] at hguarded
  obtain ⟨k, hlimiter, -⟩ := (hguarded _ List.mem_cons_self usersRoute rfl).1 rfl
  cases hlimiter

end SharedRouter
end PulseGate
