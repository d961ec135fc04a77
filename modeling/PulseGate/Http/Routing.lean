import PulseGate.Http.CacheSoundness

namespace PulseGate

/-!
# Which route handles a request

`Router::match` and the two scans of `Router::handle`: the one that looks for a route and, when
there is none, the one that collects the methods for `Allow`.

* `routeMatches_iff`, `mem_allowedRoutes_iff` — what the two scans look for;
* `build_routes`, `routes_step` — the table is that of the additions, and stays as it is;
* `routing_law` — a request goes to the first route that suits it, and what is answered when
  there is none.
-/

/-- The path of the target is that of the route. -/
def Route.FitsPath (route : Route) (target : Bytes) : Prop :=
  route.pattern = Router.pathPart target ∨
    (route.prefixMatch = true ∧ route.pattern <+: Router.pathPart target)

/-- The route is for the method and the target. -/
def Route.Suits (route : Route) (method : HttpMethod) (target : Bytes) : Prop :=
  (route.method = method ∨ route.method = .Unknown) ∧ route.FitsPath target

namespace Router

/-- `Router::match`. -/
def matchRoute (r : Router) (method : HttpMethod) (target : Bytes) : Option Route :=
  r.routes.find? (routeMatches · method (pathPart target))

/-! ### The two scans -/

variable {route : Route} {method : HttpMethod} {target : Bytes} {r r' : Router}

theorem routeMatches_iff :
    routeMatches route method (pathPart target) = true ↔ route.Suits method target := by
  have hpath : (if route.prefixMatch then route.pattern.isPrefixOf (pathPart target)
      else decide (pathPart target = route.pattern)) = true ↔ route.FitsPath target := by
    unfold Route.FitsPath
    by_cases hfront : route.prefixMatch = true
    · -- a pattern that is the path is a prefix of it
      rw [if_pos hfront, List.isPrefixOf_iff_prefix]
      constructor
      · exact fun h => .inr ⟨hfront, h⟩
      · rintro (h | ⟨-, h⟩)
        · exact h ▸ List.prefix_refl _
        · exact h
    · rw [if_neg hfront, decide_eq_true_iff]
      constructor
      · exact fun h => .inl h.symm
      · rintro (h | ⟨h, -⟩)
        · exact h.symm
        · exact absurd h hfront
  unfold routeMatches Route.Suits
  rw [Bool.and_eq_true, Bool.or_eq_true, decide_eq_true_iff, decide_eq_true_iff, hpath,
    or_comm (a := route.method = .Unknown)]

/-- The routes that the second scan collects. -/
def allowedRoutes (routes : List Route) (path : Bytes) : List Route :=
  routes.filter fun route =>
    route.pattern = path || (route.prefixMatch && route.pattern.isPrefixOf path)

theorem mem_allowedRoutes_iff {routes : List Route} :
    route ∈ allowedRoutes routes (pathPart target) ↔ route ∈ routes ∧ route.FitsPath target := by
  simp [allowedRoutes, Route.FitsPath]

theorem allowedMethods_eq (routes : List Route) (path : Bytes) :
    allowedMethods routes path =
      ((allowedRoutes routes path).map (·.method)).map HttpMethod.name := by
  rw [List.map_map]
  rfl

/-- The first route that suits is found. -/
theorem matchRoute_of_first {before after : List Route}
    (hroutes : r.routes = before ++ route :: after) (hsuits : route.Suits method target)
    (hfirst : ∀ earlier ∈ before, ¬ earlier.Suits method target) :
    r.matchRoute method target = some route := by
  have hnone : before.find? (routeMatches · method (pathPart target)) = none :=
    List.find?_eq_none.mpr fun earlier hearlier h =>
      hfirst earlier hearlier (routeMatches_iff.mp h)
  rw [matchRoute, hroutes, List.find?_append, hnone, Option.none_or]
  exact List.find?_cons_of_pos (routeMatches_iff.mpr hsuits)

theorem matchRoute_eq_none_iff :
    r.matchRoute method target = none ↔ ∀ route ∈ r.routes, ¬ route.Suits method target := by
  rw [matchRoute, List.find?_eq_none]
  exact forall₂_congr fun route _ => not_congr routeMatches_iff

/-- When no route suits, the methods of the routes for the path are those that would be
    dispatched: none of these routes is for every method. -/
theorem mem_allowed_iff (hnone : r.matchRoute method target = none) (other : HttpMethod) :
    other ∈ (allowedRoutes r.routes (pathPart target)).map (·.method) ↔
      (r.matchRoute other target).isSome = true := by
  have hsuits : (r.matchRoute other target).isSome = true ↔
      ∃ route ∈ r.routes, route.Suits other target := by
    rw [← Option.not_isNone, Bool.not_eq_true', ← Bool.not_eq_true, Option.isNone_iff_eq_none,
      matchRoute_eq_none_iff]
    simp only [not_forall, not_not, exists_prop]
  rw [hsuits, List.mem_map]
  constructor
  · rintro ⟨route, hroute, rfl⟩
    obtain ⟨hmem, hpath⟩ := mem_allowedRoutes_iff.mp hroute
    exact ⟨route, hmem, .inl rfl, hpath⟩
  · rintro ⟨route, hmem, hmethod, hpath⟩
    refine ⟨route, mem_allowedRoutes_iff.mpr ⟨hmem, hpath⟩, ?_⟩
    rcases hmethod with hsame | hany
    · exact hsame
    · exact absurd ⟨.inr hany, hpath⟩ (matchRoute_eq_none_iff.mp hnone route hmem)

/-! ### The table -/

theorem add_routes {rateLimit : Option RateLimitConfig} {cache : Option ResponseCacheConfig}
    (hadd : r.add route rateLimit cache = .ok r') : r'.routes = r.routes ++ [route] := by
  unfold add at hadd
  split at hadd
  · cases hadd
  · obtain ⟨r₁, hlimiter, hadd⟩ := Loop.bind_eq_ok.mp hadd
    obtain ⟨r₂, hcached, hadd⟩ := Loop.bind_eq_ok.mp hadd
    obtain rfl := Except.ok.inj hadd
    have h₁ : r₁.routes = r.routes := by
      cases rateLimit with
      | none => exact Except.ok.inj hlimiter ▸ rfl
      | some limit =>
        obtain ⟨_, -, rfl⟩ := Loop.map_eq_ok.mp hlimiter
        rfl
    have h₂ : r₂.routes = r₁.routes := by
      cases cache with
      | none => exact Except.ok.inj hcached ▸ rfl
      | some config =>
        obtain ⟨_, -, rfl⟩ := Loop.map_eq_ok.mp hcached
        rfl
    show r₂.routes ++ [route] = _
    rw [h₂, h₁]

/-- The routes are in the order in which they were added. -/
theorem build_routes {globalLimiter : Bool} {additions : List Addition}
    (hbuild : build globalLimiter additions = .ok r) : r.routes = additions.map (·.1) := by
  have hall : ∀ (additions : List Addition) (r r' : Router),
      additions.foldlM (fun r addition => r.add addition.1 addition.2.1 addition.2.2) r = .ok r' →
      r'.routes = r.routes ++ additions.map (·.1) := by
    intro additions
    induction additions with
    | nil =>
      intro r r' hfold
      obtain rfl := Except.ok.inj hfold
      exact (List.append_nil _).symm
    | cons addition additions ih =>
      intro r r' hfold
      rw [List.foldlM_cons] at hfold
      obtain ⟨r₁, hadd, hrest⟩ := Loop.bind_eq_ok.mp hfold
      rw [ih r₁ r' hrest, add_routes hadd, List.append_assoc]
      rfl
  exact hall additions _ r hbuild

end Router

namespace RouterRun

open Router

variable {hash : Bytes → Nat} {s s' : RouterRun} {e : Event}

/-- No event changes the table. -/
theorem routes_step (hstep : step hash s e = some s') : s'.router.routes = s.router.routes := by
  cases e with
  | request context request decisions =>
    obtain ⟨⟨started, router⟩, hstart, rfl⟩ := Option.map_eq_some_iff.mp hstep
    have hrouter : router.routes = s.router.routes := by
      cases starts_of_start hstart <;> rfl
    cases started <;> exact hrouter
  | handled i context outcome =>
    obtain ⟨p, -, hfinish⟩ := Option.bind_eq_some_iff.mp hstep
    obtain ⟨⟨response, context', router⟩, hdone, rfl⟩ := Option.map_eq_some_iff.mp hfinish
    show router.routes = s.router.routes
    cases finishes_of_finish hdone <;> rfl
  | advance duration =>
    obtain rfl := Option.some.inj hstep
    rfl

/-! ### The law -/

/-- The request goes to the handler of the route, or is answered from the cache of the
    route. -/
inductive Dispatched (hash : Bytes → Nat) (r : Router) (request : HttpRequest) (now : Int)
    (route : Route) : Started → Prop
  | invoked {p : Pending} (hrequest : p.request = request) (hroute : p.route = route) :
    Dispatched hash r request now route (.calling p)
  | cached {cache cache' : ResponseCache} {found response : HttpResponse}
      {context : RoutedContext} (hcache : r.cache route.name = some cache)
      (hcacheable : ResponseCache.cacheableRequest request = true)
      (hfound : cache.get hash (ResponseCache.makeKey request cache.config) now =
        some (some found, cache')) (hhit : xCache response = some (bytes "HIT")) :
    Dispatched hash r request now route (.answered (some route.name) response context)

/-- What is answered when no route suits: 405 with the methods that would be dispatched when
    a route is for the path, 404 otherwise. -/
structure Rejected (r : Router) (target : Bytes) (response : HttpResponse) : Prop where
  notFound : response.statusCode = 404 ↔ ∀ route ∈ r.routes, ¬ route.FitsPath target
  notAllowed : response.statusCode = 405 ↔ ∃ route ∈ r.routes, route.FitsPath target
  allow : response.statusCode = 405 → ∃ methods : List HttpMethod,
    response.headers.get (bytes "Allow") =
        some (List.intercalate (bytes ", ") (methods.map HttpMethod.name)) ∧
      ∀ method, method ∈ methods ↔ (r.matchRoute method target).isSome = true

theorem dispatched_of_lookup {r r' : Router} {route : Route} {context : RoutedContext}
    {request : HttpRequest} {now : Int} {started : Started}
    (h : r.lookup hash route context request now = some (started, r')) :
    Dispatched hash r request now route started := by
  unfold lookup at h
  split at h
  · obtain ⟨rfl, -⟩ := Prod.mk.inj (Option.some.inj h)
    exact .invoked rfl rfl
  · next cache hcache =>
    split at h
    · next hcacheable =>
      obtain ⟨⟨found, cache'⟩, hget, hstarted⟩ := Option.map_eq_some_iff.mp h
      cases found with
      | none =>
        obtain ⟨rfl, -⟩ := Prod.mk.inj hstarted
        exact .invoked rfl rfl
      | some found =>
        obtain ⟨rfl, -⟩ := Prod.mk.inj hstarted
        exact .cached hcache hcacheable hget ((xCache_withId _ _).trans (xCache_setHeader _ _))
    · obtain ⟨rfl, -⟩ := Prod.mk.inj (Option.some.inj h)
      exact .invoked rfl rfl

theorem rejected_unmatched {r : Router} {method : HttpMethod} {target : Bytes}
    (hnone : r.matchRoute method target = none) (context : RoutedContext) :
    Rejected r target (withId context (unmatched r.routes (pathPart target))) := by
  have hmem : ∀ route, route ∈ allowedRoutes r.routes (pathPart target) ↔
      route ∈ r.routes ∧ route.FitsPath target := fun _ => mem_allowedRoutes_iff
  have hcodes : (404 : Int) ≠ 405 := by decide
  unfold unmatched
  rw [allowedMethods_eq]
  rcases hallowed : allowedRoutes r.routes (pathPart target) with _ | ⟨first, rest⟩
  · -- no route is for the path
    have hno : ∀ route ∈ r.routes, ¬ route.FitsPath target := by
      intro route hroute hpath
      have hin := (hmem route).mpr ⟨hroute, hpath⟩
      rw [hallowed] at hin
      exact absurd hin List.not_mem_nil
    refine ⟨iff_of_true rfl hno, iff_of_false hcodes ?_, fun h => absurd h hcodes⟩
    rintro ⟨route, hroute, hpath⟩
    exact hno route hroute hpath
  · have hyes : ∃ route ∈ r.routes, route.FitsPath target :=
      ⟨first, (hmem first).mp (hallowed ▸ List.mem_cons_self)⟩
    refine ⟨iff_of_false hcodes.symm ?_, iff_of_true rfl hyes, fun _ => ?_⟩
    · obtain ⟨route, hroute, hpath⟩ := hyes
      exact fun hno => hno route hroute hpath
    · refine ⟨(first :: rest).map (·.method), rfl, fun other => ?_⟩
      rw [← hallowed]
      exact mem_allowed_iff hnone other

/-- **The routing law.** Whatever requests came before, a request that no limiter refuses goes
    to the first route that was added and suits it, which is the route of `match`; when there
    is none, it is answered with 404 or 405. -/
theorem routing_law (hash : Bytes → Nat) (globalLimiter : Bool) (additions : List Addition)
    {r : Router} (hbuild : build globalLimiter additions = .ok r) (start : Int64)
    (events : List Event)
    (hrun : Machine.run (step hash) { router := r, clock := start.toInt } events = some s)
    (context : RoutedContext) (request : HttpRequest) (decisions : Decisions)
    (hglobally : decisions.globally.allowed = true) (hroute : decisions.onRoute.allowed = true) :
    ∃ started r',
      s.router.start hash context request decisions s.clock = some (started, r') ∧
      (∀ before addition after, additions = before ++ addition :: after →
        addition.1.Suits request.method request.target →
        (∀ earlier ∈ before, ¬ earlier.1.Suits request.method request.target) →
        s.router.matchRoute request.method request.target = some addition.1 ∧
          Dispatched hash s.router request s.clock addition.1 started) ∧
      ((∀ addition ∈ additions, ¬ addition.1.Suits request.method request.target) →
        s.router.matchRoute request.method request.target = none ∧
          ∃ response, started = .answered none response context ∧
            Rejected s.router request.target response) := by
  -- the invariant and the table hold at the end of the run
  have hinv : Inv hash s := by
    apply (Machine.always_of_invariant (Inv hash) (fun _ h => h) ?_ events
      ((fresh_build hbuild).inv start)).last s hrun
    exact fun s e s' h hstep => (h.step hstep).2
  have htable : s.router.routes = additions.map (·.1) := by
    apply (Machine.always_of_invariant (fun s : RouterRun => s.router.routes = additions.map (·.1))
      (fun _ h => h) ?_ events (build_routes hbuild)).last s hrun
    exact fun s e s' h hstep => (routes_step hstep).trans h
  obtain ⟨⟨started, r'⟩, hstart⟩ :=
    Option.isSome_iff_exists.mp (hinv.isSome_start context request decisions)
  refine ⟨started, r', hstart, ?_, ?_⟩
  · rintro before addition after rfl hsuits hfirst
    rw [List.map_append, List.map_cons] at htable
    have hmatch := matchRoute_of_first htable hsuits (by
      intro earlier hearlier
      obtain ⟨other, hother, rfl⟩ := List.mem_map.mp hearlier
      exact hfirst other hother)
    refine ⟨hmatch, ?_⟩
    unfold Router.start at hstart
    rw [matchRoute] at hmatch
    simp only [hglobally, hroute, Bool.not_true, Bool.and_false, Bool.false_eq_true, if_false,
      hmatch] at hstart
    exact dispatched_of_lookup hstart
  · intro hnone
    have hmatch : s.router.matchRoute request.method request.target = none := by
      apply matchRoute_eq_none_iff.mpr
      intro route hmem
      rw [htable] at hmem
      obtain ⟨addition, haddition, rfl⟩ := List.mem_map.mp hmem
      exact hnone addition haddition
    refine ⟨hmatch, ?_⟩
    have hrejected := rejected_unmatched hmatch context
    unfold Router.start at hstart
    rw [matchRoute] at hmatch
    simp only [hglobally, Bool.not_true, Bool.and_false, Bool.false_eq_true, if_false,
      hmatch, Option.some.injEq, Prod.mk.injEq] at hstart
    exact ⟨_, hstart.1.symm, hrejected⟩

/-- A route for the health of the server. -/
def healthRoute (method : HttpMethod) (handler : Nat) : Addition :=
  ({ method := method, pattern := bytes "/healthz", name := bytes "healthz", handler := handler },
    none, none)

/-- The same route twice under one name, for GET and for HEAD, with a handler each. -/
def healthRouter : Router :=
  { routes := [(healthRoute .Get 0).1, (healthRoute .Head 1).1] }

/-- A request for HEAD is dispatched to the second route and not to its namesake, and one for
    POST is not allowed. -/
theorem routing_law_health :
    (∃ started r', healthRouter.start (fun _ => 0) someContext
        { method := .Head, target := bytes "/healthz?q" } {} 0 = some (started, r') ∧
      Dispatched (fun _ => 0) healthRouter { method := .Head, target := bytes "/healthz?q" } 0
        (healthRoute .Head 1).1 started) ∧
    ∃ started r', healthRouter.start (fun _ => 0) someContext
        { method := .Post, target := bytes "/healthz?q" } {} 0 = some (started, r') ∧
      ∃ response, started = .answered none response someContext ∧
        Rejected healthRouter (bytes "/healthz?q") response := by
  have hbuild : build false [healthRoute .Get 0, healthRoute .Head 1] = .ok healthRouter := by
    decide +kernel
  constructor
  · obtain ⟨started, r', hstart, hfirst, -⟩ := routing_law (fun _ => 0) false _ hbuild 0 [] rfl
      someContext { method := .Head, target := bytes "/healthz?q" } {} rfl rfl
    refine ⟨started, r', hstart, (hfirst [healthRoute .Get 0] _ [] rfl ?_ ?_).2⟩
    · exact ⟨.inl rfl, .inl (by decide +kernel)⟩
    · intro earlier hearlier hsuits
      obtain rfl := List.mem_singleton.mp hearlier
      exact absurd hsuits.1 (by decide)
  · obtain ⟨started, r', hstart, -, hnone⟩ := routing_law (fun _ => 0) false _ hbuild 0 [] rfl
      someContext { method := .Post, target := bytes "/healthz?q" } {} rfl rfl
    refine ⟨started, r', hstart, (hnone ?_).2⟩
    intro addition haddition hsuits
    have hmethod : addition.1.method = .Get ∨ addition.1.method = .Head := by
      rcases List.mem_pair.mp haddition with rfl | rfl
      · exact .inl rfl
      · exact .inr rfl
    obtain ⟨hany, -⟩ := hsuits
    rcases hmethod with h | h <;> rw [h] at hany <;> exact absurd hany (by decide)

/-- The second request is for the route, and its handler is not invoked. -/
theorem not_invoked_again :
    build false [cachedRoute] = .ok cachedRouter ∧
      ∃ s, Machine.run (step fun _ => 0) { router := cachedRouter, clock := 0 }
          (threeRequests.take 3) = some s ∧
        s.router.matchRoute .Get (bytes "/a") = some cachedRoute.1 ∧
        ∃ response context r', s.router.start (fun _ => 0) someContext
            { method := .Get, target := bytes "/a" } {} s.clock =
          some (.answered (some (bytes "a")) response context, r') :=
  ⟨by decide +kernel, _, rfl, rfl, _, _, _, rfl⟩

end RouterRun

end PulseGate
