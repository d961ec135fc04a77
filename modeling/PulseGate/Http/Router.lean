import PulseGate.Http.RateLimiter
import PulseGate.Http.ResponseCache
import PulseGate.Http.ProxyMessages

namespace PulseGate

/-!
# The router

`Router::add` and `Router::handle` of `router.cpp`.  A handler runs between `start` and
`finish`: what it returns, and what it makes of the context, are inputs, and so are the
decisions of the rate limiters.  Of a limiter the router holds its place only.

The handlers of the routes are told apart by a number; names are not unique, and the limiter and
the cache of a route are those of its name.

`RouterRun` is a router in use.  Any number of requests are handled at a time; `log` holds
the requests that were answered, from the last one on.
-/

structure Route where
  method : HttpMethod := .Unknown
  pattern : Bytes
  name : Bytes
  prefixMatch : Bool := false
  /-- Which handler it has. -/
  handler : Nat := 0
  deriving DecidableEq, Repr

/-- A `RequestContext` with what the router notes in it for the access log. -/
structure RoutedContext extends RequestContext where
  routeName : Bytes := bytes "unmatched"
  cacheStatus : Bytes := bytes "BYPASS"
  deriving DecidableEq, Repr

structure Router where
  globalLimiter : Bool := false
  routes : List Route := []
  routeLimiters : List Bytes := []
  routeCaches : List (Bytes × ResponseCache) := []
  deriving DecidableEq, Repr

/-- The decisions of the limiters about a request, where there are limiters. -/
structure Decisions where
  globally : RateLimitDecision := {}
  onRoute : RateLimitDecision := {}
  deriving DecidableEq, Repr

/-- A request that waits for the handler of its route. -/
structure Pending where
  request : HttpRequest
  context : RoutedContext
  route : Route
  cacheConfigured : Bool
  cacheKey : Option Bytes
  deriving DecidableEq, Repr

namespace Router

/-! ### Setting up -/

/-- The cache of a route. -/
def cache (r : Router) (name : Bytes) : Option ResponseCache :=
  (r.routeCaches.find? (·.1 = name)).map (·.2)

def setCache (r : Router) (name : Bytes) (cache : ResponseCache) : Router :=
  { r with routeCaches := (name, cache) :: r.routeCaches.filter (·.1 ≠ name) }

/-- The limiter of a route, when it has one. -/
def addLimiter (r : Router) (name : Bytes) : Option RateLimitConfig → Except Exception Router
  | none => .ok r
  | some config =>
    (RateLimiter.create config 0).map fun _ => { r with routeLimiters := name :: r.routeLimiters }

/-- The cache of a route, when it has one. -/
def addCache (r : Router) (name : Bytes) : Option ResponseCacheConfig → Except Exception Router
  | none => .ok r
  | some config => (ResponseCache.create config).map (r.setCache name)

/-- `Router::add`, for a route with a handler. -/
def add (r : Router) (route : Route) (rateLimit : Option RateLimitConfig)
    (cache : Option ResponseCacheConfig) : Except Exception Router :=
  if route.pattern.isEmpty ∨ route.pattern.head? ≠ some 47 ∨ route.name.isEmpty then
    .error .InvalidArgument
  else do
    let r ← r.addLimiter route.name rateLimit
    let r ← r.addCache route.name cache
    pure { r with routes := r.routes ++ [route] }

/-- The routes that are added one after the other, with their options. -/
abbrev Addition := Route × Option RateLimitConfig × Option ResponseCacheConfig

/-- A router with or without a global limiter, and its routes. -/
def build (globalLimiter : Bool) (additions : List Addition) : Except Exception Router :=
  additions.foldlM (fun r (route, rateLimit, cache) => r.add route rateLimit cache)
    { globalLimiter := globalLimiter }

/-! ### Responses of the router -/

def pathPart (target : Bytes) : Bytes := target.takeWhile (· ≠ 63)

def routeMatches (route : Route) (method : HttpMethod) (path : Bytes) : Bool :=
  (route.method = .Unknown || route.method = method) &&
    if route.prefixMatch then route.pattern.isPrefixOf path else path = route.pattern

def makeError (statusCode : Int) (reason body : Bytes) : HttpResponse :=
  { statusCode := statusCode, reason := reason, body := body,
    headers := Headers.add {} (bytes "Content-Type") (bytes "text/plain") }

def makeRateLimited (decision : RateLimitDecision) : HttpResponse :=
  let response := makeError 429 (bytes "Too Many Requests") (bytes "rate limit exceeded\n")
  let seconds := max 1 ((decision.retryAfter + 999).tdiv 1000)
  { response with headers := response.headers.add (bytes "Retry-After") (intToString seconds) }

/-- The methods of the routes for a path, as `Allow` lists them. -/
def allowedMethods (routes : List Route) (path : Bytes) : List Bytes :=
  (routes.filter fun route =>
    route.pattern = path || (route.prefixMatch && route.pattern.isPrefixOf path)).map
      fun route => route.method.name

/-- The response when no route matches. -/
def unmatched (routes : List Route) (path : Bytes) : HttpResponse :=
  match allowedMethods routes path with
  | [] => makeError 404 (bytes "Not Found") (bytes "not found\n")
  | methods =>
    let response := makeError 405 (bytes "Method Not Allowed") (bytes "method not allowed\n")
    { response with
      headers := response.headers.add (bytes "Allow") (List.intercalate (bytes ", ") methods) }

def setHeader (response : HttpResponse) (name value : Bytes) : HttpResponse :=
  { response with headers := response.headers.set name value }

/-- The response with the id of its request. -/
def withId (context : RoutedContext) (response : HttpResponse) : HttpResponse :=
  setHeader response (bytes "X-Request-Id") context.requestId

/-! ### Handling -/

/-- What `handle` comes to before it waits for a handler. -/
inductive Started
  | answered (route : Option Bytes) (response : HttpResponse) (context : RoutedContext)
  | calling (p : Pending)
  deriving DecidableEq, Repr

section

variable (hash : Bytes → Nat)

/-- `handle` on a route whose limiter lets the request through, up to the handler. -/
def lookup (r : Router) (route : Route) (context : RoutedContext) (request : HttpRequest)
    (now : Int) : Option (Started × Router) :=
  match r.cache route.name with
  | none => some (.calling ⟨request, context, route, false, none⟩, r)
  | some cache =>
    if ResponseCache.cacheableRequest request then
      let key := ResponseCache.makeKey request cache.config
      (cache.get hash key now).map fun (cached, cache) =>
        match cached with
        -- a hit is answered without the handler
        | some response =>
          (.answered (some route.name)
            (withId context (setHeader response (bytes "X-Cache") (bytes "HIT")))
            { context with cacheStatus := bytes "HIT" }, r.setCache route.name cache)
        | none =>
          -- a miss is buffered, so that it can be stored
          (.calling ⟨request, { context with bufferResponseForCache := true }, route, true,
            some key⟩, r.setCache route.name cache)
    else some (.calling ⟨request, context, route, true, none⟩, r)

/-- `handle` up to the handler, or to its end when no handler is called. -/
def start (r : Router) (context : RoutedContext) (request : HttpRequest)
    (decisions : Decisions) (now : Int) : Option (Started × Router) :=
  if r.globalLimiter && !decisions.globally.allowed then
    some (.answered none (withId context (makeRateLimited decisions.globally))
      { context with routeName := bytes "global" }, r)
  else
    let path := pathPart request.target
    -- the first route that matches is taken
    match r.routes.find? (routeMatches · request.method path) with
    | none => some (.answered none (withId context (unmatched r.routes path)) context, r)
    | some route =>
      let context := { context with routeName := route.name }
      if r.routeLimiters.contains route.name && !decisions.onRoute.allowed then
        some (.answered (some route.name)
          (withId context (makeRateLimited decisions.onRoute)) context, r)
      else r.lookup hash route context request now

/-- The end of `handle`: the handler returns a response, or throws. -/
def finish (r : Router) (p : Pending) (context : RoutedContext)
    (outcome : Option HttpResponse) (now : Int) :
    Option (HttpResponse × RoutedContext × Router) :=
  let response := outcome.getD
    (makeError 500 (bytes "Internal Server Error") (bytes "internal server error\n"))
  let context := { context with bufferResponseForCache := false }
  let bypass := some (withId context (setHeader response (bytes "X-Cache") (bytes "BYPASS")),
    { context with cacheStatus := bytes "BYPASS" }, r)
  match p.cacheKey with
  | some key =>
    match r.cache p.route.name with
    -- the map that `handle` holds still has the cache
    | none => none
    | some cache =>
      if p.request.method = .Get ∧ ResponseCache.cacheableResponse response cache.config then
        (cache.put hash key response now).bind fun (stored, cache) =>
          if stored then
            some (withId context (setHeader response (bytes "X-Cache") (bytes "MISS")),
              { context with cacheStatus := bytes "MISS" }, r.setCache p.route.name cache)
          else bypass
      else bypass
  | none => if p.cacheConfigured then bypass else some (withId context response, context, r)

end

end Router

/-! ### Runs -/

/-- A request that was answered: the name of its route, what the handler returned, and the
    response and its time. -/
structure HandledRequest where
  request : HttpRequest
  route : Option Bytes
  produced : Option HttpResponse
  response : HttpResponse
  time : Int
  deriving DecidableEq, Repr

structure RouterRun where
  router : Router
  clock : Int
  pending : List Pending := []
  log : List HandledRequest := []
  deriving DecidableEq, Repr

namespace RouterRun

inductive Event
  | request (context : RoutedContext) (request : HttpRequest) (decisions : Decisions)
  /-- The handler of a pending request returns a response, or throws. -/
  | handled (i : Nat) (context : RoutedContext) (outcome : Option HttpResponse)
  /-- Time passes, in nanoseconds. -/
  | advance (duration : Nat)
  deriving DecidableEq, Repr

def step (hash : Bytes → Nat) (s : RouterRun) : Event → Option RouterRun
  | .request context request decisions =>
    (s.router.start hash context request decisions s.clock).map fun (started, router) =>
      match started with
      | .answered route response _ =>
        { s with router := router,
                 log := { request := request, route := route, produced := none,
                          response := response, time := s.clock } :: s.log }
      | .calling p => { s with router := router, pending := s.pending ++ [p] }
  | .handled i context outcome =>
    s.pending[i]?.bind fun p =>
      (s.router.finish hash p context outcome s.clock).map fun (response, _, router) =>
        { s with router := router,
                 pending := s.pending.eraseIdx i,
                 log := { request := p.request, route := some p.route.name,
                          produced := outcome, response := response, time := s.clock } :: s.log }
  | .advance duration => some { s with clock := s.clock + duration }

end RouterRun
end PulseGate
