import PulseGate.Http.ProxySession

namespace PulseGate

/-!
# One proxied request

`ReverseProxy::operator()` between its caller `Router::handle` and the client, from the call
of the route's handler to the end of the response in `HttpSession::run`.  `Exchange` is the
request with its transaction; what other requests share with it — the counter of requests in
flight, the round-robin ticket, the health snapshot, the breakers and the pool — answers
through the events.

The calls on the breakers and on the health store, and what becomes of the lease, are kept in
logs, the latest entry first, for the statements about runs; so are the way the transaction
ended (`Ending`) and the session it left.
-/

/-- A call on the breaker of an endpoint. -/
inductive BreakerCall
  | allowRequest (endpoint : Nat) (allowed : Bool)
  | recordSuccess (endpoint : Nat)
  | recordFailure (endpoint : Nat)
  | recordNeutral (endpoint : Nat)
  deriving DecidableEq, Repr

/-- A call on the health store. -/
inductive HealthCall
  | recordSuccess (endpoint : Nat)
  | recordFailure (endpoint : Nat)
  deriving DecidableEq, Repr

/-- What happens to the lease: it is returned, discarded, or destroyed with the session that
    holds it. -/
inductive LeaseReturn
  | releaseReusable
  | discard
  | abandon
  deriving DecidableEq, Repr

/-- How a transaction ends. -/
inductive Ending
  /-- A complete upstream response was parsed, and passed on. -/
  | complete
  /-- The client disconnected or the server shut down. -/
  | clientGone
  /-- The upstream was not reached, timed out, closed early or broke the protocol. -/
  | upstreamFault
  /-- The request was not sent. -/
  | refused
  deriving DecidableEq, Repr

/-- The ending of a transaction whose operation fails after a stop. -/
def ProxyStopReason.ending : ProxyStopReason → Ending
  | .DownstreamClosed | .ServerShutdown => .clientGone
  | _ => .upstreamFault

/-- The ending the event brings about, if it ends the transaction. -/
def ProxySession.endingOf (s : ProxySession) : ProxyEvent → Option Ending
  | .run =>
    match s.point with
    | .entry =>
      if upgradeRequested s.request ∨ (s.forwarding ∧ !s.context.writeDownstream) then some .refused
      else none
    | .checkingResult .NeedMore => none
    | .checkingResult .Complete => if s.forwarding then none else some .complete
    | .checkingResult _ => some .upstreamFault
    | .preparing =>
      match s.input.prepare s.limits.readChunkBytes with
      | .ok _ => none
      | .error _ => some .upstreamFault
    | _ => none
  | .resolved ok | .connected ok | .sent ok => if ok then none else some s.stopReason.ending
  | .readFailed =>
    if s.stopReason ≠ .None then some s.stopReason.ending
    else if s.parser.finishOnEof.1 = .Complete then if s.forwarding then none else some .complete
    else some .upstreamFault
  | .written progress =>
    if progress ≠ .sent then some .clientGone
    else if s.point = .writingLast then some .complete
    else none
  | _ => none

/-- Where the exchange is. -/
inductive Stage
  | admission
  /-- The loop over the endpoints, with what it remembers of the circuits it has visited. -/
  | selecting (attempt : Nat) (circuitRejected : Bool) (earliestRetry : Int)
  | acquiring (endpoint : Nat)
  | transacting (endpoint : Nat) (session : ProxySession)
  /-- The handler has returned, or thrown, and the response is in `Router::handle`. -/
  | handled (response : HttpResponse)
  /-- `HttpSession::run` writes the response. -/
  | responding
  | finished

inductive ExchangeEvent
  /-- The value of `in_flight` that admits or refuses the request. -/
  | observed (inFlight : Nat)
  /-- One attempt of the loop: the ticket, the answers of the health store and of the breaker,
      and the snapshot of the breaker. -/
  | attempted (ticket : Nat) (healthy allowed : Bool) (circuit : CircuitState) (retryAt : Int)
  /-- The loop is over, at time `now`. -/
  | exhausted (now : Int)
  /-- `asyncAcquire` completes, with a lease on a connection that may be open. -/
  | acquired (ok connectionOpen : Bool)
  | acquireRaised (exception : Exception)
  | session (event : ProxyEvent)
  /-- The handler goes on after the coroutine of the session. -/
  | transacted
  /-- The router and the HTTP session take the response; `stored` is the answer of the cache. -/
  | respond (stored : Bool)
  | written (progress : WriteProgress)
  deriving DecidableEq, Repr

/-- `ReverseProxy` after its constructor. -/
structure ReverseProxy where
  upstreams : List UpstreamEndpoint
  limits : ProxyLimits
  nonempty : upstreams ≠ []
  named : ∀ u ∈ upstreams, u.host ≠ [] ∧ u.service ≠ []

/-- What the router has found out about the request. -/
structure RouteCache where
  /-- A cache is configured for the route. -/
  configured : Bool := false
  /-- `ResponseCache::cacheableRequest`, on a route with a cache. -/
  cacheableRequest : Bool := false
  deriving DecidableEq, Repr

structure Exchange where
  proxy : ReverseProxy
  request : HttpRequest
  context : RequestContext
  cache : RouteCache
  stage : Stage := .admission
  breakers : List BreakerCall := []
  health : List HealthCall := []
  leases : List LeaseReturn := []
  /-- What was written to the client. -/
  output : List Output := []
  ending : Option Ending := none
  /-- The session when its coroutine has ended. -/
  transaction : Option ProxySession := none

namespace Exchange

/-- The request with number `requestId`, as `HttpSession::run` and `Router::handle` pass it to
    the handler. -/
def init (proxy : ReverseProxy) (requestId : Nat) (peer : Option Bytes) (request : HttpRequest)
    (cache : RouteCache) : Exchange :=
  { proxy := proxy, request := request, cache := cache,
    context := { requestId := toChars 10 requestId, peer := peer, writeDownstream := true,
                 bufferResponseForCache := cache.cacheableRequest } }

/-- The transaction is streamed by `forward`; otherwise it is buffered by `execute`. -/
def forwards (e : Exchange) : Bool :=
  !(decide (e.request.method = .Head) || e.context.bufferResponseForCache)

/-! ### The handler -/

/-- `Router::makeError`. -/
def makeError (statusCode : Int) (reason body : Bytes) : HttpResponse :=
  { statusCode := statusCode, reason := reason, body := body,
    headers := ({} : Headers).add (bytes "Content-Type") (bytes "text/plain") }

/-- The handler returns. -/
def handle (e : Exchange) (response : HttpResponse) : Exchange :=
  { e with stage := .handled response }

/-- The handler throws, and `Router::handle` catches. -/
def handlerRaised (e : Exchange) : Exchange :=
  e.handle (makeError 500 (bytes "Internal Server Error") (bytes "internal server error\n"))

def withRetryAfter (response : HttpResponse) (seconds : Int) : HttpResponse :=
  { response with headers := response.headers.add (bytes "Retry-After") (intToString seconds) }

def overloaded (e : Exchange) : Exchange :=
  e.handle (withRetryAfter (makeProxyErrorResponse .Overloaded) e.proxy.limits.overloadRetryAfter)

def enterFlight (e : Exchange) (inFlight : Nat) : Exchange :=
  if e.proxy.limits.maxInFlightRequests ≤ inFlight then e.overloaded
  else { e with stage := .selecting 0 false 0 }

/-- `poolFor`, which creates the endpoint's pool when there is none, and the start of
    `asyncAcquire`. -/
def startAcquire (e : Exchange) (endpoint : Nat) : Exchange :=
  if e.proxy.limits.poolLimits.Accepted then { e with stage := .acquiring endpoint }
  else e.handlerRaised

/-- One attempt of the selection loop. -/
def attempt (e : Exchange) (attempt : Nat) (circuitRejected : Bool) (earliestRetry : Int)
    (candidate : Nat) (healthy allowed : Bool) (circuit : CircuitState) (retryAt : Int) :
    Exchange :=
  -- the breaker is asked for a healthy endpoint only
  let e := if healthy then { e with breakers := .allowRequest candidate allowed :: e.breakers }
    else e
  if healthy ∧ allowed then e.startAcquire candidate
  else if circuit ≠ .Closed then
    let earliest := if earliestRetry = 0 ∨ retryAt < earliestRetry then retryAt else earliestRetry
    { e with stage := .selecting (attempt + 1) true earliest }
  else { e with stage := .selecting (attempt + 1) circuitRejected earliestRetry }

/-- The seconds of `Retry-After` when the circuits reject, from nanoseconds of 64 bits. -/
def retryAfterSeconds (earliestRetry now : Int) : Int :=
  let wait := if now < earliestRetry then earliestRetry - now else 0
  max 1 (((wait + milliseconds 999).bmod (2 ^ 64)).tdiv 1000000000)

def noEndpoint (e : Exchange) (circuitRejected : Bool) (earliestRetry now : Int) : Exchange :=
  if circuitRejected then
    e.handle (withRetryAfter (makeProxyErrorResponse .CircuitOpen)
      (retryAfterSeconds earliestRetry now))
  else e.handle (makeProxyErrorResponse .NoHealthyUpstream)

/-- `asyncAcquire` has completed. -/
def acquireDone (e : Exchange) (endpoint : Nat) (ok connectionOpen : Bool) : Exchange :=
  if !ok then { e with breakers := .recordNeutral endpoint :: e.breakers }.overloaded
  else
    match e.proxy.upstreams[endpoint]? with
    | none => e.handlerRaised
    | some upstream =>
      match ProxySession.create upstream e.proxy.limits connectionOpen e.context e.request
          e.forwards with
      | .ok session => { e with stage := .transacting endpoint session }
      | .error _ => { e with leases := .abandon :: e.leases }.handlerRaised

/-- The lease goes back to the pool. -/
def returnLease (e : Exchange) (result : ProxyResult) : Exchange :=
  { e with leases :=
      (if result.error = .None ∧ result.reusable then .releaseReusable else .discard) :: e.leases }

def upstreamFailure (limits : ProxyLimits) (result : ProxyResult) : Bool :=
  decide (result.error ≠ .None) ||
    (limits.count5xxAsHealthFailure && decide (500 ≤ result.upstreamStatus))

/-- The outcome of the request for the health store and the breaker. -/
def recordOutcome (e : Exchange) (endpoint : Nat) (result : ProxyResult) : Exchange :=
  if !upstreamFailure e.proxy.limits result then
    { e with health := .recordSuccess endpoint :: e.health,
             breakers := .recordSuccess endpoint :: e.breakers }
  else if result.error ≠ .Cancelled ∧ result.error ≠ .UnsupportedRequest then
    { e with health := .recordFailure endpoint :: e.health,
             breakers := .recordFailure endpoint :: e.breakers }
  else { e with breakers := .recordNeutral endpoint :: e.breakers }

/-- The handler goes on after the coroutine of the session. -/
def afterTransaction (e : Exchange) (endpoint : Nat) (session : ProxySession) :
    Option Exchange :=
  let e := { e with transaction := some session }
  match session.point with
  | .returned result =>
    some (((e.returnLease result).recordOutcome endpoint result).handle
      (if result.error = .None then result.response else makeProxyErrorResponse result.error))
  | .raised _ => some { e with leases := .abandon :: e.leases }.handlerRaised
  | _ => none

/-! ### The router and the HTTP session -/

/-- The headers `Router::handle` sets on the handler's response. -/
def routed (e : Exchange) (response : HttpResponse) (stored : Bool) : HttpResponse :=
  let headers := response.headers
  let headers :=
    if e.cache.cacheableRequest then
      headers.set (bytes "X-Cache") (if stored then bytes "MISS" else bytes "BYPASS")
    else if e.cache.configured then headers.set (bytes "X-Cache") (bytes "BYPASS")
    else headers
  { response with headers := headers.set (bytes "X-Request-Id") e.context.requestId }

/-- `writeResponse`, unless the response was streamed.  A response that cannot be serialized
    closes the connection. -/
def writeResponse (e : Exchange) (response : HttpResponse) : Exchange :=
  if response.alreadyWritten then { e with stage := .finished }
  else
    match response.serialize (decide (e.request.method = .Head)) with
    | .ok bytes =>
      { e with output := { write := .response bytes } :: e.output, stage := .responding }
    | .error _ => { e with stage := .finished }

/-! ### One event -/

/-- One event; `none` when the exchange does not wait for it. -/
def step (e : Exchange) : ExchangeEvent → Option Exchange
  | .observed inFlight =>
    match e.stage with
    | .admission => some (e.enterFlight inFlight)
    | _ => none
  | .attempted ticket healthy allowed circuit retryAt =>
    match e.stage with
    | .selecting attempt circuitRejected earliestRetry =>
      -- the loop over the endpoints, from the ticket that was drawn
      if attempt < e.proxy.upstreams.length then
        some (e.attempt attempt circuitRejected earliestRetry (ticket % e.proxy.upstreams.length)
          healthy allowed circuit retryAt)
      else none
    | _ => none
  | .exhausted now =>
    match e.stage with
    | .selecting attempt circuitRejected earliestRetry =>
      -- the loop has ended without an endpoint
      if attempt < e.proxy.upstreams.length then none
      else some (e.noEndpoint circuitRejected earliestRetry now)
    | _ => none
  | .acquired ok connectionOpen =>
    match e.stage with
    | .acquiring endpoint => some (e.acquireDone endpoint ok connectionOpen)
    | _ => none
  | .acquireRaised _ =>
    match e.stage with
    | .acquiring _ => some e.handlerRaised
    | _ => none
  | .session event =>
    match e.stage with
    | .transacting endpoint session =>
      -- what the session writes goes to the client as it is written
      (session.step event).map fun session' =>
        { e with stage := .transacting endpoint session', output := session'.output,
                 ending := e.ending.or (session.endingOf event) }
    | _ => none
  | .transacted =>
    match e.stage with
    | .transacting endpoint session => e.afterTransaction endpoint session
    | _ => none
  | .respond stored =>
    match e.stage with
    | .handled response => some (e.writeResponse (e.routed response stored))
    | _ => none
  | .written progress =>
    match e.stage with
    | .responding =>
      -- a write that has failed ends the exchange as well
      if progress = .pending then none
      else some { e with output := finishWrite progress e.output, stage := .finished }
    | _ => none

end Exchange
end PulseGate
