import PulseGate.Http.HealthStore
import PulseGate.Http.ReverseProxy
import PulseGate.Lib.Machine

namespace PulseGate

/-!
# The selection of an upstream, by requests at a time

The loop of `ReverseProxy::operator()` over the endpoints, for any number of concurrent calls.
They share the ticket counter, the health store and the circuits of `ReverseProxy::State`; a
step is one `fetch_add`, one health snapshot, one `allowRequest` or one circuit snapshot of one
call, or something that is recorded meanwhile of an endpoint.

* `never_missed_iff` — along a run, no call gives up while an endpoint is available that has
  been so since its loop began, exactly if each call that gives up had drawn all of these;
* `never_missed_of_fresh` — this holds while no call draws an endpoint again;
* `never_missed_of_alone` — and so it does while the draws of a call follow one another.
-/

/-- How far an attempt of the loop has come. -/
inductive AttemptPoint
  | drawing
  /-- The call is about to look up the health of the endpoint. -/
  | consulting (ticket : Nat)
  /-- The endpoint is healthy, and its circuit is to be asked. -/
  | asking (ticket : Nat)
  /-- The endpoint is out, and the snapshot of its circuit is to be taken. -/
  | recalling (ticket : Nat) (healthy : Bool)
  deriving DecidableEq, Repr

/-- The ticket of the attempt. -/
def AttemptPoint.ticket : AttemptPoint → Option Nat
  | .drawing => none
  | .consulting ticket | .asking ticket | .recalling ticket _ => some ticket

/-- A call of `ReverseProxy::operator()`. -/
structure SelectingRequest where
  exchange : Exchange
  point : AttemptPoint := .drawing
  /-- The tickets it has drawn, the latest one first. -/
  drawn : List Nat := []
  /-- The endpoints that have been available ever since its loop began. -/
  steady : List Nat

namespace SelectingRequest

variable {r r' : SelectingRequest}

/-- The number of the attempt, of a call in the selection loop. -/
def attempt (r : SelectingRequest) : Option Nat :=
  match r.exchange.stage with
  | .selecting attempt _ _ => some attempt
  | _ => none

/-- The call is answered that no upstream is healthy, or that the circuits are open. -/
def unavailable (r : SelectingRequest) : Bool :=
  match r.exchange.stage with
  | .handled response =>
    response.body = (makeProxyErrorResponse .NoHealthyUpstream).body ||
      response.body = (makeProxyErrorResponse .CircuitOpen).body
  | _ => false

/-- `next.fetch_add` has given the ticket. -/
def drew (r : SelectingRequest) (ticket : Nat) : Option SelectingRequest :=
  match r.point, r.attempt with
  | .drawing, some attempt =>
    if attempt < r.exchange.proxy.upstreams.length then
      some { r with point := .consulting ticket, drawn := ticket :: r.drawn }
    else none
  | _, _ => none

/-- `isHealthy` has answered. -/
def consulted (r : SelectingRequest) (healthy : Bool) : Option SelectingRequest :=
  match r.point with
  | .consulting ticket =>
    some { r with point := if healthy then .asking ticket else .recalling ticket false }
  | _ => none

/-- `allowRequest` has answered; no snapshot of the circuit is taken after a permission. -/
def asked (r : SelectingRequest) (allowed : Bool) : Option SelectingRequest :=
  match r.point with
  | .asking ticket =>
    if allowed then
      (r.exchange.step (.attempted ticket true true .Closed 0)).map fun exchange =>
        { r with exchange := exchange, point := .drawing }
    else some { r with point := .recalling ticket true }
  | _ => none

/-- The snapshot of the circuit is taken, and the attempt is over. -/
def recalled (r : SelectingRequest) (circuit : CircuitBreaker) : Option SelectingRequest :=
  match r.point with
  | .recalling ticket healthy =>
    let ended := r.exchange.step (.attempted ticket healthy false circuit.state circuit.retryAt)
    ended.map fun exchange => { r with exchange := exchange, point := .drawing }
  | _ => none

/-- The loop has ended without an endpoint. -/
def gaveUp (r : SelectingRequest) (now : Int) : Option SelectingRequest :=
  match r.point with
  | .drawing =>
    (r.exchange.step (.exhausted now)).map fun exchange => { r with exchange := exchange }
  | _ => none

end SelectingRequest

/-- What is recorded of a circuit. -/
inductive CircuitRecord
  | success
  | failure (now : Int)
  | neutral
  deriving DecidableEq, Repr

/-- The record on the circuit. -/
def CircuitBreaker.recorded (b : CircuitBreaker) : CircuitRecord → CircuitBreaker
  | .success => b.recordSuccess
  | .failure now => b.recordFailure now
  | .neutral => b.recordNeutral

inductive SelectionEvent
  /-- A call; `inFlight` is the number of calls that its admission sees. -/
  | called (requestId : Nat) (request : HttpRequest) (cache : RouteCache) (inFlight : Nat)
  | drew (call : Nat)
  | consulted (call : Nat)
  | asked (call : Nat) (now : Int)
  | recalled (call : Nat)
  | exhausted (call : Nat) (now : Int)
  /-- A request or the health checker records an outcome of an endpoint. -/
  | healthRecorded (id : Bytes) (success : Bool)
  /-- A request records its outcome on the circuit. -/
  | circuitRecorded (endpoint : Nat) (outcome : CircuitRecord)
  deriving DecidableEq, Repr

/-- `ReverseProxy::State`, and the calls. -/
structure SelectionSystem where
  proxy : ReverseProxy
  next : Nat := 0
  health : HealthStateStore
  circuits : List CircuitBreaker
  calls : List SelectingRequest := []

namespace SelectionSystem

variable {s s' : SelectionSystem} {e : SelectionEvent} {r r' : SelectingRequest}

/-- The constructor of `ReverseProxy`, for limits it does not throw on. -/
def create (proxy : ReverseProxy) (hhealth : proxy.limits.healthThresholds.Accepted)
    (hcircuit : proxy.limits.circuitBreaker.Accepted) : SelectionSystem :=
  { proxy := proxy,
    health := proxy.upstreams.foldl (fun store upstream => store.addEndpoint upstream.id)
      { thresholds := proxy.limits.healthThresholds, accepted := hhealth },
    circuits := proxy.upstreams.map fun _ =>
      CircuitBreaker.create ⟨proxy.limits.circuitBreaker, hcircuit⟩ }

/-- The number of endpoints. -/
def size (s : SelectionSystem) : Nat := s.proxy.upstreams.length

/-- The endpoint of a ticket. -/
def candidate (s : SelectionSystem) (ticket : Nat) : Nat := ticket % s.size

/-- The health store has the endpoint as healthy. -/
def healthy (s : SelectionSystem) (endpoint : Nat) : Bool :=
  match s.proxy.upstreams[endpoint]? with
  | some upstream => s.health.isHealthy upstream.id
  | none => false

/-- The circuit of the endpoint is Closed. -/
def circuitClosed (s : SelectionSystem) (endpoint : Nat) : Bool :=
  match s.circuits[endpoint]? with
  | some circuit => circuit.state = .Closed
  | none => false

/-- The endpoint is healthy, and its circuit is Closed. -/
def available (s : SelectionSystem) (endpoint : Nat) : Bool :=
  s.healthy endpoint && s.circuitClosed endpoint

/-- The call goes on as `next` says. -/
def update (s : SelectionSystem) (call : Nat)
    (next : SelectingRequest → Option SelectingRequest) : Option SelectionSystem :=
  s.calls[call]?.bind fun r => (next r).map fun r' => { s with calls := s.calls.set call r' }

/-- `allowRequest` of the circuit that the call asks. -/
def askCircuit (s : SelectionSystem) (call : Nat) (ticket : Nat) (now : Int) :
    Option SelectionSystem :=
  s.circuits[s.candidate ticket]?.bind fun circuit =>
    let (allowed, circuit') := circuit.allowRequest now
    { s with circuits := s.circuits.set (s.candidate ticket) circuit' }.update call
      (·.asked allowed)

/-- What the event does to the shared state and to its call. -/
def act (s : SelectionSystem) : SelectionEvent → Option SelectionSystem
  | .called requestId request cache inFlight =>
    let exchange := (Exchange.init s.proxy requestId none request cache).enterFlight inFlight
    some { s with calls := s.calls ++ [{ exchange := exchange, steady := List.range s.size }] }
  | .drew call =>
    -- the counter is of 64 bits
    { s with next := (s.next + 1) % sizeModulus }.update call (·.drew s.next)
  | .consulted call =>
    s.update call fun r =>
      r.point.ticket.bind fun ticket => r.consulted (s.healthy (s.candidate ticket))
  | .asked call now =>
    s.calls[call]?.bind fun r => r.point.ticket.bind fun ticket => s.askCircuit call ticket now
  | .recalled call =>
    s.update call fun r =>
      r.point.ticket.bind fun ticket => s.circuits[s.candidate ticket]?.bind r.recalled
  | .exhausted call now => s.update call (·.gaveUp now)
  | .healthRecorded id success => some { s with health := s.health.record id success }
  | .circuitRecorded endpoint outcome =>
    some { s with circuits := s.circuits.modify endpoint (·.recorded outcome) }

/-- A call in its loop loses sight of the endpoints that are not available now. -/
def observe (s : SelectionSystem) : SelectionSystem :=
  { s with calls := s.calls.map fun r =>
      if r.attempt.isSome then { r with steady := r.steady.filter s.available } else r }

/-- One event; `none` when it is not enabled. -/
def step (s : SelectionSystem) (e : SelectionEvent) : Option SelectionSystem :=
  (s.act e).map observe

/-! ### One step -/

theorem update_eq_some {call : Nat} {next : SelectingRequest → Option SelectingRequest} :
    s.update call next = some s' ↔ ∃ r r', s.calls[call]? = some r ∧ next r = some r' ∧
      { s with calls := s.calls.set call r' } = s' := by
  simp [update, Option.bind_eq_some_iff]

/-- What a step does to the call it belongs to, in terms of the state before. -/
inductive Moves (s : SelectionSystem) (call : Nat) (r : SelectingRequest) :
    SelectionEvent → SelectingRequest → Prop
  | drew {attempt} (hpoint : r.point = .drawing) (hattempt : r.attempt = some attempt)
      (hlt : attempt < r.exchange.proxy.upstreams.length) :
      Moves s call r (.drew call) { r with point := .consulting s.next, drawn := s.next :: r.drawn }
  | healthy {ticket} (hpoint : r.point = .consulting ticket) :
      Moves s call r (.consulted call) { r with point := .asking ticket }
  | unhealthy {ticket} (hpoint : r.point = .consulting ticket)
      (hout : s.healthy (s.candidate ticket) = false) :
      Moves s call r (.consulted call) { r with point := .recalling ticket false }
  | refused {now ticket} (hpoint : r.point = .asking ticket)
      (hout : s.circuitClosed (s.candidate ticket) = false) :
      Moves s call r (.asked call now) { r with point := .recalling ticket true }
  | allowed {now r'} (hattempt : r'.attempt = none) (hanswer : r'.unavailable = false) :
      Moves s call r (.asked call now) r'
  | passed {ticket healthy attempt r'} (hpoint : r.point = .recalling ticket healthy)
      (hbefore : r.attempt = some attempt) (hattempt : r'.attempt = some (attempt + 1))
      (hproxy : r'.exchange.proxy = r.exchange.proxy) (hnext : r'.point = .drawing)
      (hdrawn : r'.drawn = r.drawn) (hsteady : r'.steady = r.steady) :
      Moves s call r (.recalled call) r'
  | gaveUp {now attempt r'} (hpoint : r.point = .drawing) (hbefore : r.attempt = some attempt)
      (hall : r.exchange.proxy.upstreams.length ≤ attempt) (hattempt : r'.attempt = none)
      (hanswer : r'.unavailable = true) (hsteady : r'.steady = r.steady) :
      Moves s call r (.exhausted call now) r'

end SelectionSystem

/-! ### The steps of the handler -/

namespace Exchange

variable {e e' : Exchange}

theorem step_exhausted {now : Int} (h : e.step (.exhausted now) = some e') :
    ∃ attempt circuitRejected earliestRetry,
      e.stage = .selecting attempt circuitRejected earliestRetry ∧
      e.proxy.upstreams.length ≤ attempt ∧
      e' = e.noEndpoint circuitRejected earliestRetry now := by
  cases hstage : e.stage with
  | selecting attempt circuitRejected earliestRetry =>
    simp only [step, hstage] at h
    obtain ⟨hle, ⟨⟩⟩ := Option.ite_none_left_eq_some.mp h
    exact ⟨attempt, circuitRejected, earliestRetry, rfl, by omega, rfl⟩
  | _ => simp [step, hstage] at h

theorem step_attempted {ticket : Nat} {healthy allowed : Bool} {circuit : CircuitState}
    {retryAt : Int} (h : e.step (.attempted ticket healthy allowed circuit retryAt) = some e') :
    ∃ attempt circuitRejected earliestRetry,
      e.stage = .selecting attempt circuitRejected earliestRetry ∧
      e' = e.attempt attempt circuitRejected earliestRetry (ticket % e.proxy.upstreams.length)
        healthy allowed circuit retryAt := by
  cases hstage : e.stage with
  | selecting attempt circuitRejected earliestRetry =>
    simp only [step, hstage] at h
    obtain ⟨hle, ⟨⟩⟩ := Option.ite_none_right_eq_some.mp h
    exact ⟨attempt, circuitRejected, earliestRetry, rfl, rfl⟩
  | _ => simp [step, hstage] at h

/-- An endpoint that is out leads to the next attempt. -/
theorem attempt_out (e : Exchange) (attempt : Nat) (circuitRejected : Bool) (earliestRetry : Int)
    (candidate : Nat) (healthy : Bool) (circuit : CircuitState) (retryAt : Int) :
    (e.attempt attempt circuitRejected earliestRetry candidate healthy false circuit
        retryAt).proxy = e.proxy ∧
      ∃ rejected earliest, (e.attempt attempt circuitRejected earliestRetry candidate healthy
        false circuit retryAt).stage = .selecting (attempt + 1) rejected earliest := by
  unfold Exchange.attempt
  simp only [Bool.false_eq_true, and_false, if_false]
  split <;> split <;> exact ⟨rfl, _, _, rfl⟩

/-- A permission ends the loop: the pool is asked, or cannot be made. -/
theorem attempt_allowed (e : Exchange) (attempt : Nat) (circuitRejected : Bool)
    (earliestRetry : Int) (candidate : Nat) (circuit : CircuitState) (retryAt : Int) :
    let e' := e.attempt attempt circuitRejected earliestRetry candidate true true circuit retryAt
    e'.stage = .acquiring candidate ∨ e'.stage = e.handlerRaised.stage := by
  simp only [Exchange.attempt, and_self, if_true, startAcquire]
  split
  · exact .inl rfl
  · exact .inr rfl

end Exchange

namespace SelectingRequest

variable {r r' : SelectingRequest}

theorem attempt_eq_some {attempt : Nat} : r.attempt = some attempt ↔
    ∃ circuitRejected earliestRetry,
      r.exchange.stage = .selecting attempt circuitRejected earliestRetry := by
  unfold SelectingRequest.attempt
  split <;> simp_all

theorem drew_eq_some {ticket : Nat} (h : r.drew ticket = some r') :
    r.point = .drawing ∧ (∃ attempt, r.attempt = some attempt ∧
      attempt < r.exchange.proxy.upstreams.length) ∧
      { r with point := .consulting ticket, drawn := ticket :: r.drawn } = r' := by
  unfold drew at h
  split at h
  · next attempt hpoint hattempt =>
    obtain ⟨hlt, heq⟩ := Option.ite_none_right_eq_some.mp h
    exact ⟨hpoint, ⟨attempt, hattempt, hlt⟩, Option.some.inj heq⟩
  · cases h

theorem consulted_eq_some {healthy : Bool} (h : r.consulted healthy = some r') :
    ∃ ticket, r.point = .consulting ticket ∧
      { r with point := if healthy then .asking ticket else .recalling ticket false } = r' := by
  unfold consulted at h
  split at h
  · next ticket hpoint => exact ⟨ticket, hpoint, Option.some.inj h⟩
  · cases h

/-- `allowRequest` gives its permission, and the loop is over, or refuses it. -/
theorem asked_eq_some {allowed : Bool} (h : r.asked allowed = some r') :
    ∃ ticket, r.point = .asking ticket ∧
      ((allowed = true ∧ r'.attempt = none ∧ r'.unavailable = false) ∨
      allowed = false ∧ { r with point := .recalling ticket true } = r') := by
  unfold asked at h
  split at h
  · next ticket hpoint =>
    refine ⟨ticket, hpoint, ?_⟩
    cases allowed with
    | false => exact .inr ⟨rfl, Option.some.inj h⟩
    | true =>
      obtain ⟨e', hstep, rfl⟩ := Option.map_eq_some_iff.mp h
      obtain ⟨attempt, circuitRejected, earliestRetry, -, rfl⟩ := Exchange.step_attempted hstep
      have hstage := r.exchange.attempt_allowed attempt circuitRejected earliestRetry
        (ticket % r.exchange.proxy.upstreams.length) .Closed 0
      refine .inl ⟨rfl, ?_, ?_⟩
      · rcases hstage with hstage | hstage <;> simp [SelectingRequest.attempt, hstage,
          Exchange.handlerRaised, Exchange.handle]
      · rcases hstage with hstage | hstage
        · simp [unavailable, hstage]
        · simp only [unavailable, hstage, Exchange.handlerRaised, Exchange.handle]
          decide +kernel
  · cases h

/-- The next attempt begins. -/
theorem recalled_eq_some {circuit : CircuitBreaker} (h : r.recalled circuit = some r') :
    ∃ ticket healthy attempt, r.point = .recalling ticket healthy ∧ r.attempt = some attempt ∧
      r'.attempt = some (attempt + 1) ∧ r'.exchange.proxy = r.exchange.proxy ∧
      r'.point = .drawing ∧ r'.drawn = r.drawn ∧ r'.steady = r.steady := by
  unfold recalled at h
  split at h
  · next ticket healthy hpoint =>
    obtain ⟨e', hstep, rfl⟩ := Option.map_eq_some_iff.mp h
    obtain ⟨attempt, circuitRejected, earliestRetry, hstage, rfl⟩ := Exchange.step_attempted hstep
    obtain ⟨hproxy, rejected, earliest, hnext⟩ := r.exchange.attempt_out attempt circuitRejected
      earliestRetry (ticket % r.exchange.proxy.upstreams.length) healthy circuit.state
      circuit.retryAt
    exact ⟨ticket, healthy, attempt, hpoint, attempt_eq_some.mpr ⟨_, _, hstage⟩,
      attempt_eq_some.mpr ⟨_, _, hnext⟩, hproxy, rfl, rfl, rfl⟩
  · cases h

/-- The loop is over, and the call is answered. -/
theorem gaveUp_eq_some {now : Int} (h : r.gaveUp now = some r') :
    ∃ attempt, r.point = .drawing ∧ r.attempt = some attempt ∧
      r.exchange.proxy.upstreams.length ≤ attempt ∧ r'.attempt = none ∧
      r'.unavailable = true ∧ r'.steady = r.steady := by
  unfold gaveUp at h
  split at h
  · next hpoint =>
    obtain ⟨e', hstep, rfl⟩ := Option.map_eq_some_iff.mp h
    obtain ⟨attempt, circuitRejected, earliestRetry, hstage, hle, rfl⟩ :=
      Exchange.step_exhausted hstep
    refine ⟨attempt, hpoint, attempt_eq_some.mpr ⟨_, _, hstage⟩, hle, ?_⟩
    unfold Exchange.noEndpoint
    split
    · exact ⟨rfl, by simp [unavailable, Exchange.handle, Exchange.withRetryAfter], rfl⟩
    · exact ⟨rfl, by simp [unavailable, Exchange.handle], rfl⟩
  · cases h

/-- A call when it comes. -/
structure New (proxy : ReverseProxy) (r : SelectingRequest) : Prop where
  proxy : r.exchange.proxy = proxy
  point : r.point = .drawing
  attempt : ∀ attempt ∈ r.attempt, attempt = 0
  drawn : r.drawn = []
  unavailable : r.unavailable = false

end SelectingRequest

theorem CircuitBreaker.open_of_refused {b : CircuitBreaker} {now : Int}
    (h : (b.allowRequest now).1 = false) : b.state ≠ .Closed := by
  intro hclosed
  simp [CircuitBreaker.allowRequest, CircuitBreaker.allowNow, hclosed] at h

namespace SelectionSystem

variable {s s' : SelectionSystem} {e : SelectionEvent} {r r' : SelectingRequest}

theorem overloaded_body :
    ((makeProxyErrorResponse .Overloaded).body = (makeProxyErrorResponse .NoHealthyUpstream).body ||
      (makeProxyErrorResponse .Overloaded).body = (makeProxyErrorResponse .CircuitOpen).body) =
        false := by
  decide +kernel

theorem new_called (s : SelectionSystem) (requestId : Nat) (request : HttpRequest)
    (cache : RouteCache) (inFlight : Nat) :
    SelectingRequest.New s.proxy
      { exchange := (Exchange.init s.proxy requestId none request cache).enterFlight inFlight,
        steady := List.range s.size } := by
  constructor
  · unfold Exchange.enterFlight
    split <;> rfl
  · rfl
  · unfold SelectingRequest.attempt Exchange.enterFlight
    split_ifs <;> simp [Exchange.overloaded, Exchange.handle]
  · rfl
  · unfold Exchange.enterFlight
    split
    · exact overloaded_body
    · rfl

/-- What an event does to the calls: one more comes, one moves, or all stay where they are. -/
theorem act_cases (h : s.act e = some s') : s'.proxy = s.proxy ∧
    (s'.calls = s.calls ∨ (∃ r, s'.calls = s.calls ++ [r] ∧ r.New s.proxy) ∨
      ∃ call r r', s.calls[call]? = some r ∧ s'.calls = s.calls.set call r' ∧
        s.Moves call r e r') := by
  cases e with
  | called requestId request cache inFlight =>
    cases h
    exact ⟨rfl, .inr (.inl ⟨_, rfl, s.new_called requestId request cache inFlight⟩)⟩
  | drew call =>
    obtain ⟨r, r', hr, hmove, rfl⟩ := update_eq_some.mp h
    obtain ⟨hpoint, ⟨attempt, hattempt, hlt⟩, rfl⟩ := SelectingRequest.drew_eq_some hmove
    exact ⟨rfl, .inr (.inr ⟨call, r, _, hr, rfl, .drew hpoint hattempt hlt⟩)⟩
  | consulted call =>
    obtain ⟨r, r', hr, hmove, rfl⟩ := update_eq_some.mp h
    obtain ⟨ticket, hticket, hmove⟩ := Option.bind_eq_some_iff.mp hmove
    obtain ⟨ticket', hpoint, rfl⟩ := SelectingRequest.consulted_eq_some hmove
    obtain rfl : ticket' = ticket := by simpa [hpoint, AttemptPoint.ticket] using hticket
    refine ⟨rfl, .inr (.inr ⟨call, r, _, hr, rfl, ?_⟩)⟩
    cases hout : s.healthy (s.candidate ticket') with
    | true => exact .healthy hpoint
    | false => exact .unhealthy hpoint hout
  -- the breaker is asked for the endpoint of the ticket that was drawn
  | asked call now =>
    obtain ⟨r, hr, h⟩ := Option.bind_eq_some_iff.mp h
    obtain ⟨ticket, hticket, h⟩ := Option.bind_eq_some_iff.mp h
    obtain ⟨circuit, hcircuit, h⟩ := Option.bind_eq_some_iff.mp h
    obtain ⟨r₀, r', hr₀, hmove, rfl⟩ := update_eq_some.mp h
    obtain rfl : r₀ = r := Option.some.inj (hr₀.symm.trans hr)
    obtain ⟨ticket', hpoint, hmove⟩ := SelectingRequest.asked_eq_some hmove
    obtain rfl : ticket' = ticket := by simpa [hpoint, AttemptPoint.ticket] using hticket
    refine ⟨rfl, .inr (.inr ⟨call, r₀, r', hr, rfl, ?_⟩)⟩
    rcases hmove with ⟨-, hattempt, hanswer⟩ | ⟨hrefused, rfl⟩
    · exact .allowed hattempt hanswer
    · apply Moves.refused hpoint
      have hopen := CircuitBreaker.open_of_refused hrefused
      simpa [circuitClosed, hcircuit] using hopen
  | recalled call =>
    obtain ⟨r, r', hr, hmove, rfl⟩ := update_eq_some.mp h
    obtain ⟨ticket, -, hmove⟩ := Option.bind_eq_some_iff.mp hmove
    obtain ⟨circuit, -, hmove⟩ := Option.bind_eq_some_iff.mp hmove
    obtain ⟨ticket', healthy, attempt, hpoint, hbefore, hattempt, hproxy, hnext, hdrawn, hsteady⟩ :=
      SelectingRequest.recalled_eq_some hmove
    exact ⟨rfl, .inr (.inr ⟨call, r, r', hr, rfl,
      .passed hpoint hbefore hattempt hproxy hnext hdrawn hsteady⟩)⟩
  | exhausted call now =>
    obtain ⟨r, r', hr, hmove, rfl⟩ := update_eq_some.mp h
    obtain ⟨attempt, hpoint, hbefore, hall, hattempt, hanswer, hsteady⟩ :=
      SelectingRequest.gaveUp_eq_some hmove
    exact ⟨rfl, .inr (.inr ⟨call, r, r', hr, rfl,
      .gaveUp hpoint hbefore hall hattempt hanswer hsteady⟩)⟩
  | healthRecorded id success => cases h; exact ⟨rfl, .inl rfl⟩
  | circuitRecorded endpoint outcome => cases h; exact ⟨rfl, .inl rfl⟩

/-- **Rule for the calls.** What holds of every call, of a new one, and of a call after a step of
    its own, holds of every call after an event. -/
theorem forall_calls_act {P : SelectingRequest → Prop} (hact : s.act e = some s')
    (hold : ∀ r ∈ s.calls, P r) (hnew : ∀ r, r.New s.proxy → P r)
    (hmove : ∀ call r r', s.calls[call]? = some r → s.Moves call r e r' → P r') :
    ∀ r ∈ s'.calls, P r := by
  intro r' hmem
  rcases (act_cases hact).2 with hsame | ⟨r, hmore, hr⟩ | ⟨call, r, r₁, hr, hset, hmoves⟩
  · exact hold r' (hsame ▸ hmem)
  · rw [hmore] at hmem
    rcases List.mem_append.mp hmem with hmem | hmem
    · exact hold r' hmem
    · obtain rfl := List.mem_singleton.mp hmem
      exact hnew r' hr
  · rw [hset] at hmem
    rcases List.mem_or_eq_of_mem_set hmem with hmem | rfl
    · exact hold r' hmem
    · exact hmove call r r' hr hmoves

/-! ### Missed endpoints -/

/-- No call that is answered for want of an endpoint has one that was available all along. -/
def NeverMissed (s : SelectionSystem) : Prop :=
  ∀ r ∈ s.calls, r.unavailable = true → r.steady = []

instance : DecidablePred NeverMissed := fun s =>
  inferInstanceAs (Decidable (∀ r ∈ s.calls, _ → _ = _))

/-- A call that gives up has drawn every endpoint that was available all along. -/
def CoversSteady (s : SelectionSystem) (e : SelectionEvent) (_ : SelectionSystem) : Prop :=
  match e with
  | .exhausted call _ =>
    ∀ r ∈ s.calls[call]?, ∀ endpoint ∈ r.steady, ∃ ticket ∈ r.drawn, s.candidate ticket = endpoint
  | _ => True

instance : ∀ s e s', Decidable (CoversSteady s e s')
  | _, .exhausted _ _, _ => inferInstanceAs (Decidable (∀ _ ∈ _, ∀ _ ∈ _, ∃ _ ∈ _, _ = _))
  | _, .called _ _ _ _, _ | _, .drew _, _ | _, .consulted _, _ | _, .asked _ _, _
  | _, .recalled _, _ | _, .healthRecorded _ _, _ | _, .circuitRecorded _ _, _ => isTrue trivial

end SelectionSystem

/-- The ticket of an attempt that may still select its endpoint. -/
def AttemptPoint.hopeful : AttemptPoint → Option Nat
  | .consulting ticket | .asking ticket => some ticket
  | .drawing | .recalling _ _ => none

namespace SelectionSystem

variable {s s' : SelectionSystem} {e : SelectionEvent} {r r' : SelectingRequest}

/-- What holds of a call in its loop: the endpoints it has drawn, but the one it is about to
    try, were out at some time since. -/
structure Searching (s : SelectionSystem) (r : SelectingRequest) : Prop where
  available : ∀ endpoint ∈ r.steady, s.available endpoint = true
  drawn : ∀ ticket ∈ r.drawn, r.point.hopeful = some ticket ∨ s.candidate ticket ∉ r.steady

def SelectionInv (s : SelectionSystem) : Prop :=
  ∀ r ∈ s.calls, r.attempt.isSome → s.Searching r

/-- An endpoint that was just found out is not one that was available all along. -/
theorem Searching.out (h : s.Searching r) {endpoint : Nat}
    (hout : s.available endpoint = false) : endpoint ∉ r.steady := by
  intro hmem
  rw [h.available endpoint hmem] at hout
  cases hout

/-- When the endpoint of an attempt is out, all that were drawn are. -/
theorem Searching.drawn_out (h : s.Searching r) (ticket : Nat)
    (hhopeful : ∀ ticket' ∈ r.point.hopeful, ticket' = ticket)
    (hout : s.available (s.candidate ticket) = false) :
    ∀ ticket ∈ r.drawn, s.candidate ticket ∉ r.steady := by
  intro ticket' hmem
  rcases h.drawn ticket' hmem with hpending | hgone
  · rw [hhopeful ticket' hpending]
    exact h.out hout
  · exact hgone

/-- A call that is in its loop after a step of its own was so before. -/
theorem Moves.attempt_isSome {call : Nat} (hmove : s.Moves call r e r')
    (hstays : r'.attempt.isSome) :
    r.attempt.isSome := by
  cases hmove with
  | allowed hattempt hanswer => simp [hattempt] at hstays
  | passed hpoint hbefore hattempt hproxy hnext hdrawn hsteady => simp [hbefore]
  | gaveUp hpoint hbefore hall hattempt hanswer hsteady => simp [hbefore]
  | _ => exact hstays

/-- A call that stays in its loop keeps what is known of its draws. -/
theorem Searching.moves (h : s.Searching r) {call : Nat} (hmove : s.Moves call r e r')
    (hstays : r'.attempt.isSome) :
    r'.steady = r.steady ∧
      ∀ ticket ∈ r'.drawn, r'.point.hopeful = some ticket ∨ s.candidate ticket ∉ r'.steady := by
  cases hmove with
  | drew hpoint hattempt hlt =>
    refine ⟨rfl, fun ticket hmem => ?_⟩
    rcases List.mem_cons.mp hmem with rfl | hmem
    · exact .inl rfl
    · -- the tickets drawn before are those of endpoints that have gone
      have hgone := h.drawn ticket hmem
      rw [hpoint] at hgone
      exact .inr (hgone.resolve_left (by simp [AttemptPoint.hopeful]))
  | healthy hpoint =>
    refine ⟨rfl, fun ticket hmem => ?_⟩
    have hgone := h.drawn ticket hmem
    rwa [hpoint] at hgone
  | @unhealthy ticket hpoint hout =>
    refine ⟨rfl, fun ticket' hmem => .inr (h.drawn_out ticket ?_ ?_ ticket' hmem)⟩
    · simp [hpoint, AttemptPoint.hopeful]
    · simp [SelectionSystem.available, hout]
  | @refused _ ticket hpoint hout =>
    refine ⟨rfl, fun ticket' hmem => .inr (h.drawn_out ticket ?_ ?_ ticket' hmem)⟩
    · simp [hpoint, AttemptPoint.hopeful]
    · simp [SelectionSystem.available, hout]
  | allowed hattempt hanswer => simp [hattempt] at hstays
  -- the next attempt begins with no candidate left over
  | passed hpoint hbefore hattempt hproxy hnext hdrawn hsteady =>
    refine ⟨hsteady, fun ticket hmem => .inr ?_⟩
    rw [hdrawn] at hmem
    rw [hsteady]
    have hgone := h.drawn ticket hmem
    rw [hpoint] at hgone
    exact hgone.resolve_left (by simp [AttemptPoint.hopeful])
  | gaveUp hpoint hbefore hall hattempt hanswer hsteady => simp [hattempt] at hstays

/-- What the observation of the state leaves of a call. -/
def seen (s : SelectionSystem) (r : SelectingRequest) : SelectingRequest :=
  if r.attempt.isSome then { r with steady := r.steady.filter s.available } else r

theorem mem_observe : r' ∈ s.observe.calls ↔ ∃ r ∈ s.calls, s.seen r = r' := List.mem_map

theorem searching_seen (hattempt : r.attempt.isSome)
    (hdrawn : ∀ ticket ∈ r.drawn, r.point.hopeful = some ticket ∨ s.candidate ticket ∉ r.steady) :
    s.observe.Searching (s.seen r) := by
  rw [seen, if_pos hattempt]
  refine ⟨fun endpoint hmem => (List.mem_filter.mp hmem).2, fun ticket hmem => ?_⟩
  exact (hdrawn ticket hmem).imp_right fun hgone hin => hgone (List.mem_of_mem_filter hin)

theorem seen_attempt : (s.seen r).attempt = r.attempt := by
  unfold seen
  split <;> rfl

theorem candidate_congr (hproxy : s'.proxy = s.proxy) : s'.candidate = s.candidate := by
  funext ticket
  simp [candidate, size, hproxy]

theorem SelectionInv.step (h : SelectionInv s) (hstep : s.step e = some s') : SelectionInv s' := by
  obtain ⟨s₁, hact, rfl⟩ := Option.map_eq_some_iff.mp hstep
  have hdrawn : ∀ r ∈ s₁.calls, r.attempt.isSome → ∀ ticket ∈ r.drawn,
      r.point.hopeful = some ticket ∨ s.candidate ticket ∉ r.steady := by
    refine forall_calls_act hact ?_ ?_ ?_
    · exact fun r hmem hattempt => (h r hmem hattempt).drawn
    · intro r hnew _ ticket hmem
      rw [hnew.drawn] at hmem
      cases hmem
    · intro call r r' hr hmove hattempt
      have hwas := hmove.attempt_isSome hattempt
      exact ((h r (List.mem_of_getElem? hr) hwas).moves hmove hattempt).2
  intro r' hmem hattempt
  obtain ⟨r, hr, rfl⟩ := mem_observe.mp hmem
  rw [seen_attempt] at hattempt
  apply searching_seen hattempt
  rw [candidate_congr (act_cases hact).1]
  exact hdrawn r hr hattempt

/-- A call that is answered for want of an endpoint is not in its loop any more. -/
theorem attempt_of_unavailable (h : r.unavailable = true) : r.attempt = none := by
  unfold SelectingRequest.unavailable at h
  unfold SelectingRequest.attempt
  split <;> simp_all

theorem seen_of_left (h : r.attempt = none) : s.seen r = r := by simp [seen, h]

/-- What is left to a call that gives up are endpoints that it did not draw. -/
theorem Searching.steady_eq_nil (h : s.Searching r) (hpoint : r.point = .drawing)
    (hcovers : ∀ endpoint ∈ r.steady, ∃ ticket ∈ r.drawn, s.candidate ticket = endpoint) :
    r.steady = [] := by
  apply List.eq_nil_iff_forall_not_mem.mpr
  intro endpoint hmem
  obtain ⟨ticket, hdrawn, rfl⟩ := hcovers endpoint hmem
  rcases h.drawn ticket hdrawn with hpending | hgone
  · simp [hpoint, AttemptPoint.hopeful] at hpending
  · exact hgone hmem

theorem NeverMissed.step (hP : NeverMissed s) (h : SelectionInv s) (hcovers : CoversSteady s e s')
    (hstep : s.step e = some s') : NeverMissed s' := by
  obtain ⟨s₁, hact, rfl⟩ := Option.map_eq_some_iff.mp hstep
  have hbefore : ∀ r ∈ s₁.calls, r.unavailable = true → r.steady = [] := by
    refine forall_calls_act hact hP ?_ ?_
    · intro r hnew hanswer
      rw [hnew.unavailable] at hanswer
      cases hanswer
    · intro call r r' hr hmove hanswer
      have hmem := List.mem_of_getElem? hr
      cases hmove with
      | allowed hattempt hother =>
        rw [hother] at hanswer
        cases hanswer
      | passed hpoint hbefore hattempt hproxy hnext hdrawn hsteady =>
        rw [attempt_of_unavailable hanswer] at hattempt
        cases hattempt
      -- giving up: every endpoint was drawn, and none of them is steady
      | gaveUp hpoint hbefore hall hattempt _ hsteady =>
        rw [hsteady]
        exact (h r hmem (by simp [hbefore])).steady_eq_nil hpoint (hcovers r hr)
      | _ => exact hP r hmem hanswer
  intro r' hmem hanswer
  obtain ⟨r, hr, rfl⟩ := mem_observe.mp hmem
  have hleft : r.attempt = none := by
    rw [← seen_attempt]
    exact attempt_of_unavailable hanswer
  rw [seen_of_left hleft] at hanswer ⊢
  exact hbefore r hr hanswer

/-- A call that gives up without having drawn an endpoint that was available all along has
    missed it. -/
theorem missed_of_not_covers (hcovers : ¬CoversSteady s e s') (hstep : s.step e = some s') :
    ¬NeverMissed s' := by
  obtain ⟨s₁, hact, rfl⟩ := Option.map_eq_some_iff.mp hstep
  cases e with
  | exhausted call now =>
    obtain ⟨r, r', hr, hmove, rfl⟩ := update_eq_some.mp hact
    obtain ⟨attempt, -, -, -, hattempt, hanswer, hsteady⟩ :=
      SelectingRequest.gaveUp_eq_some hmove
    intro hnever
    apply hcovers
    intro r₀ hr₀ endpoint hmem
    obtain rfl : r₀ = r := Option.some.inj (hr₀.symm.trans hr)
    have hlt := (List.getElem?_eq_some_iff.mp hr).1
    have hnil :=
      hnever r' (mem_observe.mpr ⟨r', List.mem_set hlt r', seen_of_left hattempt⟩) hanswer
    rw [← hsteady, hnil] at hmem
    cases hmem
  | _ => exact fun _ => hcovers trivial

theorem selectionInv_create (proxy : ReverseProxy)
    (hhealth : proxy.limits.healthThresholds.Accepted)
    (hcircuit : proxy.limits.circuitBreaker.Accepted) :
    SelectionInv (create proxy hhealth hcircuit) := by
  intro r hmem
  cases hmem

/-- **No endpoint is missed.**  Along a run of the calls of a proxy, no call is answered that no
    upstream is healthy, or that the circuits are open, while an endpoint has been healthy with a
    Closed circuit since its loop began, exactly if every call that gives up has drawn all the
    endpoints of which this holds. -/
theorem never_missed_iff (proxy : ReverseProxy)
    (hhealth : proxy.limits.healthThresholds.Accepted)
    (hcircuit : proxy.limits.circuitBreaker.Accepted) (events : List SelectionEvent) :
    Machine.Always step NeverMissed (create proxy hhealth hcircuit) events ↔
      Machine.EachStep step CoversSteady (create proxy hhealth hcircuit) events := by
  apply Machine.always_iff_eachStep SelectionInv
  · exact fun s e s' h hP hcovers hstep => ⟨h.step hstep, hP.step h hcovers hstep⟩
  · exact fun s e s' _ _ hcovers hstep => missed_of_not_covers hcovers hstep
  · exact selectionInv_create proxy hhealth hcircuit
  · exact fun r hmem => by cases hmem

/-! ### What is enough -/

/-- A call draws no endpoint again. -/
def FreshDraw (s : SelectionSystem) (e : SelectionEvent) (_ : SelectionSystem) : Prop :=
  match e with
  | .drew call => ∀ r ∈ s.calls[call]?, ∀ ticket ∈ r.drawn, s.candidate ticket ≠ s.candidate s.next
  | _ => True

/-- The counter stands right behind the ticket that the call drew last: nobody else has drawn
    since, and the counter has not started from 0 again. -/
def AloneDraw (s : SelectionSystem) (e : SelectionEvent) (_ : SelectionSystem) : Prop :=
  match e with
  | .drew call => ∀ r ∈ s.calls[call]?, ∀ ticket ∈ r.drawn.head?, s.next = ticket + 1
  | _ => True

/-- What a call in its loop has drawn: an endpoint for each attempt that is over, and for the
    one that has begun. -/
structure Counted (s : SelectionSystem) (r : SelectingRequest) : Prop where
  proxy : r.exchange.proxy = s.proxy
  length : ∀ attempt ∈ r.attempt, r.drawn.length = attempt + r.point.ticket.elim 0 fun _ => 1

theorem Counted.moves {call : Nat} (h : s.Counted r) (hmove : s.Moves call r e r')
    (hstays : r'.attempt.isSome) : s.Counted r' := by
  cases hmove with
  | drew hpoint hattempt hlt =>
    refine ⟨h.proxy, fun attempt hattempt => ?_⟩
    have hlength := h.length attempt hattempt
    simpa [hpoint, AttemptPoint.ticket] using hlength
  | healthy hpoint =>
    refine ⟨h.proxy, fun attempt hattempt => ?_⟩
    have hlength := h.length attempt hattempt
    rwa [hpoint] at hlength
  | unhealthy hpoint hout =>
    refine ⟨h.proxy, fun attempt hattempt => ?_⟩
    have hlength := h.length attempt hattempt
    rwa [hpoint] at hlength
  | refused hpoint hout =>
    refine ⟨h.proxy, fun attempt hattempt => ?_⟩
    have hlength := h.length attempt hattempt
    rwa [hpoint] at hlength
  | allowed hattempt hanswer => simp [hattempt] at hstays
  -- one more attempt, one more ticket
  | @passed _ _ attempt _ hpoint hbefore hattempt hproxy hnext hdrawn hsteady =>
    refine ⟨hproxy.trans h.proxy, fun attempt' hattempt' => ?_⟩
    obtain rfl : attempt + 1 = attempt' := Option.some.inj (hattempt.symm.trans hattempt')
    have hlength := h.length attempt hbefore
    rw [hpoint] at hlength
    rw [hdrawn, hnext]
    exact hlength
  | gaveUp hpoint hbefore hall hattempt hanswer hsteady => simp [hattempt] at hstays

theorem Counted.of_new (h : r.New s.proxy) : s.Counted r := by
  refine ⟨h.proxy, fun attempt hattempt => ?_⟩
  rw [h.drawn, h.point, h.attempt attempt hattempt]
  rfl

theorem Counted.seen (h : s.Counted r) (hproxy : s'.proxy = s.proxy) :
    s'.observe.Counted (s'.seen r) := by
  refine ⟨?_, ?_⟩
  · unfold SelectionSystem.seen
    split <;> exact h.proxy.trans hproxy.symm
  · rw [seen_attempt]
    unfold SelectionSystem.seen
    split <;> exact h.length

/-- The endpoints that a call in its loop has drawn are different ones. -/
structure FreshInv (s : SelectionSystem) : Prop where
  searching : SelectionInv s
  counted : ∀ r ∈ s.calls, r.attempt.isSome → s.Counted r
  nodup : ∀ r ∈ s.calls, r.attempt.isSome → (r.drawn.map s.candidate).Nodup

theorem seen_drawn : (s.seen r).drawn = r.drawn := by
  unfold seen
  split <;> rfl

theorem counted_step (h : ∀ r ∈ s.calls, r.attempt.isSome → s.Counted r)
    (hstep : s.step e = some s') : ∀ r ∈ s'.calls, r.attempt.isSome → s'.Counted r := by
  obtain ⟨s₁, hact, rfl⟩ := Option.map_eq_some_iff.mp hstep
  have hbefore : ∀ r ∈ s₁.calls, r.attempt.isSome → s.Counted r := by
    refine forall_calls_act hact h (fun r hnew _ => .of_new hnew) ?_
    intro call r r' hr hmove hattempt
    exact (h r (List.mem_of_getElem? hr) (hmove.attempt_isSome hattempt)).moves hmove hattempt
  intro r' hmem hattempt
  obtain ⟨r, hr, rfl⟩ := mem_observe.mp hmem
  rw [seen_attempt] at hattempt
  exact (hbefore r hr hattempt).seen (act_cases hact).1

theorem FreshInv.step (h : FreshInv s) (hfresh : FreshDraw s e s')
    (hstep : s.step e = some s') : FreshInv s' := by
  refine ⟨h.searching.step hstep, counted_step h.counted hstep, ?_⟩
  obtain ⟨s₁, hact, rfl⟩ := Option.map_eq_some_iff.mp hstep
  have hbefore : ∀ r ∈ s₁.calls, r.attempt.isSome → (r.drawn.map s.candidate).Nodup := by
    refine forall_calls_act hact h.nodup ?_ ?_
    · intro r hnew _
      rw [hnew.drawn]
      exact List.nodup_nil
    · intro call r r' hr hmove hattempt
      have hnodup := h.nodup r (List.mem_of_getElem? hr) (hmove.attempt_isSome hattempt)
      cases hmove with
      -- the new candidate is none of those drawn before
      | drew hpoint _ hlt =>
        rw [List.map_cons, List.nodup_cons]
        refine ⟨fun hmem => ?_, hnodup⟩
        obtain ⟨ticket, hticket, heq⟩ := List.mem_map.mp hmem
        exact hfresh r hr ticket hticket heq
      | allowed hnone hanswer => simp [hnone] at hattempt
      | passed hpoint hbefore _ hproxy hnext hdrawn hsteady => rwa [hdrawn]
      | gaveUp hpoint hbefore hall hnone hanswer hsteady => simp [hnone] at hattempt
      | _ => exact hnodup
  intro r' hmem hattempt
  obtain ⟨r, hr, rfl⟩ := mem_observe.mp hmem
  rw [seen_attempt] at hattempt
  rw [seen_drawn]
  show (r.drawn.map s₁.candidate).Nodup
  rw [candidate_congr (act_cases hact).1]
  exact hbefore r hr hattempt

/-- The tickets of a call follow one another, the latest one first. -/
def Consecutive (drawn : List Nat) : Prop :=
  ∀ ticket ∈ drawn, ∀ last ∈ drawn.head?, ticket ≤ last ∧ last < ticket + drawn.length

theorem Consecutive.cons {drawn : List Nat} {next : Nat} (h : Consecutive drawn)
    (hnext : ∀ last ∈ drawn.head?, next = last + 1) : Consecutive (next :: drawn) := by
  intro ticket hmem last hlast
  obtain rfl : next = last := Option.some.inj hlast
  rw [List.length_cons]
  rcases List.mem_cons.mp hmem with rfl | hmem
  · omega
  · have hhead := List.head?_eq_some_head (List.ne_nil_of_mem hmem)
    have hticket := h ticket hmem _ hhead
    have heq := hnext _ hhead
    omega

/-- Consecutive tickets, fewer than there are endpoints, are for other endpoints than the next
    ticket. -/
theorem Consecutive.fresh {drawn : List Nat} {next : Nat} (h : Consecutive drawn)
    (hnext : ∀ last ∈ drawn.head?, next = last + 1) (hlength : drawn.length < s.size) :
    ∀ ticket ∈ drawn, s.candidate ticket ≠ s.candidate next := by
  intro ticket hmem heq
  have hhead := List.head?_eq_some_head (List.ne_nil_of_mem hmem)
  have hticket := h ticket hmem _ hhead
  have hsucc := hnext _ hhead
  have hdvd : s.size ∣ next - ticket :=
    Nat.dvd_of_mod_eq_zero (Nat.sub_mod_eq_zero_of_mod_eq heq.symm)
  have hle := Nat.le_of_dvd (by omega) hdvd
  omega

structure AloneInv (s : SelectionSystem) : Prop where
  counted : ∀ r ∈ s.calls, r.attempt.isSome → s.Counted r
  consecutive : ∀ r ∈ s.calls, r.attempt.isSome → Consecutive r.drawn

theorem AloneInv.step (h : AloneInv s) (halone : AloneDraw s e s')
    (hstep : s.step e = some s') : AloneInv s' := by
  refine ⟨counted_step h.counted hstep, ?_⟩
  obtain ⟨s₁, hact, rfl⟩ := Option.map_eq_some_iff.mp hstep
  have hbefore : ∀ r ∈ s₁.calls, r.attempt.isSome → Consecutive r.drawn := by
    refine forall_calls_act hact h.consecutive ?_ ?_
    · intro r hnew _
      rw [hnew.drawn]
      exact fun ticket hmem => (List.not_mem_nil hmem).elim
    · intro call r r' hr hmove hattempt
      have hconsecutive :=
        h.consecutive r (List.mem_of_getElem? hr) (hmove.attempt_isSome hattempt)
      cases hmove with
      | drew hpoint _ hlt => exact hconsecutive.cons (halone r hr)
      | allowed hnone hanswer => simp [hnone] at hattempt
      | passed hpoint hbefore _ hproxy hnext hdrawn hsteady => rwa [hdrawn]
      | gaveUp hpoint hbefore hall hnone hanswer hsteady => simp [hnone] at hattempt
      | _ => exact hconsecutive
  intro r' hmem hattempt
  obtain ⟨r, hr, rfl⟩ := mem_observe.mp hmem
  rw [seen_attempt] at hattempt
  rw [seen_drawn]
  exact hbefore r hr hattempt

theorem AloneInv.freshDraw (h : AloneInv s) (halone : AloneDraw s e s')
    (hstep : s.step e = some s') : FreshDraw s e s' := by
  obtain ⟨s₁, hact, rfl⟩ := Option.map_eq_some_iff.mp hstep
  cases e with
  | drew call =>
    intro r hr
    obtain ⟨r₀, r', hr₀, hmove, -⟩ := update_eq_some.mp hact
    obtain rfl : r = r₀ := Option.some.inj (hr.symm.trans hr₀)
    obtain ⟨hpoint, ⟨attempt, hattempt, hlt⟩, -⟩ := SelectingRequest.drew_eq_some hmove
    have hcalls := List.mem_of_getElem? hr
    have hselecting : r.attempt.isSome := by simp [hattempt]
    have hcounted := h.counted r hcalls hselecting
    have hlength : r.drawn.length = attempt := by
      simpa [hpoint, AttemptPoint.ticket] using hcounted.length attempt hattempt
    rw [hcounted.proxy, ← hlength] at hlt
    exact (h.consecutive r hcalls hselecting).fresh (halone r hr) hlt
  | _ => trivial

/-- As many different endpoints as there are are all of them. -/
theorem exists_drawn {drawn : List Nat} (hnodup : (drawn.map s.candidate).Nodup)
    (hall : s.size ≤ drawn.length) {endpoint : Nat} (hlt : endpoint < s.size) :
    ∃ ticket ∈ drawn, s.candidate ticket = endpoint := by
  have hsub : drawn.map s.candidate ⊆ List.range s.size := by
    intro candidate hmem
    obtain ⟨ticket, -, rfl⟩ := List.mem_map.mp hmem
    exact List.mem_range.mpr (Nat.mod_lt ticket (by omega))
  have hperm : (drawn.map s.candidate).Perm (List.range s.size) := by
    apply (List.subperm_of_subset hnodup hsub).perm_of_length_le
    simpa using hall
  exact List.mem_map.mp (hperm.mem_iff.mpr (List.mem_range.mpr hlt))

theorem lt_size_of_available {endpoint : Nat} (h : s.available endpoint = true) :
    endpoint < s.size := by
  unfold available healthy at h
  split at h
  · next upstream hget => exact (List.getElem?_eq_some_iff.mp hget).1
  · simp at h

theorem FreshInv.coversSteady (h : FreshInv s) (hstep : s.step e = some s') :
    CoversSteady s e s' := by
  obtain ⟨s₁, hact, rfl⟩ := Option.map_eq_some_iff.mp hstep
  cases e with
  | exhausted call now =>
    intro r hr endpoint hmem
    obtain ⟨r₀, r', hr₀, hmove, -⟩ := update_eq_some.mp hact
    obtain rfl : r = r₀ := Option.some.inj (hr.symm.trans hr₀)
    obtain ⟨attempt, hpoint, hattempt, hall, -⟩ := SelectingRequest.gaveUp_eq_some hmove
    have hcalls := List.mem_of_getElem? hr
    have hselecting : r.attempt.isSome := by simp [hattempt]
    have hcounted := h.counted r hcalls hselecting
    have hlength : r.drawn.length = attempt := by
      simpa [hpoint, AttemptPoint.ticket] using hcounted.length attempt hattempt
    rw [hcounted.proxy, ← hlength] at hall
    exact exists_drawn (h.nodup r hcalls hselecting) hall
      (lt_size_of_available ((h.searching r hcalls hselecting).available endpoint hmem))
  | _ => trivial

/-- While no call draws an endpoint again, none is missed. -/
theorem never_missed_of_fresh (proxy : ReverseProxy)
    (hhealth : proxy.limits.healthThresholds.Accepted)
    (hcircuit : proxy.limits.circuitBreaker.Accepted) {events : List SelectionEvent}
    (hfresh : Machine.EachStep step FreshDraw (create proxy hhealth hcircuit) events) :
    Machine.Always step NeverMissed (create proxy hhealth hcircuit) events := by
  have hinit : FreshInv (create proxy hhealth hcircuit) :=
    ⟨selectionInv_create proxy hhealth hcircuit, fun r hmem => (List.not_mem_nil hmem).elim,
      fun r hmem => (List.not_mem_nil hmem).elim⟩
  apply (never_missed_iff proxy hhealth hcircuit events).mpr
  refine Machine.eachStep_of_eachStep FreshInv ?_ hinit hfresh
  exact fun s e s' h hok hstep => ⟨h.coversSteady hstep, h.step hok hstep⟩

/-- While the draws of every call follow one another, none is missed. -/
theorem never_missed_of_alone (proxy : ReverseProxy)
    (hhealth : proxy.limits.healthThresholds.Accepted)
    (hcircuit : proxy.limits.circuitBreaker.Accepted) {events : List SelectionEvent}
    (halone : Machine.EachStep step AloneDraw (create proxy hhealth hcircuit) events) :
    Machine.Always step NeverMissed (create proxy hhealth hcircuit) events := by
  have hinit : AloneInv (create proxy hhealth hcircuit) :=
    ⟨fun r hmem => (List.not_mem_nil hmem).elim, fun r hmem => (List.not_mem_nil hmem).elim⟩
  apply never_missed_of_fresh
  refine Machine.eachStep_of_eachStep AloneInv ?_ hinit halone
  exact fun s e s' h hok hstep => ⟨h.freshDraw hok hstep, h.step hok hstep⟩

/-! ### Two calls on two endpoints -/

def twoEndpoints : ReverseProxy where
  upstreams := [⟨bytes "a", bytes "1"⟩, ⟨bytes "b", bytes "1"⟩]
  limits := {}
  nonempty := by decide
  named := by decide

/-- A call comes, with no header and no cache. -/
def get (inFlight : Nat) : SelectionEvent :=
  .called 1 { method := .Get, target := bytes "/" } {} inFlight

/-- The endpoint `a` is found unhealthy three times. -/
def outage : List SelectionEvent :=
  List.replicate 3 (.healthRecorded (bytes "a:1") false)

/-- One attempt of a call, on an endpoint that is unhealthy. -/
def failedAttempt (call : Nat) : List SelectionEvent :=
  [.drew call, .consulted call, .recalled call]

/-- A call alone goes on from the endpoint `a` to the endpoint `b`. -/
theorem never_missed_iff_oneCall :
    Machine.Always step NeverMissed (create twoEndpoints (by decide) (by decide))
        (outage ++ [get 0] ++ failedAttempt 0 ++ [.drew 0, .consulted 0, .asked 0 0]) ↔
      Machine.EachStep step CoversSteady (create twoEndpoints (by decide) (by decide))
        (outage ++ [get 0] ++ failedAttempt 0 ++ [.drew 0, .consulted 0, .asked 0 0]) :=
  never_missed_iff twoEndpoints (by decide) (by decide) _

/-- A second call draws the ticket of `b` between the draws of the first one, which tries `a`
    again and gives up. -/
theorem endpoint_missed :
    ¬∀ (proxy : ReverseProxy) (hhealth : proxy.limits.healthThresholds.Accepted)
      (hcircuit : proxy.limits.circuitBreaker.Accepted) (events : List SelectionEvent),
      Machine.Always step NeverMissed (create proxy hhealth hcircuit) events := by
  intro h
  have hrun := h twoEndpoints (by decide) (by decide) (outage ++ [get 0, get 1] ++
    failedAttempt 0 ++ [.drew 1] ++ failedAttempt 0 ++ [.exhausted 0 0])
  revert hrun
  decide +kernel

end SelectionSystem

end PulseGate
