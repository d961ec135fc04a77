import PulseGate.Http.ProxySteps
import PulseGate.Http.ReverseProxy

namespace PulseGate

/-!
# What a step of a proxied request can do

* `step_cases` — every step is one of the cases of `Stepped`;
* `acquireDone_cases`, `afterTransaction_cases` — the exits of the handler;
* `step_route` — no step changes what the request and the proxy are;
* `sessions_step` — an invariant of the transaction's session is one of the exchange.

The conditions on runs of an exchange are conditions on the steps of its session
(`Exchange.OnSession`); those that several results share are here.
-/

namespace ProxySession

/-- The call of `parse` of the step stays inside the buffer. -/
def ParsesInBounds (s : ProxySession) (e : ProxyEvent) : Prop :=
  e = .run → s.point = .parsing → s.parser.parse s.input.readableView ≠ .outOfBounds

/-- The buffer has room for the read the step prepares. -/
def HasRoom (s : ProxySession) (e : ProxyEvent) : Prop :=
  e = .run → s.point = .preparing → (s.input.prepare s.limits.readChunkBytes).isOk = true

instance (s : ProxySession) (e : ProxyEvent) : Decidable (s.ParsesInBounds e) :=
  inferInstanceAs (Decidable (_ → _ → _))

instance (s : ProxySession) (e : ProxyEvent) : Decidable (s.HasRoom e) :=
  inferInstanceAs (Decidable (_ → _ → _))

end ProxySession

namespace Exchange

/-! ### The cases of a step -/

/-- The steps of an exchange. -/
inductive Stepped (e : Exchange) : ExchangeEvent → Exchange → Prop
  | observed (inFlight : Nat) (h : e.stage = .admission) :
    Stepped e (.observed inFlight) (e.enterFlight inFlight)
  | attempted (ticket : Nat) (healthy allowed : Bool) (circuit : CircuitState) (retryAt : Int)
    (attempt : Nat) (rejected : Bool) (earliest : Int)
    (h : e.stage = .selecting attempt rejected earliest)
    (hattempt : attempt < e.proxy.upstreams.length) :
    Stepped e (.attempted ticket healthy allowed circuit retryAt)
      (e.attempt attempt rejected earliest (ticket % e.proxy.upstreams.length) healthy allowed
        circuit retryAt)
  | exhausted (now : Int) (attempt : Nat) (rejected : Bool) (earliest : Int)
    (h : e.stage = .selecting attempt rejected earliest) :
    Stepped e (.exhausted now) (e.noEndpoint rejected earliest now)
  | acquired (ok connectionOpen : Bool) (endpoint : Nat) (h : e.stage = .acquiring endpoint) :
    Stepped e (.acquired ok connectionOpen) (e.acquireDone endpoint ok connectionOpen)
  | acquireRaised (exception : Exception) (endpoint : Nat) (h : e.stage = .acquiring endpoint) :
    Stepped e (.acquireRaised exception) e.handlerRaised
  | session (event : ProxyEvent) (endpoint : Nat) (s s' : ProxySession)
    (h : e.stage = .transacting endpoint s) (hs : s.step event = some s') :
    Stepped e (.session event)
      { e with stage := .transacting endpoint s', output := s'.output,
               ending := e.ending.or (s.endingOf event) }
  | transacted (endpoint : Nat) (s : ProxySession) (e' : Exchange)
    (h : e.stage = .transacting endpoint s) (hs : e.afterTransaction endpoint s = some e') :
    Stepped e .transacted e'
  | responded (stored : Bool) (response : HttpResponse) (h : e.stage = .handled response) :
    Stepped e (.respond stored) (e.writeResponse (e.routed response stored))
  | written (progress : WriteProgress) (h : e.stage = .responding)
    (hprogress : progress ≠ .pending) :
    Stepped e (.written progress)
      { e with output := finishWrite progress e.output, stage := .finished }

variable {e e' : Exchange} {event : ExchangeEvent}

/-- **The cases of a step.** -/
theorem step_cases (hs : e.step event = some e') : e.Stepped event e' := by
  -- an event is taken at one stage; at the others `hs` says `none = some e'`
  cases event with
  | observed inFlight =>
    unfold step at hs
    dsimp only at hs
    split at hs <;> cases hs
    next h => exact .observed inFlight h
  | attempted ticket healthy allowed circuit retryAt =>
    unfold step at hs
    dsimp only at hs
    split at hs
    · next h =>
      split at hs <;> cases hs
      next hattempt => exact .attempted _ _ _ _ _ _ _ _ h hattempt
    · cases hs
  | exhausted now =>
    unfold step at hs
    dsimp only at hs
    split at hs
    · next h =>
      split at hs <;> cases hs
      exact .exhausted _ _ _ _ h
    · cases hs
  | acquired ok connectionOpen =>
    unfold step at hs
    dsimp only at hs
    split at hs <;> cases hs
    next h => exact .acquired _ _ _ h
  | acquireRaised exception =>
    unfold step at hs
    dsimp only at hs
    split at hs <;> cases hs
    next h => exact .acquireRaised _ _ h
  | session event =>
    unfold step at hs
    dsimp only at hs
    split at hs
    · next endpoint s h =>
      obtain ⟨s', hs', rfl⟩ := Option.map_eq_some_iff.mp hs
      exact .session event endpoint s s' h hs'
    · cases hs
  | transacted =>
    unfold step at hs
    dsimp only at hs
    split at hs
    · next endpoint s h => exact .transacted endpoint s e' h hs
    · cases hs
  | respond stored =>
    unfold step at hs
    dsimp only at hs
    split at hs <;> cases hs
    next h => exact .responded stored _ h
  | written progress =>
    unfold step at hs
    dsimp only at hs
    split at hs
    · next h =>
      split at hs <;> cases hs
      next hprogress => exact .written progress h hprogress
    · cases hs

/-! ### The exits of the handler -/

/-- An attempt takes the endpoint, or goes on to the next one; the breaker has said no to a
    healthy endpoint that is passed over. -/
theorem attempt_cases (e : Exchange) (attempt : Nat) (rejected : Bool) (earliest : Int)
    (candidate : Nat) (healthy allowed : Bool) (circuit : CircuitState) (retryAt : Int) :
    (e.proxy.limits.poolLimits.Accepted ∧
      e.attempt attempt rejected earliest candidate healthy allowed circuit retryAt =
        { e with breakers := .allowRequest candidate true :: e.breakers,
                 stage := .acquiring candidate }) ∨
    (healthy = true ∧ allowed = true ∧ ¬ e.proxy.limits.poolLimits.Accepted ∧
      e.attempt attempt rejected earliest candidate healthy allowed circuit retryAt =
        { e with breakers := .allowRequest candidate true :: e.breakers }.handlerRaised) ∨
    ∃ breakers rejected' earliest',
      (breakers = e.breakers ∨ breakers = .allowRequest candidate false :: e.breakers) ∧
      e.attempt attempt rejected earliest candidate healthy allowed circuit retryAt =
        { e with breakers := breakers, stage := .selecting (attempt + 1) rejected' earliest' } := by
  unfold Exchange.attempt startAcquire
  -- the breaker is asked in the last two cases only, so that its answer is logged there
  cases healthy
  · refine .inr (.inr ⟨e.breakers, ?_⟩)
    simp only [Bool.false_eq_true, false_and, if_false]
    split <;> exact ⟨_, _, .inl trivial, rfl⟩
  cases allowed
  · refine .inr (.inr ⟨.allowRequest candidate false :: e.breakers, ?_⟩)
    simp only [Bool.false_eq_true, and_false, if_true, if_false]
    split <;> exact ⟨_, _, .inr trivial, rfl⟩
  simp only [and_self, if_true]
  split
  · next haccepted => exact .inl ⟨haccepted, rfl⟩
  · next haccepted => exact .inr (.inl ⟨trivial, trivial, haccepted, rfl⟩)

/-- What follows `asyncAcquire`. -/
theorem acquireDone_cases (e : Exchange) (endpoint : Nat) (ok connectionOpen : Bool) :
    (ok = false ∧ e.acquireDone endpoint ok connectionOpen =
      { e with breakers := .recordNeutral endpoint :: e.breakers }.overloaded) ∨
    (ok = true ∧ e.proxy.upstreams[endpoint]? = none ∧
      e.acquireDone endpoint ok connectionOpen = e.handlerRaised) ∨
    (ok = true ∧ ∃ upstream, e.proxy.upstreams[endpoint]? = some upstream ∧
      ((∃ s, ProxySession.create upstream e.proxy.limits connectionOpen e.context e.request
            e.forwards = .ok s ∧
          e.acquireDone endpoint ok connectionOpen =
            { e with stage := .transacting endpoint s }) ∨
        (∃ error, ProxySession.create upstream e.proxy.limits connectionOpen e.context e.request
            e.forwards = .error error ∧
          e.acquireDone endpoint ok connectionOpen =
            { e with leases := .abandon :: e.leases }.handlerRaised))) := by
  unfold acquireDone
  -- the lease is with the session from here on; without a session nobody returns it
  split
  · next hok => exact .inl ⟨by simpa using hok, rfl⟩
  next hok =>
  have hok : ok = true := by simpa using hok
  split
  · next hnone => exact .inr (.inl ⟨hok, hnone, rfl⟩)
  · next upstream hsome =>
    refine .inr (.inr ⟨hok, upstream, hsome, ?_⟩)
    split
    · next s hcreate => exact .inl ⟨s, hcreate, rfl⟩
    · next error hcreate => exact .inr ⟨error, hcreate, rfl⟩

/-- The outcome is a success, a failure or neutral. -/
theorem recordOutcome_cases (e : Exchange) (endpoint : Nat) (result : ProxyResult) :
    (upstreamFailure e.proxy.limits result = false ∧
      e.recordOutcome endpoint result = { e with
        health := .recordSuccess endpoint :: e.health,
        breakers := .recordSuccess endpoint :: e.breakers }) ∨
    (upstreamFailure e.proxy.limits result = true ∧ result.error ≠ .Cancelled ∧
      result.error ≠ .UnsupportedRequest ∧
      e.recordOutcome endpoint result = { e with
        health := .recordFailure endpoint :: e.health,
        breakers := .recordFailure endpoint :: e.breakers }) ∨
    ((result.error = .Cancelled ∨ result.error = .UnsupportedRequest) ∧
      e.recordOutcome endpoint result = { e with
        breakers := .recordNeutral endpoint :: e.breakers }) := by
  unfold recordOutcome
  split
  · next h => exact .inl ⟨by simpa using h, rfl⟩
  next h =>
  split
  · next herror => exact .inr (.inl ⟨by simpa using h, herror.1, herror.2, rfl⟩)
  · next herror =>
    rw [not_and_or, Decidable.not_not, Decidable.not_not] at herror
    exact .inr (.inr ⟨herror, rfl⟩)

/-- The outcome is recorded beside everything else. -/
theorem recordOutcome_frame (e : Exchange) (endpoint : Nat) (result : ProxyResult) :
    e.recordOutcome endpoint result = { e with
      health := (e.recordOutcome endpoint result).health,
      breakers := (e.recordOutcome endpoint result).breakers } := by
  rcases e.recordOutcome_cases endpoint result with ⟨_, heq⟩ | ⟨_, _, _, heq⟩ | ⟨_, heq⟩ <;>
    rw [heq]

@[simp] theorem recordOutcome_output (e : Exchange) (endpoint : Nat) (result : ProxyResult) :
    (e.recordOutcome endpoint result).output = e.output := by
  rw [recordOutcome_frame]

@[simp] theorem recordOutcome_leases (e : Exchange) (endpoint : Nat) (result : ProxyResult) :
    (e.recordOutcome endpoint result).leases = e.leases := by
  rw [recordOutcome_frame]

@[simp] theorem recordOutcome_transaction (e : Exchange) (endpoint : Nat) (result : ProxyResult) :
    (e.recordOutcome endpoint result).transaction = e.transaction := by
  rw [recordOutcome_frame]

/-- The handler goes on after a coroutine that returned or threw. -/
theorem afterTransaction_cases {endpoint : Nat} {s : ProxySession}
    (hs : e.afterTransaction endpoint s = some e') :
    (∃ result : ProxyResult, s.point = .returned result ∧
      e' = ((({ e with transaction := some s }.returnLease result).recordOutcome endpoint
        result).handle
          (if result.error = ProxyError.None then result.response
            else makeProxyErrorResponse result.error))) ∨
    (∃ exception, s.point = .raised exception ∧
      e' = { e with transaction := some s, leases := .abandon :: e.leases }.handlerRaised) := by
  unfold afterTransaction at hs
  dsimp only at hs
  split at hs
  · next result hpoint => exact .inl ⟨result, hpoint, (Option.some.inj hs).symm⟩
  · next exception hpoint => exact .inr ⟨exception, hpoint, (Option.some.inj hs).symm⟩
  · cases hs

/-! ### What no step changes -/

structure Route where
  proxy : ReverseProxy
  request : HttpRequest
  context : RequestContext
  cache : RouteCache

def route (e : Exchange) : Route := ⟨e.proxy, e.request, e.context, e.cache⟩

theorem step_route (hs : e.step event = some e') : e'.route = e.route := by
  cases step_cases hs with
  | observed inFlight h =>
    unfold enterFlight
    split <;> rfl
  | attempted ticket healthy allowed circuit retryAt attempt rejected earliest h hattempt =>
    rcases e.attempt_cases attempt rejected earliest (ticket % e.proxy.upstreams.length) healthy
      allowed circuit retryAt with ⟨_, heq⟩ | ⟨_, _, _, heq⟩ | ⟨_, _, _, _, heq⟩ <;>
      rw [heq] <;> rfl
  | exhausted now attempt rejected earliest h =>
    unfold noEndpoint
    split <;> rfl
  | acquired ok connectionOpen endpoint h =>
    rcases e.acquireDone_cases endpoint ok connectionOpen with
      ⟨_, heq⟩ | ⟨_, _, heq⟩ | ⟨_, _, _, ⟨_, _, heq⟩ | ⟨_, _, heq⟩⟩ <;> rw [heq] <;> rfl
  | acquireRaised exception endpoint h => rfl
  | session event endpoint s s' h hs => rfl
  | transacted endpoint s e' h hs =>
    rcases afterTransaction_cases hs with ⟨result, _, rfl⟩ | ⟨exception, _, rfl⟩
    · rw [recordOutcome_frame]
      rfl
    · rfl
  | responded stored response h =>
    unfold writeResponse
    split
    · rfl
    · split <;> rfl
  | written progress h hprogress => rfl

theorem forwards_eq (h : e'.route = e.route) : e'.forwards = e.forwards := by
  have hrequest := congrArg Route.request h
  have hcontext := congrArg Route.context h
  simp only [route] at hrequest hcontext
  simp only [forwards, hrequest, hcontext]

/-! ### The session of an exchange -/

/-- The condition holds of the session's step, if the event is the session's. -/
def OnSession (C : ProxySession → ProxyEvent → Prop) (e : Exchange) (event : ExchangeEvent)
    (_ : Exchange) : Prop :=
  match e.stage, event with
  | .transacting _ s, .session sessionEvent => C s sessionEvent
  | _, _ => True

instance OnSession.decidable (C : ProxySession → ProxyEvent → Prop)
    [hC : ∀ s event, Decidable (C s event)] (e : Exchange) (event : ExchangeEvent)
    (e' : Exchange) : Decidable (OnSession C e event e') :=
  match h : e.stage, event with
  | .transacting _ s, .session sessionEvent =>
    decidable_of_iff (C s sessionEvent) (by simp [OnSession, h])
  | .transacting _ _, .observed _ | .transacting _ _, .attempted .. | .transacting _ _, .exhausted _
  | .transacting _ _, .acquired .. | .transacting _ _, .acquireRaised _
  | .transacting _ _, .transacted | .transacting _ _, .respond _ | .transacting _ _, .written _ =>
    isTrue (by simp [OnSession, h])
  | .admission, _ | .selecting .., _ | .acquiring _, _ | .handled _, _ | .responding, _
  | .finished, _ => isTrue (by simp [OnSession, h])

theorem OnSession.at_step {C : ProxySession → ProxyEvent → Prop} {sessionEvent : ProxyEvent}
    {endpoint : Nat} {s : ProxySession} (h : OnSession C e (.session sessionEvent) e')
    (hstage : e.stage = .transacting endpoint s) : C s sessionEvent := by
  simpa [OnSession, hstage] using h

/-- Only a step of the session can miss the condition. -/
theorem exists_of_not_onSession {C : ProxySession → ProxyEvent → Prop}
    (h : ¬ OnSession C e event e') :
    ∃ endpoint s sessionEvent, e.stage = .transacting endpoint s ∧
      event = .session sessionEvent ∧ ¬ C s sessionEvent := by
  unfold OnSession at h
  split at h
  · next endpoint s sessionEvent hstage => exact ⟨endpoint, s, sessionEvent, hstage, rfl, h⟩
  · exact absurd trivial h

/-- The session of the transaction, and the one it has left, satisfy `I`. -/
structure Sessions (I : ProxySession → Prop) (e : Exchange) : Prop where
  current : ∀ endpoint s, e.stage = .transacting endpoint s → I s
  left : ∀ s ∈ e.transaction, I s

/-- A step that does not run the session. -/
theorem Sessions.of_stage {I : ProxySession → Prop} (h : Sessions I e)
    (hstage : ∀ endpoint s, e'.stage ≠ .transacting endpoint s)
    (htransaction : e'.transaction = e.transaction) : Sessions I e' where
  current := fun endpoint s hs => absurd hs (hstage endpoint s)
  left := by rw [htransaction]; exact h.left

/-- **Invariants of the session.** What holds of a new session, and is kept by its steps,
    holds of the sessions of the exchange. -/
theorem sessions_step {I : ProxySession → Prop}
    (hcreate : ∀ upstream connectionOpen s, ProxySession.create upstream e.proxy.limits
      connectionOpen e.context e.request e.forwards = .ok s → I s)
    (hstep : ∀ s event s', I s → s.step event = some s' → I s') (h : Sessions I e)
    (hs : e.step event = some e') : Sessions I e' := by
  cases step_cases hs with
  | observed inFlight hstage =>
    unfold enterFlight
    split <;> exact h.of_stage (by simp [overloaded, handle]) rfl
  | attempted ticket healthy allowed circuit retryAt attempt rejected earliest hstage hattempt =>
    rcases e.attempt_cases attempt rejected earliest (ticket % e.proxy.upstreams.length) healthy
      allowed circuit retryAt with ⟨_, heq⟩ | ⟨_, _, _, heq⟩ | ⟨_, _, _, _, heq⟩ <;> rw [heq]
    · exact h.of_stage (by simp) rfl
    · exact h.of_stage (by simp [handlerRaised, handle]) rfl
    · exact h.of_stage (by simp) rfl
  | exhausted now attempt rejected earliest hstage =>
    unfold noEndpoint
    split <;> exact h.of_stage (by simp [handle]) rfl
  -- a session is created in one of the four ends
  | acquired ok connectionOpen endpoint hstage =>
    rcases e.acquireDone_cases endpoint ok connectionOpen with
      ⟨_, heq⟩ | ⟨_, _, heq⟩ | ⟨_, upstream, _, ⟨s, hs, heq⟩ | ⟨_, _, heq⟩⟩ <;> rw [heq]
    · exact h.of_stage (by simp [overloaded, handle]) rfl
    · exact h.of_stage (by simp [handlerRaised, handle]) rfl
    · refine ⟨?_, h.left⟩
      rintro _ _ ⟨⟩
      exact hcreate upstream connectionOpen s hs
    · exact h.of_stage (by simp [handlerRaised, handle]) rfl
  | acquireRaised exception endpoint hstage =>
    exact h.of_stage (by simp [handlerRaised, handle]) rfl
  | session event endpoint s s' hstage hsession =>
    refine ⟨?_, h.left⟩
    rintro _ _ ⟨⟩
    exact hstep s event s' (h.current endpoint s hstage) hsession
  | transacted endpoint s e' hstage hs =>
    have hsession := h.current endpoint s hstage
    rcases afterTransaction_cases hs with ⟨result, _, rfl⟩ | ⟨exception, _, rfl⟩
    · -- the session moves from the stage to `transaction`
      refine ⟨by simp [handle], ?_⟩
      simpa [handle, returnLease] using hsession
    · refine ⟨by simp [handlerRaised, handle], ?_⟩
      simpa [handlerRaised, handle] using hsession
  | responded stored response hstage =>
    unfold writeResponse
    split
    · exact h.of_stage (by simp) rfl
    · split <;> exact h.of_stage (by simp) rfl
  | written progress hstage hprogress => exact h.of_stage (by simp) rfl

/-! ### Runs to look at

The concrete runs of the results below are of one request to a proxy with one upstream, whose
buffer holds 64 bytes. -/

def smallProxy : ReverseProxy where
  upstreams := [{ host := bytes "u", service := bytes "80" }]
  limits := { readChunkBytes := 64, maxBufferBytes := 64 }
  nonempty := by decide
  named := by decide

def smallExchange (method : HttpMethod) : Exchange :=
  init smallProxy 1 none { method := method, target := bytes "/" } {}

/-- The request is sent on a connection that is open, and the response awaited. -/
def requestEvents : List ExchangeEvent :=
  [.observed 0, .attempted 0 true true .Closed 0, .acquired true true, .session .run,
   .session (.sent true)]

/-- From the call of `parse` to the start of a read, when nothing is written. -/
def readEvents (forwarding : Bool) : List ExchangeEvent :=
  List.replicate (if forwarding then 5 else 3) (.session .run)

end Exchange
end PulseGate
