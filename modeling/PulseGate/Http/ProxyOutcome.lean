import PulseGate.Http.ExchangeSteps

namespace PulseGate

/-!
# The outcomes of a proxied request

* `Exchange.one_outcome` — a request that a breaker admits records exactly one outcome on it,
  in every run without an exception; `Exchange.exception_records_nothing` is a run with one.
-/

/-- The coroutine has ended. -/
def ProxyPoint.Ended : ProxyPoint → Bool
  | .returned _ | .raised _ | .outOfBounds => true
  | _ => false

/-- The coroutine has not thrown, and has not read outside the buffer. -/
def ProxyPoint.Proper : ProxyPoint → Bool
  | .raised _ | .outOfBounds => false
  | _ => true

namespace ProxySession

variable {s s' : ProxySession} {e : ProxyEvent}

@[simp] theorem cancelInExecutor_point (s : ProxySession) (reason : ProxyStopReason) :
    (s.cancelInExecutor reason).point = s.point := by
  unfold cancelInExecutor
  split <;> rfl

/-- A step starts from a coroutine that has not ended. -/
theorem not_ended_of_step (hs : s.step e = some s') : s.point.Ended = false := by
  have hsuspended : s.point.Suspended = true → s.point.Ended = false := by
    cases s.point <;> simp [ProxyPoint.Suspended, ProxyPoint.Ended]
  cases step_cases hs with
  | phaseExpired reason h hdeadline => exact hsuspended h
  | totalExpired h hdeadline => exact hsuspended h
  | cancelled reason h hreason => exact hsuspended h
  | _ => simp [*, ProxyPoint.Ended]

theorem Returned.proper {parser : HttpResponseParser} {context : RequestContext}
    {output : List Output} {result : ProxyResult} (h : Returned parser context output result s) :
    s.point.Proper = true := by
  rw [h.point]
  rfl

theorem writeEnded_proper (s : ProxySession) (progress : WriteProgress) :
    (s.writeEnded progress).point.Proper = true := by
  rcases s.writeEnded_cases progress with
    ⟨_, _, _, heq⟩ | ⟨_, _, _, heq⟩ | ⟨_, hr⟩ | ⟨_, hr⟩
  · rw [heq]
    rfl
  · rw [heq]
    rfl
  · exact hr.proper
  · exact hr.proper

/-- Only `parse` and `prepare` leave the coroutine at a point that is not proper. -/
theorem proper_step (h : ParserInv s) (hproper : s.point.Proper = true)
    (hbounds : s.ParsesInBounds e) (hroom : s.HasRoom e) (hs : s.step e = some s') :
    s'.point.Proper = true := by
  -- the steps that can throw or leave the buffer are excluded by the conditions; a step that
  -- only stops the session stays where it is
  cases step_cases hs with
  | entered hpoint =>
    unfold enter
    split
    · rfl
    split
    · rfl
    dsimp only
    split <;> rfl
  | parsed hpoint =>
    rcases parseInput_cases h.bounded with ⟨hout, _⟩ | ⟨parsed, parser, rest, _, _, _, heq⟩
    · exact absurd hout (hbounds rfl hpoint)
    · rw [heq]
      split <;> rfl
  | headChecked r hpoint =>
    unfold checkHead
    split <;> rfl
  | bodyChecked r hpoint =>
    unfold checkBody
    split <;> rfl
  | resultChecked r hpoint =>
    rcases s.checkResult_cases r with ⟨_, _, heq⟩ | ⟨_, _, hr⟩ | ⟨_, _, heq⟩ | ⟨_, _, hr⟩
    · rw [heq]
      rfl
    · exact hr.proper
    · rw [heq]
      rfl
    · exact hr.proper
  | prepared hpoint =>
    have hok := hroom rfl hpoint
    unfold prepareInput
    split
    · next error herror =>
      rw [herror] at hok
      cases hok
    · rfl
  | resolved ok hpoint =>
    split
    · rfl
    · exact (operationFailed_returned s.phaseEnded).proper
  | connected ok hpoint =>
    split
    · rfl
    · exact (operationFailed_returned s.phaseEnded).proper
  | requestSent ok request hpoint =>
    split
    · rfl
    · exact (operationFailed_returned s.phaseEnded).proper
  | received data hpoint hdata hfits => rfl
  | readFailed hpoint =>
    rcases s.phaseEnded.endOfInput_cases with
      ⟨_, hr⟩ | ⟨_, _, _, heq⟩ | ⟨_, _, _, hr⟩ | ⟨_, _, hr⟩
    · exact hr.proper
    · rw [heq]
      rfl
    · exact hr.proper
    · exact hr.proper
  | headWritten r progress hpoint hprogress => exact s.writeEnded_proper progress
  | chunkWritten r progress hpoint hprogress => exact s.writeEnded_proper progress
  | lastWritten progress hpoint hprogress => exact s.writeEnded_proper progress
  | phaseExpired reason hsuspended hdeadline => simpa [phaseEnded] using hproper
  | totalExpired hsuspended hdeadline => simpa using hproper
  | cancelled reason hsuspended hreason => simpa using hproper

end ProxySession

/-! ### One outcome for each admitted request -/

/-- The call records an outcome on the breaker of the endpoint. -/
def BreakerCall.Records (endpoint : Nat) : BreakerCall → Prop
  | .recordSuccess i | .recordFailure i | .recordNeutral i => i = endpoint
  | .allowRequest _ _ => False

namespace Exchange

/-- No breaker has admitted the request. -/
def Refused (log : List BreakerCall) : Prop := ∀ c ∈ log, ∃ i, c = .allowRequest i false

/-- The breaker of the endpoint has admitted the request, as its last call. -/
def Admitted (endpoint : Nat) (log : List BreakerCall) : Prop :=
  ∃ refused, Refused refused ∧ log = .allowRequest endpoint true :: refused

/-- The breaker of the endpoint that admitted the request has got one outcome after that. -/
def Settled (endpoint : Nat) (log : List BreakerCall) : Prop :=
  ∃ outcome admitted, outcome.Records endpoint ∧ Admitted endpoint admitted ∧
    log = outcome :: admitted

/-- The coroutine of the handler has ended. -/
def Over (e : Exchange) : Bool :=
  match e.stage with
  | .handled _ | .responding | .finished => true
  | _ => false

/-- The request has been admitted by no breaker, or by one, which has got one outcome. -/
structure OneOutcome (e : Exchange) : Prop where
  inBounds : ∀ endpoint s, e.stage = .transacting endpoint s → s.point ≠ .outOfBounds
  settled : e.Over = true → Refused e.breakers ∨ ∃ endpoint, Settled endpoint e.breakers

/-- No exception is thrown by the step: the pool of an endpoint that is chosen has limits it
    accepts, `asyncAcquire` does not throw, the constructor of `ProxySession` accepts its
    arguments, and the session's buffer has room.  Nor does `parse` read outside it. -/
def Quiet (e : Exchange) (event : ExchangeEvent) (e' : Exchange) : Prop :=
  OnSession (fun s sessionEvent => s.ParsesInBounds sessionEvent ∧ s.HasRoom sessionEvent)
      e event e' ∧
    match event with
    | .attempted _ healthy allowed _ _ =>
      healthy = true → allowed = true → e.proxy.limits.poolLimits.Accepted
    | .acquired ok connectionOpen =>
      ok = true → ∀ upstream ∈ e.proxy.upstreams, (ProxySession.create upstream e.proxy.limits
        connectionOpen e.context e.request e.forwards).isOk = true
    | .acquireRaised _ => False
    | _ => True

instance (e : Exchange) (event : ExchangeEvent) (e' : Exchange) : Decidable (Quiet e event e') :=
  have : Decidable (match event with
      | .attempted _ healthy allowed _ _ =>
        healthy = true → allowed = true → e.proxy.limits.poolLimits.Accepted
      | .acquired ok connectionOpen =>
        ok = true → ∀ upstream ∈ e.proxy.upstreams, (ProxySession.create upstream e.proxy.limits
          connectionOpen e.context e.request e.forwards).isOk = true
      | .acquireRaised _ => False
      | _ => True) :=
    match event with
    | .attempted _ _ _ _ _ => inferInstanceAs (Decidable (_ → _ → _))
    | .acquired ok connectionOpen => inferInstanceAs (Decidable (ok = true →
        ∀ upstream ∈ e.proxy.upstreams, (ProxySession.create upstream e.proxy.limits
          connectionOpen e.context e.request e.forwards).isOk = true))
    | .acquireRaised _ => isFalse id
    | .observed _ | .exhausted _ | .session _ | .transacted | .respond _ | .written _ =>
      isTrue trivial
  inferInstanceAs (Decidable (_ ∧ _))

/-- The log of the breakers, by the stage of the exchange. -/
def OutcomeAt (e : Exchange) : Stage → Prop
  | .admission | .selecting .. => Refused e.breakers
  | .acquiring endpoint =>
    endpoint < e.proxy.upstreams.length ∧ Admitted endpoint e.breakers
  | .transacting endpoint s =>
    Admitted endpoint e.breakers ∧ s.ParserInv ∧ s.point.Proper = true
  | .handled _ | .responding | .finished =>
    Refused e.breakers ∨ ∃ endpoint, Settled endpoint e.breakers

variable {e e' : Exchange} {event : ExchangeEvent} {endpoint : Nat}

theorem OutcomeAt.oneOutcome (h : e.OutcomeAt e.stage) : OneOutcome e where
  inBounds := by
    intro endpoint s hstage hpoint
    rw [hstage] at h
    -- a point outside the buffer is not proper
    have hproper := h.2.2
    rw [hpoint] at hproper
    cases hproper
  settled := by
    intro hover
    unfold Over at hover
    split at hover
    · next hstage => rw [hstage] at h; exact h
    · next hstage => rw [hstage] at h; exact h
    · next hstage => rw [hstage] at h; exact h
    · cases hover

theorem Refused.cons {log : List BreakerCall} (h : Refused log) (i : Nat) :
    Refused (.allowRequest i false :: log) := by
  intro c hc
  rcases List.mem_cons.mp hc with rfl | hc
  · exact ⟨i, rfl⟩
  · exact h c hc

theorem afterTransaction_settled {s : ProxySession} (hadmitted : Admitted endpoint e.breakers)
    (hproper : s.point.Proper = true) (hs : e.afterTransaction endpoint s = some e') :
    ∃ r, e'.stage = .handled r ∧ Settled endpoint e'.breakers := by
  rcases afterTransaction_cases hs with ⟨result, _, rfl⟩ | ⟨exception, hpoint, _⟩
  · -- each branch of the handler records once, on the breaker that has admitted the request
    rcases recordOutcome_cases ({ e with transaction := some s }.returnLease result) endpoint
      result with ⟨_, heq⟩ | ⟨_, _, _, heq⟩ | ⟨_, heq⟩ <;> rw [heq]
    · exact ⟨_, rfl, .recordSuccess endpoint, e.breakers, rfl, hadmitted, rfl⟩
    · exact ⟨_, rfl, .recordFailure endpoint, e.breakers, rfl, hadmitted, rfl⟩
    · exact ⟨_, rfl, .recordNeutral endpoint, e.breakers, rfl, hadmitted, rfl⟩
  · rw [hpoint] at hproper
    cases hproper

/-- A step without an exception. -/
theorem outcomeAt_step (h : e.OutcomeAt e.stage) (hok : Quiet e event e')
    (hs : e.step event = some e') : e'.OutcomeAt e'.stage := by
  cases step_cases hs with
  | observed inFlight hstage =>
    rw [hstage] at h
    unfold enterFlight
    split
    · exact .inl h
    · exact h
  -- the breaker admits the request, or refuses it and the next endpoint is tried
  | attempted ticket healthy allowed circuit retryAt attempt rejected earliest hstage hattempt =>
    rw [hstage] at h
    rcases e.attempt_cases attempt rejected earliest (ticket % e.proxy.upstreams.length) healthy
      allowed circuit retryAt with
      ⟨_, heq⟩ | ⟨hhealthy, hallowed, hlimits, _⟩ | ⟨_, _, _, hlog, heq⟩
    · rw [heq]
      exact ⟨Nat.mod_lt _ (by omega), e.breakers, h, rfl⟩
    · exact absurd (hok.2 hhealthy hallowed) hlimits
    · rw [heq]
      rcases hlog with rfl | rfl
      · exact h
      · exact Refused.cons h _
  | exhausted now attempt rejected earliest hstage =>
    rw [hstage] at h
    unfold noEndpoint
    split <;> exact .inl h
  | acquired ok connectionOpen endpoint hstage =>
    rw [hstage] at h
    obtain ⟨hlt, hadmitted⟩ := h
    rcases e.acquireDone_cases endpoint ok connectionOpen with
      ⟨_, heq⟩ | ⟨_, hnone, _⟩ | ⟨htrue, upstream, hsome, ⟨s, hcreate, heq⟩ | ⟨_, herror, _⟩⟩
    · -- a request that gets no connection says nothing about the endpoint
      rw [heq]
      exact .inr ⟨endpoint, .recordNeutral endpoint, e.breakers, rfl, hadmitted, rfl⟩
    · rw [List.getElem?_eq_getElem hlt] at hnone
      cases hnone
    · rw [heq]
      obtain ⟨_, hpoint, _⟩ := ProxySession.create_eq_ok hcreate
      exact ⟨hadmitted, ProxySession.parserInv_create hcreate, by rw [hpoint]; rfl⟩
    · have hcreated := hok.2 htrue upstream (List.mem_of_getElem? hsome)
      rw [herror] at hcreated
      cases hcreated
  -- a quiet step raises nothing
  | acquireRaised exception endpoint hstage => exact hok.2.elim
  | session sessionEvent endpoint s s' hstage hsession =>
    rw [hstage] at h
    obtain ⟨hadmitted, hparser, hproper⟩ := h
    obtain ⟨hbounds, hroom⟩ := hok.1.at_step hstage
    exact ⟨hadmitted, ProxySession.parserInv_step hparser hsession,
      ProxySession.proper_step hparser hproper hbounds hroom hsession⟩
  | transacted endpoint s e' hstage hsession =>
    rw [hstage] at h
    -- one result is recorded for the endpoint that admitted it
    obtain ⟨r, hhandled, hsettled⟩ := afterTransaction_settled h.1 h.2.2 hsession
    rw [hhandled]
    exact .inr ⟨endpoint, hsettled⟩
  | responded stored response hstage =>
    rw [hstage] at h
    unfold writeResponse
    split
    · exact h
    · split <;> exact h
  | written progress hstage hprogress =>
    rw [hstage] at h
    exact h

/-- **One outcome.** In every run in which no exception is thrown between the admission of
    the request and its outcome, and no call of `parse` reads outside the buffer, the breaker
    that admits the request gets exactly one outcome before the handler ends. -/
theorem one_outcome (proxy : ReverseProxy) (requestId : Nat) (peer : Option Bytes)
    (request : HttpRequest) (cache : RouteCache) (events : List ExchangeEvent)
    (hok : Machine.EachStep step Quiet (init proxy requestId peer request cache) events) :
    Machine.Always step OneOutcome (init proxy requestId peer request cache) events := by
  refine Machine.always_of_eachStep (fun e => e.OutcomeAt e.stage) (fun _ h => h.oneOutcome) ?_ ?_
    hok
  · intro e event e' h hok hs
    exact outcomeAt_step h hok hs
  · intro c hc
    cases hc

/-- The theorem at a response that is streamed. -/
theorem one_outcome_streamed :
    Machine.Always step OneOutcome (smallExchange .Get)
      (requestEvents ++ readEvents true ++
        [.session (.received (bytes "HTTP/1.1 200 OK\r\nContent-Length: 0\r\n\r\n")),
         .session .run, .session .run, .session (.written .sent), .session .run, .session .run,
         .session (.written .sent), .transacted]) :=
  one_outcome smallProxy 1 none _ {} _ (by decide +kernel)

/-- A header that fills the buffer: `prepare` throws, and the handler ends without an
    outcome. -/
def fullBufferEvents : List ExchangeEvent :=
  requestEvents ++ readEvents true ++
    [.session (.received (bytes "HTTP/1.1 200 OK\r\n" ++ List.replicate 47 97))] ++
    readEvents true ++ [.transacted]

theorem fullBuffer_log :
    (Machine.run step (smallExchange .Get) fullBufferEvents).map (fun e => (e.Over, e.breakers)) =
      some (true, [.allowRequest 0 true]) := by
  decide +kernel

theorem exception_records_nothing :
    ¬ Machine.Always step OneOutcome (smallExchange .Get) fullBufferEvents := by
  intro h
  obtain ⟨e, hrun, hlog⟩ := Option.map_eq_some_iff.mp fullBuffer_log
  obtain ⟨hover, hbreakers⟩ := Prod.mk.inj hlog
  rcases (h.last e hrun).settled hover with hrefused | ⟨_, _, _, _, ⟨_, _, rfl⟩, hsettled⟩
  · obtain ⟨i, hi⟩ := hrefused (.allowRequest 0 true) (by simp [hbreakers])
    cases hi
  · rw [hbreakers] at hsettled
    cases hsettled

end Exchange
end PulseGate
