import PulseGate.Http.ProxyOutcome

namespace PulseGate

/-!
# What the outcome of a request says about its upstream

* `Exchange.outcome_faithful` — a success is recorded only for a complete response, a failure
  for every fault of the upstream, and a neutral outcome when the client has gone, in every
  run in which nothing fails once the stream has started (`ProxySession.StreamHolds`);
* `Exchange.broken_stream_succeeds` — an upstream that closes in the middle of a stream is
  recorded as a success.
-/

namespace ProxySession

/-- Nothing fails once the stream has started: writes downstream succeed, and the upstream
    sends a well-formed response to its end. -/
def StreamHolds (s : ProxySession) : ProxyEvent → Prop
  | .run => s.responseStarted = true →
      ∀ parsed ∈ s.point.parsed, parsed = .Complete ∨ parsed = .NeedMore
  | .readFailed => s.responseStarted = true →
      s.stopReason = .None ∧ s.parser.finishOnEof.1 = .Complete
  | .written progress => progress = .sent
  | _ => True

instance (s : ProxySession) : ∀ e, Decidable (s.StreamHolds e)
  | .run => inferInstanceAs (Decidable (_ → ∀ parsed ∈ s.point.parsed,
      parsed = ResponseParseResult.Complete ∨ parsed = .NeedMore))
  | .readFailed => inferInstanceAs (Decidable (_ → _ ∧ _))
  | .written progress => inferInstanceAs (Decidable (progress = .sent))
  | .resolved _ | .connected _ | .sent _ | .received _ | .phaseExpired | .totalExpired
  | .cancelled _ => isTrue trivial

/-- The condition under which the result says how the transaction has ended. -/
def Classifies (s : ProxySession) (e : ProxyEvent) : Prop :=
  s.ParsesInBounds e ∧ s.HasRoom e ∧ s.StreamHolds e

instance (s : ProxySession) (e : ProxyEvent) : Decidable (s.Classifies e) :=
  inferInstanceAs (Decidable (_ ∧ _ ∧ _))

/-- The result fits the ending. -/
def Fits (result : ProxyResult) (parser : HttpResponseParser) : Ending → Prop
  | .complete =>
    result.error = .None ∧ parser.state = .Complete ∧
      result.upstreamStatus = parser.response.statusCode
  | .clientGone => result.error = .Cancelled
  | .upstreamFault =>
    result.error ≠ .None ∧ result.error ≠ .Cancelled ∧ result.error ≠ .UnsupportedRequest
  | .refused => result.error ≠ .None

/-- The ending of a transaction, at the points of its coroutine. -/
def Verdict (ending : Option Ending) (s : ProxySession) : ProxyPoint → Prop
  | .returned result => ∃ known, ending = some known ∧ Fits result s.parser known
  | .raised _ | .outOfBounds => False
  | _ => ending = none

variable {s s' : ProxySession} {e : ProxyEvent} {ending : Option Ending}

theorem Verdict.pending {point : ProxyPoint} (h : Verdict ending s point)
    (hpoint : point.Ended = false) : ending = none := by
  cases point <;> simp_all [Verdict, ProxyPoint.Ended]

/-- A coroutine that goes on. -/
theorem verdict_none {point : ProxyPoint} (hpoint : point.Ended = false) :
    Verdict none s point := by
  cases point <;> simp_all [Verdict, ProxyPoint.Ended]

/-- A coroutine that returns. -/
theorem verdict_returned {parser : HttpResponseParser} {context : RequestContext}
    {output : List Output} {result : ProxyResult} {known : Ending}
    (hr : Returned parser context output result s) (hfits : Fits result parser known) :
    Verdict (some known) s s.point := by
  rw [hr.point]
  exact ⟨known, rfl, hr.parser ▸ hfits⟩

/-- The error of a coroutine that is stopped, or whose operation fails. -/
theorem errorForStopReason_fits (s : ProxySession) (parser : HttpResponseParser)
    {result : ProxyResult} (hresult : result.error = s.errorForStopReason) :
    Fits result parser s.stopReason.ending := by
  -- a stop by the client or the server gives `Cancelled`, every other a fault of the upstream
  cases hreason : s.stopReason <;>
    simp only [errorForStopReason, hreason] at hresult <;>
    simp only [ProxyStopReason.ending, Fits, hresult]
  all_goals first
    | decide
    | split <;> decide

theorem operationError_fits (s : ProxySession) (parser : HttpResponseParser)
    {result : ProxyResult} (hresult : result.error = s.operationError) :
    Fits result parser s.stopReason.ending := by
  unfold operationError at hresult
  split at hresult
  · next hreason =>
    have hfits := errorForStopReason_fits { s with stopReason := .InternalError } parser hresult
    rw [hreason]
    exact hfits
  · exact errorForStopReason_fits s parser hresult

theorem operationFailed_verdict (s : ProxySession) :
    Verdict (some s.stopReason.ending) s.phaseEnded.operationFailed
      s.phaseEnded.operationFailed.point :=
  verdict_returned (operationFailed_returned s.phaseEnded)
    (operationError_fits s.phaseEnded _ rfl)

/-- A stream that has not started ends with the error itself. -/
theorem streamErrorResult_fits {error : ProxyError} {known : Ending} {parser : HttpResponseParser}
    (hstarted : s.responseStarted = false)
    (hfits : Fits { error := error, upstream := s.upstream } parser known) :
    Fits (s.streamErrorResult error) parser known := by
  unfold streamErrorResult
  rwa [if_neg (by simp [hstarted])]

theorem parseError_fits (parsed : ResponseParseResult) (parser : HttpResponseParser)
    (upstream : UpstreamEndpoint) :
    Fits { error := parseError parsed, upstream := upstream } parser .upstreamFault := by
  unfold parseError
  split <;> exact ⟨by simp, by simp, by simp⟩

theorem checkResult_verdict {parsed : ResponseParseResult} (h : ParserInv s)
    (hpoint : s.point = .checkingResult parsed) (hok : s.StreamHolds .run) :
    Verdict (s.endingOf .run) (s.checkResult parsed) (s.checkResult parsed).point := by
  have hfit : Agrees s.parser parsed := h.agrees parsed (by simp [hpoint, ProxyPoint.parsed])
  rcases s.checkResult_cases parsed with
    ⟨rfl, hforward, heq⟩ | ⟨rfl, hforward, hr⟩ | ⟨rfl, state, heq⟩ | ⟨hcomplete, hmore, hr⟩
  · rw [heq, show s.endingOf .run = none by simp [endingOf, hpoint, hforward]]
    exact verdict_none rfl
  · rw [show s.endingOf .run = some .complete by simp [endingOf, hpoint, hforward]]
    exact verdict_returned hr ⟨rfl, hfit.complete rfl, rfl⟩
  · rw [heq, show s.endingOf .run = none by simp [endingOf, hpoint]]
    exact verdict_none rfl
  · have hending : s.endingOf .run = some .upstreamFault := by
      cases parsed <;> simp_all [endingOf]
    rw [hending]
    -- the error of a stream that has started would be replaced by a success
    refine verdict_returned hr (streamErrorResult_fits ?_ (parseError_fits parsed _ _))
    by_contra hstarted
    rcases hok (by simpa using hstarted) parsed (by simp [hpoint, ProxyPoint.parsed]) with h | h
    · exact hcomplete h
    · exact hmore h

theorem endOfInput_verdict (hok : s.StreamHolds .readFailed) :
    Verdict (s.endingOf .readFailed) s.phaseEnded.endOfInput s.phaseEnded.endOfInput.point := by
  -- a stream that has started ends as it should
  have hstarted : s.stopReason ≠ .None ∨ s.parser.finishOnEof.1 ≠ .Complete →
      s.responseStarted = false := by
    intro hfault
    by_contra hstarted
    obtain ⟨hstop, hcomplete⟩ := hok (by simpa using hstarted)
    rcases hfault with h | h
    · exact h hstop
    · exact h hcomplete
  rcases s.phaseEnded.endOfInput_cases with
    ⟨hstop, hr⟩ | ⟨hstop, hcomplete, hforward, heq⟩ | ⟨hstop, hcomplete, hforward, hr⟩ |
    ⟨hstop, hcomplete, hr⟩
  · have hstop : s.stopReason ≠ .None := hstop
    rw [show s.endingOf .readFailed = some s.stopReason.ending by simp [endingOf, hstop]]
    refine verdict_returned hr (streamErrorResult_fits (hstarted (.inl hstop)) ?_)
    exact errorForStopReason_fits { s.phaseEnded with state := .Cancelled } _ rfl
  · have hstop : s.stopReason = .None := hstop
    have hcomplete : s.parser.finishOnEof.1 = .Complete := hcomplete
    have hforward : s.forwarding = true := hforward
    rw [heq, show s.endingOf .readFailed = none by simp [endingOf, hstop, hcomplete, hforward]]
    exact verdict_none rfl
  · have hstop : s.stopReason = .None := hstop
    have hcomplete : s.parser.finishOnEof.1 = .Complete := hcomplete
    have hforward : s.forwarding = false := hforward
    rw [show s.endingOf .readFailed = some .complete by
      simp [endingOf, hstop, hcomplete, hforward]]
    refine verdict_returned hr ⟨rfl, ?_, rfl⟩
    -- the end of the connection completes a body that runs to it
    show s.parser.finishOnEof.2.state = .Complete
    unfold HttpResponseParser.finishOnEof at hcomplete ⊢
    split
    · rfl
    split
    · assumption
    · next heof hdone => simp [heof, hdone] at hcomplete
  · have hstop : s.stopReason = .None := hstop
    have hcomplete : s.parser.finishOnEof.1 ≠ .Complete := hcomplete
    rw [show s.endingOf .readFailed = some .upstreamFault by simp [endingOf, hstop, hcomplete]]
    refine verdict_returned hr (streamErrorResult_fits (hstarted (.inr hcomplete)) ?_)
    exact ⟨by simp, by simp, by simp⟩

/-- **A step in which nothing fails after the start of the stream** keeps the verdict. -/
theorem verdict_step (h : ParserInv s) (hv : Verdict ending s s.point) (hok : s.Classifies e)
    (hs : s.step e = some s') : Verdict (ending.or (s.endingOf e)) s' s'.point := by
  obtain ⟨hbounds, hroom, hholds⟩ := hok
  -- the first ending is the one that counts, and there is none yet
  have hended := not_ended_of_step hs
  obtain rfl := hv.pending hended
  rw [Option.none_or]
  cases step_cases hs with
  | entered hpoint =>
    unfold enter
    split
    · next hupgrade =>
      rw [show s.endingOf .run = some .refused by simp [endingOf, hpoint, hupgrade]]
      exact ⟨.refused, rfl, by simp [Fits]⟩
    split
    · next hupgrade hwrite =>
      rw [show s.endingOf .run = some .refused by simp [endingOf, hpoint, hwrite]]
      exact ⟨.refused, rfl, by simp [Fits]⟩
    · next hupgrade hwrite =>
      rw [show s.endingOf .run = none by simp_all [endingOf]]
      dsimp only
      split <;> rfl
  | parsed hpoint =>
    rw [show s.endingOf .run = none by simp [endingOf, hpoint]]
    rcases parseInput_cases h.bounded with ⟨hout, _⟩ | ⟨parsed, parser, rest, _, _, _, heq⟩
    · exact absurd hout (hbounds rfl hpoint)
    · rw [heq]
      split <;> rfl
  | headChecked r hpoint =>
    rw [show s.endingOf .run = none by simp [endingOf, hpoint]]
    unfold checkHead
    split <;> rfl
  | bodyChecked r hpoint =>
    rw [show s.endingOf .run = none by simp [endingOf, hpoint]]
    unfold checkBody
    split <;> rfl
  | resultChecked r hpoint => exact checkResult_verdict h hpoint hholds
  | prepared hpoint =>
    have hprepared := hroom rfl hpoint
    unfold prepareInput
    split
    · next error herror =>
      rw [herror] at hprepared
      cases hprepared
    · next input hinput =>
      rw [show s.endingOf .run = none by simp [endingOf, hpoint, hinput]]
      rfl
  | resolved ok hpoint =>
    split
    · next hok => rw [show s.endingOf (.resolved ok) = none by simp [endingOf, hok]]; rfl
    · next hok =>
      rw [show s.endingOf (.resolved ok) = some s.stopReason.ending by simp [endingOf, hok]]
      exact s.operationFailed_verdict
  | connected ok hpoint =>
    split
    · next hok => rw [show s.endingOf (.connected ok) = none by simp [endingOf, hok]]; rfl
    · next hok =>
      rw [show s.endingOf (.connected ok) = some s.stopReason.ending by simp [endingOf, hok]]
      exact s.operationFailed_verdict
  | requestSent ok request hpoint =>
    split
    · next hok => rw [show s.endingOf (.sent ok) = none by simp [endingOf, hok]]; rfl
    · next hok =>
      rw [show s.endingOf (.sent ok) = some s.stopReason.ending by simp [endingOf, hok]]
      exact s.operationFailed_verdict
  | received data hpoint hdata hfits => rfl
  | readFailed hpoint => exact endOfInput_verdict hholds
  | headWritten r progress hpoint hprogress =>
    obtain rfl : progress = .sent := hholds
    rw [show s.endingOf (.written .sent) = none by simp [endingOf, hpoint]]
    rw [show (s.writeEnded .sent).point = .checkingBody r by simp [writeEnded, hpoint]]
    rfl
  | chunkWritten r progress hpoint hprogress =>
    obtain rfl : progress = .sent := hholds
    rw [show s.endingOf (.written .sent) = none by simp [endingOf, hpoint]]
    rw [show (s.writeEnded .sent).point = .checkingResult r by simp [writeEnded, hpoint]]
    rfl
  | lastWritten progress hpoint hprogress =>
    obtain rfl : progress = .sent := hholds
    rw [show s.endingOf (.written .sent) = some .complete by simp [endingOf, hpoint]]
    rcases s.writeEnded_cases .sent with
      ⟨_, hhead, _⟩ | ⟨_, hchunk, _⟩ | ⟨⟨_, hfailed⟩, _⟩ | ⟨_, hr⟩
    · rw [hpoint] at hhead
      cases hhead
    · rw [hpoint] at hchunk
      cases hchunk
    · exact absurd rfl hfailed
    · exact verdict_returned hr
        ⟨rfl, h.last (by simp [hpoint, ProxyPoint.WritesLast]), rfl⟩
  | phaseExpired reason hsuspended hdeadline =>
    rw [cancelInExecutor_point]
    exact verdict_none hended
  | totalExpired hsuspended hdeadline =>
    rw [cancelInExecutor_point]
    exact verdict_none hended
  | cancelled reason hsuspended hreason =>
    rw [cancelInExecutor_point]
    exact verdict_none hended

end ProxySession

namespace Exchange

/-! ### Faithful outcomes -/

/-- What is recorded is what the transaction has earned. -/
structure Faithful (e : Exchange) : Prop where
  inBounds : ∀ endpoint s, e.stage = .transacting endpoint s → s.point ≠ .outOfBounds
  /-- A success is that of a complete response, below 500 when such statuses count. -/
  success : ∀ endpoint, .recordSuccess endpoint ∈ e.health ∨ .recordSuccess endpoint ∈ e.breakers →
    ∃ s ∈ e.transaction, s.parser.messageComplete = true ∧
      (e.proxy.limits.count5xxAsHealthFailure = true → s.parser.response.statusCode < 500)
  /-- A fault of the upstream is recorded as a failure of the endpoint that was chosen. -/
  failure : e.Over = true → e.ending = some .upstreamFault →
    ∃ endpoint, .allowRequest endpoint true ∈ e.breakers ∧
      .recordFailure endpoint ∈ e.health ∧ .recordFailure endpoint ∈ e.breakers
  /-- When the client has gone nothing is said about the endpoint. -/
  neutral : e.Over = true → e.ending = some .clientGone →
    e.health = [] ∧ ∃ endpoint, .allowRequest endpoint true ∈ e.breakers ∧
      .recordNeutral endpoint ∈ e.breakers

/-- No outcome is recorded yet. -/
structure Unrecorded (e : Exchange) : Prop where
  health : e.health = []
  breakers : ∀ c ∈ e.breakers, ∃ endpoint allowed, c = .allowRequest endpoint allowed

/-- The records, by the stage of the exchange. -/
def RecordedAt (e : Exchange) : Stage → Prop
  | .admission | .selecting .. => e.Unrecorded ∧ e.ending = none
  | .acquiring endpoint =>
    e.Unrecorded ∧ e.ending = none ∧ .allowRequest endpoint true ∈ e.breakers
  | .transacting endpoint s =>
    e.Unrecorded ∧ .allowRequest endpoint true ∈ e.breakers ∧ s.ParserInv ∧
      ProxySession.Verdict e.ending s s.point
  | .handled _ | .responding | .finished => e.Faithful

variable {e e' : Exchange} {event : ExchangeEvent} {endpoint : Nat}

theorem Unrecorded.no_success (h : e.Unrecorded) (i : Nat) :
    .recordSuccess i ∉ e.health ∧ .recordSuccess i ∉ e.breakers := by
  refine ⟨by simp [h.health], fun hmem => ?_⟩
  obtain ⟨_, _, hcall⟩ := h.breakers _ hmem
  cases hcall

/-- Nothing is recorded, and no transaction has ended. -/
theorem Unrecorded.faithful (h : e.Unrecorded) (hending : e.ending = none)
    (hbounds : ∀ endpoint s, e.stage = .transacting endpoint s → s.point ≠ .outOfBounds) :
    e.Faithful where
  inBounds := hbounds
  success := by
    rintro endpoint (hmem | hmem)
    · exact absurd hmem (h.no_success endpoint).1
    · exact absurd hmem (h.no_success endpoint).2
  failure := by simp [hending]
  neutral := by simp [hending]

/-- A transaction that has not ended well is recorded nowhere before it is over. -/
theorem RecordedAt.faithful (h : e.RecordedAt e.stage) : e.Faithful := by
  cases hstage : e.stage with
  | admission | selecting =>
    rw [hstage] at h
    exact h.1.faithful h.2 (by simp [hstage])
  | acquiring endpoint =>
    rw [hstage] at h
    exact h.1.faithful h.2.1 (by simp [hstage])
  | transacting endpoint s =>
    rw [hstage] at h
    obtain ⟨hnone, _, _, hverdict⟩ := h
    have hover : e.Over = false := by simp [Over, hstage]
    refine ⟨?_, ?_, by simp [hover], by simp [hover]⟩
    · intro endpoint' s' hs' hpoint
      obtain ⟨rfl, rfl⟩ := Stage.transacting.inj (hstage.symm.trans hs')
      rw [hpoint] at hverdict
      exact hverdict
    · rintro endpoint (hmem | hmem)
      · exact absurd hmem (hnone.no_success endpoint).1
      · exact absurd hmem (hnone.no_success endpoint).2
  | handled | responding | finished =>
    rw [hstage] at h
    exact h

/-- A stage that only passes the records on. -/
theorem Faithful.of_records (h : e.Faithful) (hover : e.Over = true)
    (hbreakers : e'.breakers = e.breakers) (hhealth : e'.health = e.health)
    (hending : e'.ending = e.ending) (htransaction : e'.transaction = e.transaction)
    (hlimits : e'.proxy.limits = e.proxy.limits)
    (hbounds : ∀ endpoint s, e'.stage = .transacting endpoint s → s.point ≠ .outOfBounds) :
    e'.Faithful where
  inBounds := hbounds
  success := by
    rw [hbreakers, hhealth, htransaction, hlimits]
    exact h.success
  failure := by
    rw [hbreakers, hhealth, hending]
    exact fun _ => h.failure hover
  neutral := by
    rw [hbreakers, hhealth, hending]
    exact fun _ => h.neutral hover

/-- The handler records what the result of the session says. -/
theorem afterTransaction_faithful {s : ProxySession} (h : e.Unrecorded)
    (hadmitted : .allowRequest endpoint true ∈ e.breakers)
    (hverdict : ProxySession.Verdict e.ending s s.point)
    (hs : e.afterTransaction endpoint s = some e') : e'.RecordedAt e'.stage := by
  rcases afterTransaction_cases hs with ⟨result, hpoint, rfl⟩ | ⟨exception, hpoint, _⟩
  · rw [hpoint] at hverdict
    obtain ⟨known, hending, hfits⟩ := hverdict
    rcases recordOutcome_cases ({ e with transaction := some s }.returnLease result) endpoint
      result with ⟨hsuccess, heq⟩ | ⟨_, hcancelled, _, heq⟩ | ⟨herror, heq⟩ <;>
      rw [heq]
    · -- a success: the result has no error, so that the response is complete
      simp only [upstreamFailure, Bool.or_eq_false_iff, decide_eq_false_iff_not, not_not,
        Bool.and_eq_false_iff] at hsuccess
      obtain ⟨herror, hstatus⟩ := hsuccess
      cases known with
      | complete =>
        obtain ⟨_, hcomplete, hupstream⟩ := hfits
        refine ⟨by simp [handle], ?_, by simp [handle, returnLease, hending],
          by simp [handle, returnLease, hending]⟩
        intro i _
        refine ⟨s, rfl, HttpResponseParser.messageComplete_iff.mpr hcomplete, fun hcount => ?_⟩
        -- a status of 500 or more would have been a failure
        rcases hstatus with hoff | hbelow
        · have hcount' : e.proxy.limits.count5xxAsHealthFailure = true := hcount
          have hoff' : e.proxy.limits.count5xxAsHealthFailure = false := hoff
          rw [hcount'] at hoff'
          cases hoff'
        · rw [hupstream] at hbelow
          omega
      | clientGone =>
        rw [show result.error = .Cancelled from hfits] at herror
        cases herror
      | upstreamFault => exact absurd herror hfits.1
      | refused => exact absurd herror hfits
    · -- a failure: the client is not the one who has gone, or the error were `Cancelled`
      refine ⟨by simp [handle], ?_, ?_, ?_⟩
      · rintro i (hmem | hmem)
        · exact absurd (by simpa [handle, returnLease] using hmem) (h.no_success i).1
        · exact absurd (by simpa [handle, returnLease] using hmem) (h.no_success i).2
      · intro _ _
        exact ⟨endpoint, by simp [handle, returnLease, hadmitted], by simp [handle, returnLease],
          by simp [handle, returnLease]⟩
      · intro _ hgone
        obtain rfl : known = .clientGone := Option.some.inj (hending.symm.trans hgone)
        exact absurd hfits hcancelled
    · -- neutral: a fault has neither of the two errors
      refine ⟨by simp [handle], ?_, ?_, ?_⟩
      · rintro i (hmem | hmem)
        · exact absurd (by simpa [handle, returnLease] using hmem) (h.no_success i).1
        · exact absurd (by simpa [handle, returnLease] using hmem) (h.no_success i).2
      · intro _ hfault
        obtain rfl : known = .upstreamFault := Option.some.inj (hending.symm.trans hfault)
        rcases herror with herror | herror
        · exact absurd herror hfits.2.1
        · exact absurd herror hfits.2.2
      · intro _ _
        exact ⟨h.health, endpoint, by simp [handle, returnLease, hadmitted],
          by simp [handle, returnLease]⟩
  · rw [hpoint] at hverdict
    exact hverdict.elim

/-- A step whose session meets the condition. -/
theorem recordedAt_step (h : e.RecordedAt e.stage)
    (hok : OnSession ProxySession.Classifies e event e') (hs : e.step event = some e') :
    e'.RecordedAt e'.stage := by
  cases step_cases hs with
  | observed inFlight hstage =>
    rw [hstage] at h
    unfold enterFlight
    split
    · exact Unrecorded.faithful ⟨h.1.health, h.1.breakers⟩ h.2 (by simp [overloaded, handle])
    · exact ⟨⟨h.1.health, h.1.breakers⟩, h.2⟩
  | attempted ticket healthy allowed circuit retryAt attempt rejected earliest hstage hattempt =>
    rw [hstage] at h
    obtain ⟨hnone, hending⟩ := h
    -- admissions are not outcomes
    have hcons : ∀ i b, ∀ c ∈ BreakerCall.allowRequest i b :: e.breakers,
        ∃ endpoint allowed, c = .allowRequest endpoint allowed := by
      intro i b c hc
      rcases List.mem_cons.mp hc with rfl | hc
      · exact ⟨i, b, rfl⟩
      · exact hnone.breakers c hc
    rcases e.attempt_cases attempt rejected earliest (ticket % e.proxy.upstreams.length) healthy
      allowed circuit retryAt with
      ⟨_, heq⟩ | ⟨_, _, _, heq⟩ | ⟨_, _, _, rfl | rfl, heq⟩ <;> rw [heq]
    · exact ⟨⟨hnone.health, hcons _ true⟩, hending, List.mem_cons_self⟩
    · exact Unrecorded.faithful ⟨hnone.health, hcons _ true⟩ hending
        (by simp [handlerRaised, handle])
    · exact ⟨⟨hnone.health, hnone.breakers⟩, hending⟩
    · exact ⟨⟨hnone.health, hcons _ false⟩, hending⟩
  | exhausted now attempt rejected earliest hstage =>
    rw [hstage] at h
    unfold noEndpoint
    split <;> exact Unrecorded.faithful ⟨h.1.health, h.1.breakers⟩ h.2 (by simp [handle])
  | acquired ok connectionOpen endpoint hstage =>
    rw [hstage] at h
    obtain ⟨hnone, hending, hadmitted⟩ := h
    rcases e.acquireDone_cases endpoint ok connectionOpen with
      ⟨_, heq⟩ | ⟨_, _, heq⟩ | ⟨_, upstream, _, ⟨s, hcreate, heq⟩ | ⟨_, _, heq⟩⟩ <;> rw [heq]
    · refine ⟨by simp [overloaded, handle], ?_, by simp [overloaded, handle, hending],
        by simp [overloaded, handle, hending]⟩
      rintro i (hmem | hmem)
      · exact absurd (by simpa [overloaded, handle] using hmem) (hnone.no_success i).1
      · exact absurd (by simpa [overloaded, handle] using hmem) (hnone.no_success i).2
    · exact Unrecorded.faithful ⟨hnone.health, hnone.breakers⟩ hending
        (by simp [handlerRaised, handle])
    · obtain ⟨_, hpoint, _⟩ := ProxySession.create_eq_ok hcreate
      refine ⟨⟨hnone.health, hnone.breakers⟩, hadmitted, ProxySession.parserInv_create hcreate, ?_⟩
      rw [hpoint]
      exact hending
    · exact Unrecorded.faithful ⟨hnone.health, hnone.breakers⟩ hending
        (by simp [handlerRaised, handle])
  | acquireRaised exception endpoint hstage =>
    rw [hstage] at h
    exact Unrecorded.faithful ⟨h.1.health, h.1.breakers⟩ h.2.1 (by simp [handlerRaised, handle])
  | session sessionEvent endpoint s s' hstage hsession =>
    rw [hstage] at h
    obtain ⟨hnone, hadmitted, hparser, hverdict⟩ := h
    exact ⟨⟨hnone.health, hnone.breakers⟩, hadmitted,
      ProxySession.parserInv_step hparser hsession,
      ProxySession.verdict_step hparser hverdict (hok.at_step hstage) hsession⟩
  | transacted endpoint s e' hstage hsession =>
    rw [hstage] at h
    exact afterTransaction_faithful h.1 h.2.1 h.2.2.2 hsession
  | responded stored response hstage =>
    rw [hstage] at h
    have hover : e.Over = true := by simp [Over, hstage]
    unfold writeResponse
    split
    · exact Faithful.of_records h hover rfl rfl rfl rfl rfl (by simp)
    · split <;> exact Faithful.of_records h hover rfl rfl rfl rfl rfl (by simp)
  | written progress hstage hprogress =>
    rw [hstage] at h
    exact Faithful.of_records h (by simp [Over, hstage]) rfl rfl rfl rfl rfl (by simp)

/-- **Faithful outcomes.** In every run, through `execute` or `forward`, in which `parse`
    stays inside the buffer, the buffer has room for every read, every write downstream
    succeeds and the upstream does not fail once the stream has started, the outcome that is
    recorded is the one the transaction has earned. -/
theorem outcome_faithful (proxy : ReverseProxy) (requestId : Nat) (peer : Option Bytes)
    (request : HttpRequest) (cache : RouteCache) (events : List ExchangeEvent)
    (hok : Machine.EachStep step (OnSession ProxySession.Classifies)
      (init proxy requestId peer request cache) events) :
    Machine.Always step Faithful (init proxy requestId peer request cache) events := by
  refine Machine.always_of_eachStep (fun e => e.RecordedAt e.stage) (fun _ h => h.faithful) ?_ ?_
    hok
  · intro e event e' h hok hs
    exact recordedAt_step h hok hs
  · exact ⟨⟨rfl, by simp [init]⟩, rfl⟩

/-- The theorem at an upstream that closes before the end of its headers. -/
theorem outcome_faithful_closed :
    Machine.Always step Faithful (smallExchange .Get)
      (requestEvents ++ readEvents true ++
        [.session (.received (bytes "HTTP/1.1 200 OK\r\n"))] ++ readEvents true ++
        [.session .readFailed, .transacted]) :=
  outcome_faithful smallProxy 1 none _ {} _ (by decide +kernel)

/-- The upstream promises two bytes, sends one, and closes. -/
def brokenStreamEvents : List ExchangeEvent :=
  requestEvents ++ readEvents true ++
    [.session (.received (bytes "HTTP/1.1 200 OK\r\nContent-Length: 2\r\n\r\na")),
     .session .run, .session .run, .session (.written .sent), .session .run,
     .session (.written .sent), .session .run, .session .run, .session .readFailed, .transacted]

theorem brokenStream_log :
    (Machine.run step (smallExchange .Get) brokenStreamEvents).map (fun e =>
        (e.Over, e.ending, e.health)) =
      some (true, some .upstreamFault, [.recordSuccess 0]) := by
  decide +kernel

/-- The upstream's fault is recorded as its success. -/
theorem broken_stream_succeeds :
    ¬ Machine.Always step Faithful (smallExchange .Get) brokenStreamEvents := by
  intro h
  obtain ⟨e, hrun, hlog⟩ := Option.map_eq_some_iff.mp brokenStream_log
  simp only [Prod.mk.injEq] at hlog
  obtain ⟨hover, hending, hhealth⟩ := hlog
  obtain ⟨i, _, hfailure, _⟩ := (h.last e hrun).failure hover hending
  simp [hhealth] at hfailure

end Exchange
end PulseGate
