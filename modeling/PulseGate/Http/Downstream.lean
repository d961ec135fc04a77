import PulseGate.Http.ExchangeSteps
import PulseGate.Http.ProxyStream

namespace PulseGate

/-!
# What the client receives

A request that is proxied by `forward` is to be answered once: by one serialized response,
or by one streamed head with its chunks (`OneAnswer`).

* `Exchange.one_answer` — it is, in every run whose steps keep the order of the writes
  (`ProxySession.KeepsOrder`);
* `Exchange.chunk_before_head` — a response that fails in the read that completes its
  headers is answered by a chunk without a head, and then by an error response.
-/

/-! ### One answer -/

/-- The log of one answer, the latest write first; only the latest write may not have been
    sent in full. -/
inductive OneAnswer : List Output → Prop
  | response (response : HttpResponse) (headRequest : Bool) (serialized : Bytes)
    (progress : WriteProgress) (h : response.serialize headRequest = .ok serialized) :
    OneAnswer [{ write := .response serialized, progress := progress }]
  | head (response : HttpResponse) (requestId : Bytes) (progress : WriteProgress) :
    OneAnswer [{ write := .head (serializeStreamingHead response requestId), progress := progress }]
  | chunk (response : HttpResponse) (requestId payload : Bytes) (progress : WriteProgress)
    {log : List Output} {body : Bytes}
    (h : Streamed (serializeStreamingHead response requestId) log body) (hpayload : payload ≠ []) :
    OneAnswer ({ write := .chunk payload, progress := progress } :: log)
  | last (response : HttpResponse) (requestId : Bytes) (progress : WriteProgress)
    {log : List Output} {body : Bytes}
    (h : Streamed (serializeStreamingHead response requestId) log body) :
    OneAnswer ({ write := .last, progress := progress } :: log)

/-- A response that is not streamed is all that is written. -/
theorem OneAnswer.response_alone {serialized : Bytes} {progress : WriteProgress}
    {log : List Output}
    (h : OneAnswer ({ write := .response serialized, progress := progress } :: log)) :
    log = [] := by
  cases h
  rfl

/-- A stream is one answer. -/
theorem Streamed.oneAnswer {response : HttpResponse} {requestId body : Bytes} {log : List Output}
    (h : Streamed (serializeStreamingHead response requestId) log body) : OneAnswer log := by
  cases h with
  | head => exact .head response requestId .sent
  | chunk payload h hpayload => exact .chunk response requestId payload .sent h hpayload

/-- How the latest write ends does not matter. -/
theorem OneAnswer.finish {log : List Output} (h : OneAnswer log) (progress : WriteProgress) :
    OneAnswer (finishWrite progress log) := by
  cases h with
  | response response headRequest serialized _ h =>
    exact .response response headRequest serialized progress h
  | head response requestId _ => exact .head response requestId progress
  | chunk response requestId payload _ h hpayload =>
    exact .chunk response requestId payload progress h hpayload
  | last response requestId _ h => exact .last response requestId progress h

/-! ### The order of the writes -/

namespace ProxySession

/-- A call of `parse` that starts before the head is written does not fail after it has
    taken bytes of the body. -/
def FailsWithoutBody (s : ProxySession) (e : ProxyEvent) : Prop :=
  e = .run → s.point = .parsing → s.responseStarted = false →
    match s.parser.parse s.input.readableView with
    | .finished parsed parser _ =>
      parsed = .NeedMore ∨ parsed = .Complete ∨ parser.response.body = []
    | .outOfBounds => True

instance (s : ProxySession) (e : ProxyEvent) : Decidable (s.FailsWithoutBody e) :=
  have : Decidable (match s.parser.parse s.input.readableView with
      | .finished parsed parser _ =>
        parsed = .NeedMore ∨ parsed = .Complete ∨ parser.response.body = []
      | .outOfBounds => True) :=
    match s.parser.parse s.input.readableView with
    | .finished parsed parser _ =>
      inferInstanceAs (Decidable (parsed = .NeedMore ∨ parsed = .Complete ∨
        parser.response.body = []))
    | .outOfBounds => isTrue trivial
  inferInstanceAs (Decidable (_ → _ → _ → _))

/-- The condition under which `forward` keeps the order of its writes: `parse` stays inside
    the buffer, does not fail over body bytes before the head is written, and once the head
    is written the buffer has room for every read. -/
def KeepsOrder (s : ProxySession) (e : ProxyEvent) : Prop :=
  s.ParsesInBounds e ∧ s.FailsWithoutBody e ∧ (s.responseStarted = true → s.HasRoom e)

instance (s : ProxySession) (e : ProxyEvent) : Decidable (s.KeepsOrder e) :=
  inferInstanceAs (Decidable (_ ∧ _ ∧ (_ → _)))

/-- What holds beside the stream when the order is kept. -/
def Ordered (v : StreamView) (output : List Output) : ProxyPoint → Prop
  | .checkingHead _ | .checkingBody _ | .checkingResult _ =>
    v.started = true ∨ (output = [] ∧ (v.parser.state = .Error → v.body = []))
  | .writingChunk _ => v.started = true
  | .returned result =>
    (result.error = .None ∧ result.response.alreadyWritten = true ∧ OneAnswer output) ∨
      (result.error ≠ .None ∧ output = [])
  | .raised _ => output = []
  | .outOfBounds => False
  | _ => True

variable {s s' : ProxySession} {e : ProxyEvent}

theorem errorForStopReason_ne (s : ProxySession) : s.errorForStopReason ≠ .None := by
  unfold errorForStopReason
  split <;> try simp
  all_goals split <;> simp

theorem operationError_ne (s : ProxySession) : s.operationError ≠ .None :=
  errorForStopReason_ne _

theorem parseError_ne (parsed : ResponseParseResult) : parseError parsed ≠ .None := by
  unfold parseError
  split <;> simp

/-- A coroutine that returns an error before it has written anything. -/
theorem ordered_failed {parser : HttpResponseParser} {context : RequestContext}
    {output : List Output} {result : ProxyResult}
    (hr : Returned parser context output result s) (herror : result.error ≠ .None)
    (houtput : output = []) : Ordered s.view s.output s.point := by
  rw [hr.point]
  exact .inr ⟨herror, by rw [hr.output, houtput]⟩

/-- A coroutine that returns after it has written. -/
theorem ordered_streamed {parser : HttpResponseParser} {context : RequestContext}
    {output : List Output} {result : ProxyResult}
    (hr : Returned parser context output result s) (herror : result.error = .None)
    (hwritten : result.response.alreadyWritten = true) (houtput : OneAnswer output) :
    Ordered s.view s.output s.point := by
  rw [hr.point]
  exact .inl ⟨herror, hwritten, by rw [hr.output]; exact houtput⟩

/-- A coroutine that returns an error, or closes the stream it has started. -/
theorem ordered_streamError {parser : HttpResponseParser} {context : RequestContext}
    {error : ProxyError} (hr : Returned parser context s.output (s.streamErrorResult error) s')
    (herror : error ≠ .None) (h : s.view.Started s.output ∨
      (s.responseStarted = false ∧ s.output = [])) : Ordered s'.view s'.output s'.point := by
  unfold streamErrorResult at hr
  rcases h with hstarted | ⟨hnot, hlog⟩
  · rw [if_pos (show s.responseStarted = true from hstarted.started)] at hr
    exact ordered_streamed hr rfl rfl hstarted.streamed.oneAnswer
  · rw [if_neg (by simp [hnot])] at hr
    exact ordered_failed hr herror hlog

/-- The writes of a stream, whatever becomes of the latest. -/
theorem oneAnswer_writing (h : StreamInv s) (ho : Ordered s.view s.output s.point)
    (hpoint : s.Writing) : OneAnswer s.output := by
  have hstream := h.stream
  rcases hpoint with ⟨parsed, hpoint | hpoint⟩ | hpoint <;> rw [hpoint] at hstream ho
  · rw [hstream.2.2]
    exact .head _ _ _
  · -- a chunk is written only when there is something to forward; that the head came before
    -- it is what the order adds
    obtain ⟨hmore, log, hlog, hstarted | ⟨hnot, _⟩⟩ := hstream
    · rw [hlog]
      refine .chunk _ _ _ _ hstarted.streamed ?_
      intro hnil
      have hlength := congrArg List.length hnil
      rw [List.length_drop, List.length_nil] at hlength
      omega
    · have hstarted : s.view.started = true := ho
      rw [hnot.started] at hstarted
      cases hstarted
  · obtain ⟨log, hlog, hstarted, _⟩ := hstream
    rw [hlog]
    exact .last _ _ _ hstarted.streamed

theorem ordered_parseInput (h : StreamInv s) (hok : s.KeepsOrder .run)
    (hpoint : s.point = .parsing) :
    Ordered s.parseInput.view s.parseInput.output s.parseInput.point := by
  have hstream := h.stream
  rw [hpoint] at hstream
  rcases parseInput_cases h.parser.bounded with
    ⟨hout, _⟩ | ⟨parsed, parser, rest, hparse, _, hfit, heq⟩
  · exact absurd hout (hok.1 rfl hpoint)
  · rw [heq, if_pos h.forwarding]
    rcases hstream with ⟨hstarted, _, _⟩ | ⟨hnot, _⟩
    · exact .inl hstarted.started
    · -- here the head is not written, and a response that fails must not have a body
      refine .inr ⟨hnot.log, fun herror => ?_⟩
      have herror : parser.state = .Error := herror
      have hbody := hok.2.1 rfl hpoint hnot.started
      rw [hparse] at hbody
      rcases hbody with hmore | hcomplete | hbody
      · exact absurd herror (hfit.running hmore).2
      · rw [hfit.complete hcomplete] at herror
        cases herror
      · exact hbody

theorem ordered_writeEnded (h : StreamInv s) (ho : Ordered s.view s.output s.point)
    (progress : WriteProgress)
    (hpoint : s.Writing) :
    Ordered (s.writeEnded progress).view (s.writeEnded progress).output
      (s.writeEnded progress).point := by
  have hanswer := (oneAnswer_writing h ho hpoint).finish progress
  rcases s.writeEnded_cases progress with
    ⟨parsed, hhead, _, heq⟩ | ⟨parsed, hchunk, _, heq⟩ | ⟨_, hr⟩ | ⟨_, hr⟩
  · rw [heq]
    exact .inl rfl
  · rw [hchunk] at ho
    rw [heq]
    exact .inl ho
  · exact ordered_streamed hr rfl rfl hanswer
  · exact ordered_streamed hr rfl rfl hanswer

theorem ordered_checkResult {parsed : ResponseParseResult} (h : StreamInv s)
    (ho : Ordered s.view s.output s.point) (hpoint : s.point = .checkingResult parsed) :
    Ordered (s.checkResult parsed).view (s.checkResult parsed).output
      (s.checkResult parsed).point := by
  have hstream := h.stream
  rw [hpoint] at hstream ho
  rcases s.checkResult_cases parsed with
    ⟨_, _, heq⟩ | ⟨_, hbuffered, _⟩ | ⟨_, _, heq⟩ | ⟨_, _, hr⟩
  · rw [heq]
    trivial
  · rw [h.forwarding] at hbuffered
    cases hbuffered
  · rw [heq]
    trivial
  · -- a response that fails closes the stream, or is answered by an error if there is none
    refine ordered_streamError hr (parseError_ne parsed) ?_
    rcases hstream with ⟨hstarted, _⟩ | ⟨hnot, _⟩ | ⟨hnot, _⟩
    · exact .inl hstarted
    · exact .inr ⟨hnot.started, hnot.log⟩
    · rcases ho with hstarted | ⟨hlog, _⟩
      · rw [hnot] at hstarted
        cases hstarted
      · exact .inr ⟨hnot, hlog⟩

theorem ordered_endOfInput (h : StreamInv s) (hpoint : s.point = .reading) :
    Ordered s.phaseEnded.endOfInput.view s.phaseEnded.endOfInput.output
      s.phaseEnded.endOfInput.point := by
  have hstream := h.stream
  rw [hpoint] at hstream
  have hlog : s.view.Started s.output ∨ (s.responseStarted = false ∧ s.output = []) := by
    rcases hstream with ⟨hstarted, _⟩ | ⟨hnot, _⟩
    · exact .inl hstarted
    · exact .inr ⟨hnot.started, hnot.log⟩
  rcases s.phaseEnded.endOfInput_cases with
    ⟨_, hr⟩ | ⟨_, _, _, heq⟩ | ⟨_, _, hbuffered, _⟩ | ⟨_, _, hr⟩
  · exact ordered_streamError hr (errorForStopReason_ne _) hlog
  · rw [heq]
    trivial
  · rw [show s.phaseEnded.forwarding = true from h.forwarding] at hbuffered
    cases hbuffered
  · exact ordered_streamError hr (by simp) hlog

theorem ordered_cancel (ho : Ordered s.view s.output s.point) (reason : ProxyStopReason) :
    Ordered (s.cancelInExecutor reason).view (s.cancelInExecutor reason).output
      (s.cancelInExecutor reason).point := by
  unfold cancelInExecutor
  split <;> exact ho

/-- **A step that keeps the order** of the writes keeps what it brings. -/
theorem ordered_step (h : StreamInv s) (ho : Ordered s.view s.output s.point)
    (hok : s.KeepsOrder e) (hs : s.step e = some s') :
    Ordered s'.view s'.output s'.point := by
  have hstream := h.stream
  cases step_cases hs with
  | entered hpoint =>
    rw [hpoint] at hstream
    unfold enter
    split
    · exact .inr ⟨by simp, hstream⟩
    split
    · exact .inr ⟨by simp, hstream⟩
    dsimp only
    split <;> trivial
  | parsed hpoint => exact ordered_parseInput h hok hpoint
  | headChecked r hpoint =>
    rw [hpoint] at ho
    unfold checkHead
    split
    · trivial
    · exact ho
  | bodyChecked r hpoint =>
    rw [hpoint] at hstream ho
    unfold checkBody
    split
    · next hmore =>
      rcases ho with hstarted | ⟨_, hbody⟩
      · exact hstarted
      · rcases hstream with hstarted | ⟨_, hin⟩
        · exact hstarted.started
        · -- the bytes to forward are those of a response that has failed, or there are none
          exfalso
          have hempty : s.parser.response.body = [] := by
            by_cases herror : s.parser.state = .Error
            · exact hbody herror
            · exact h.parser.bounded.early
                (by by_contra hheaders; exact hin ⟨hheaders, herror⟩)
          rw [hempty] at hmore
          exact absurd hmore (Nat.not_lt_zero _)
    · exact ho
  | resultChecked r hpoint => exact ordered_checkResult h ho hpoint
  | prepared hpoint =>
    rw [hpoint] at hstream
    have hroom := hok.2.2
    unfold prepareInput
    split
    · -- the exception becomes an error response, which must come first
      next error herror =>
      rcases hstream with ⟨hstarted, _⟩ | ⟨hnot, _⟩
      · have hprepared := hroom hstarted.started rfl hpoint
        rw [herror] at hprepared
        cases hprepared
      · exact hnot.log
    · trivial
  -- a failed operation answers only where nothing was written
  | resolved ok hpoint =>
    rw [hpoint] at hstream
    split
    · trivial
    · exact ordered_failed (operationFailed_returned s.phaseEnded) (operationError_ne _) hstream
  | connected ok hpoint =>
    rw [hpoint] at hstream
    split
    · trivial
    · exact ordered_failed (operationFailed_returned s.phaseEnded) (operationError_ne _) hstream
  | requestSent ok request hpoint =>
    rw [hpoint] at hstream
    split
    · trivial
    · exact ordered_failed (operationFailed_returned s.phaseEnded) (operationError_ne _) hstream
  | received data hpoint hdata hroom => trivial
  | readFailed hpoint => exact ordered_endOfInput h hpoint
  | headWritten r progress hpoint hprogress =>
    exact ordered_writeEnded h ho progress (.inl ⟨r, .inl hpoint⟩)
  | chunkWritten r progress hpoint hprogress =>
    exact ordered_writeEnded h ho progress (.inl ⟨r, .inr hpoint⟩)
  | lastWritten progress hpoint hprogress => exact ordered_writeEnded h ho progress (.inr hpoint)
  -- a cancellation answers later, when the operation returns
  | phaseExpired reason hsuspended hdeadline => exact ordered_cancel (s := s.phaseEnded) ho _
  | totalExpired hsuspended hdeadline =>
    exact ordered_cancel (s := { s with totalDeadline := false }) ho _
  | cancelled reason hsuspended hreason => exact ordered_cancel ho _

/-- What a session has written while the order is kept. -/
theorem output_oneAnswer (h : StreamInv s) (ho : Ordered s.view s.output s.point) :
    s.output = [] ∨ OneAnswer s.output := by
  have hstream := h.stream
  cases hpoint : s.point with
  | entry | resolving | connecting | sending =>
    rw [hpoint] at hstream
    exact .inl hstream
  | parsing | preparing | reading =>
    rw [hpoint] at hstream
    rcases hstream with ⟨hstarted, _⟩ | ⟨hnot, _⟩
    · exact .inr hstarted.streamed.oneAnswer
    · exact .inl hnot.log
  | checkingHead =>
    rw [hpoint] at hstream
    rcases hstream with hstarted | hnot
    · exact .inr hstarted.streamed.oneAnswer
    · exact .inl hnot.log
  | checkingBody =>
    rw [hpoint] at hstream
    rcases hstream with hstarted | ⟨hnot, _⟩
    · exact .inr hstarted.streamed.oneAnswer
    · exact .inl hnot.log
  | checkingResult =>
    rw [hpoint] at hstream ho
    rcases hstream with ⟨hstarted, _⟩ | ⟨hnot, _⟩ | ⟨hnot, _⟩
    · exact .inr hstarted.streamed.oneAnswer
    · exact .inl hnot.log
    · rcases ho with hstarted | ⟨hlog, _⟩
      · rw [hnot] at hstarted
        cases hstarted
      · exact .inl hlog
  | writingHead parsed =>
    exact .inr (oneAnswer_writing h ho (.inl ⟨parsed, .inl hpoint⟩))
  | writingChunk parsed =>
    exact .inr (oneAnswer_writing h ho (.inl ⟨parsed, .inr hpoint⟩))
  | writingLast => exact .inr (oneAnswer_writing h ho (.inr hpoint))
  -- a result is returned with its answer written, or with nothing
  | returned result =>
    rw [hpoint] at ho
    rcases ho with ⟨_, _, hanswer⟩ | ⟨_, hlog⟩
    · exact .inr hanswer
    · exact .inl hlog
  | raised exception =>
    rw [hpoint] at ho
    exact .inl ho
  | outOfBounds =>
    rw [hpoint] at ho
    exact ho.elim

end ProxySession

/-! ### Responses that are not streamed -/

/-- `serialize` accepts the response. -/
structure HttpResponse.Sendable (r : HttpResponse) : Prop where
  status : 100 ≤ r.statusCode ∧ r.statusCode ≤ 999
  reason : r.reason ≠ [] ∧ isValidHeaderValue r.reason = true
  headers : ∀ h ∈ r.headers.entries,
    isValidHeaderName h.name = true ∧ isValidHeaderValue h.value = true

namespace HttpResponse

theorem Sendable.serialize {r : HttpResponse} (h : r.Sendable) (headRequest : Bool) :
    ∃ serialized, r.serialize headRequest = .ok serialized := by
  have hheaders : (r.ownHeaders.any fun h =>
      !(isValidHeaderName h.name && isValidHeaderValue h.value)) = false := by
    rw [List.any_eq_false]
    intro header hmem
    obtain ⟨hname, hvalue⟩ := h.headers header (List.mem_filter.mp hmem).1
    simp [hname, hvalue]
  obtain ⟨hlow, hhigh⟩ := h.status
  unfold HttpResponse.serialize
  rw [if_neg (by simp [h.reason]; omega), hheaders, if_neg (by simp)]
  exact ⟨_, rfl⟩

/-- A header with a valid name and value. -/
theorem Sendable.add {r : HttpResponse} (h : r.Sendable) {name value : Bytes}
    (hname : isValidHeaderName (normalizeHeaderName name) = true)
    (hvalue : isValidHeaderValue value = true) :
    Sendable { r with headers := r.headers.add name value } where
  status := h.status
  reason := h.reason
  headers := by
    intro header hmem
    rcases List.mem_append.mp hmem with hmem | hmem
    · exact h.headers header hmem
    · obtain rfl := List.mem_singleton.mp hmem
      exact ⟨hname, hvalue⟩

theorem Sendable.set {r : HttpResponse} (h : r.Sendable) {name value : Bytes}
    (hname : isValidHeaderName (normalizeHeaderName name) = true)
    (hvalue : isValidHeaderValue value = true) :
    Sendable { r with headers := r.headers.set name value } := by
  have herase : Sendable { r with headers := r.headers.erase name } :=
    { h with headers := fun header hmem => h.headers header (List.mem_filter.mp hmem).1 }
  exact herase.add hname hvalue

end HttpResponse

/-- The proxy's own error responses are responses the client can be sent. -/
theorem makeProxyErrorResponse_sendable (error : ProxyError) (h : error ≠ .None) :
    (makeProxyErrorResponse error).Sendable ∧
      (makeProxyErrorResponse error).alreadyWritten = false := by
  cases error <;> first
    | exact absurd rfl h
    | exact ⟨⟨by decide, by decide, by decide⟩, rfl⟩

namespace Exchange

/-! ### One answer in every run -/

/-- The client has received one answer, or nothing yet; when the response is over it has
    received one. -/
structure Answered (e : Exchange) : Prop where
  inBounds : ∀ endpoint s, e.stage = .transacting endpoint s → s.point ≠ .outOfBounds
  once : e.output = [] ∨ OneAnswer e.output
  answered : e.stage = .finished → OneAnswer e.output

/-- What was written, by the stage of the exchange. -/
def WrittenAt (e : Exchange) : Stage → Prop
  | .admission | .selecting .. | .acquiring _ => e.output = []
  | .transacting _ s =>
    s.output = e.output ∧ s.StreamInv ∧ ProxySession.Ordered s.view s.output s.point
  | .handled r =>
    (r.alreadyWritten = true ∧ OneAnswer e.output) ∨
      (r.alreadyWritten = false ∧ e.output = [] ∧ r.Sendable)
  | .responding | .finished => OneAnswer e.output

structure AnswerInv (e : Exchange) : Prop where
  forwards : e.forwards = true
  requestId : isValidHeaderValue e.context.requestId = true
  written : e.WrittenAt e.stage

variable {e e' : Exchange} {event : ExchangeEvent}

theorem AnswerInv.answered (h : AnswerInv e) : Answered e := by
  have hwritten := h.written
  cases hstage : e.stage with
  | admission | selecting | acquiring =>
    rw [hstage] at hwritten
    exact ⟨by simp [hstage], .inl hwritten, by simp [hstage]⟩
  | transacting endpoint s =>
    rw [hstage] at hwritten
    obtain ⟨houtput, hstream, hordered⟩ := hwritten
    refine ⟨?_, ?_, by simp [hstage]⟩
    · intro endpoint' s' hs'
      obtain ⟨rfl, rfl⟩ := Stage.transacting.inj (hstage.symm.trans hs')
      intro hpoint
      rw [hpoint] at hordered
      exact hordered
    · rw [← houtput]
      exact ProxySession.output_oneAnswer hstream hordered
  | handled r =>
    rw [hstage] at hwritten
    refine ⟨by simp [hstage], ?_, by simp [hstage]⟩
    rcases hwritten with ⟨_, hanswer⟩ | ⟨_, hempty, _⟩
    · exact .inr hanswer
    · exact .inl hempty
  | responding =>
    rw [hstage] at hwritten
    exact ⟨by simp [hstage], .inr hwritten, by simp [hstage]⟩
  | finished =>
    rw [hstage] at hwritten
    exact ⟨by simp [hstage], .inr hwritten, fun _ => hwritten⟩

theorem handlerRaised_written (h : e.output = []) :
    e.handlerRaised.WrittenAt e.handlerRaised.stage :=
  .inr ⟨rfl, h, by decide, by decide, by decide⟩

theorem overloaded_written (h : e.output = []) : e.overloaded.WrittenAt e.overloaded.stage := by
  obtain ⟨hsendable, hwritten⟩ := makeProxyErrorResponse_sendable .Overloaded (by simp)
  exact .inr ⟨hwritten, h, hsendable.add (by decide) (isValidHeaderValue_intToString _)⟩

theorem noEndpoint_written (h : e.output = []) (rejected : Bool) (earliest now : Int) :
    (e.noEndpoint rejected earliest now).WrittenAt (e.noEndpoint rejected earliest now).stage := by
  unfold noEndpoint
  split
  · obtain ⟨hsendable, hwritten⟩ :=
      makeProxyErrorResponse_sendable .CircuitOpen (by simp)
    exact .inr ⟨hwritten, h, hsendable.add (by decide) (isValidHeaderValue_intToString _)⟩
  · obtain ⟨hsendable, hwritten⟩ :=
      makeProxyErrorResponse_sendable .NoHealthyUpstream (by simp)
    exact .inr ⟨hwritten, h, hsendable⟩

theorem afterTransaction_written {endpoint : Nat} {s : ProxySession}
    (houtput : s.output = e.output) (hordered : ProxySession.Ordered s.view s.output s.point)
    (hs : e.afterTransaction endpoint s = some e') : e'.WrittenAt e'.stage := by
  rw [houtput] at hordered
  rcases afterTransaction_cases hs with ⟨result, hpoint, rfl⟩ | ⟨exception, hpoint, rfl⟩
  · rw [hpoint] at hordered
    rcases hordered with ⟨herror, hwritten, hanswer⟩ | ⟨herror, hempty⟩
    · rw [if_pos herror]
      exact .inl ⟨hwritten, by simpa [handle, returnLease] using hanswer⟩
    · rw [if_neg herror]
      obtain ⟨hsendable, hwritten⟩ := makeProxyErrorResponse_sendable _ herror
      exact .inr ⟨hwritten, by simpa [handle, returnLease] using hempty, hsendable⟩
  · rw [hpoint] at hordered
    exact handlerRaised_written hordered

theorem writeResponse_written (hrequestId : isValidHeaderValue e.context.requestId = true)
    {response : HttpResponse} (stored : Bool) (h : e.WrittenAt (.handled response)) :
    (e.writeResponse (e.routed response stored)).WrittenAt
      (e.writeResponse (e.routed response stored)).stage := by
  unfold writeResponse
  rcases h with ⟨hwritten, hanswer⟩ | ⟨hwritten, hempty, hsendable⟩
  -- a streamed response is passed over; any other is the first thing written
  · rw [if_pos (show (e.routed response stored).alreadyWritten = true from hwritten)]
    exact hanswer
  · rw [if_neg (by simp [routed, hwritten])]
    -- the router's headers are valid ones, so that `serialize` does not throw
    have hrouted : (e.routed response stored).Sendable := by
      unfold routed
      dsimp only
      split
      · split
        · exact (hsendable.set (by decide) (by decide)).set (by decide) hrequestId
        · exact (hsendable.set (by decide) (by decide)).set (by decide) hrequestId
      · split
        · exact (hsendable.set (by decide) (by decide)).set (by decide) hrequestId
        · exact hsendable.set (by decide) hrequestId
    obtain ⟨serialized, hserialize⟩ := hrouted.serialize (decide (e.request.method = .Head))
    rw [hserialize]
    dsimp only
    show OneAnswer ({ write := .response serialized } :: e.output)
    rw [hempty]
    exact .response _ _ _ _ hserialize

/-- A step that keeps the order of the session's writes. -/
theorem answerInv_step (h : AnswerInv e) (hok : OnSession ProxySession.KeepsOrder e event e')
    (hs : e.step event = some e') : AnswerInv e' := by
  have hroute := step_route hs
  refine ⟨(forwards_eq hroute).trans h.forwards, ?_, ?_⟩
  · have hcontext : e'.context = e.context := congrArg Route.context hroute
    rw [hcontext]
    exact h.requestId
  have hwritten := h.written
  cases step_cases hs with
  | observed inFlight hstage =>
    rw [hstage] at hwritten
    unfold enterFlight
    split
    · exact overloaded_written hwritten
    · exact hwritten
  | attempted ticket healthy allowed circuit retryAt attempt rejected earliest hstage hattempt =>
    rw [hstage] at hwritten
    rcases e.attempt_cases attempt rejected earliest (ticket % e.proxy.upstreams.length) healthy
      allowed circuit retryAt with ⟨_, heq⟩ | ⟨_, _, _, heq⟩ | ⟨_, _, _, _, heq⟩ <;> rw [heq]
    · exact hwritten
    · exact handlerRaised_written hwritten
    · exact hwritten
  | exhausted now attempt rejected earliest hstage =>
    rw [hstage] at hwritten
    exact noEndpoint_written hwritten _ _ _
  -- a new session has written what the exchange has written
  | acquired ok connectionOpen endpoint hstage =>
    rw [hstage] at hwritten
    rcases e.acquireDone_cases endpoint ok connectionOpen with
      ⟨_, heq⟩ | ⟨_, _, heq⟩ | ⟨_, upstream, _, ⟨s, hcreate, heq⟩ | ⟨_, _, heq⟩⟩ <;> rw [heq]
    · exact overloaded_written hwritten
    · exact handlerRaised_written hwritten
    · rw [h.forwards] at hcreate
      obtain ⟨_, hpoint, houtput, _⟩ := ProxySession.create_eq_ok hcreate
      refine ⟨houtput.trans hwritten.symm, ProxySession.streamInv_create hcreate, ?_⟩
      rw [hpoint]
      trivial
    · exact handlerRaised_written hwritten
  | acquireRaised exception endpoint hstage =>
    rw [hstage] at hwritten
    exact handlerRaised_written hwritten
  | session sessionEvent endpoint s s' hstage hsession =>
    rw [hstage] at hwritten
    obtain ⟨_, hstream, hordered⟩ := hwritten
    exact ⟨rfl, ProxySession.streamInv_step hstream hsession,
      ProxySession.ordered_step hstream hordered (hok.at_step hstage) hsession⟩
  | transacted endpoint s e' hstage hsession =>
    rw [hstage] at hwritten
    exact afterTransaction_written hwritten.1 hwritten.2.2 hsession
  | responded stored response hstage =>
    rw [hstage] at hwritten
    exact writeResponse_written h.requestId stored hwritten
  | written progress hstage hprogress =>
    rw [hstage] at hwritten
    exact hwritten.finish progress

/-- **One answer.** In every run of a request that is proxied by `forward`, whose calls of
    `parse` stay inside the buffer and do not fail over body bytes before the head is written,
    and whose buffer has room for every read after it, the client receives one answer. -/
theorem one_answer (proxy : ReverseProxy) (requestId : Nat) (peer : Option Bytes)
    (request : HttpRequest) (cache : RouteCache)
    (hforward : (init proxy requestId peer request cache).forwards = true)
    (events : List ExchangeEvent)
    (hok : Machine.EachStep step (OnSession ProxySession.KeepsOrder)
      (init proxy requestId peer request cache) events) :
    Machine.Always step Answered (init proxy requestId peer request cache) events := by
  refine Machine.always_of_eachStep AnswerInv (fun _ h => h.answered) ?_ ?_ hok
  · intro e event e' h hok hs
    exact answerInv_step h hok hs
  · exact ⟨hforward, isValidHeaderValue_toChars requestId, rfl⟩

/-- The theorem at a response that is streamed in a head, a chunk and the last chunk. -/
theorem one_answer_streamed :
    Machine.Always step Answered (smallExchange .Get)
      (requestEvents ++ readEvents true ++
        [.session (.received (bytes "HTTP/1.1 200 OK\r\nContent-Length: 1\r\n\r\na")),
         .session .run, .session .run, .session (.written .sent), .session .run,
         .session (.written .sent), .session .run, .session (.written .sent), .transacted,
         .respond false]) :=
  one_answer smallProxy 1 none _ {} (by decide) _ (by decide +kernel)

/-- The upstream's response fails in the read that completes its headers, after one chunk. -/
def badChunkEvents : List ExchangeEvent :=
  requestEvents ++ readEvents true ++
    [.session (.received
      (bytes "HTTP/1.1 200 OK\r\nTransfer-Encoding: chunked\r\n\r\n1\r\na\r\nZ\r\n")),
     .session .run, .session .run, .session .run, .session (.written .sent), .session .run,
     .transacted, .respond false]

theorem badChunk_output :
    (Machine.run step (smallExchange .Get) badChunkEvents).map (·.output) =
      some [{ write := .response
                (bytes "HTTP/1.1 502 Bad Gateway\r\ncontent-type: text/plain\r\n" ++
                bytes "x-request-id: 1\r\nContent-Length: 12\r\nConnection: keep-alive\r\n\r\n" ++
                bytes "bad gateway\n") },
            { write := .chunk (bytes "a"), progress := .sent }] := by
  decide +kernel

/-- The chunk is sent without a head, and the error response after it. -/
theorem chunk_before_head :
    (smallExchange .Get).forwards = true ∧
      ¬ Machine.Always step Answered (smallExchange .Get) badChunkEvents := by
  refine ⟨by decide, fun h => ?_⟩
  obtain ⟨e, hrun, houtput⟩ := Option.map_eq_some_iff.mp badChunk_output
  rcases (h.last e hrun).once with hempty | hanswer
  · rw [houtput] at hempty
    cases hempty
  · rw [houtput] at hanswer
    cases hanswer.response_alone

end Exchange
end PulseGate
