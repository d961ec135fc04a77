import PulseGate.Http.ProxySteps

namespace PulseGate

/-!
# What `forward` writes downstream

`Streamed head log body` reads a log of writes as a stream: the head, then chunks whose
payloads make up `body`, all of them sent.  `StreamAt` says what the log is at each point of
`forward`:

* `streamInv_step` — every step keeps it;
* `StreamInv.complete` — a complete response leaves a stream of its whole body, ended by the
  last chunk.
-/

/-! ### Logs of writes -/

/-- The log is a head and then chunks with the bytes of `body`; the latest write comes
    first. -/
inductive Streamed (head : Bytes) : List Output → Bytes → Prop
  | head : Streamed head [{ write := .head head, progress := .sent }] []
  | chunk {log : List Output} {body : Bytes} (payload : Bytes) (h : Streamed head log body)
    (hpayload : payload ≠ []) :
    Streamed head ({ write := .chunk payload, progress := .sent } :: log) (body ++ payload)

theorem Streamed.sent {head body : Bytes} {log : List Output} (h : Streamed head log body) :
    ∀ o ∈ log, o.progress = .sent := by
  induction h with
  | head => simp
  | chunk payload _ _ ih => simpa using ih

/-- The bytes that the writes of a log stand for. -/
def writtenBytes (log : List Output) : Bytes := log.reverse.flatMap fun o => o.write.bytes

@[simp] theorem writtenBytes_cons (o : Output) (log : List Output) :
    writtenBytes (o :: log) = writtenBytes log ++ o.write.bytes := by
  simp [writtenBytes]

@[simp] theorem finishWrite_cons (progress : WriteProgress) (o : Output) (log : List Output) :
    finishWrite progress (o :: log) = { o with progress := progress } :: log := rfl

/-! ### The invariant -/

/-- What the stream of a session depends on. -/
structure StreamView where
  parser : HttpResponseParser
  requestId : Bytes
  started : Bool
  forwarded : Nat

namespace StreamView

/-- The body as far as it is known. -/
def body (v : StreamView) : Bytes := v.parser.response.body

/-- The head that `forward` writes for the response in the parser. -/
def head (v : StreamView) : Bytes :=
  serializeStreamingHead (sanitizeUpstreamResponse v.parser.response) v.requestId

/-- The stream has started, and carries the first `forwarded` bytes of the body. -/
structure Started (v : StreamView) (log : List Output) : Prop where
  started : v.started = true
  parser : v.parser.InBody ∨ v.parser.state = .Error
  streamed : Streamed v.head log (v.body.take v.forwarded)
  forwarded : v.forwarded ≤ v.body.length

/-- Nothing was written. -/
structure NotStarted (v : StreamView) (log : List Output) : Prop where
  started : v.started = false
  log : log = []
  forwarded : v.forwarded = 0

/-- The body is forwarded as far as it is known, and nothing is written before the headers
    are complete. -/
def UpToDate (v : StreamView) (log : List Output) : Prop :=
  (v.Started log ∧ v.parser.InBody ∧ v.forwarded = v.body.length) ∨
    (v.NotStarted log ∧ v.parser.InHeaders)

/-- What `forward` has written, by the point it is at. -/
def At (v : StreamView) (output : List Output) : ProxyPoint → Prop
  | .entry | .resolving | .connecting | .sending _ => output = []
  | .parsing | .preparing | .reading => v.UpToDate output
  | .checkingHead _ => v.Started output ∨ v.NotStarted output
  | .writingHead _ =>
    v.parser.InBody ∧ v.forwarded = 0 ∧ output = [{ write := .head v.head }]
  | .checkingBody _ => v.Started output ∨ (v.NotStarted output ∧ ¬ v.parser.InBody)
  | .writingChunk _ =>
    v.forwarded < v.body.length ∧
      ∃ log, output = { write := .chunk (v.body.drop v.forwarded) } :: log ∧
        (v.Started log ∨ (v.NotStarted log ∧ v.parser.state = .Error))
  | .checkingResult _ =>
    (v.Started output ∧ v.forwarded = v.body.length) ∨
      (v.NotStarted output ∧ ¬ v.parser.InBody) ∨
      (v.started = false ∧ v.parser.state = .Error)
  | .writingLast =>
    ∃ log, output = { write := .last } :: log ∧ v.Started log ∧ v.forwarded = v.body.length
  -- a coroutine that has returned owes a whole stream only for a complete response
  | .returned _ =>
    v.parser.state = .Complete → (∀ o ∈ output, o.progress = .sent) →
      ∃ log, output = { write := .last, progress := .sent } :: log ∧ Streamed v.head log v.body
  | .raised _ | .outOfBounds => True

variable {v : StreamView} {log : List Output}

/-- More of the body arrives after the headers. -/
theorem Started.advance {r : Option ResponseParseResult} {parser : HttpResponseParser}
    {input rest : Bytes} (h : v.Started log) (hin : v.parser.InBody)
    (hadv : HttpResponseParser.Advances v.parser input r parser rest) :
    Started { v with parser := parser } log := by
  obtain ⟨hstate, _, data, hdata⟩ := hadv.grows hin
  have hhead : head { v with parser := parser } = v.head := by
    simp only [head, hdata]
    rfl
  have hbody : body { v with parser := parser } = v.body ++ data := by simp only [body, hdata]
  refine ⟨h.started, hstate, ?_, ?_⟩
  · rw [hhead, hbody, List.take_append_of_le_length h.forwarded]
    exact h.streamed
  · rw [hbody, List.length_append]
    exact Nat.le_trans h.forwarded (Nat.le_add_right _ _)

/-- A stream that is up to date carries the whole body. -/
theorem Started.whole (h : v.Started log) (hall : v.forwarded = v.body.length) :
    Streamed v.head log v.body := by
  have hstreamed := h.streamed
  rwa [hall, List.take_length] at hstreamed

/-- The chunk that is sent brings the stream up to the body. -/
theorem Started.sendChunk (h : v.Started log) (hmore : v.forwarded < v.body.length) :
    Started { v with forwarded := v.body.length }
      ({ write := .chunk (v.body.drop v.forwarded), progress := .sent } :: log) := by
  have hchunk := h.streamed.chunk (v.body.drop v.forwarded) (by
    intro hnil
    have hlength := congrArg List.length hnil
    rw [List.length_drop, List.length_nil] at hlength
    omega)
  rw [List.take_append_drop] at hchunk
  refine ⟨h.started, h.parser, ?_, Nat.le_refl _⟩
  show Streamed v.head _ (v.body.take v.body.length)
  rwa [List.take_length]

/-- The head that is sent starts the stream. -/
theorem started_head (hin : v.parser.InBody) (hforwarded : v.forwarded = 0) :
    Started { v with started := true } [{ write := .head v.head, progress := .sent }] where
  started := rfl
  parser := .inl hin
  streamed := by
    rw [hforwarded]
    exact .head
  forwarded := by
    rw [hforwarded]
    exact Nat.zero_le _

end StreamView

namespace ProxySession

def view (s : ProxySession) : StreamView where
  parser := s.parser
  requestId := s.context.requestId
  started := s.responseStarted
  forwarded := s.forwardedBodyBytes

/-- The invariant of a session whose coroutine is `forward`. -/
structure StreamInv (s : ProxySession) : Prop where
  parser : s.ParserInv
  forwarding : s.forwarding = true
  stream : s.view.At s.output s.point

variable {s s' : ProxySession} {e : ProxyEvent}

/-- A coroutine that returns without a complete response, or after a write that failed. -/
theorem stream_returned {parser : HttpResponseParser} {context : RequestContext}
    {output : List Output} {result : ProxyResult}
    (hr : Returned parser context output result s)
    (h : parser.state = .Complete → ∃ o ∈ output, o.progress ≠ .sent) :
    s.view.At s.output s.point := by
  rw [hr.point]
  intro hcomplete hsent
  have hcomplete : s.parser.state = .Complete := hcomplete
  obtain ⟨o, ho, hfailed⟩ := h (hr.parser ▸ hcomplete)
  exact absurd (hsent o (hr.output ▸ ho)) hfailed

/-- Nothing that `cancelInExecutor` changes is in the invariant. -/
theorem stream_cancel (h : s.view.At s.output s.point) (reason : ProxyStopReason) :
    (s.cancelInExecutor reason).view.At (s.cancelInExecutor reason).output
      (s.cancelInExecutor reason).point := by
  unfold cancelInExecutor
  split <;> exact h

/-- A request that is not answered yet: its parser has not completed a response. -/
theorem stream_failedEarly {context : RequestContext} {result : ProxyResult}
    (hearly : s.parser.InHeaders)
    (hr : Returned s.parser context s.output result s') : s'.view.At s'.output s'.point :=
  stream_returned hr fun hcomplete => by
    rcases hearly with h | h <;> rw [h] at hcomplete <;> cases hcomplete

theorem stream_parseInput (h : StreamInv s) (hpoint : s.point = .parsing) :
    s.parseInput.view.At s.parseInput.output s.parseInput.point := by
  have hstream := h.stream
  rw [hpoint] at hstream
  rcases parseInput_cases h.parser.bounded with
    ⟨_, heq⟩ | ⟨parsed, parser, rest, _, hadv, _, heq⟩
  · rw [heq]
    trivial
  · rw [heq, if_pos h.forwarding]
    rcases hstream with ⟨hstarted, hin, _⟩ | ⟨hnot, _⟩
    · exact .inl (hstarted.advance hin hadv)
    · exact .inr ⟨hnot.started, hnot.log, hnot.forwarded⟩

theorem stream_checkHead {parsed : ResponseParseResult} (h : StreamInv s)
    (hpoint : s.point = .checkingHead parsed) :
    (s.checkHead parsed).view.At (s.checkHead parsed).output (s.checkHead parsed).point := by
  have hstream := h.stream
  rw [hpoint] at hstream
  unfold checkHead
  split
  · next hhead =>
    rw [HttpResponseParser.headerComplete_iff] at hhead
    rcases hstream with hstarted | hnot
    · -- a stream that has started does not write its head again
      have hstarted' : s.responseStarted = true := hstarted.started
      simp [hstarted'] at hhead
    · refine ⟨hhead.1, hnot.forwarded, ?_⟩
      have hlog : s.output = [] := hnot.log
      simp only [startWrite, hlog]
      rfl
  · next hhead =>
    rcases hstream with hstarted | hnot
    · exact .inl hstarted
    · have hnot' : s.responseStarted = false := hnot.started
      exact .inr ⟨hnot, fun hin =>
        hhead ⟨HttpResponseParser.headerComplete_iff.mpr hin, by simp [hnot']⟩⟩

theorem stream_checkBody {parsed : ResponseParseResult} (h : StreamInv s)
    (hpoint : s.point = .checkingBody parsed) :
    (s.checkBody parsed).view.At (s.checkBody parsed).output (s.checkBody parsed).point := by
  have hstream := h.stream
  rw [hpoint] at hstream
  unfold checkBody
  split
  · next hmore =>
    refine ⟨hmore, s.output, rfl, ?_⟩
    rcases hstream with hstarted | ⟨hnot, hbody⟩
    · exact .inl hstarted
    · -- there are body bytes, so that the headers are over
      refine .inr ⟨hnot, ?_⟩
      by_contra herror
      have hempty := h.parser.bounded.early
        (by by_contra hheaders; exact hbody ⟨hheaders, herror⟩)
      rw [hempty] at hmore
      exact absurd hmore (Nat.not_lt_zero _)
  · next hless =>
    rcases hstream with hstarted | hnot
    · exact .inl ⟨hstarted, Nat.le_antisymm hstarted.forwarded (Nat.le_of_not_lt hless)⟩
    · exact .inr (.inl hnot)

theorem stream_checkResult {parsed : ResponseParseResult} (h : StreamInv s)
    (hpoint : s.point = .checkingResult parsed) :
    (s.checkResult parsed).view.At (s.checkResult parsed).output
      (s.checkResult parsed).point := by
  have hstream := h.stream
  rw [hpoint] at hstream
  have hfit : Agrees s.parser parsed :=
    h.parser.agrees parsed (by simp [hpoint, ProxyPoint.parsed])
  rcases s.checkResult_cases parsed with
    ⟨hcomplete, _, heq⟩ | ⟨_, hbuffered, _⟩ | ⟨hmore, state, heq⟩ | ⟨hcomplete, hmore, hr⟩
  · rw [heq]
    have hstate := hfit.complete hcomplete
    -- a complete parser is past the headers, so that the stream has started
    rcases hstream with ⟨hstarted, hall⟩ | ⟨_, hbody⟩ | ⟨_, herror⟩
    · exact ⟨s.output, rfl, hstarted, hall⟩
    · exact absurd (by simp [HttpResponseParser.InBody, HttpResponseParser.InHeaders, view, hstate])
        hbody
    · have herror' : s.parser.state = .Error := herror
      rw [hstate] at herror'
      cases herror'
  · rw [h.forwarding] at hbuffered
    cases hbuffered
  · rw [heq]
    have hrun := hfit.running hmore
    rcases hstream with ⟨hstarted, hall⟩ | ⟨hnot, hbody⟩ | ⟨_, herror⟩
    · exact .inl ⟨hstarted, hstarted.parser.resolve_right hrun.2, hall⟩
    · exact .inr ⟨hnot, HttpResponseParser.inHeaders_of_running hbody hrun⟩
    · exact absurd herror hrun.2
  · exact stream_returned hr fun hstate => by
      rw [hfit.failed hcomplete hmore] at hstate
      cases hstate

theorem stream_endOfInput (h : StreamInv s) (hpoint : s.point = .reading) :
    s.phaseEnded.endOfInput.view.At s.phaseEnded.endOfInput.output
      s.phaseEnded.endOfInput.point := by
  have hstream := h.stream
  rw [hpoint] at hstream
  have hrun := h.parser.running (by simp [hpoint, ProxyPoint.Waits])
  rcases s.phaseEnded.endOfInput_cases with
    ⟨_, hr⟩ | ⟨_, hcomplete, _, heq⟩ | ⟨_, _, hbuffered, _⟩ | ⟨_, hcomplete, hr⟩
  · exact stream_returned hr fun hstate => absurd hstate hrun.1
  · rw [heq]
    have hcomplete : s.parser.finishOnEof.1 = .Complete := hcomplete
    -- the parser was reading a body that ends with the connection
    obtain ⟨hstate, hparser⟩ : s.parser.state = .EofBody ∧
        s.parser.finishOnEof.2 = { s.parser with state := .Complete } := by
      rcases s.parser.finishOnEof_cases with ⟨hstate, hended⟩ | ⟨hdone, -⟩ | hended
      · exact ⟨hstate, congrArg Prod.snd hended⟩
      · exact absurd hdone hrun.1
      · rw [hended] at hcomplete
        cases hcomplete
    have hbody : HttpResponseParser.InBody s.parser.finishOnEof.2 := by
      simp [hparser, HttpResponseParser.InBody, HttpResponseParser.InHeaders]
    rcases hstream with ⟨hstarted, _, hall⟩ | ⟨_, hheaders⟩
    · refine .inl ⟨⟨hstarted.started, .inl hbody, ?_, ?_⟩, hbody, ?_⟩
      · simpa [view, StreamView.head, StreamView.body, phaseEnded, hparser] using hstarted.streamed
      · simpa [view, StreamView.body, phaseEnded, hparser] using hstarted.forwarded
      · simpa [view, StreamView.body, phaseEnded, hparser] using hall
    · have hheaders : s.parser.InHeaders := hheaders
      simp [HttpResponseParser.InHeaders, hstate] at hheaders
  · rw [show s.phaseEnded.forwarding = true from h.forwarding] at hbuffered
    cases hbuffered
  · -- the end of the input did not complete the response
    refine stream_returned hr fun hstate => ?_
    rw [HttpResponseParser.finishOnEof_error hcomplete] at hstate
    cases hstate

theorem stream_writeEnded (h : StreamInv s) (progress : WriteProgress)
    (hpoint : s.Writing) :
    (s.writeEnded progress).view.At (s.writeEnded progress).output
      (s.writeEnded progress).point := by
  have hstream := h.stream
  rcases s.writeEnded_cases progress with
    ⟨parsed, hhead, _, heq⟩ | ⟨parsed, hchunk, _, heq⟩ | ⟨⟨⟨parsed, hwriting⟩, hfailed⟩, hr⟩ |
    ⟨hother, hr⟩
  · rw [hhead] at hstream
    obtain ⟨hin, hforwarded, hlog⟩ := hstream
    rw [heq]
    simp only [hlog, finishWrite_cons]
    exact .inl (StreamView.started_head hin hforwarded)
  · rw [hchunk] at hstream
    obtain ⟨hmore, log, hlog, hstarted | ⟨hnot, herror⟩⟩ := hstream
    · rw [heq]
      simp only [hlog, finishWrite_cons]
      exact .inl ⟨hstarted.sendChunk hmore, rfl⟩
    · rw [heq]
      exact .inr (.inr ⟨hnot.started, herror⟩)
  · -- the write that has failed is the latest in the log
    refine stream_returned hr fun _ => ?_
    obtain ⟨o, log, hlog⟩ : ∃ o log, s.output = o :: log := by
      rcases hwriting with hpoint | hpoint <;> rw [hpoint] at hstream
      · exact ⟨_, _, hstream.2.2⟩
      · obtain ⟨_, log, hlog, _⟩ := hstream
        exact ⟨_, log, hlog⟩
    exact ⟨{ o with progress := progress }, by simp [hlog], hfailed⟩
  · -- the last write: what was sent is the whole message
    have hlast := hpoint.last hother
    rw [hlast] at hstream
    obtain ⟨log, hlog, hstarted, hall⟩ := hstream
    rw [hr.point]
    intro _ hsent
    have hprogress : progress = .sent := by
      refine hsent { write := .last, progress := progress } ?_
      simp [hr.output, hlog]
    refine ⟨log, by rw [hr.output, hlog, hprogress]; rfl, ?_⟩
    have hwhole := hstarted.whole hall
    simpa only [view, StreamView.head, StreamView.body, hr.parser, hr.context] using hwhole

/-- **Every step keeps the stream.** -/
theorem streamInv_step (h : StreamInv s) (hs : s.step e = some s') : StreamInv s' := by
  have hstream := h.stream
  have hearly := h.parser.early
  refine ⟨parserInv_step h.parser hs, ?_, ?_⟩
  · exact (congrArg Config.forwarding (step_config hs)).trans h.forwarding
  cases step_cases hs with
  | entered hpoint =>
    rw [hpoint] at hstream hearly
    unfold enter
    split
    · exact stream_failedEarly (hearly rfl) ⟨rfl, rfl, rfl, rfl⟩
    split
    · exact stream_failedEarly (hearly rfl) ⟨rfl, rfl, rfl, rfl⟩
    dsimp only
    split <;> exact hstream
  | parsed hpoint => exact stream_parseInput h hpoint
  | headChecked r hpoint => exact stream_checkHead h hpoint
  | bodyChecked r hpoint => exact stream_checkBody h hpoint
  | resultChecked r hpoint => exact stream_checkResult h hpoint
  | prepared hpoint =>
    rw [hpoint] at hstream
    unfold prepareInput
    split
    · trivial
    · exact hstream
  | resolved ok hpoint =>
    rw [hpoint] at hstream hearly
    split
    · exact hstream
    · exact stream_failedEarly (hearly rfl) (operationFailed_returned s.phaseEnded)
  | connected ok hpoint =>
    rw [hpoint] at hstream hearly
    split
    · exact hstream
    · exact stream_failedEarly (hearly rfl) (operationFailed_returned s.phaseEnded)
  | requestSent ok request hpoint =>
    rw [hpoint] at hstream hearly
    split
    · -- the request is sent, and the parser is reset for its response
      exact .inr ⟨⟨rfl, hstream, rfl⟩, .inl rfl⟩
    · exact stream_failedEarly (hearly rfl) (operationFailed_returned s.phaseEnded)
  | received data hpoint hdata hroom =>
    rw [hpoint] at hstream
    exact hstream
  | readFailed hpoint => exact stream_endOfInput h hpoint
  -- the three points that write differ in what comes next
  | headWritten r progress hpoint hprogress =>
    exact stream_writeEnded h progress (.inl ⟨r, .inl hpoint⟩)
  | chunkWritten r progress hpoint hprogress =>
    exact stream_writeEnded h progress (.inl ⟨r, .inr hpoint⟩)
  | lastWritten progress hpoint hprogress => exact stream_writeEnded h progress (.inr hpoint)
  | phaseExpired reason hsuspended hdeadline => exact stream_cancel (s := s.phaseEnded) hstream _
  | totalExpired hsuspended hdeadline =>
    exact stream_cancel (s := { s with totalDeadline := false }) hstream _
  | cancelled reason hsuspended hreason => exact stream_cancel hstream _

theorem streamInv_create {upstream : UpstreamEndpoint} {limits : ProxyLimits}
    {connectionOpen : Bool} {context : RequestContext} {request : HttpRequest}
    (h : create upstream limits connectionOpen context request true = .ok s) : StreamInv s := by
  obtain ⟨_, hpoint, houtput, _, _, _, _, hforward, _⟩ := create_eq_ok h
  refine ⟨parserInv_create h, hforward, ?_⟩
  rw [hpoint]
  exact houtput

/-- **A complete response** leaves a stream of its whole body, ended by the last chunk. -/
theorem StreamInv.complete {result : ProxyResult} (h : StreamInv s)
    (hpoint : s.point = .returned result) (hcomplete : s.parser.messageComplete = true)
    (hsent : ∀ o ∈ s.output, o.progress = .sent) :
    ∃ log, s.output = { write := .last, progress := .sent } :: log ∧
      Streamed s.view.head log s.parser.response.body := by
  have hstream := h.stream
  rw [hpoint] at hstream
  exact hstream (HttpResponseParser.messageComplete_iff.mp hcomplete) hsent

end ProxySession
end PulseGate
