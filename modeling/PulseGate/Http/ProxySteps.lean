import PulseGate.Http.ProxySession
import PulseGate.Http.ResponseParserSafety

namespace PulseGate

/-!
# What a step of a transaction can do

* `step_cases` — every step is one of the cases of `Stepped`;
* `writeEnded_cases`, `endOfInput_cases`, `checkResult_cases` — where the coroutine goes after
  a write, a read that brings nothing, and a call of `parse`;
* `parserInv_step` — every step keeps `ParserInv`, which ties the parser to the point of the
  coroutine.
-/

/-! ### Points -/

/-- The result of `parse` that the coroutine holds. -/
def ProxyPoint.parsed : ProxyPoint → Option ResponseParseResult
  | .checkingHead parsed | .writingHead parsed | .checkingBody parsed | .writingChunk parsed
  | .checkingResult parsed => some parsed
  | _ => none

/-- The request is not sent yet. -/
def ProxyPoint.Early : ProxyPoint → Bool
  | .entry | .resolving | .connecting | .sending _ => true
  | _ => false

/-- The parser waits for more input. -/
def ProxyPoint.Waits : ProxyPoint → Bool
  | .preparing | .reading => true
  | _ => false

/-- The last chunk is being written. -/
def ProxyPoint.WritesLast : ProxyPoint → Bool
  | .writingLast => true
  | _ => false

namespace HttpResponseParser

theorem headerComplete_iff {p : HttpResponseParser} : p.headerComplete = true ↔ p.InBody := by
  simp [headerComplete, InBody, InHeaders, and_assoc]

theorem messageComplete_iff {p : HttpResponseParser} :
    p.messageComplete = true ↔ p.state = .Complete := by
  simp [messageComplete]

/-- A parser that has neither passed the headers nor failed is in them. -/
theorem inHeaders_of_running {p : HttpResponseParser} (h : ¬ p.InBody) (hp : p.Running) :
    p.InHeaders := by
  by_contra hin
  exact h ⟨hin, hp.2⟩

end HttpResponseParser

namespace ProxySession

/-! ### The cases of a step -/

/-- The steps of a session. -/
inductive Stepped (s : ProxySession) : ProxyEvent → ProxySession → Prop
  | entered (h : s.point = .entry) : Stepped s .run s.enter
  | parsed (h : s.point = .parsing) : Stepped s .run s.parseInput
  | headChecked (r : ResponseParseResult) (h : s.point = .checkingHead r) :
    Stepped s .run (s.checkHead r)
  | bodyChecked (r : ResponseParseResult) (h : s.point = .checkingBody r) :
    Stepped s .run (s.checkBody r)
  | resultChecked (r : ResponseParseResult) (h : s.point = .checkingResult r) :
    Stepped s .run (s.checkResult r)
  | prepared (h : s.point = .preparing) : Stepped s .run s.prepareInput
  | resolved (ok : Bool) (h : s.point = .resolving) :
    Stepped s (.resolved ok)
      (if ok then s.phaseEnded.startConnect else s.phaseEnded.operationFailed)
  | connected (ok : Bool) (h : s.point = .connecting) :
    Stepped s (.connected ok)
      (if ok then s.phaseEnded.startSending else s.phaseEnded.operationFailed)
  | requestSent (ok : Bool) (request : Bytes) (h : s.point = .sending request) :
    Stepped s (.sent ok)
      (if ok then s.phaseEnded.startResponse else s.phaseEnded.operationFailed)
  | received (data : Bytes) (h : s.point = .reading) (hdata : data ≠ [])
    (hroom : data.length ≤ s.input.preparedBytes) :
    Stepped s (.received data)
      { s.phaseEnded with input := s.input.received data hroom, point := .parsing }
  | readFailed (h : s.point = .reading) : Stepped s .readFailed s.phaseEnded.endOfInput
  | headWritten (r : ResponseParseResult) (progress : WriteProgress)
    (h : s.point = .writingHead r) (hprogress : progress ≠ .pending) :
    Stepped s (.written progress) (s.writeEnded progress)
  | chunkWritten (r : ResponseParseResult) (progress : WriteProgress)
    (h : s.point = .writingChunk r) (hprogress : progress ≠ .pending) :
    Stepped s (.written progress) (s.writeEnded progress)
  | lastWritten (progress : WriteProgress) (h : s.point = .writingLast)
    (hprogress : progress ≠ .pending) : Stepped s (.written progress) (s.writeEnded progress)
  | phaseExpired (reason : ProxyStopReason) (h : s.point.Suspended = true)
    (hdeadline : s.phaseDeadline = some reason) :
    Stepped s .phaseExpired (s.phaseEnded.cancelInExecutor reason)
  | totalExpired (h : s.point.Suspended = true) (hdeadline : s.totalDeadline = true) :
    Stepped s .totalExpired ({ s with totalDeadline := false }.cancelInExecutor .TotalTimeout)
  | cancelled (reason : ProxyStopReason) (h : s.point.Suspended = true)
    (hreason : reason = .DownstreamClosed ∨ reason = .ServerShutdown) :
    Stepped s (.cancelled reason) (s.cancelInExecutor reason)

variable {s s' : ProxySession} {e : ProxyEvent}

/-- **The cases of a step.** -/
theorem step_cases (hs : s.step e = some s') : s.Stepped e s' := by
  -- each event is waited for at its own points; elsewhere `hs` says `none = some s'`
  cases e with
  | run =>
    unfold step resume at hs
    dsimp only at hs
    split at hs <;> cases hs
    · next h => exact .entered h
    · next h => exact .parsed h
    · next r h => exact .headChecked r h
    · next r h => exact .bodyChecked r h
    · next r h => exact .resultChecked r h
    · next h => exact .prepared h
  | resolved ok =>
    unfold step at hs
    dsimp only at hs
    split at hs <;> cases hs
    next h => exact .resolved ok h
  | connected ok =>
    unfold step at hs
    dsimp only at hs
    split at hs <;> cases hs
    next h => exact .connected ok h
  | sent ok =>
    unfold step at hs
    dsimp only at hs
    split at hs <;> cases hs
    next h => exact .requestSent ok _ h
  | received data =>
    unfold step at hs
    dsimp only at hs
    split at hs <;> cases hs
    next h => exact .received data h.1 h.2.1 h.2.2
  | readFailed =>
    unfold step at hs
    dsimp only at hs
    split at hs <;> cases hs
    next h => exact .readFailed h
  | written progress =>
    unfold step at hs
    dsimp only at hs
    split at hs
    · next h =>
      split at hs <;> cases hs
      next hprogress => exact .headWritten _ progress h hprogress
    · next h =>
      split at hs <;> cases hs
      next hprogress => exact .chunkWritten _ progress h hprogress
    · next h =>
      split at hs <;> cases hs
      next hprogress => exact .lastWritten progress h hprogress
    · cases hs
  | phaseExpired =>
    unfold step at hs
    dsimp only at hs
    split at hs
    · next h =>
      obtain ⟨reason, hreason, rfl⟩ := Option.map_eq_some_iff.mp hs
      exact .phaseExpired reason h hreason
    · cases hs
  | totalExpired =>
    unfold step at hs
    dsimp only at hs
    split at hs <;> cases hs
    next h => exact .totalExpired h.1 h.2
  | cancelled reason =>
    unfold step at hs
    dsimp only at hs
    split at hs <;> cases hs
    next h => exact .cancelled reason h.1 h.2

/-- What no step changes. -/
structure Config where
  upstream : UpstreamEndpoint
  limits : ProxyLimits
  context : RequestContext
  request : HttpRequest
  forwarding : Bool

def config (s : ProxySession) : Config :=
  ⟨s.upstream, s.limits, s.context, s.request, s.forwarding⟩

@[simp] theorem cancelInExecutor_config (s : ProxySession) (reason : ProxyStopReason) :
    (s.cancelInExecutor reason).config = s.config := by
  unfold cancelInExecutor
  split <;> rfl

@[simp] theorem returnStreamError_config (s : ProxySession) (error : ProxyError) :
    (s.returnStreamError error).config = s.config := by
  unfold returnStreamError
  split <;> rfl

@[simp] theorem operationFailed_config (s : ProxySession) :
    s.operationFailed.config = s.config := by
  unfold operationFailed
  dsimp only
  split <;> rfl

@[simp] theorem downstreamFailed_config (s : ProxySession) :
    s.downstreamFailed.config = s.config := s.cancelInExecutor_config .DownstreamClosed

@[simp] theorem endOfInput_config (s : ProxySession) : s.endOfInput.config = s.config := by
  unfold endOfInput
  dsimp only
  split
  · exact returnStreamError_config _ _
  split
  · split <;> rfl
  · exact returnStreamError_config _ _

@[simp] theorem checkResult_config (s : ProxySession) (parsed : ResponseParseResult) :
    (s.checkResult parsed).config = s.config := by
  unfold checkResult
  split
  · split <;> rfl
  · rfl
  · exact returnStreamError_config _ _

@[simp] theorem writeEnded_config (s : ProxySession) (progress : WriteProgress) :
    (s.writeEnded progress).config = s.config := by
  unfold writeEnded
  dsimp only
  split
  · split
    · rfl
    · exact downstreamFailed_config _
  · split
    · rfl
    · exact downstreamFailed_config _
  · split
    · rfl
    · exact cancelInExecutor_config { s with output := finishWrite progress s.output } _

theorem step_config (hs : s.step e = some s') : s'.config = s.config := by
  cases step_cases hs with
  | entered hpoint =>
    unfold enter
    split
    · rfl
    split
    · rfl
    dsimp only
    split <;> rfl
  | parsed hpoint =>
    unfold parseInput
    split <;> rfl
  | headChecked r hpoint =>
    unfold checkHead
    split <;> rfl
  | bodyChecked r hpoint =>
    unfold checkBody
    split <;> rfl
  | resultChecked r hpoint => exact s.checkResult_config r
  | prepared hpoint =>
    unfold prepareInput
    split <;> rfl
  | resolved ok hpoint =>
    split
    · rfl
    · exact s.phaseEnded.operationFailed_config
  | connected ok hpoint =>
    split
    · rfl
    · exact s.phaseEnded.operationFailed_config
  | requestSent ok request hpoint =>
    split
    · rfl
    · exact s.phaseEnded.operationFailed_config
  | received data hpoint hdata hroom => rfl
  | readFailed hpoint => exact s.phaseEnded.endOfInput_config
  -- no write and no cancellation touches the configuration
  | headWritten r progress hpoint hprogress => exact s.writeEnded_config progress
  | chunkWritten r progress hpoint hprogress => exact s.writeEnded_config progress
  | lastWritten progress hpoint hprogress => exact s.writeEnded_config progress
  | phaseExpired reason hsuspended hdeadline => exact s.phaseEnded.cancelInExecutor_config reason
  | totalExpired hsuspended hdeadline =>
    exact cancelInExecutor_config { s with totalDeadline := false } .TotalTimeout
  | cancelled reason hsuspended hreason => exact s.cancelInExecutor_config reason

/-! ### The parser of a session -/

/-- The result of `parse` fits the state it leaves the parser in. -/
structure Agrees (p : HttpResponseParser) (parsed : ResponseParseResult) : Prop where
  complete : parsed = .Complete → p.state = .Complete
  running : parsed = .NeedMore → p.Running
  failed : parsed ≠ .Complete → parsed ≠ .NeedMore → p.state = .Error

/-- What the point of the coroutine says about the parser. -/
structure ParserInv (s : ProxySession) : Prop where
  bounded : s.parser.Bounded
  early : s.point.Early = true → s.parser.InHeaders
  agrees : ∀ parsed ∈ s.point.parsed, Agrees s.parser parsed
  running : s.point.Waits = true → s.parser.Running
  last : s.point.WritesLast = true → s.parser.state = .Complete

/-- Between the results of `parse` only the bounds matter. -/
theorem ParserInv.of_bounded (h : s.parser.Bounded) (hearly : s.point.Early = false)
    (hparsed : s.point.parsed = none) (hwaits : s.point.Waits = false)
    (hlast : s.point.WritesLast = false) : ParserInv s where
  bounded := h
  early := by simp [hearly]
  agrees := by simp [hparsed]
  running := by simp [hwaits]
  last := by simp [hlast]

theorem input_le (s : ProxySession) : s.input.readableView.length ≤ vectorMaxSize := by
  rw [s.input.readableView_length]
  exact s.input.readableBytes_le

/-- What `parse` leaves unread stays in the buffer. -/
theorem inputAfter_readableView {rest : Bytes} (hsuffix : rest <:+ s.input.readableView) :
    (s.inputAfter rest).readableView = rest := by
  unfold inputAfter
  split
  · next hlength => exact (hsuffix.eq_of_length hlength).symm
  · rw [Buffer.consumed_readableView]
    obtain ⟨read, hread⟩ := hsuffix
    rw [← hread]
    simp

/-- A call of `parse` of the session. -/
theorem parseInput_cases (h : s.parser.Bounded) :
    (s.parser.parse s.input.readableView = .outOfBounds ∧
      s.parseInput = { s with point := .outOfBounds }) ∨
    ∃ parsed parser rest,
      s.parser.parse s.input.readableView = .finished parsed parser rest ∧
      HttpResponseParser.Advances s.parser s.input.readableView (some parsed) parser rest ∧
      Agrees parser parsed ∧
      s.parseInput = { s with
        parser := parser, input := s.inputAfter rest,
        point := if s.forwarding then .checkingHead parsed else .checkingResult parsed } := by
  unfold parseInput
  split
  · next hparse => exact .inl ⟨hparse, rfl⟩
  · next parsed parser rest hparse =>
    have hadv := HttpResponseParser.parse_advances h s.input_le hparse
    -- `Advances` says what each result means for the parser
    refine .inr ⟨parsed, parser, rest, hparse, hadv, ⟨?_, ?_, ?_⟩, rfl⟩
    · rintro rfl
      exact hadv.complete rfl
    · rintro rfl
      exact hadv.running (.inr rfl)
    · intro hcomplete hmore
      exact (hadv.failed parsed rfl hmore hcomplete).1

theorem ParserInv.cancel (h : ParserInv s) (reason : ProxyStopReason) :
    ParserInv (s.cancelInExecutor reason) := by
  unfold cancelInExecutor
  split
  · exact h
  · exact ⟨h.bounded, h.early, h.agrees, h.running, h.last⟩

/-- The coroutine has returned `result`, with the parser and the log as they were. -/
structure Returned (parser : HttpResponseParser) (context : RequestContext)
    (output : List Output) (result : ProxyResult) (s : ProxySession) : Prop where
  point : s.point = .returned result
  parser : s.parser = parser
  context : s.context = context
  output : s.output = output

/-- The error of an operation that has failed. -/
def operationError (s : ProxySession) : ProxyError :=
  (if s.stopReason = .None then { s with stopReason := .InternalError } else s).errorForStopReason

theorem operationFailed_returned (s : ProxySession) :
    Returned s.parser s.context s.output { error := s.operationError, upstream := s.upstream }
      s.operationFailed := by
  unfold operationFailed operationError
  dsimp only
  -- a failure without a stop is an internal error
  split <;> exact ⟨rfl, rfl, rfl, rfl⟩

/-- The result of `returnStreamError`. -/
def streamErrorResult (s : ProxySession) (error : ProxyError) : ProxyResult :=
  if s.responseStarted then streamedCloseResult s.upstream
  else { error := error, upstream := s.upstream }

theorem returnStreamError_returned (s : ProxySession) (error : ProxyError) :
    Returned s.parser s.context s.output (s.streamErrorResult error)
      (s.returnStreamError error) := by
  unfold returnStreamError streamErrorResult
  split <;> exact ⟨rfl, rfl, rfl, rfl⟩

theorem downstreamFailed_returned (s : ProxySession) :
    Returned s.parser s.context s.output (streamedCloseResult s.upstream) s.downstreamFailed := by
  unfold downstreamFailed cancelInExecutor
  split <;> exact ⟨rfl, rfl, rfl, rfl⟩

/-- The coroutine waits for a write downstream. -/
def Writing (s : ProxySession) : Prop :=
  (∃ parsed, s.point = .writingHead parsed ∨ s.point = .writingChunk parsed) ∨
    s.point = .writingLast

/-- A write that is not of the head or of a chunk is that of the last chunk. -/
theorem Writing.last (h : s.Writing)
    (hother : ∀ parsed, s.point ≠ .writingHead parsed ∧ s.point ≠ .writingChunk parsed) :
    s.point = .writingLast := by
  rcases h with ⟨parsed, hhead | hchunk⟩ | hlast
  · exact absurd hhead (hother parsed).1
  · exact absurd hchunk (hother parsed).2
  · exact hlast

/-- How a write downstream ends. -/
theorem writeEnded_cases (s : ProxySession) (progress : WriteProgress) :
    (∃ parsed, s.point = .writingHead parsed ∧ progress = .sent ∧
      s.writeEnded progress = { s with
        output := finishWrite .sent s.output, responseStarted := true,
        point := .checkingBody parsed }) ∨
    (∃ parsed, s.point = .writingChunk parsed ∧ progress = .sent ∧
      s.writeEnded progress = { s with
        output := finishWrite .sent s.output,
        forwardedBodyBytes := s.parser.response.body.length,
        point := .checkingResult parsed }) ∨
    (((∃ parsed, s.point = .writingHead parsed ∨ s.point = .writingChunk parsed) ∧
        progress ≠ .sent) ∧
      Returned s.parser s.context (finishWrite progress s.output)
        (streamedCloseResult s.upstream) (s.writeEnded progress)) ∨
    ((∀ parsed, s.point ≠ .writingHead parsed ∧ s.point ≠ .writingChunk parsed) ∧
      Returned s.parser s.context (finishWrite progress s.output) s.streamedResult
        (s.writeEnded progress)) := by
  unfold writeEnded
  dsimp only
  split
  · next parsed hpoint =>
    split
    · next hprogress => exact .inl ⟨parsed, hpoint, hprogress, by rw [hprogress]⟩
    · next hprogress =>
      exact .inr (.inr (.inl ⟨⟨⟨parsed, .inl hpoint⟩, hprogress⟩,
        downstreamFailed_returned { s with output := finishWrite progress s.output }⟩))
  · next parsed hpoint =>
    split
    · next hprogress => exact .inr (.inl ⟨parsed, hpoint, hprogress, by rw [hprogress]⟩)
    · next hprogress =>
      exact .inr (.inr (.inl ⟨⟨⟨parsed, .inr hpoint⟩, hprogress⟩,
        downstreamFailed_returned { s with output := finishWrite progress s.output }⟩))
  · next hhead hchunk =>
    refine .inr (.inr (.inr ⟨fun parsed => ⟨hhead parsed, hchunk parsed⟩, ?_⟩))
    -- the response is over however the write of the last chunk ends
    split
    · exact ⟨rfl, rfl, rfl, rfl⟩
    · unfold cancelInExecutor
      dsimp only
      split <;> exact ⟨rfl, rfl, rfl, rfl⟩

/-- How a read that brings nothing ends. -/
theorem endOfInput_cases (s : ProxySession) :
    (s.stopReason ≠ .None ∧
      Returned s.parser s.context s.output
        (s.streamErrorResult { s with state := .Cancelled }.errorForStopReason) s.endOfInput) ∨
    (s.stopReason = .None ∧ s.parser.finishOnEof.1 = .Complete ∧ s.forwarding = true ∧
      s.endOfInput = { s with parser := s.parser.finishOnEof.2, point := .parsing }) ∨
    (s.stopReason = .None ∧ s.parser.finishOnEof.1 = .Complete ∧ s.forwarding = false ∧
      Returned s.parser.finishOnEof.2 s.context s.output
        ({ s with parser := s.parser.finishOnEof.2 }.completeResult false) s.endOfInput) ∨
    (s.stopReason = .None ∧ s.parser.finishOnEof.1 ≠ .Complete ∧
      Returned s.parser.finishOnEof.2 s.context s.output
        (s.streamErrorResult .UpstreamProtocol) s.endOfInput) := by
  unfold endOfInput
  dsimp only
  split
  · next hstop =>
    exact .inl ⟨hstop, returnStreamError_returned { s with state := .Cancelled } _⟩
  next hstop =>
  have hstop : s.stopReason = .None := by simpa using hstop
  split
  · next hcomplete =>
    split
    · next hforward => exact .inr (.inl ⟨hstop, hcomplete, hforward, rfl⟩)
    · next hforward =>
      exact .inr (.inr (.inl ⟨hstop, hcomplete, by simpa using hforward, ⟨rfl, rfl, rfl, rfl⟩⟩))
  · next hcomplete =>
    exact .inr (.inr (.inr ⟨hstop, hcomplete, returnStreamError_returned
      { s with parser := s.parser.finishOnEof.2, state := .Failed } _⟩))

/-- What follows a result of `parse`. -/
theorem checkResult_cases (s : ProxySession) (parsed : ResponseParseResult) :
    (parsed = .Complete ∧ s.forwarding = true ∧
      s.checkResult parsed = s.startWrite .last .writingLast) ∨
    (parsed = .Complete ∧ s.forwarding = false ∧
      Returned s.parser s.context s.output (s.completeResult s.reusable)
        (s.checkResult parsed)) ∨
    (parsed = .NeedMore ∧ ∃ state,
      s.checkResult parsed = { s with state := state, point := .preparing }) ∨
    (parsed ≠ .Complete ∧ parsed ≠ .NeedMore ∧
      Returned s.parser s.context s.output (s.streamErrorResult (parseError parsed))
        (s.checkResult parsed)) := by
  unfold checkResult
  split
  · split
    · next hforward => exact .inl ⟨rfl, hforward, rfl⟩
    · next hforward => exact .inr (.inl ⟨rfl, by simpa using hforward, ⟨rfl, rfl, rfl, rfl⟩⟩)
  · exact .inr (.inr (.inl ⟨rfl, _, rfl⟩))
  · next hcomplete hmore =>
    exact .inr (.inr (.inr ⟨hcomplete, hmore,
      returnStreamError_returned { s with state := .Failed } _⟩))

/-- A coroutine that has returned. -/
theorem ParserInv.of_returned {parser : HttpResponseParser} {context : RequestContext}
    {output : List Output} {result : ProxyResult} (h : parser.Bounded)
    (hr : Returned parser context output result s) : ParserInv s :=
  .of_bounded (hr.parser ▸ h) (by simp [hr.point, ProxyPoint.Early])
    (by simp [hr.point, ProxyPoint.parsed]) (by simp [hr.point, ProxyPoint.Waits])
    (by simp [hr.point, ProxyPoint.WritesLast])

/-- A coroutine that goes on with the result it holds. -/
theorem ParserInv.of_agrees {parsed : ResponseParseResult} (h : s.parser.Bounded)
    (hagrees : Agrees s.parser parsed) (hearly : s.point.Early = false)
    (hparsed : s.point.parsed = some parsed) (hwaits : s.point.Waits = false)
    (hlast : s.point.WritesLast = false) : ParserInv s where
  bounded := h
  early := by simp [hearly]
  agrees := by simpa [hparsed] using hagrees
  running := by simp [hwaits]
  last := by simp [hlast]

theorem ParserInv.endOfInput (h : s.parser.Bounded) : ParserInv s.endOfInput := by
  rcases s.endOfInput_cases with ⟨_, hr⟩ | ⟨_, _, _, heq⟩ | ⟨_, _, _, hr⟩ | ⟨_, _, hr⟩
  · exact .of_returned h hr
  · -- `forward` calls `parse` once more, on the parser that is complete
    rw [heq]
    exact .of_bounded h.finishOnEof rfl rfl rfl rfl
  · exact .of_returned h.finishOnEof hr
  · exact .of_returned h.finishOnEof hr

theorem ParserInv.checkResult {parsed : ResponseParseResult} (h : s.parser.Bounded)
    (hagrees : Agrees s.parser parsed) : ParserInv (s.checkResult parsed) := by
  rcases s.checkResult_cases parsed with
    ⟨hcomplete, _, heq⟩ | ⟨_, _, hr⟩ | ⟨hmore, _, heq⟩ | ⟨_, _, hr⟩
  · rw [heq]
    exact ⟨h, by simp [startWrite, ProxyPoint.Early], by simp [startWrite, ProxyPoint.parsed],
      by simp [startWrite, ProxyPoint.Waits], fun _ => hagrees.complete hcomplete⟩
  · exact .of_returned h hr
  · rw [heq]
    exact ⟨h, by simp [ProxyPoint.Early], by simp [ProxyPoint.parsed],
      fun _ => hagrees.running hmore, by simp [ProxyPoint.WritesLast]⟩
  · exact .of_returned h hr

theorem ParserInv.writeEnded (h : ParserInv s) (progress : WriteProgress) :
    ParserInv (s.writeEnded progress) := by
  rcases s.writeEnded_cases progress with
    ⟨parsed, hpoint, _, heq⟩ | ⟨parsed, hpoint, _, heq⟩ | ⟨_, hr⟩ | ⟨_, hr⟩
  · rw [heq]
    exact .of_agrees h.bounded (h.agrees parsed (by simp [hpoint, ProxyPoint.parsed]))
      rfl rfl rfl rfl
  · rw [heq]
    exact .of_agrees h.bounded (h.agrees parsed (by simp [hpoint, ProxyPoint.parsed]))
      rfl rfl rfl rfl
  · exact .of_returned h.bounded hr
  · exact .of_returned h.bounded hr

/-- A coroutine that has not sent the request. -/
theorem ParserInv.of_early (h : s.parser.Bounded) (hheaders : s.parser.InHeaders)
    (hparsed : s.point.parsed = none) (hwaits : s.point.Waits = false)
    (hlast : s.point.WritesLast = false) : ParserInv s where
  bounded := h
  early := fun _ => hheaders
  agrees := by simp [hparsed]
  running := by simp [hwaits]
  last := by simp [hlast]

/-- **Every step keeps the parser's invariant.** -/
theorem parserInv_step (h : ParserInv s) (hs : s.step e = some s') : ParserInv s' := by
  -- only `parse`, `reset` and `finishOnEof` change the parser; at the other steps its bounds
  -- are carried along, and the result the coroutine holds with them
  have hagrees : ∀ r, s.point.parsed = some r → Agrees s.parser r := h.agrees
  cases step_cases hs with
  | entered hpoint =>
    have hearly := h.early (by simp [hpoint, ProxyPoint.Early])
    unfold enter
    split
    · exact .of_bounded h.bounded rfl rfl rfl rfl
    split
    · exact .of_bounded h.bounded rfl rfl rfl rfl
    dsimp only
    split <;> exact .of_early h.bounded hearly rfl rfl rfl
  | parsed hpoint =>
    rcases parseInput_cases h.bounded with ⟨_, heq⟩ | ⟨parsed, parser, rest, _, hadv, hfit, heq⟩
    · rw [heq]
      exact .of_bounded h.bounded rfl rfl rfl rfl
    · rw [heq]
      split <;> exact .of_agrees hadv.bounded hfit rfl rfl rfl rfl
  | headChecked r hpoint =>
    have hfit := hagrees r (by simp [hpoint, ProxyPoint.parsed])
    unfold checkHead
    split <;> exact .of_agrees h.bounded hfit rfl rfl rfl rfl
  | bodyChecked r hpoint =>
    have hfit := hagrees r (by simp [hpoint, ProxyPoint.parsed])
    unfold checkBody
    split <;> exact .of_agrees h.bounded hfit rfl rfl rfl rfl
  | resultChecked r hpoint =>
    exact .checkResult h.bounded (hagrees r (by simp [hpoint, ProxyPoint.parsed]))
  | prepared hpoint =>
    have hrunning := h.running (by simp [hpoint, ProxyPoint.Waits])
    unfold prepareInput
    split
    · exact .of_bounded h.bounded rfl rfl rfl rfl
    · exact ⟨h.bounded, by simp [ProxyPoint.Early], by simp [ProxyPoint.parsed],
        fun _ => hrunning, by simp [ProxyPoint.WritesLast]⟩
  | resolved ok hpoint =>
    split
    · exact .of_early h.bounded (h.early (by simp [hpoint, ProxyPoint.Early])) rfl rfl rfl
    · exact .of_returned h.bounded (operationFailed_returned s.phaseEnded)
  | connected ok hpoint =>
    split
    · exact .of_early h.bounded (h.early (by simp [hpoint, ProxyPoint.Early])) rfl rfl rfl
    · exact .of_returned h.bounded (operationFailed_returned s.phaseEnded)
  | requestSent ok request hpoint =>
    split
    -- the parser is reset for the response before the first `prepare`
    · exact .of_bounded (HttpResponseParser.bounded_reset h.bounded.accepted _) rfl rfl rfl rfl
    · exact .of_returned h.bounded (operationFailed_returned s.phaseEnded)
  | received data hpoint hdata hroom => exact .of_bounded h.bounded rfl rfl rfl rfl
  | readFailed hpoint => exact .endOfInput h.bounded
  | headWritten r progress hpoint hprogress => exact h.writeEnded progress
  | chunkWritten r progress hpoint hprogress => exact h.writeEnded progress
  | lastWritten progress hpoint hprogress => exact h.writeEnded progress
  | phaseExpired reason hsuspended hdeadline =>
    exact ParserInv.cancel (s := s.phaseEnded)
      ⟨h.bounded, h.early, h.agrees, h.running, h.last⟩ reason
  | totalExpired hsuspended hdeadline =>
    exact ParserInv.cancel (s := { s with totalDeadline := false })
      ⟨h.bounded, h.early, h.agrees, h.running, h.last⟩ _
  | cancelled reason hsuspended hreason => exact h.cancel reason

/-- A new session. -/
theorem create_eq_ok {upstream : UpstreamEndpoint} {limits : ProxyLimits} {connectionOpen : Bool}
    {context : RequestContext} {request : HttpRequest} {forwarding : Bool}
    (h : create upstream limits connectionOpen context request forwarding = .ok s) :
    s.limits.responseParser.Accepted ∧ s.point = .entry ∧ s.output = [] ∧
      s.parser = { limits := limits.responseParser } ∧ s.limits = limits ∧ s.context = context ∧
      s.request = request ∧ s.forwarding = forwarding ∧ s.stopReason = .None ∧
      s.responseStarted = false ∧ s.phaseDeadline = none := by
  -- the members are constructed in order, the buffer and the parser before the body's checks
  unfold create at h
  cases hbuffer : Buffer.create limits.readChunkBytes limits.maxBufferBytes with
  | error e => simp [hbuffer, Except.bind] at h
  | ok input =>
    simp only [hbuffer, Except.bind] at h
    split at h
    · cases h
    next haccepted =>
    split at h
    · cases h
    · cases h
      exact ⟨by simpa using haccepted, rfl, rfl, rfl, rfl, rfl, rfl, rfl, rfl, rfl, rfl⟩

/-- The buffer of a new session is a new one. -/
theorem create_input {upstream : UpstreamEndpoint} {limits : ProxyLimits} {connectionOpen : Bool}
    {context : RequestContext} {request : HttpRequest} {forwarding : Bool}
    (h : create upstream limits connectionOpen context request forwarding = .ok s) :
    Buffer.create limits.readChunkBytes limits.maxBufferBytes = .ok s.input := by
  unfold create at h
  cases hbuffer : Buffer.create limits.readChunkBytes limits.maxBufferBytes with
  | error e => simp [hbuffer, Except.bind] at h
  | ok input =>
    simp only [hbuffer, Except.bind] at h
    split at h
    · cases h
    split at h
    · cases h
    · cases h
      rfl

theorem parserInv_create {upstream : UpstreamEndpoint} {limits : ProxyLimits}
    {connectionOpen : Bool} {context : RequestContext} {request : HttpRequest} {forwarding : Bool}
    (h : create upstream limits connectionOpen context request forwarding = .ok s) :
    ParserInv s := by
  obtain ⟨haccepted, hpoint, _, hparser, hlimits, _⟩ := create_eq_ok h
  have hbounded : HttpResponseParser.Bounded s.parser := by
    rw [hparser, ← hlimits]
    exact HttpResponseParser.bounded_reset (p := { limits := s.limits.responseParser })
      haccepted false
  exact ⟨hbounded, fun _ => .inl (by rw [hparser]), by simp [hpoint, ProxyPoint.parsed],
    by simp [hpoint, ProxyPoint.Waits], by simp [hpoint, ProxyPoint.WritesLast]⟩

end ProxySession
end PulseGate
