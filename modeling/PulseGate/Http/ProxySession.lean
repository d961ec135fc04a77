import PulseGate.Lib.Machine
import PulseGate.Net.Buffer
import PulseGate.Http.CircuitBreaker
import PulseGate.Http.ProxyMessages
import PulseGate.Http.ResponseParser
import PulseGate.Http.UpstreamPool

namespace PulseGate

/-!
# One upstream transaction

`ProxySession` of `reverse_proxy.cpp` as a machine.  Its coroutines `execute` and `forward` are
taken to run on the executor of the session, so that between two suspensions nothing else
happens: the points at which they suspend take an event of the outside, the other points only
`run`.  While they are suspended a deadline that is armed can expire, and the transaction can be
cancelled.  After an operation on a connection from another session's pool they run on the
strand of that connection, and a deadline or a cancellation can come between any two points:
these stops are in `StrandExchange`.

Closing the connection does not take an operation back that has already completed: a read
can still deliver bytes after a cancellation.
-/

structure HealthThresholds where
  healthyThreshold : Nat := 2
  unhealthyThreshold : Nat := 3
  deriving DecidableEq, Repr

/-- The timeouts are in milliseconds, `overloadRetryAfter` is in seconds. -/
structure ProxyLimits where
  responseParser : HttpResponseParserLimits := {}
  readChunkBytes : Nat := 8192
  maxBufferBytes : Nat := 1024 * 1024 + 32 * 1024
  dnsTimeout : Int := 2000
  connectTimeout : Int := 2000
  responseTimeout : Int := 5000
  totalTimeout : Int := 10000
  healthThresholds : HealthThresholds := {}
  poolLimits : PoolLimits := {}
  circuitBreaker : CircuitBreakerLimits := {}
  maxInFlightRequests : Nat := 1024
  overloadRetryAfter : Int := 1
  count5xxAsHealthFailure : Bool := true
  deriving DecidableEq, Repr

inductive ProxyState
  | Created
  | Resolving
  | Connecting
  | SendingRequest
  | ReadingResponseHeaders
  | ReadingResponseBody
  | Complete
  | Failed
  | Cancelled
  deriving DecidableEq, Repr

inductive ProxyStopReason
  | None
  | DnsTimeout
  | ConnectTimeout
  | ResponseTimeout
  | TotalTimeout
  | DownstreamClosed
  | ServerShutdown
  | InternalError
  deriving DecidableEq, Repr

/-! ### What is written downstream -/

/-- A write on the client's connection. -/
inductive DownstreamWrite
  | response (bytes : Bytes)
  | head (bytes : Bytes)
  | chunk (payload : Bytes)
  | last
  deriving DecidableEq, Repr

def DownstreamWrite.bytes : DownstreamWrite → Bytes
  | .response bytes => bytes
  | .head bytes => bytes
  | .chunk payload => chunkFrame payload
  | .last => lastChunkFrame

/-- How far a write got. -/
inductive WriteProgress
  | pending
  | sent
  | failed (count : Nat)
  deriving DecidableEq, Repr

structure Output where
  write : DownstreamWrite
  progress : WriteProgress := .pending
  deriving DecidableEq, Repr

/-- The latest write ends. -/
def finishWrite (progress : WriteProgress) : List Output → List Output
  | [] => []
  | o :: log => { o with progress := progress } :: log

/-! ### The machine -/

/-- Where a coroutine of the session is. -/
inductive ProxyPoint
  | entry
  | resolving
  | connecting
  | sending (bytes : Bytes)
  | parsing
  | checkingHead (parsed : ResponseParseResult)
  | writingHead (parsed : ResponseParseResult)
  | checkingBody (parsed : ResponseParseResult)
  | writingChunk (parsed : ResponseParseResult)
  | checkingResult (parsed : ResponseParseResult)
  | writingLast
  | preparing
  | reading
  | returned (result : ProxyResult)
  | raised (exception : Exception)
  | outOfBounds
  deriving DecidableEq, Repr

/-- The coroutine waits for an event. -/
def ProxyPoint.Suspended : ProxyPoint → Bool
  | .resolving | .connecting | .sending _ | .writingHead _ | .writingChunk _ | .writingLast
  | .reading => true
  | _ => false

inductive ProxyEvent
  /-- The coroutine goes on to its next point. -/
  | run
  | resolved (ok : Bool)
  | connected (ok : Bool)
  | sent (ok : Bool)
  /-- `async_read_some` has read `bytes`. -/
  | received (bytes : Bytes)
  /-- `async_read_some` has failed or reached the end of the stream. -/
  | readFailed
  /-- The write downstream is done, or has failed after `count` bytes. -/
  | written (progress : WriteProgress)
  | phaseExpired
  | totalExpired
  | cancelled (reason : ProxyStopReason)
  deriving DecidableEq, Repr

structure ProxySession where
  upstream : UpstreamEndpoint
  limits : ProxyLimits
  context : RequestContext
  request : HttpRequest
  /-- The coroutine is `forward`, not `execute`. -/
  forwarding : Bool
  input : Buffer
  parser : HttpResponseParser
  connectionOpen : Bool
  state : ProxyState := .Created
  stopReason : ProxyStopReason := .None
  /-- The reason the phase deadline was armed with. -/
  phaseDeadline : Option ProxyStopReason := none
  totalDeadline : Bool := false
  responseStarted : Bool := false
  forwardedBodyBytes : Nat := 0
  point : ProxyPoint := .entry
  /-- What was written downstream, the latest write first. -/
  output : List Output := []

namespace ProxySession

/-- The limits the constructor of `ProxySession` accepts, for an endpoint with a host and a
    service. -/
def AcceptedLimits (l : ProxyLimits) : Prop :=
  l.responseParser.Accepted ∧ l.readChunkBytes ≠ 0 ∧ l.readChunkBytes ≤ l.maxBufferBytes ∧
    0 < l.dnsTimeout ∧ 0 < l.connectTimeout ∧ 0 < l.responseTimeout ∧ 0 < l.totalTimeout

instance : DecidablePred AcceptedLimits := fun _ =>
  inferInstanceAs (Decidable (_ ∧ _ ∧ _ ∧ _ ∧ _ ∧ _ ∧ _))

/-- The constructor, and the coroutine that is called on the session.  `connectionOpen` says
    that the lease's connection is open. -/
def create (upstream : UpstreamEndpoint) (limits : ProxyLimits) (connectionOpen : Bool)
    (context : RequestContext) (request : HttpRequest) (forwarding : Bool) :
    Except Exception ProxySession :=
  (Buffer.create limits.readChunkBytes limits.maxBufferBytes).bind fun input =>
    if !limits.responseParser.Accepted then .error .InvalidArgument
    else if upstream.host.isEmpty ∨ upstream.service.isEmpty ∨ !AcceptedLimits limits then
      .error .InvalidArgument
    else
      .ok { upstream := upstream, limits := limits, context := context, request := request,
            forwarding := forwarding, input := input, parser := { limits := limits.responseParser },
            connectionOpen := connectionOpen }

/-! ### Ends of a coroutine -/

def errorForStopReason (s : ProxySession) : ProxyError :=
  match s.stopReason with
  | .DnsTimeout => .ConnectTimeout
  | .ConnectTimeout => .ConnectTimeout
  | .ResponseTimeout | .TotalTimeout => .ResponseTimeout
  | .DownstreamClosed | .ServerShutdown => .Cancelled
  | .None | .InternalError => if s.state = .Resolving then .DnsFailure else .ConnectFailure

def cancelInExecutor (s : ProxySession) (reason : ProxyStopReason) : ProxySession :=
  if s.stopReason ≠ .None then s
  else { s with stopReason := reason, state := .Cancelled, connectionOpen := false }

/-- `disarmTimers` and `co_return`. -/
def returnResult (s : ProxySession) (result : ProxyResult) : ProxySession :=
  { s with phaseDeadline := none, totalDeadline := false, point := .returned result }

/-- The coroutine returns an error without a response. -/
def returnError (s : ProxySession) (error : ProxyError) : ProxySession :=
  s.returnResult { error := error, upstream := s.upstream }

/-- `forwardResponse` returns an error: nothing may follow bytes that were streamed. -/
def returnStreamError (s : ProxySession) (error : ProxyError) : ProxySession :=
  if s.responseStarted then s.returnResult (streamedCloseResult s.upstream)
  else s.returnError error

/-- An operation of `resolve`, `connect` or `sendRequest` has failed. -/
def operationFailed (s : ProxySession) : ProxySession :=
  let s := if s.stopReason = .None then { s with stopReason := .InternalError } else s
  s.returnError s.errorForStopReason

/-! ### Before the response -/

def upgradeRequested (request : HttpRequest) : Bool :=
  request.headers.contains (bytes "upgrade") ||
    (request.headers.get (bytes "connection")).any fun value =>
      containsToken value (bytes "upgrade")

def startConnect (s : ProxySession) : ProxySession :=
  { s with state := .Connecting, phaseDeadline := some .ConnectTimeout, point := .connecting }

def startResolve (s : ProxySession) : ProxySession :=
  { s with state := .Resolving, phaseDeadline := some .DnsTimeout, point := .resolving }

def startSending (s : ProxySession) : ProxySession :=
  { s with state := .SendingRequest, phaseDeadline := some .ResponseTimeout,
           point := .sending (serializeUpstreamRequest s.request s.upstream s.context) }

/-- The start of `readResponse` and `forwardResponse`. -/
def startResponse (s : ProxySession) : ProxySession :=
  { s with parser := s.parser.reset (!s.forwarding && decide (s.request.method = .Head)),
           state := .ReadingResponseHeaders, responseStarted := false, forwardedBodyBytes := 0,
           point := .parsing }

/-- The start of `execute` and `forward`. -/
def enter (s : ProxySession) : ProxySession :=
  if upgradeRequested s.request then
    { s with point := .returned { error := .UnsupportedRequest, upstream := s.upstream } }
  else if s.forwarding ∧ !s.context.writeDownstream then
    -- no timer is armed yet
    { s with point := .returned { error := .ConnectFailure, upstream := s.upstream } }
  else
    let s := { s with totalDeadline := true }
    if s.connectionOpen then s.startSending else s.startResolve

/-- The end of an asynchronous operation of a phase. -/
def phaseEnded (s : ProxySession) : ProxySession := { s with phaseDeadline := none }

/-! ### The response -/

/-- The buffer after a call of `parse`, which has left `rest` unread. -/
def inputAfter (s : ProxySession) (rest : Bytes) : Buffer :=
  if rest.length = s.input.readableView.length then s.input
  else s.input.consumed (s.input.readableView.length - rest.length)

/-- `parser_.parse(input_)`. -/
def parseInput (s : ProxySession) : ProxySession :=
  match s.parser.parse s.input.readableView with
  | .outOfBounds => { s with point := .outOfBounds }
  | .finished parsed parser rest =>
    { s with parser := parser, input := s.inputAfter rest,
             point := if s.forwarding then .checkingHead parsed else .checkingResult parsed }

def startWrite (s : ProxySession) (write : DownstreamWrite) (point : ProxyPoint) : ProxySession :=
  { s with output := { write := write } :: s.output, point := point }

def checkHead (s : ProxySession) (parsed : ResponseParseResult) : ProxySession :=
  if s.parser.headerComplete ∧ !s.responseStarted then
    s.startWrite (.head (serializeStreamingHead (sanitizeUpstreamResponse s.parser.response)
      s.context.requestId)) (.writingHead parsed)
  else { s with point := .checkingBody parsed }

def checkBody (s : ProxySession) (parsed : ResponseParseResult) : ProxySession :=
  if s.forwardedBodyBytes < s.parser.response.body.length then
    s.startWrite (.chunk (s.parser.response.body.drop s.forwardedBodyBytes))
      (.writingChunk parsed)
  else { s with point := .checkingResult parsed }

/-- A write downstream has failed. -/
def downstreamFailed (s : ProxySession) : ProxySession :=
  (s.cancelInExecutor .DownstreamClosed).returnResult (streamedCloseResult s.upstream)

/-- The error of a response the parser rejects. -/
def parseError (parsed : ResponseParseResult) : ProxyError :=
  if parsed = .BodyTooLarge then .UpstreamBodyTooLarge else .UpstreamProtocol

/-- The lease may be returned as far as the response is concerned. -/
def reusable (s : ProxySession) : Bool :=
  s.parser.reusable && decide (s.input.readableBytes = 0)

/-- The result of `execute` for a complete response. -/
def completeResult (s : ProxySession) (reusable : Bool) : ProxyResult :=
  { response := sanitizeUpstreamResponse s.parser.response, upstream := s.upstream,
    reusable := reusable, upstreamStatus := s.parser.response.statusCode }

def checkResult (s : ProxySession) (parsed : ResponseParseResult) : ProxySession :=
  match parsed with
  | .Complete =>
    if s.forwarding then s.startWrite .last .writingLast
    else { s with state := .Complete }.returnResult (s.completeResult s.reusable)
  -- the parser needs more input, which makes the loop go on with a read
  | .NeedMore =>
    { s with state := if s.parser.headerComplete then .ReadingResponseBody
                      else .ReadingResponseHeaders,
             point := .preparing }
  | error => { s with state := .Failed }.returnStreamError (parseError error)

/-- `input_.prepare` and the start of the read. -/
def prepareInput (s : ProxySession) : ProxySession :=
  match s.input.prepare s.limits.readChunkBytes with
  | .error e => { s with point := .raised e }
  | .ok input =>
    { s with input := input, phaseDeadline := some .ResponseTimeout, point := .reading }

/-- The end of a read that brought nothing. -/
def endOfInput (s : ProxySession) : ProxySession :=
  if s.stopReason ≠ .None then
    let s := { s with state := .Cancelled }
    s.returnStreamError s.errorForStopReason
  else
    let (parsed, parser) := s.parser.finishOnEof
    let s := { s with parser := parser }
    if parsed = .Complete then
      -- `forward` goes round its loop again, for what is left to write
      if s.forwarding then { s with point := .parsing }
      else { s with state := .Complete }.returnResult (s.completeResult false)
    else { s with state := .Failed }.returnStreamError .UpstreamProtocol

/-- The result of `forward` for a complete response. -/
def streamedResult (s : ProxySession) : ProxyResult :=
  { response := { alreadyWritten := true }, upstream := s.upstream, reusable := s.reusable,
    upstreamStatus := s.parser.response.statusCode }

/-- The end of a write downstream. -/
def writeEnded (s : ProxySession) (progress : WriteProgress) : ProxySession :=
  let s := { s with output := finishWrite progress s.output }
  match s.point with
  | .writingHead parsed =>
    if progress = .sent then { s with responseStarted := true, point := .checkingBody parsed }
    else s.downstreamFailed
  | .writingChunk parsed =>
    if progress = .sent then
      { s with forwardedBodyBytes := s.parser.response.body.length,
               point := .checkingResult parsed }
    else s.downstreamFailed
  | _ =>
    -- the last chunk: its failure closes the connection, and changes nothing in the result
    let s := if progress = .sent then s else s.cancelInExecutor .DownstreamClosed
    { s with state := .Complete }.returnResult s.streamedResult

/-! ### One event -/

/-- The coroutine runs to its next point, if it does not wait. -/
def resume (s : ProxySession) : Option ProxySession :=
  match s.point with
  | .entry => some s.enter
  | .parsing => some s.parseInput
  | .checkingHead parsed => some (s.checkHead parsed)
  | .checkingBody parsed => some (s.checkBody parsed)
  | .checkingResult parsed => some (s.checkResult parsed)
  | .preparing => some s.prepareInput
  | _ => none

/-- One event; `none` when the session does not wait for it. -/
def step (s : ProxySession) : ProxyEvent → Option ProxySession
  | .run => s.resume
  | .resolved ok =>
    if s.point = .resolving then
      some (if ok then s.phaseEnded.startConnect else s.phaseEnded.operationFailed)
    else none
  | .connected ok =>
    if s.point = .connecting then
      some (if ok then s.phaseEnded.startSending else s.phaseEnded.operationFailed)
    else none
  | .sent ok =>
    match s.point with
    | .sending _ => some (if ok then s.phaseEnded.startResponse else s.phaseEnded.operationFailed)
    | _ => none
  | .received bytes =>
    if h : s.point = .reading ∧ bytes ≠ [] ∧ bytes.length ≤ s.input.preparedBytes then
      -- the bytes are committed to the buffer and parsed next
      some { s.phaseEnded with input := s.input.received bytes h.2.2, point := .parsing }
    else none
  | .readFailed => if s.point = .reading then some s.phaseEnded.endOfInput else none
  | .written progress =>
    match s.point with
    | .writingHead _ | .writingChunk _ | .writingLast =>
      if progress = .pending then none else some (s.writeEnded progress)
    | _ => none
  | .phaseExpired =>
    if s.point.Suspended then
      -- the timer of the phase cancels the operation it was armed for
      s.phaseDeadline.map fun reason => s.phaseEnded.cancelInExecutor reason
    else none
  | .totalExpired =>
    if s.point.Suspended ∧ s.totalDeadline then
      some ({ s with totalDeadline := false }.cancelInExecutor .TotalTimeout)
    else none
  | .cancelled reason =>
    -- only these two reasons come from outside
    if s.point.Suspended ∧ (reason = .DownstreamClosed ∨ reason = .ServerShutdown) then
      some (s.cancelInExecutor reason)
    else none

end ProxySession
end PulseGate
