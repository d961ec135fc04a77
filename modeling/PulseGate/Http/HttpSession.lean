import PulseGate.Lib.Machine
import PulseGate.Net.Buffer
import PulseGate.Http.RequestParser
import PulseGate.Http.ReverseProxy

namespace PulseGate

/-!
# The session of one client connection

`HttpSession` of `http_server.cpp`.  Its coroutine `run` and the calls on it are serialized by
the executor of the socket, so that a step is what happens from one suspension of the coroutine
to the next, or one call: `HttpSession` is a machine whose events are the completions of the
operations it waits for, the calls, and the expiry of its deadline.  Time points are integers in
nanoseconds of the steady clock, timeouts are in milliseconds.

This assumes that `Router::handle` returns on the executor of the session.  A proxy handler that
gives up a streamed response after an upstream read returns on the strand of the upstream
connection, where the end of `run` and a call on the session can overlap; such an overlap is
not in the model.

The router answers through the events, and so do the socket and the streaming handler that
writes through `writeDownstream`.  What the session does outside is kept in logs, the latest
entry first.
-/

structure SessionLimits where
  parser : HttpParserLimits := {}
  readChunkBytes : Nat := 4096
  maxBufferBytes : Nat := 2 * 1024 * 1024
  headerTimeout : Int := 10000
  bodyTimeout : Int := 30000
  idleTimeout : Int := 15000
  maxConnections : Nat := 1024
  deriving DecidableEq, Repr

/-- Reads of at most 64 bytes, for small runs. -/
def smallReads : SessionLimits := { readChunkBytes := 64 }

inductive SessionState
  | Created
  | Running
  | Draining
  | Closing
  | Closed
  deriving DecidableEq, Repr

inductive StopReason
  | None
  | PeerClosed
  | ProtocolError
  | HeaderTimeout
  | BodyTimeout
  | IdleTimeout
  | ServerShutdown
  | ResourceLimit
  | InternalError
  deriving DecidableEq, Repr

/-- `HttpRequest::keepAlive`. -/
def HttpRequest.keepAlive (request : HttpRequest) : Bool :=
  let connection := request.headers.values (bytes "connection")
  if connection.any (containsToken · (bytes "close")) then false
  else if request.versionMajor = 1 ∧ request.versionMinor = 0 then
    connection.any (containsToken · (bytes "keep-alive"))
  else true

/-- `makeErrorResponse`. -/
def makeErrorResponse (result : ParseResult) : Except Exception HttpResponse :=
  let response (statusCode : Int) (reason body : String) : HttpResponse :=
    { statusCode := statusCode, reason := bytes reason, body := bytes body,
      closeConnection := true }
  match result with
  | .BadRequest => .ok (response 400 "Bad Request" "bad request\n")
  | .HeaderTooLarge =>
    .ok (response 431 "Request Header Fields Too Large" "request header fields too large\n")
  | .BodyTooLarge => .ok (response 413 "Content Too Large" "request body too large\n")
  | .UnsupportedTransferEncoding =>
    .ok (response 501 "Not Implemented" "transfer encoding is not supported\n")
  | .NeedMore | .Complete => .error .LogicError

/-- Where the coroutine `run` is. -/
inductive SessionPoint
  | spawned
  /-- In `async_read_some`. -/
  | reading
  /-- In `Router::handle`. -/
  | handling (request : HttpRequest)
  /-- In `Router::handle`, whose handler waits for `writeDownstream`. -/
  | streaming (request : HttpRequest)
  /-- In `writeResponse`. -/
  | responding (request : HttpRequest) (response : HttpResponse)
  /-- In `writeParserError`. -/
  | refusing
  | finished
  deriving DecidableEq, Repr

structure HttpSession where
  limits : SessionLimits
  input : Buffer
  parser : HttpParser
  /-- The deadline that is armed: when it expires, and the reason it stops the session with. -/
  deadline : Option (Int × StopReason) := none
  /-- A proxy transaction is attached to the session. -/
  currentProxy : Bool := false
  state : SessionState := .Created
  stopReason : StopReason := .None
  reading : Bool := false
  servedRequest : Bool := false
  closeRecorded : Bool := false
  responseBytes : Nat := 0
  point : SessionPoint := .spawned
  /-- The requests that were passed to the router. -/
  handled : List HttpRequest := []
  /-- What was written to the socket. -/
  output : List Bytes := []
  /-- The status codes that were recorded, and the sizes of the responses. -/
  records : List (Int × Nat) := []
  /-- The values that were assigned to the stop reason. -/
  stopReasons : List StopReason := []
  /-- The reasons with which the session was taken from the registry. -/
  removals : List StopReason := []
  /-- The reasons with which the proxy transaction was cancelled. -/
  proxyCancels : List ProxyStopReason := []

inductive SessionEvent
  /-- The coroutine begins. -/
  | started
  /-- A read completes, with nothing only if the socket says so. -/
  | received (bytes : Bytes)
  | readFailed
  /-- The handler sets the current proxy transaction, or takes it away. -/
  | proxySet (attached : Bool)
  /-- The handler writes to the client. -/
  | streamed (bytes : Bytes)
  /-- A write has ended. -/
  | written (ok : Bool)
  /-- `Router::handle` returns, on the executor of the session. -/
  | answered (response : HttpResponse)
  | deadlineExpired
  /-- `HttpSession::stop`, as the registry calls it. -/
  | stopped
  /-- `HttpSession::beginDrain`. -/
  | drained
  deriving DecidableEq, Repr

namespace HttpSession

/-! ### The constructor -/

/-- The limits the body of the constructor accepts. -/
def AcceptedLimits (l : SessionLimits) : Prop :=
  l.readChunkBytes ≠ 0 ∧ l.readChunkBytes ≤ l.maxBufferBytes ∧
    l.parser.maxHeaderBytes ≤ l.maxBufferBytes ∧
    l.parser.maxBodyBytes ≤ l.maxBufferBytes - l.parser.maxHeaderBytes ∧
    0 < l.headerTimeout ∧ 0 < l.bodyTimeout ∧ 0 < l.idleTimeout

instance : DecidablePred AcceptedLimits := fun _ =>
  inferInstanceAs (Decidable (_ ∧ _ ∧ _ ∧ _ ∧ _ ∧ _ ∧ _))

/-- The constructor, given a router, a registry and the observability. -/
def create (limits : SessionLimits) : Except Exception HttpSession :=
  (Buffer.create limits.readChunkBytes limits.maxBufferBytes).bind fun input =>
    if !limits.parser.Accepted then .error .InvalidArgument
    else if !AcceptedLimits limits then .error .InvalidArgument
    else .ok { limits := limits, input := input, parser := { limits := limits.parser } }

/-! ### Stopping -/

/-- `stop_reason_ = reason`. -/
def setStopReason (s : HttpSession) (reason : StopReason) : HttpSession :=
  { s with stopReason := reason, stopReasons := reason :: s.stopReasons }

/-- The same, where the source looks first whether there is a reason. -/
def noteStopReason (s : HttpSession) (reason : StopReason) : HttpSession :=
  if s.stopReason = .None then s.setStopReason reason else s

/-- The current proxy transaction is cancelled. -/
def cancelProxy (s : HttpSession) (reason : StopReason) : HttpSession :=
  if s.currentProxy then
    { s with currentProxy := false,
             proxyCancels := (if reason = .ServerShutdown then .ServerShutdown
               else .DownstreamClosed) :: s.proxyCancels }
  else s

/-- The session is Closed, and taken from the registry. -/
def recordClose (s : HttpSession) : HttpSession :=
  if s.closeRecorded then { s with state := .Closed }
  else
    { s with state := .Closed, closeRecorded := true, removals := s.stopReason :: s.removals }

/-- `closeInExecutor`. -/
def closeInExecutor (s : HttpSession) (reason : StopReason) : HttpSession :=
  if s.state = .Closed ∨ s.state = .Closing then s
  else
    ({ ({ s with state := .Closing } : HttpSession).noteStopReason reason with
      deadline := none }.cancelProxy reason).recordClose

/-- `beginDrainInExecutor`. -/
def beginDrainInExecutor (s : HttpSession) : HttpSession :=
  if s.state = .Closing ∨ s.state = .Closed then s
  else
    let s := { s with state := .Draining }
    if s.reading then s.closeInExecutor .ServerShutdown else s

/-- The end of `run`, after its loop. -/
def leave (s : HttpSession) : HttpSession :=
  let s := { s with point := .finished }
  if s.state ≠ .Closed then
    s.closeInExecutor (if s.stopReason = .None then .PeerClosed else s.stopReason)
  else s

/-- An exception leaves `run`, and is caught where the coroutine was spawned. -/
def raised (s : HttpSession) : HttpSession :=
  ({ s with point := .finished } : HttpSession).closeInExecutor .InternalError

/-! ### Reading a request -/

/-- The reason and the timeout of the next read. -/
def readDeadline (s : HttpSession) : StopReason × Int :=
  if s.parser.state = .Body then (.BodyTimeout, s.limits.bodyTimeout)
  else if s.servedRequest ∧ s.parser.state = .RequestLine ∧ s.input.readableBytes = 0 then
    (.IdleTimeout, s.limits.idleTimeout)
  else (.HeaderTimeout, s.limits.headerTimeout)

/-- `armReadDeadline`. -/
def armReadDeadline (s : HttpSession) (now : Int) : HttpSession :=
  { s with deadline := some (now + milliseconds s.readDeadline.2, s.readDeadline.1) }

/-- `input_.prepare` and the start of the read. -/
def startReading (s : HttpSession) (now : Int) : HttpSession :=
  match s.input.prepare s.limits.readChunkBytes with
  | .error _ => s.raised
  | .ok input =>
    { ({ s with input := input } : HttpSession).armReadDeadline now with
      reading := true, point := .reading }

/-- The scope of the read is left. -/
def readEnded (s : HttpSession) : HttpSession := { s with reading := false, deadline := none }

/-- The start of `async_write`. -/
def startWrite (s : HttpSession) (bytes : Bytes) (point : SessionPoint) : HttpSession :=
  { s with responseBytes := s.responseBytes + bytes.length, output := bytes :: s.output,
           point := point }

/-- `writeParserError`, in `readRequest`. -/
def refuse (s : HttpSession) (result : ParseResult) : HttpSession :=
  let s := s.setStopReason .ProtocolError
  match makeErrorResponse result with
  | .error _ => s.raised
  | .ok response =>
    match response.serialize false with
    | .error _ => s.raised
    | .ok bytes => s.startWrite bytes .refusing

/-- `run` has read the request. -/
def handle (s : HttpSession) (request : HttpRequest) : HttpSession :=
  if s.state = .Closing ∨ s.state = .Closed then s.leave
  else
    { s with responseBytes := 0, point := .handling request, handled := request :: s.handled }

/-- The buffer after a call of `parse`, which has left `rest` unread. -/
def inputAfter (s : HttpSession) (rest : Bytes) : Buffer :=
  if rest.length = s.input.readableView.length then s.input
  else s.input.consumed (s.input.readableView.length - rest.length)

/-- `readRequest`, up to where it waits or returns. -/
def readRequest (s : HttpSession) (now : Int) : HttpSession :=
  let (result, parser, rest) := s.parser.parse s.input.readableView
  let s := { s with parser := parser, input := s.inputAfter rest }
  match result with
  | .NeedMore => s.startReading now
  | .Complete =>
    match s.parser.takeRequest with
    | .error _ => s.raised
    | .ok (request, parser) => { s with parser := parser }.handle request
  | _ => s.refuse result

/-- The head of the loop of `run`. -/
def nextRequest (s : HttpSession) (now : Int) : HttpSession :=
  if s.state = .Running ∨ s.state = .Draining then s.readRequest now else s.leave

/-! ### Answering it -/

/-- The rest of the loop after the response. -/
def respond (s : HttpSession) (request : HttpRequest) (response : HttpResponse) (now : Int) :
    HttpSession :=
  let s := { s with records := (response.statusCode, s.responseBytes) :: s.records,
                    servedRequest := true }
  if response.closeConnection ∨ !request.keepAlive ∨ s.state = .Draining ∨ s.state = .Closing ∨
      s.state = .Closed then s.leave
  else { s with parser := s.parser.reset }.nextRequest now

/-- `run` after `Router::handle`. -/
def answer (s : HttpSession) (request : HttpRequest) (response : HttpResponse) (now : Int) :
    HttpSession :=
  let s := { s with currentProxy := false }
  if response.alreadyWritten then s.respond request response now
  else
    match response.serialize (decide (request.method = .Head)) with
    | .error _ => s.raised
    | .ok bytes => s.startWrite bytes (.responding request response)

/-- A write has failed, or not. -/
def writeEnded (s : HttpSession) (ok : Bool) : HttpSession :=
  if ok then s else s.noteStopReason .PeerClosed

/-! ### One event -/

/-- An event at its time; `none` when the session does not wait for it. -/
def step (s : HttpSession) : Int × SessionEvent → Option HttpSession
  | (now, .started) =>
    match s.point with
    | .spawned =>
      some ((if s.state = .Created then { s with state := .Running } else s).nextRequest now)
    | _ => none
  | (now, .received bytes) =>
    if h : s.point = .reading ∧ bytes.length ≤ s.input.preparedBytes then
      -- a read of no bytes counts as the close of the peer
      if bytes = [] then some ((s.noteStopReason .PeerClosed).readEnded.leave)
      else some ({ s with input := s.input.received bytes h.2 }.readEnded.readRequest now)
    else none
  | (_, .readFailed) =>
    match s.point with
    | .reading => some ((s.noteStopReason .PeerClosed).readEnded.leave)
    | _ => none
  | (_, .proxySet attached) =>
    match s.point with
    | .handling _ => some { s with currentProxy := attached }
    | _ => none
  | (_, .streamed bytes) =>
    match s.point with
    | .handling request => some (s.startWrite bytes (.streaming request))
    | _ => none
  | (now, .written ok) =>
    match s.point with
    | .streaming request => some { s.writeEnded ok with point := .handling request }
    | .responding request response => some ((s.writeEnded ok).respond request response now)
    | .refusing => some (s.writeEnded ok).leave
    | _ => none
  | (now, .answered response) =>
    match s.point with
    | .handling request => some (s.answer request response now)
    | _ => none
  | (now, .deadlineExpired) =>
    match s.deadline with
    | some (expiry, reason) =>
      -- only the deadline that is armed now can expire
      if expiry ≤ now then some ({ s with deadline := none }.closeInExecutor reason) else none
    | none => none
  | (_, .stopped) => some (s.closeInExecutor .ServerShutdown)
  | (_, .drained) => some s.beginDrainInExecutor

/-! ### After a response -/

/-- After this response the loop of `run` goes on. -/
def GoesOn (s : HttpSession) (request : HttpRequest) (response : HttpResponse) : Prop :=
  response.closeConnection = false ∧ request.keepAlive = true ∧ s.state = .Running

instance (s : HttpSession) (request : HttpRequest) (response : HttpResponse) :
    Decidable (s.GoesOn request response) := inferInstanceAs (Decidable (_ ∧ _ ∧ _))

variable {s : HttpSession} {request : HttpRequest} {response : HttpResponse}

theorem respond_goesOn (h : s.GoesOn request response) (now : Int) :
    s.respond request response now =
      HttpSession.readRequest
        { s with records := (response.statusCode, s.responseBytes) :: s.records,
                 servedRequest := true, parser := s.parser.reset } now := by
  obtain ⟨hclose, hkeep, hstate⟩ := h
  simp [respond, nextRequest, hclose, hkeep, hstate]

theorem respond_leaves (h : ¬s.GoesOn request response) (now : Int) :
    ∃ parser, s.respond request response now =
      HttpSession.leave
        { s with records := (response.statusCode, s.responseBytes) :: s.records,
                 servedRequest := true, parser := parser } := by
  unfold respond
  dsimp only
  split
  · exact ⟨s.parser, rfl⟩
  -- the loop of a session that never ran ends at its head
  · next hbreak =>
    obtain ⟨hclose, hkeep, hdraining, -, -⟩ : _ ∧ _ ∧ _ ∧ _ ∧ _ := by simpa using hbreak
    refine ⟨s.parser.reset, ?_⟩
    unfold nextRequest
    apply if_neg
    rintro (hrunning | hdraining')
    · exact h ⟨hclose, hkeep, hrunning⟩
    · exact hdraining hdraining'

end HttpSession
end PulseGate
