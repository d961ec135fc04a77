import PulseGate.Http.SessionParsing
import PulseGate.Http.SessionPersistence

namespace PulseGate

/-!
# The pipelining law of a session

What a session does with the whole stream of a client, as if a new parser read every message from
where the one before it ends.

* `serve` — the requests that are passed to the router, and the writes, for a stream and the
  responses of the router;
* `Undisturbed` — a run without stops, drains, timeouts, failed writes and streamed responses;
* `StreamStage` — where a session is in its stream;
* `pipelining_law` — the session does what `serve` says, in every state of every such run.
-/

/-! ### The law -/

/-- What a stream starts with. -/
inductive Incoming
  | message (request : HttpRequest) (rest : Bytes)
  | unfinished
  | malformed (result : ParseResult)

/-- A new parser reads the stream. -/
def incoming (limits : HttpParserLimits) (stream : Bytes) : Incoming :=
  match ({ limits := limits } : HttpParser).parse stream with
  | (.Complete, p, rest) => .message p.request rest
  | (.NeedMore, _, _) => .unfinished
  | (result, _, _) => .malformed result

/-- The text of a response. -/
def responseText (response : HttpResponse) (headRequest : Bool) : Bytes :=
  match response.serialize headRequest with
  | .ok text => text
  | .error _ => []

/-- The text of the response to a request that is malformed. -/
def errorText (result : ParseResult) : Bytes :=
  match makeErrorResponse result with
  | .ok response => responseText response false
  | .error _ => []

/-- The connection is closed after the response. -/
def ClosesAfter (request : HttpRequest) (response : HttpResponse) : Prop :=
  response.closeConnection = true ∨ request.keepAlive = false

instance (request : HttpRequest) (response : HttpResponse) :
    Decidable (ClosesAfter request response) := inferInstanceAs (Decidable (_ ∨ _))

/-- The requests that were passed to the router, and the writes. -/
structure Served where
  handled : List HttpRequest := []
  written : List Bytes := []
  deriving DecidableEq, Repr

/-- A request and its response come first. -/
def Served.after (later : Served) (handled : List HttpRequest) (written : List Bytes) : Served :=
  { handled := handled ++ later.handled, written := written ++ later.written }

/-- What is done with a stream: each message is passed to the router, and its response written.
    The first `completed` of the responses are written to their end. -/
def serve (limits : HttpParserLimits) : List HttpResponse → Nat → Bytes → Served
  | responses, completed, stream =>
    match incoming limits stream with
    | .unfinished => {}
    | .malformed result => { written := [errorText result] }
    | .message request rest =>
      match responses with
      | [] => { handled := [request] }
      | response :: responses =>
        let text := responseText response (decide (request.method = .Head))
        if completed = 0 ∨ ClosesAfter request response then
          { handled := [request], written := [text] }
        else (serve limits responses (completed - 1) rest).after [request] [text]

/-! ### The runs -/

namespace SessionEvent

/-- The response of the router. -/
def response : SessionEvent → Option HttpResponse
  | .answered response => some response
  | _ => none

/-- A write has been completed. -/
def isWritten : SessionEvent → Bool
  | .written ok => ok
  | _ => false

/-- No stop, no drain, no timeout, no failed write; the responses are serializable, and are not
    written by the handler itself. -/
def Undisturbed : SessionEvent → Prop
  | .started | .readFailed | .proxySet _ | .received _ => True
  | .written ok => ok = true
  | .answered response => response.Serializable ∧ response.alreadyWritten = false
  | .streamed _ | .deadlineExpired | .stopped | .drained => False

end SessionEvent

/-- The stream that a session has received. -/
def receivedBytes (es : List (Int × SessionEvent)) : Bytes := es.flatMap fun e => e.2.data

/-- The responses of the router. -/
def routerResponses (es : List (Int × SessionEvent)) : List HttpResponse :=
  es.filterMap fun e => e.2.response

/-- How many writes have been completed. -/
def completedWrites (es : List (Int × SessionEvent)) : Nat := es.countP fun e => e.2.isWritten

variable {limits : HttpParserLimits} {stream rest : Bytes} {responses : List HttpResponse}
  {completed : Nat} {request : HttpRequest}

/-! ### The law, message by message -/

theorem serve_unfinished (h : incoming limits stream = .unfinished) :
    serve limits responses completed stream = {} := by
  unfold serve
  rw [h]

theorem serve_malformed {result : ParseResult} (h : incoming limits stream = .malformed result) :
    serve limits responses completed stream = { written := [errorText result] } := by
  unfold serve
  rw [h]

theorem serve_nil (h : incoming limits stream = .message request rest) :
    serve limits [] completed stream = { handled := [request] } := by
  unfold serve
  rw [h]

theorem serve_cons {response : HttpResponse} (h : incoming limits stream = .message request rest) :
    serve limits (response :: responses) completed stream =
      if completed = 0 ∨ ClosesAfter request response then
        { handled := [request],
          written := [responseText response (decide (request.method = .Head))] }
      else (serve limits responses (completed - 1) rest).after [request]
        [responseText response (decide (request.method = .Head))] := by
  rw [serve, h]

theorem incoming_message (hlimits : limits.Accepted) {m : RequestMessage}
    (hm : m.WellFormed limits) (rest : Bytes) :
    incoming limits (m.text ++ rest) = .message m.request rest := by
  unfold incoming
  rw [HttpParser.parse_message hm (HttpParser.body_lt hlimits hm)]
  rfl

theorem incoming_needMore
    (h : (({ limits := limits } : HttpParser).parse stream).1 = .NeedMore) :
    incoming limits stream = .unfinished := by
  unfold incoming
  split
  · next hparse => simp [hparse] at h
  · rfl
  · next hother hparse => exact absurd (by rw [hparse] at h; exact h) hother

theorem incoming_malformed {result : ParseResult}
    (h : (({ limits := limits } : HttpParser).parse stream).1 = result)
    (hmore : result ≠ .NeedMore) (hcomplete : result ≠ .Complete) :
    incoming limits stream = .malformed result := by
  unfold incoming
  split
  · next hparse => exact absurd (by rw [← h, hparse]) hcomplete
  · next hparse => exact absurd (by rw [← h, hparse]) hmore
  · next hparse =>
    rw [hparse] at h
    exact congrArg Incoming.malformed h

/-! ### Where a session is in its stream -/

/-- The bytes `before` have been served with the responses, and nothing has closed the
    connection. -/
def ServedUpTo (limits : HttpParserLimits) (before : Bytes) (responses : List HttpResponse)
    (handled : List HttpRequest) (written : List Bytes) : Prop :=
  ∀ later completed rest,
    serve limits (responses ++ later) (responses.length + completed) (before ++ rest) =
      (serve limits later completed rest).after handled written

theorem servedUpTo_nil : ServedUpTo limits [] [] [] [] := by
  intro later completed rest
  rw [List.nil_append, List.nil_append, List.length_nil, Nat.zero_add]
  rfl

/-- One more message is served. -/
theorem ServedUpTo.snoc {before : Bytes} {handled : List HttpRequest} {written : List Bytes}
    {m : RequestMessage} {response : HttpResponse} (hlimits : limits.Accepted)
    (h : ServedUpTo limits before responses handled written) (hm : m.WellFormed limits)
    (hopen : ¬ClosesAfter m.request response) :
    ServedUpTo limits (before ++ m.text) (responses ++ [response]) (handled ++ [m.request])
      (written ++ [responseText response (decide (m.request.method = .Head))]) := by
  intro later completed rest
  have hnot : ¬(1 + completed = 0 ∨ ClosesAfter m.request response) :=
    not_or.mpr ⟨by omega, hopen⟩
  have hlater := h (response :: later) (1 + completed) (m.text ++ rest)
  rw [serve_cons (incoming_message hlimits hm rest), if_neg hnot, Nat.add_sub_cancel_left] at hlater
  rw [List.append_assoc, List.append_assoc, List.length_append, Nat.add_assoc]
  show serve limits (responses ++ response :: later) (responses.length + (1 + completed)) _ = _
  rw [hlater]
  simp [Served.after]

/-- The place of the coroutine, and how far the stream has been served there. -/
inductive StreamStage (l : SessionLimits) (responses : List HttpResponse) (completed : Nat)
    (stream : Bytes) (s : HttpSession) : Prop
  | spawned (point : s.point = .spawned) (state : s.state = .Created)
      (view : s.input.readableView = []) (stream : stream = []) (responses : responses = [])
      (completed : completed = 0) (handled : s.handled = []) (output : s.output = [])
  | reading (before y : Bytes)
      (served : ServedUpTo l.parser before responses s.handled.reverse s.output.reverse)
      (completed : completed = responses.length) (point : s.point = .reading)
      (state : s.state = .Running) (waiting : HttpParser.Waiting l.parser y s.parser)
      (stream : stream = before ++ (y ++ s.input.readableView))
      (more : incoming l.parser (y ++ s.input.readableView) = .unfinished)
  | handling (before : Bytes) (handled : List HttpRequest) (m : RequestMessage)
      (served : ServedUpTo l.parser before responses handled s.output.reverse)
      (completed : completed = responses.length) (point : s.point = .handling m.request)
      (state : s.state = .Running) (wellFormed : m.WellFormed l.parser)
      (stream : stream = before ++ (m.text ++ s.input.readableView))
      (requests : s.handled.reverse = handled ++ [m.request])
  | responding (before : Bytes) (earlier : List HttpResponse) (response : HttpResponse)
      (handled : List HttpRequest) (written : List Bytes) (m : RequestMessage)
      (served : ServedUpTo l.parser before earlier handled written)
      (responses : responses = earlier ++ [response]) (completed : completed = earlier.length)
      (point : s.point = .responding m.request response) (state : s.state = .Running)
      (wellFormed : m.WellFormed l.parser)
      (stream : stream = before ++ (m.text ++ s.input.readableView))
      (requests : s.handled.reverse = handled ++ [m.request])
      (output : s.output.reverse = written ++
        [responseText response (decide (m.request.method = .Head))])
  | refusing (before rest : Bytes) (result : ParseResult) (written : List Bytes)
      (served : ServedUpTo l.parser before responses s.handled.reverse written)
      (completed : completed = responses.length) (point : s.point = .refusing)
      (state : s.state = .Running) (stream : stream = before ++ rest)
      (malformed : incoming l.parser rest = .malformed result)
      (output : s.output.reverse = written ++ [errorText result])
  | finished (point : s.point = .finished)
      (law : ({ handled := s.handled.reverse, written := s.output.reverse } : Served) =
        serve l.parser responses completed stream)

variable {l : SessionLimits} {s t u : HttpSession} {now : Int}

/-- **The law** holds at every stage. -/
theorem StreamStage.law (hl : l.parser.Accepted) (h : StreamStage l responses completed stream s) :
    ({ handled := s.handled.reverse, written := s.output.reverse } : Served) =
      serve l.parser responses completed stream := by
  -- in every stage what was served is what `serve` gives for the stream so far
  cases h with
  | spawned _ _ _ hstream hresponses hcompleted hhandled houtput =>
    have hempty : incoming l.parser [] = .unfinished :=
      incoming_needMore (by rw [HttpParser.parse_nil])
    rw [hstream, serve_unfinished hempty, hhandled, houtput]
    rfl
  | reading before y hserved hcompleted _ _ _ hstream hmore =>
    have hlaw := hserved [] 0 (y ++ s.input.readableView)
    rw [serve_unfinished hmore, List.append_nil, Nat.add_zero] at hlaw
    rw [hstream, hcompleted, hlaw]
    simp [Served.after]
  | handling before handled m hserved hcompleted _ _ hm hstream hrequests =>
    have hlaw := hserved [] 0 (m.text ++ s.input.readableView)
    rw [serve_nil (incoming_message hl hm _), List.append_nil, Nat.add_zero] at hlaw
    rw [hstream, hcompleted, hlaw, hrequests]
    simp [Served.after]
  | responding before earlier response handled written m hserved hresponses hcompleted _ _ hm
      hstream hrequests houtput =>
    have hlaw := hserved [response] 0 (m.text ++ s.input.readableView)
    rw [serve_cons (incoming_message hl hm _), if_pos (.inl rfl), Nat.add_zero] at hlaw
    rw [hstream, hresponses, hcompleted, hlaw, hrequests, houtput]
    rfl
  | refusing before rest result written hserved hcompleted _ _ hstream hmalformed houtput =>
    have hlaw := hserved [] 0 rest
    rw [serve_malformed hmalformed, List.append_nil, Nat.add_zero] at hlaw
    rw [hstream, hcompleted, hlaw, houtput]
    simp [Served.after]
  | finished _ hlaw => exact hlaw

/-- A call of `readRequest` leads to the next stage. -/
theorem StreamStage.of_parses {before text : Bytes} (hroom : HttpSession.LeavesRoom l)
    (hvector : l.maxBufferBytes ≤ vectorMaxSize) (hstate : u.state = .Running)
    (hserved : ServedUpTo l.parser before responses u.handled.reverse u.output.reverse)
    (hcompleted : completed = responses.length) (hstream : stream = before ++ text)
    (h : HttpSession.Parses l text now u t) : StreamStage l responses completed stream t := by
  cases h with
  | waits y hwaiting hsplit hmore hpoint hlogs _ =>
    refine .reading before y ?_ hcompleted hpoint (hlogs.state.trans hstate) hwaiting ?_ ?_
    · rw [hlogs.handled, hlogs.output]
      exact hserved
    · rw [hstream, hsplit]
    · rw [← hsplit]
      exact incoming_needMore hmore
  | handles m hm hsplit hpoint hhandled houtput hsame =>
    refine .handling before u.handled.reverse m ?_ hcompleted hpoint (hsame.trans hstate) hm ?_ ?_
    · rw [houtput]
      exact hserved
    · rw [hstream, hsplit]
    · rw [hhandled, List.reverse_cons]
  | refuses result hrefused response herror written hserialized hpoint hhandled houtput hsame =>
    have htext : errorText result = written := by
      unfold errorText
      rw [herror]
      show responseText response false = written
      unfold responseText
      rw [hserialized]
    refine .refusing before text result u.output.reverse ?_ hcompleted hpoint
      (hsame.trans hstate) hstream ?_ ?_
    · rw [hhandled]
      exact hserved
    · apply incoming_malformed hrefused
      · rintro rfl
        cases herror
      · rintro rfl
        cases herror
    · rw [houtput, List.reverse_cons, htext]
  -- a running session with room for a request does not end here
  | ends hcause _ _ _ _ =>
    rcases hcause with hclosed | hnoRoom | hlarge
    · rw [hstate] at hclosed
      cases hclosed
    · exact absurd hroom hnoRoom
    · exact absurd hvector (Nat.not_le.mpr hlarge)

/-! ### One event -/

/-- A session that ends has served what it had served. -/
theorem StreamStage.leave {responses' : List HttpResponse} {completed' : Nat} {stream' : Bytes}
    (hends : s.Ends t)
    (hlaw : ({ handled := s.handled.reverse, written := s.output.reverse } : Served) =
      serve l.parser responses' completed' stream') :
    StreamStage l responses' completed' stream' t := by
  refine .finished hends.point ?_
  rw [hends.same.handled, hends.same.output]
  exact hlaw

/-- The coroutine begins. -/
theorem StreamStage.start (hl : l.parser.Accepted) (hroom : HttpSession.LeavesRoom l)
    (hvector : l.maxBufferBytes ≤ vectorMaxSize) (hread : s.ReadInv l)
    (hpoint : s.point = .spawned) (hstate : s.state = .Created)
    (hview : s.input.readableView = []) (hhandled : s.handled = []) (houtput : s.output = [])
    (hstep : s.step (now, .started) = some t) : StreamStage l [] 0 [] t := by
  have hinput := hread.input
  rw [hpoint] at hinput
  have hready : ({ s with state := .Running } : HttpSession).ReadyToParse l [] :=
    ⟨hread.limits, hread.maximum, hinput.1, hinput.2 ▸ .start⟩
  have hagain : s.readingAgain .started = some { s with state := .Running } := by
    simp [HttpSession.readingAgain, hpoint, hstate]
  obtain rfl := HttpSession.step_readingAgain hagain hstep
  have hserved : ServedUpTo l.parser [] [] s.handled.reverse s.output.reverse := by
    rw [hhandled, houtput]
    exact servedUpTo_nil
  have hstream : ([] : Bytes) = [] ++ ([] ++ s.input.readableView) := by
    rw [hview]
    rfl
  exact .of_parses (u := { s with state := .Running }) hroom hvector rfl hserved rfl hstream
    (hready.parses hl (by rintro ⟨⟩))

/-- More of the stream is read. -/
theorem StreamStage.receive {before y data : Bytes} (hl : l.parser.Accepted)
    (hroom : HttpSession.LeavesRoom l) (hvector : l.maxBufferBytes ≤ vectorMaxSize)
    (hread : s.ReadInv l)
    (hserved : ServedUpTo l.parser before responses s.handled.reverse s.output.reverse)
    (hcompleted : completed = responses.length) (hpoint : s.point = .reading)
    (hstate : s.state = .Running) (hwaiting : HttpParser.Waiting l.parser y s.parser)
    (hstream : stream = before ++ (y ++ s.input.readableView)) (hdata : data ≠ [])
    (hstep : s.step (now, .received data) = some t) :
    StreamStage l responses completed (stream ++ data) t := by
  have hlength : data.length ≤ s.input.preparedBytes := by
    by_contra hlong
    simp [HttpSession.step, hlong] at hstep
  have hagain : s.readingAgain (.received data) =
      some ({ s with input := s.input.received data hlength } : HttpSession).readEnded := by
    simp [HttpSession.readingAgain, hpoint, hlength, hdata]
  -- the step is a call of `readRequest` with the bytes behind those it had
  obtain rfl := HttpSession.step_readingAgain hagain hstep
  have hready : ({ s with input := s.input.received data hlength } :
      HttpSession).readEnded.ReadyToParse l y :=
    ⟨hread.limits, hread.maximum, rfl, hwaiting⟩
  have hopen : ({ s with input := s.input.received data hlength } :
      HttpSession).readEnded.state ≠ .Closing := by
    show s.state ≠ .Closing
    rw [hstate]
    rintro ⟨⟩
  refine .of_parses (u := ({ s with input := s.input.received data hlength } :
    HttpSession).readEnded) hroom hvector hstate hserved hcompleted ?_ (hready.parses hl hopen)
  show stream ++ data = before ++ (y ++ (s.input.received data hlength).readableView)
  rw [Buffer.received_readableView, hstream]
  simp

/-- The response has been written: the connection is closed, or the next message read. -/
theorem StreamStage.respond {before : Bytes} {earlier : List HttpResponse} {response : HttpResponse}
    {handled : List HttpRequest} {written : List Bytes} {m : RequestMessage}
    (hl : l.parser.Accepted) (hroom : HttpSession.LeavesRoom l)
    (hvector : l.maxBufferBytes ≤ vectorMaxSize) (hread : s.ReadInv l)
    (hserved : ServedUpTo l.parser before earlier handled written)
    (hpoint : s.point = .responding m.request response) (hstate : s.state = .Running)
    (hm : m.WellFormed l.parser) (hrequests : s.handled.reverse = handled ++ [m.request])
    (houtput : s.output.reverse = written ++
      [responseText response (decide (m.request.method = .Head))])
    (hstep : s.step (now, .written true) = some t) :
    StreamStage l (earlier ++ [response]) (earlier.length + 1)
      (before ++ (m.text ++ s.input.readableView)) t := by
  have hended : s.writeEnded true = s := rfl
  simp only [HttpSession.step, hpoint, hended, Option.some.injEq] at hstep
  obtain rfl := hstep
  have hopen : s.state ≠ .Closing := by
    rw [hstate]
    rintro ⟨⟩
  by_cases hcloses : ClosesAfter m.request response
  · -- the connection ends with this response, as `serve` does
    have hnot : ¬s.GoesOn m.request response := by
      rintro ⟨hclose, hkeep, -⟩
      rcases hcloses with hcloses | hcloses
      · rw [hclose] at hcloses
        cases hcloses
      · rw [hkeep] at hcloses
        cases hcloses
    obtain ⟨parser, heq⟩ := HttpSession.respond_leaves hnot now
    rw [heq]
    refine .leave (HttpSession.leave_ends hopen) ?_
    show ({ handled := s.handled.reverse, written := s.output.reverse } : Served) = _
    rw [hserved [response] 1 _, serve_cons (incoming_message hl hm _), if_pos (.inr hcloses),
      hrequests, houtput]
    rfl
  · have hgoes : s.GoesOn m.request response := by
      obtain ⟨hclose, hkeep⟩ := not_or.mp hcloses
      exact ⟨by simpa using hclose, by simpa using hkeep, hstate⟩
    have hinput := hread.input
    rw [hpoint] at hinput
    -- the parser starts anew on the bytes behind the message
    have hwaiting : HttpParser.Waiting l.parser [] s.parser.reset := by
      rw [HttpParser.reset, hinput.2]
      exact .start
    have hready : (s.again response).ReadyToParse l [] :=
      ⟨hread.limits, hread.maximum, hinput.1, hwaiting⟩
    have hparses : HttpSession.Parses l s.input.readableView now (s.again response)
        ((s.again response).readRequest now) := hready.parses hl hopen
    rw [HttpSession.respond_goesOn hgoes]
    refine .of_parses (u := s.again response) hroom hvector hstate ?_ ?_
      (List.append_assoc ..).symm hparses
    · show ServedUpTo _ _ _ s.handled.reverse s.output.reverse
      rw [hrequests, houtput]
      exact hserved.snoc hl hm hcloses
    · simp

/-- The router has answered, and its response is being written. -/
theorem StreamStage.answer {before : Bytes} {handled : List HttpRequest} {m : RequestMessage}
    {response : HttpResponse}
    (hserved : ServedUpTo l.parser before responses handled s.output.reverse)
    (hcompleted : completed = responses.length) (hpoint : s.point = .handling m.request)
    (hstate : s.state = .Running) (hm : m.WellFormed l.parser)
    (hstream : stream = before ++ (m.text ++ s.input.readableView))
    (hrequests : s.handled.reverse = handled ++ [m.request])
    (hserializable : response.Serializable) (hwritten : response.alreadyWritten = false)
    (hstep : s.step (now, .answered response) = some t) :
    StreamStage l (responses ++ [response]) completed stream t := by
  simp only [HttpSession.step, hpoint, Option.some.injEq] at hstep
  obtain rfl := hstep
  -- a serializable response is written whole
  obtain ⟨text, htext⟩ : ∃ text,
      response.serialize (decide (m.request.method = .Head)) = .ok text :=
    ⟨_, HttpResponse.serialize_eq_ok.mpr ⟨hserializable, rfl⟩⟩
  have hresponse : responseText response (decide (m.request.method = .Head)) = text := by
    unfold responseText
    rw [htext]
  have hanswer : s.answer m.request response now =
      HttpSession.startWrite { s with currentProxy := false } text
        (.responding m.request response) := by
    unfold HttpSession.answer
    dsimp only
    rw [hwritten, if_neg Bool.false_ne_true, htext]
  rw [hanswer]
  refine .responding before responses response handled s.output.reverse m hserved rfl
    hcompleted rfl hstate hm hstream hrequests ?_
  show (text :: s.output).reverse = _
  rw [List.reverse_cons, hresponse]

/-- The refusal has been written, and the connection is closed. -/
theorem StreamStage.refused {before rest : Bytes} {result : ParseResult} {written : List Bytes}
    (hserved : ServedUpTo l.parser before responses s.handled.reverse written)
    (hcompleted : completed = responses.length) (hpoint : s.point = .refusing)
    (hstate : s.state = .Running) (hstream : stream = before ++ rest)
    (hmalformed : incoming l.parser rest = .malformed result)
    (houtput : s.output.reverse = written ++ [errorText result])
    (hstep : s.step (now, .written true) = some t) :
    StreamStage l responses (completed + 1) stream t := by
  have hended : s.writeEnded true = s := rfl
  simp only [HttpSession.step, hpoint, hended, Option.some.injEq] at hstep
  obtain rfl := hstep
  have hopen : s.state ≠ .Closing := by
    rw [hstate]
    rintro ⟨⟩
  refine .leave (HttpSession.leave_ends hopen) ?_
  have hmore := hserved [] 1 rest
  rw [serve_malformed hmalformed, List.append_nil] at hmore
  rw [hstream, hcompleted, hmore, houtput]
  simp [Served.after]

/-- **Step lemma.** -/
theorem StreamStage.step {e : SessionEvent} (hl : l.parser.Accepted)
    (hroom : HttpSession.LeavesRoom l) (hvector : l.maxBufferBytes ≤ vectorMaxSize)
    (hread : s.ReadInv l) (h : StreamStage l responses completed stream s) (he : e.Undisturbed)
    (hstep : s.step (now, e) = some t) :
    StreamStage l (responses ++ e.response.toList) (completed + if e.isWritten then 1 else 0)
      (stream ++ e.data) t := by
  have hlaw := h.law hl
  -- the point of the coroutine leaves a few of the events; the others have no step
  cases h with
  | spawned hpoint hstate hview hstream hresponses hcompleted hhandled houtput =>
    cases e with
    | started =>
      have hnext :=
        StreamStage.start hl hroom hvector hread hpoint hstate hview hhandled houtput hstep
      rw [hstream, hresponses, hcompleted]
      exact hnext
    | _ => first | exact absurd he id | simp [HttpSession.step, hpoint] at hstep
  | reading before y hserved hcompleted hpoint hstate hwaiting hstream hmore =>
    have hopen : s.state ≠ .Closing := by rw [hstate]; rintro ⟨⟩
    cases e with
    | received data =>
      simp only [SessionEvent.response, SessionEvent.data, SessionEvent.isWritten,
        Option.toList_none, List.append_nil, Bool.false_eq_true, if_false, Nat.add_zero]
      by_cases hdata : data = []
      · -- an empty read is the end of the stream
        subst hdata
        simp only [HttpSession.step, Option.dite_none_right_eq_some, if_true] at hstep
        obtain ⟨-, hstep⟩ := hstep
        obtain rfl := Option.some.inj hstep
        rw [List.append_nil]
        exact .leave (HttpSession.peerClosed_ends hopen) hlaw
      · exact .receive hl hroom hvector hread hserved hcompleted hpoint hstate hwaiting hstream
          hdata hstep
    | readFailed =>
      simp only [HttpSession.step, hpoint, Option.some.injEq] at hstep
      obtain rfl := hstep
      simp only [SessionEvent.response, SessionEvent.data, SessionEvent.isWritten,
        Option.toList_none, List.append_nil, Bool.false_eq_true, if_false, Nat.add_zero]
      exact .leave (HttpSession.peerClosed_ends hopen) hlaw
    | _ => first | exact absurd he id | simp [HttpSession.step, hpoint] at hstep
  | handling before handled m hserved hcompleted hpoint hstate hm hstream hrequests =>
    cases e with
    | proxySet attached =>
      simp only [HttpSession.step, hpoint, Option.some.injEq] at hstep
      obtain rfl := hstep
      simp only [SessionEvent.response, SessionEvent.data, SessionEvent.isWritten,
        Option.toList_none, List.append_nil, Bool.false_eq_true, if_false, Nat.add_zero]
      exact .handling before handled m hserved hcompleted rfl hstate hm hstream hrequests
    | answered response =>
      obtain ⟨hserializable, hwritten⟩ := he
      have hnext := StreamStage.answer hserved hcompleted hpoint hstate hm hstream hrequests
        hserializable hwritten hstep
      simpa [SessionEvent.response, SessionEvent.data, SessionEvent.isWritten] using hnext
    | _ => first | exact absurd he id | simp [HttpSession.step, hpoint] at hstep
  | responding before earlier response handled written m hserved hresponses hcompleted hpoint hstate
      hm hstream hrequests houtput =>
    cases e with
    | written ok =>
      obtain rfl : ok = true := he
      have hnext := StreamStage.respond hl hroom hvector hread hserved hpoint hstate hm hrequests
        houtput hstep
      rw [hresponses, hcompleted, hstream]
      simpa [SessionEvent.response, SessionEvent.data, SessionEvent.isWritten] using hnext
    | _ => first | exact absurd he id | simp [HttpSession.step, hpoint] at hstep
  | refusing before rest result written hserved hcompleted hpoint hstate hstream hmalformed
      houtput =>
    cases e with
    | written ok =>
      obtain rfl : ok = true := he
      have hnext := StreamStage.refused hserved hcompleted hpoint hstate hstream hmalformed houtput
        hstep
      simpa [SessionEvent.response, SessionEvent.data, SessionEvent.isWritten] using hnext
    | _ => first | exact absurd he id | simp [HttpSession.step, hpoint] at hstep
  | finished hpoint _ =>
    cases e with
    | _ => first | exact absurd he id | simp [HttpSession.step, hpoint] at hstep

/-! ### Whole runs -/

/-- What holds of a session after the events. -/
structure StreamInv (l : SessionLimits) (es : List (Int × SessionEvent)) (s : HttpSession) :
    Prop where
  session : s.ReadInv l ∧ s.CloseInv 0
  stage : (∀ e ∈ es, e.2.Undisturbed) →
    StreamStage l (routerResponses es) (completedWrites es) (receivedBytes es) s

theorem streamInv_create (hcreate : HttpSession.create l = .ok s) : StreamInv l [] s := by
  refine ⟨⟨HttpSession.create_readInv hcreate, HttpSession.create_closeInv hcreate⟩, fun _ => ?_⟩
  obtain ⟨input, hinput, -, -, rfl⟩ := HttpSession.create_eq_ok hcreate
  exact .spawned rfl rfl (Buffer.create_readableView hinput) rfl rfl rfl rfl rfl

theorem streamInv_step {es : List (Int × SessionEvent)} {e : Int × SessionEvent}
    (hl : l.parser.Accepted) (hroom : HttpSession.LeavesRoom l)
    (hvector : l.maxBufferBytes ≤ vectorMaxSize) (h : StreamInv l es s)
    (hstep : s.step e = some t) :
    StreamInv l (es ++ [e]) t := by
  obtain ⟨now, event⟩ := e
  refine ⟨HttpSession.readInv_step hl h.session hstep, fun hes => ?_⟩
  have hevent : event.Undisturbed := hes (now, event) (by simp)
  have hstage := h.stage fun e he => hes e (List.mem_append_left _ he)
  have hnext := hstage.step hl hroom hvector h.session.1 hevent hstep
  have hresponses : routerResponses (es ++ [(now, event)]) =
      routerResponses es ++ event.response.toList := by
    unfold routerResponses
    rw [List.filterMap_append]
    cases hresponse : event.response <;> simp [hresponse]
  have hwritten : completedWrites (es ++ [(now, event)]) =
      completedWrites es + if event.isWritten then 1 else 0 := by
    unfold completedWrites
    rw [List.countP_append, List.countP_singleton]
  have hreceived : receivedBytes (es ++ [(now, event)]) = receivedBytes es ++ event.data := by
    unfold receivedBytes
    rw [List.flatMap_append, List.flatMap_singleton]
  rw [hresponses, hwritten, hreceived]
  exact hnext

/-- The law, for all limits that leave room for the reads. -/
theorem serves_stream {es : List (Int × SessionEvent)} (hl : l.parser.Accepted)
    (hroom : HttpSession.LeavesRoom l) (hvector : l.maxBufferBytes ≤ vectorMaxSize)
    (hcreate : HttpSession.create l = .ok s) (hevents : ∀ e ∈ es, e.2.Undisturbed)
    (hrun : Machine.run HttpSession.step s es = some t) :
    ({ handled := t.handled.reverse, written := t.output.reverse } : Served) =
      serve l.parser (routerResponses es) (completedWrites es) (receivedBytes es) := by
  have hstays : ∀ es s e t, StreamInv l es s → HttpSession.step s e = some t →
      StreamInv l (es ++ [e]) t :=
    fun _ _ _ _ h hstep => streamInv_step hl hroom hvector h hstep
  have hinv := Machine.run_of_history hstays (streamInv_create hcreate) hrun
  exact (hinv.stage hevents).law hl

theorem leavesRoom_default : HttpSession.LeavesRoom {} := by
  have hbody : HttpSession.largestBody {} ≤ 1024 * 1024 := Nat.min_le_left _ _
  refine ⟨by decide, fun _ => by decide, fun _ => ?_⟩
  generalize HttpSession.largestBody _ = largest at hbody ⊢
  show largest - 1 + 4096 ≤ 2 * 1024 * 1024
  omega

/-- **The pipelining law.** -/
theorem pipelining_law {es : List (Int × SessionEvent)} (hcreate : HttpSession.create {} = .ok s)
    (hevents : ∀ e ∈ es, e.2.Undisturbed) (hrun : Machine.run HttpSession.step s es = some t) :
    ({ handled := t.handled.reverse, written := t.output.reverse } : Served) =
      serve {} (routerResponses es) (completedWrites es) (receivedBytes es) :=
  serves_stream (by decide) leavesRoom_default (by decide) hcreate hevents hrun

/-- Two requests, the second in two reads, and a line that is no request. -/
def pipelinedRun : List (Int × SessionEvent) :=
  [(0, .started), (1, .received (bytes "GET / HTTP/1.1\r\nHost: a\r\n\r\nHEAD /b HTTP/1.1\r\n")),
    (2, .answered { body := bytes "a" }), (3, .written true),
    (4, .received (bytes "Host: a\r\n\r\nnothing\r\n")), (5, .answered { body := bytes "b" }),
    (6, .written true), (7, .written true)]

theorem pipelining_law_pipelinedRun :
    ∃ s t, HttpSession.create {} = .ok s ∧
      Machine.run HttpSession.step s pipelinedRun = some t ∧
      (t.handled.length = 2 ∧ t.output.length = 3 ∧ t.point = .finished) ∧
      ({ handled := t.handled.reverse, written := t.output.reverse } : Served) =
        serve {} (routerResponses pipelinedRun) (completedWrites pipelinedRun)
          (receivedBytes pipelinedRun) := by
  obtain ⟨s, hcreate, hends⟩ : ∃ s, HttpSession.create {} = .ok s ∧
      (Machine.run HttpSession.step s pipelinedRun).map (fun t =>
        (t.handled.length, t.output.length, t.point)) = some (2, 3, .finished) :=
    ⟨_, rfl, by decide +kernel⟩
  obtain ⟨t, hrun, ht⟩ := Option.map_eq_some_iff.mp hends
  obtain ⟨hhandled, ht⟩ := Prod.mk.inj ht
  obtain ⟨houtput, hpoint⟩ := Prod.mk.inj ht
  have hevents : ∀ e ∈ pipelinedRun, e.2.Undisturbed := by
    have hserializable (body : Bytes) : ({ body := body } : HttpResponse).Serializable :=
      ⟨⟨by show (100 : Int) ≤ 200; omega, by show (200 : Int) ≤ 999; omega⟩,
        ⟨by show bytes "OK" ≠ []; decide, by show isValidHeaderValue (bytes "OK") = true; decide⟩,
        nofun⟩
    simp only [pipelinedRun, List.forall_mem_cons]
    exact ⟨trivial, trivial, ⟨hserializable _, rfl⟩, rfl, trivial, ⟨hserializable _, rfl⟩, rfl, rfl,
      nofun⟩
  exact ⟨s, t, hcreate, hrun, ⟨hhandled, houtput, hpoint⟩, pipelining_law hcreate hevents hrun⟩

end PulseGate
