import PulseGate.Http.ExchangeSteps
import PulseGate.Http.ProxyStream
import PulseGate.Http.StreamReading

namespace PulseGate

/-!
# Streams that are parsed again

* `HeadOk.streamable` — a response that was parsed is one that can be streamed;
* `Exchange.stream_round_trip` — what `forward` writes for a complete response is read back,
  with nothing left unread, exactly when its status has a body and three characters;
* `Exchange.no_content_leaves_terminator` — after a stream with status 204 the last chunk is
  left unread.
-/

/-! ### The response that is streamed -/

theorem Headers.foldl_add (hs : List Header) (headers : Headers) :
    (hs.foldl (fun h e => h.add e.name e.value) headers).entries =
      headers.entries ++ hs.map Header.normalized := by
  induction hs generalizing headers with
  | nil => simp
  | cons h hs ih =>
    rw [List.foldl_cons, ih]
    simp [Headers.add, Header.normalized]

/-- The headers of a parsed response are passed on as they are. -/
theorem sanitizeUpstreamResponse_entries {r : HttpResponse}
    (h : ∀ e ∈ r.headers.entries, e.WellFormed) :
    (sanitizeUpstreamResponse r).headers.entries = r.headers.passedOn := by
  have hsame : r.headers.passedOn.map Header.normalized = r.headers.passedOn :=
    (List.map_congr_left fun e he => (h e (List.mem_filter.mp he).1).normalized).trans
      (List.map_id' _)
  unfold sanitizeUpstreamResponse
  dsimp only
  rw [Headers.foldl_add, hsame]
  rfl

/-- The headers that are passed on say nothing about the framing or the connection. -/
theorem Headers.passedOn_names {headers : Headers} {h : Header} (hmem : h ∈ headers.passedOn) :
    h.name ≠ bytes "transfer-encoding" ∧ h.name ≠ bytes "content-length" ∧
      h.name ≠ bytes "connection" := by
  have hpassed := (List.mem_filter.mp hmem).2
  simp only [hopByHop, Bool.not_eq_true', Bool.or_eq_false_iff] at hpassed
  obtain ⟨⟨hfixed, _⟩, hrewritten⟩ := hpassed
  have hmem : bytes "transfer-encoding" ∈ fixedHopByHop ∧ bytes "connection" ∈ fixedHopByHop ∧
      bytes "content-length" ∈ rewrittenHeaders := by decide
  refine ⟨?_, ?_, ?_⟩ <;> intro hname
  · rw [hname, List.contains_eq_mem, decide_eq_false_iff_not] at hfixed
    exact hfixed hmem.1
  · rw [hname, List.contains_eq_mem, decide_eq_false_iff_not] at hrewritten
    exact hrewritten hmem.2.2
  · rw [hname, List.contains_eq_mem, decide_eq_false_iff_not] at hfixed
    exact hfixed hmem.2.1

/-- **A response that was parsed** is one that can be streamed. -/
theorem HttpResponseParser.HeadOk.streamable {p : HttpResponseParser} (h : p.HeadOk)
    (hp : p.InBody) : (sanitizeUpstreamResponse p.response).Streamable := by
  have hstatus := h.status (fun hs => hp.1 (.inl hs)) hp.2
  have hentries := sanitizeUpstreamResponse_entries h.headers
  refine ⟨⟨h.final hp, hstatus.status⟩, hstatus.reason, ?_, ?_⟩ <;> rw [hentries]
  · exact fun header hmem => h.headers header (List.mem_filter.mp hmem).1
  · exact fun header hmem => Headers.passedOn_names hmem

/-! ### The bytes that are written -/

/-- The bytes of a stream. -/
theorem Streamed.written_eq {head body : Bytes} {log : List Output} (h : Streamed head log body) :
    ∃ payloads : List Bytes, (∀ payload ∈ payloads, payload ≠ []) ∧ payloads.flatten = body ∧
      writtenBytes log = head ++ payloads.flatMap chunkFrame := by
  induction h with
  | head => exact ⟨[], by simp, rfl, by simp [writtenBytes, DownstreamWrite.bytes]⟩
  | chunk payload _ hpayload ih =>
    obtain ⟨payloads, hnonempty, hflatten, hbytes⟩ := ih
    refine ⟨payloads ++ [payload], ?_, ?_, ?_⟩
    · intro q hq
      rcases List.mem_append.mp hq with hq | hq
      · exact hnonempty q hq
      · rwa [List.mem_singleton.mp hq]
    · simp [hflatten]
    · simp [hbytes, DownstreamWrite.bytes]

def ProxyPoint.HasReturned : ProxyPoint → Bool
  | .returned _ => true
  | _ => false

namespace ProxySession

variable {s s' : ProxySession} {e : ProxyEvent}

/-- The coroutine has finished with a complete response, and all its writes succeeded. -/
structure FullyStreamed (s : ProxySession) : Prop where
  returned : s.point.HasReturned = true
  complete : s.parser.messageComplete = true
  sent : ∀ o ∈ s.output, o.progress = .sent

instance FullyStreamed.decidable (s : ProxySession) : Decidable s.FullyStreamed :=
  decidable_of_iff (s.point.HasReturned = true ∧ s.parser.messageComplete = true ∧
    ∀ o ∈ s.output, o.progress = .sent)
    ⟨fun ⟨hr, hc, hs⟩ => ⟨hr, hc, hs⟩, fun ⟨hr, hc, hs⟩ => ⟨hr, hc, hs⟩⟩

/-- What the stream of a session is parsed with. -/
structure RoundTripInv (requestId : Bytes) (s : ProxySession) : Prop where
  stream : StreamInv s
  head : HeadInv s
  requestId : s.context.requestId = requestId

theorem roundTripInv_step {requestId : Bytes} (h : RoundTripInv requestId s)
    (hs : s.step e = some s') : RoundTripInv requestId s' := by
  have hcontext : s'.context = s.context := congrArg Config.context (step_config hs)
  exact ⟨streamInv_step h.stream hs, headInv_step h.head hs, by rw [hcontext, h.requestId]⟩

/-- **What a session has written** for a complete response is a stream of it. -/
theorem RoundTripInv.written {requestId : Bytes} (h : RoundTripInv requestId s)
    (hdone : s.FullyStreamed) :
    (sanitizeUpstreamResponse s.parser.response).Streamable ∧
      ∃ payloads : List Bytes, (∀ payload ∈ payloads, payload ≠ []) ∧
        payloads.flatten = s.parser.response.body ∧
        writtenBytes s.output =
          streamBytes (sanitizeUpstreamResponse s.parser.response) requestId payloads := by
  -- a complete parser is past the headers
  have hstate := HttpResponseParser.messageComplete_iff.mp hdone.complete
  have hbody : s.parser.InBody := by
    simp [HttpResponseParser.InBody, HttpResponseParser.InHeaders, hstate]
  refine ⟨h.head.head.streamable hbody, ?_⟩
  have hreturned := hdone.returned
  cases hpoint : s.point with
  | returned result =>
    obtain ⟨log, hlog, hstreamed⟩ := h.stream.complete hpoint hdone.complete hdone.sent
    obtain ⟨payloads, hnonempty, hflatten, hbytes⟩ := hstreamed.written_eq
    refine ⟨payloads, hnonempty, hflatten, ?_⟩
    have hhead : s.view.head =
        serializeStreamingHead (sanitizeUpstreamResponse s.parser.response) requestId := by
      rw [← h.requestId]
      rfl
    rw [hlog, writtenBytes_cons, hbytes, hhead]
    rfl
  | _ =>
    rw [hpoint] at hreturned
    cases hreturned

end ProxySession

namespace Exchange

variable {e e' : Exchange} {event : ExchangeEvent}

/-- An exchange whose session is run by `forward`. -/
structure Forwarding (requestId : Bytes) (e : Exchange) : Prop where
  forwards : e.forwards = true
  numbered : e.context.requestId = requestId
  sessions : Sessions (ProxySession.RoundTripInv requestId) e

theorem forwarding_step {requestId : Bytes} (h : Forwarding requestId e)
    (hs : e.step event = some e') : Forwarding requestId e' := by
  have hroute := step_route hs
  have hcontext : e'.context = e.context := congrArg Route.context hroute
  refine ⟨(forwards_eq hroute).trans h.forwards, by rw [hcontext, h.numbered], ?_⟩
  refine sessions_step ?_ (fun _ _ _ => ProxySession.roundTripInv_step) h.sessions hs
  intro upstream connectionOpen s hcreate
  have hsession : s.context = e.context := (ProxySession.create_eq_ok hcreate).2.2.2.2.2.1
  rw [h.forwards] at hcreate
  exact ⟨ProxySession.streamInv_create hcreate, ProxySession.headInv_create hcreate,
    by rw [hsession, h.numbered]⟩

/-- **Streams are read back.** When `forward` has finished with a complete response and all its
    writes succeeded, a fresh parser with limits that are large enough reads the response back
    from a buffer with the bytes that were written, and all of them, exactly if the response
    is not one of those without a body, and its status has three characters. -/
theorem stream_round_trip (proxy : ReverseProxy) (requestId : Nat) (peer : Option Bytes)
    (request : HttpRequest) (cache : RouteCache)
    (hforward : (init proxy requestId peer request cache).forwards = true)
    (events : List ExchangeEvent) (s : ProxySession)
    (hrun : (Machine.run step (init proxy requestId peer request cache) events).bind
      (·.transaction) = some s)
    (hdone : s.FullyStreamed) (limits : HttpResponseParserLimits)
    (hlarge : limits.LargeEnough (sanitizeUpstreamResponse s.parser.response)
      (toChars 10 requestId))
    (b : Buffer) (hb : b.readableView = writtenBytes s.output) :
    HttpResponseParser.RoundTrip limits (sanitizeUpstreamResponse s.parser.response)
        (toChars 10 requestId) b.readableView ↔
      (s.parser.response.statusCode ≠ 204 ∧ s.parser.response.statusCode ≠ 304) ∧
        (100 ≤ s.parser.response.statusCode ∨ s.parser.response.statusCode ≤ -10) := by
  obtain ⟨e, he, hsession⟩ := Option.bind_eq_some_iff.mp hrun
  have hinit : Forwarding (toChars 10 requestId) (init proxy requestId peer request cache) :=
    ⟨hforward, rfl, ⟨by simp [init], by simp [init]⟩⟩
  -- the invariant of the run, at the state in which the session was left
  have hforwarding := (Machine.always_of_invariant (Forwarding (toChars 10 requestId))
    (fun _ h => h) (fun _ _ _ => forwarding_step) events hinit).last e he
  obtain ⟨hstreamable, payloads, hnonempty, hflatten, hbytes⟩ :=
    (hforwarding.sessions.left s hsession).written hdone
  -- what is in a buffer has a size that the counters of the parser can hold
  have hroom : (streamBytes (sanitizeUpstreamResponse s.parser.response) (toChars 10 requestId)
      payloads).length ≤ vectorMaxSize := by
    rw [← hbytes, ← hb, b.readableView_length]
    exact b.readableBytes_le
  rw [hb, hbytes]
  exact HttpResponseParser.roundTrip_iff ⟨hstreamable, isValidHeaderValue_toChars requestId,
    trim_toChars requestId, hnonempty, hflatten, hlarge, hroom⟩

/-- What the runs below look at in the session that they end. -/
def streamOf (s : ProxySession) : Bool × HttpResponse × Bytes :=
  (decide s.FullyStreamed, s.parser.response, writtenBytes s.output)

/-- A response that is streamed in a head, a chunk and the last chunk. -/
def oneChunkEvents : List ExchangeEvent :=
  requestEvents ++ readEvents true ++
    [.session (.received (bytes "HTTP/1.1 200 OK\r\nContent-Length: 1\r\n\r\na")),
     .session .run, .session .run, .session (.written .sent), .session .run,
     .session (.written .sent), .session .run, .session (.written .sent), .transacted]

theorem oneChunk_stream :
    ((Machine.run step (smallExchange .Get) oneChunkEvents).bind (·.transaction)).map streamOf =
      some (true,
        { headers := { entries := [{ name := bytes "content-length", value := bytes "1" }] },
          body := bytes "a" },
        bytes "HTTP/1.1 200 OK\r\nX-Request-Id: 1\r\nTransfer-Encoding: chunked\r\n" ++
          bytes "Connection: keep-alive\r\n\r\n1\r\na\r\n0\r\n\r\n") := by
  decide +kernel

/-- The theorem at this response. -/
theorem stream_round_trip_oneChunk :
    ∃ s, (Machine.run step (smallExchange .Get) oneChunkEvents).bind (·.transaction) = some s ∧
      HttpResponseParser.RoundTrip {} (sanitizeUpstreamResponse s.parser.response) (bytes "1")
        (writtenBytes s.output) := by
  obtain ⟨s, hrun, hstream⟩ := Option.map_eq_some_iff.mp oneChunk_stream
  obtain ⟨hdone, hstream⟩ := Prod.mk.inj hstream
  obtain ⟨hresponse, hbytes⟩ := Prod.mk.inj hstream
  have hlarge : HttpResponseParserLimits.LargeEnough {}
      (sanitizeUpstreamResponse s.parser.response) (toChars 10 1) := by
    rw [hresponse]
    constructor <;> decide +kernel
  have hroom : (writtenBytes s.output).length ≤ vectorMaxSize := by
    rw [hbytes]
    decide +kernel
  have hread := Buffer.holding_readableView hroom
  have hiff :=
    stream_round_trip smallProxy 1 none _ {} (by decide) _ s hrun (of_decide_eq_true hdone)
    {} hlarge _ hread
  rw [hread] at hiff
  refine ⟨s, hrun, hiff.mpr ?_⟩
  rw [hresponse]
  decide +kernel

/-- A response with status 204. -/
def noContentEvents : List ExchangeEvent :=
  requestEvents ++ readEvents true ++
    [.session (.received (bytes "HTTP/1.1 204 No Content\r\n\r\n")), .session .run,
     .session .run, .session (.written .sent), .session .run, .session .run,
     .session (.written .sent), .transacted]

theorem noContent_stream :
    ((Machine.run step (smallExchange .Get) noContentEvents).bind (·.transaction)).map streamOf =
      some (true, { statusCode := 204, reason := bytes "No Content" },
        bytes "HTTP/1.1 204 No Content\r\nX-Request-Id: 1\r\nTransfer-Encoding: chunked\r\n" ++
          bytes "Connection: keep-alive\r\n\r\n0\r\n\r\n") := by
  decide +kernel

/-- The parser is done at the end of the head, and leaves the last chunk unread. -/
theorem no_content_leaves_terminator :
    (smallExchange .Get).forwards = true ∧
      ∃ s, (Machine.run step (smallExchange .Get) noContentEvents).bind (·.transaction) = some s ∧
        s.FullyStreamed ∧
        HttpResponseParserLimits.LargeEnough {} (sanitizeUpstreamResponse s.parser.response)
          (toChars 10 1) ∧
        (∃ p, HttpResponseParser.parse { limits := {} } (writtenBytes s.output) =
          .finished .Complete p (bytes "0\r\n\r\n")) ∧
        ¬ HttpResponseParser.RoundTrip {} (sanitizeUpstreamResponse s.parser.response)
          (toChars 10 1) (writtenBytes s.output) := by
  obtain ⟨s, hrun, hstream⟩ := Option.map_eq_some_iff.mp noContent_stream
  obtain ⟨hdone, hstream⟩ := Prod.mk.inj hstream
  obtain ⟨hresponse, hbytes⟩ := Prod.mk.inj hstream
  have hparse : ∃ p, HttpResponseParser.parse { limits := {} } (writtenBytes s.output) =
      .finished .Complete p (bytes "0\r\n\r\n") := by
    rw [hbytes]
    exact ⟨_, rfl⟩
  refine ⟨by decide, s, hrun, of_decide_eq_true hdone, ?_, hparse, ?_⟩
  · rw [hresponse]
    constructor <;> decide +kernel
  · rintro ⟨q, hround, _⟩
    obtain ⟨p, hparse⟩ := hparse
    rw [hround] at hparse
    exact absurd (ParseOutcome.finished.inj hparse).2.2 (by decide)

end Exchange
end PulseGate
