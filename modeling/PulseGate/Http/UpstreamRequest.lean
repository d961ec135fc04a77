import PulseGate.Http.ProxyMessages
import PulseGate.Http.RequestGrammar

namespace PulseGate

/-!
# What an upstream reads of a request

The text of `serializeUpstreamRequest`, read again by a parser of the same kind as the one the
request came from.

* `ForwardedTo` — the request that the upstream should see;
* `upstreamMessage` — the text as a message of the grammar, `upstreamMessage_wellFormed`;
* `serializeUpstreamRequest_read` — the text is read whole, as the request that was meant.
-/

/-- A member of a `Connection` header of the client names the header. -/
def Headers.NamedByConnection (h : Headers) (name : Bytes) : Prop :=
  ∃ connection ∈ h.entries, connection.name = bytes "connection" ∧
    ∃ member ∈ connection.value.splitOn 44, (trim member).map tolower = name

instance (h : Headers) (name : Bytes) : Decidable (h.NamedByConnection name) :=
  inferInstanceAs (Decidable (∃ connection ∈ h.entries, _ ∧ ∃ member ∈ _, _))

/-- The headers that the gateway writes itself. -/
def gatewayHeaders : List Bytes :=
  [bytes "host", bytes "content-length", bytes "x-forwarded-for", bytes "x-forwarded-proto",
   bytes "x-request-id", bytes "connection"]

/-- The request that an upstream should see for a request of a client. -/
structure ForwardedTo (upstream : UpstreamEndpoint) (context : RequestContext)
    (client seen : HttpRequest) : Prop where
  method : seen.method = client.method
  target : seen.target = client.target
  body : seen.body = client.body
  host : seen.headers.values (bytes "host") = [authority upstream]
  contentLength : seen.headers.values (bytes "content-length") = [toChars 10 client.body.length]
  forwardedFor : seen.headers.values (bytes "x-forwarded-for") =
    [context.peer.getD (bytes "unknown")]
  forwardedProto : seen.headers.values (bytes "x-forwarded-proto") = [bytes "http"]
  requestId : seen.headers.values (bytes "x-request-id") = [context.requestId]
  connection : seen.headers.values (bytes "connection") = [bytes "keep-alive"]
  others : seen.headers.entries.filter (fun h => h.name ∉ gatewayHeaders) =
    client.headers.entries.filter fun h =>
      h.name ∉ fixedHopByHop ∧ ¬client.headers.NamedByConnection h.name ∧
        h.name ∉ rewrittenHeaders

/-- An endpoint whose parts are text on one line. -/
structure UpstreamEndpoint.OneLine (upstream : UpstreamEndpoint) : Prop where
  host : isValidHeaderValue upstream.host = true ∧ trim upstream.host = upstream.host
  service : isValidHeaderValue upstream.service = true ∧ trim upstream.service = upstream.service

/-- What the context holds: an address as the library prints it, without blanks or control
    characters, and a number. -/
structure RequestContext.Printed (context : RequestContext) : Prop where
  peer : ∀ address ∈ context.peer, ∀ c ∈ address, 0x20 < c
  requestId : ∃ n : Nat, context.requestId = toChars 10 n

/-- Limits that no text of `size` bytes with `count` headers exceeds. -/
structure HttpParserLimits.AtLeast (limits : HttpParserLimits) (size count : Nat) : Prop where
  requestLine : size ≤ limits.maxRequestLineBytes
  header : size ≤ limits.maxHeaderBytes
  headerCount : count ≤ limits.maxHeaderCount
  headerLine : size ≤ limits.maxHeaderLineBytes
  body : size ≤ limits.maxBodyBytes

/-! ### The text as a message -/

/-- A header as the serializers write it. -/
def Header.toLine (h : Header) : HeaderLine where
  name := h.name
  before := bytes " "
  value := h.value

theorem Header.line_eq (h : Header) : h.line = h.toLine.text ++ crlf := by
  simp [line, toLine, HeaderLine.text, bytes]

/-- The headers that the gateway adds, as they are written. -/
def addedRequestHeaders (request : HttpRequest) (upstream : UpstreamEndpoint)
    (context : RequestContext) : List Header :=
  [{ name := bytes "Host", value := authority upstream },
   { name := bytes "X-Forwarded-For", value := context.peer.getD (bytes "unknown") },
   { name := bytes "X-Forwarded-Proto", value := bytes "http" },
   { name := bytes "X-Request-Id", value := context.requestId },
   { name := bytes "Content-Length", value := toChars 10 request.body.length },
   { name := bytes "Connection", value := bytes "keep-alive" }]

def upstreamMessage (request : HttpRequest) (upstream : UpstreamEndpoint)
    (context : RequestContext) : RequestMessage where
  head := {
    method := request.method.name
    target := request.target
    version := .Http11
    lines := (request.headers.passedOn ++ addedRequestHeaders request upstream context).map
      Header.toLine }
  body := request.body

section Text

variable {request : HttpRequest} {upstream : UpstreamEndpoint} {context : RequestContext}

theorem linesText_toLine (headers : List Header) :
    linesText (headers.map Header.toLine) = headers.flatMap Header.line := by
  rw [linesText, List.flatMap_map]
  exact congrArg (fun f => headers.flatMap f) (funext fun h => h.line_eq.symm)

theorem upstreamMessage_text (htarget : request.target ≠ []) :
    (upstreamMessage request upstream context).text =
      serializeUpstreamRequest request upstream context := by
  have hlines := linesText_toLine
    (request.headers.passedOn ++ addedRequestHeaders request upstream context)
  have hempty : request.target.isEmpty = false := by simpa using htarget
  unfold RequestMessage.text RequestHead.text upstreamMessage serializeUpstreamRequest
  dsimp only
  rw [hlines, hempty, if_neg Bool.false_ne_true]
  simp [RequestHead.requestLine, HttpVersion.text, addedRequestHeaders, Header.line, bytes, crlf]

/-! ### Its bytes -/

/-- A request that a parser has read. -/
structure Received (request : HttpRequest) : Prop where
  target : request.target ≠ [] ∧ ∀ c ∈ request.target, 0x20 < c ∧ c ≠ 0x7F
  headers : ∀ h ∈ request.headers.entries, h.WellFormed
  body : request.body.length < sizeModulus

theorem received_of_parse {limits : HttpParserLimits} (hlimits : limits.Accepted) {s rest : Bytes}
    {q : HttpParser}
    (hparse : ({ limits := limits } : HttpParser).parse s = (.Complete, q, rest)) :
    Received q.request := by
  obtain ⟨m, hm, _, rfl⟩ := HttpParser.parse_complete hparse
  refine ⟨hm.head.target, ?_, HttpParser.body_lt hlimits hm⟩
  intro h hmem
  obtain ⟨l, hl, rfl⟩ := List.mem_map.mp hmem
  have hwell := hm.head.lines l hl
  exact Header.wellFormed_add hwell.name hwell.value hwell.trimmed

theorem toLine_wellFormed {name value : Bytes} (hname : isValidHeaderName name = true)
    (hvalue : isValidHeaderValue value = true) (htrimmed : trim value = value) :
    Header.toLine { name := name, value := value } |>.WellFormed where
  name := hname
  value := hvalue
  trimmed := htrimmed
  before := by
    show ∀ c ∈ bytes " ", isBlank c = true
    decide +kernel
  after := by simp [Header.toLine]

theorem isValidHeaderValue_append {a b : Bytes} (ha : isValidHeaderValue a = true)
    (hb : isValidHeaderValue b = true) : isValidHeaderValue (a ++ b) = true := by
  rw [isValidHeaderValue] at ha hb ⊢
  rw [List.all_append, ha, hb]
  rfl

/-- Between two strings that are trimmed a character that is no blank keeps them so. -/
theorem trim_join {a b : Bytes} {c : UInt8} (ha : trim a = a) (hc : isBlank c = false)
    (hb : trim b = b) : trim (a ++ c :: b) = a ++ c :: b := by
  rw [trim_eq_self_iff] at ha hb ⊢
  refine ⟨?_, ?_⟩
  · cases a with
    | nil => simpa using hc
    | cons d a => simpa using ha.1
  · intro d hd
    cases b with
    | nil =>
      rw [List.getLast?_append] at hd
      simp only [List.getLast?_singleton, Option.some_or, Option.mem_def, Option.some.injEq] at hd
      rw [← hd]
      exact hc
    | cons e b =>
      apply hb.2 d
      rw [List.getLast?_append, List.getLast?_cons_cons] at hd
      simpa [List.getLast?_cons] using hd

/-- The authority is text on one line. -/
theorem authority_oneLine (hupstream : upstream.OneLine) :
    isValidHeaderValue (authority upstream) = true ∧
      trim (authority upstream) = authority upstream := by
  obtain ⟨⟨hhost, hhost'⟩, hservice, hservice'⟩ := hupstream
  have hcolon : isBlank 58 = false := by decide
  have htail : isValidHeaderValue (58 :: upstream.service) = true :=
    isValidHeaderValue_append (a := [58]) (by decide) hservice
  by_cases hv6 : upstream.host.contains 58
  · -- an address with colons is put in brackets
    have hbrackets : authority upstream =
        ([] ++ 91 :: (upstream.host ++ 93 :: [])) ++ 58 :: upstream.service := by
      unfold authority
      rw [if_neg (by simp only [hv6]; decide)]
      simp [bytes]
    rw [hbrackets]
    refine ⟨isValidHeaderValue_append ?_ htail, trim_join ?_ hcolon hservice'⟩
    · exact isValidHeaderValue_append (a := [91]) (by decide)
        (isValidHeaderValue_append hhost (by decide))
    · exact trim_join rfl (by decide) (trim_join hhost' (by decide) rfl)
  · have hplain : authority upstream = upstream.host ++ 58 :: upstream.service := by
      unfold authority
      rw [if_pos (by simp only [hv6]; decide)]
      simp [bytes]
    rw [hplain]
    exact ⟨isValidHeaderValue_append hhost htail, trim_join hhost' hcolon hservice'⟩

/-- So is the address of the peer. -/
theorem peer_oneLine (hcontext : context.Printed) :
    isValidHeaderValue (context.peer.getD (bytes "unknown")) = true ∧
      trim (context.peer.getD (bytes "unknown")) = context.peer.getD (bytes "unknown") := by
  cases hpeer : context.peer with
  | none => decide
  | some address =>
    have hprinted := hcontext.peer address hpeer
    refine ⟨List.all_eq_true.mpr ?_, trim_eq_self ?_⟩
    · intro c hc
      have hlt := hprinted c hc
      have hne : c ≠ 13 ∧ c ≠ 10 ∧ c ≠ 0 := by
        refine ⟨?_, ?_, ?_⟩ <;> rintro rfl <;> exact absurd hlt (by decide)
      simp [hne]
    · intro c hc
      have hlt := hprinted c hc
      have hne : c ≠ 32 ∧ c ≠ 9 := by
        refine ⟨?_, ?_⟩ <;> rintro rfl <;> exact absurd hlt (by decide)
      simp [isBlank, hne]

/-- The headers that the gateway adds can be written. -/
theorem addedRequestHeaders_wellFormed (hupstream : upstream.OneLine) (hcontext : context.Printed) :
    ∀ h ∈ addedRequestHeaders request upstream context, h.toLine.WellFormed := by
  obtain ⟨n, hid⟩ := hcontext.requestId
  have hauthority := authority_oneLine hupstream
  have hpeer := peer_oneLine hcontext
  intro h hmem
  simp only [addedRequestHeaders, List.mem_cons, List.not_mem_nil, or_false] at hmem
  rcases hmem with rfl | rfl | rfl | rfl | rfl | rfl
  · exact toLine_wellFormed (by decide) hauthority.1 hauthority.2
  · exact toLine_wellFormed (by decide) hpeer.1 hpeer.2
  · exact toLine_wellFormed (by decide) (by decide) (by decide)
  · refine toLine_wellFormed (by decide) ?_ ?_
    · rw [hid]
      exact isValidHeaderValue_toChars n
    · rw [hid]
      exact trim_toChars n
  · exact toLine_wellFormed (by decide) (isValidHeaderValue_toChars _) (trim_toChars _)
  · exact toLine_wellFormed (by decide) (by decide) (by decide)

/-! ### The headers that are passed on -/

/-- The client's headers that the gateway passes on are those that the request should keep. -/
theorem hopByHop_iff {h : Header} {all : Headers} (hh : h.WellFormed) :
    hopByHop h all = false ↔
      h.name ∉ fixedHopByHop ∧ ¬all.NamedByConnection h.name ∧ h.name ∉ rewrittenHeaders := by
  have hname : h.name ≠ [] := by
    intro hnil
    have hvalid := hh.name
    rw [hnil] at hvalid
    cases hvalid
  have hlower : normalizeHeaderName (bytes "connection") = bytes "connection" := by decide
  have hnamed : ((all.values (bytes "connection")).any fun value => containsToken value h.name) =
      true ↔ all.NamedByConnection h.name := by
    rw [List.any_eq_true]
    constructor
    · rintro ⟨value, hmem, htoken⟩
      obtain ⟨e, he, rfl⟩ := List.mem_map.mp hmem
      rw [List.mem_filter, hlower] at he
      obtain ⟨member, hmember, heq⟩ := (containsToken_iff hname _).mp htoken
      exact ⟨e, he.1, by simpa using he.2, member, hmember, heq.trans hh.lower⟩
    · rintro ⟨e, he, hconnection, member, hmember, heq⟩
      refine ⟨e.value, List.mem_map.mpr ⟨e, ?_, rfl⟩,
        (containsToken_iff hname _).mpr ⟨member, hmember, heq.trans hh.lower.symm⟩⟩
      rw [List.mem_filter, hlower]
      exact ⟨he, by simpa using hconnection⟩
  unfold hopByHop
  rw [Bool.or_eq_false_iff, Bool.or_eq_false_iff, Bool.eq_false_iff (b := List.any _ _), ne_eq,
    hnamed]
  simp [and_assoc]

theorem passedOn_eq (hrequest : Received request) :
    request.headers.passedOn = request.headers.entries.filter fun h =>
      h.name ∉ fixedHopByHop ∧ ¬request.headers.NamedByConnection h.name ∧
        h.name ∉ rewrittenHeaders := by
  unfold Headers.passedOn
  apply List.filter_congr
  intro h hmem
  rw [Bool.eq_iff_iff, Bool.not_eq_true', hopByHop_iff (hrequest.headers h hmem),
    decide_eq_true_iff]

/-- None of them is a header that the gateway writes, or the old framing. -/
theorem passedOn_name (hrequest : Received request) {h : Header}
    (hmem : h ∈ request.headers.passedOn) :
    h ∈ request.headers.entries ∧ h.name ∉ gatewayHeaders ∧
      h.name ≠ bytes "transfer-encoding" := by
  rw [passedOn_eq hrequest, List.mem_filter, decide_eq_true_iff] at hmem
  obtain ⟨hentry, hfixed, _, hrewritten⟩ := hmem
  refine ⟨hentry, ?_, ?_⟩
  · intro hgateway
    -- all but the last are rewritten, and the last is hop-by-hop
    have hsplit : ∀ name ∈ gatewayHeaders, name ∈ rewrittenHeaders ∨ name ∈ fixedHopByHop := by
      decide
    rcases hsplit _ hgateway with hbad | hbad
    · exact hrewritten hbad
    · exact hfixed hbad
  · intro hname
    apply hfixed
    rw [hname]
    decide

/-- The values of a header among those that are written. -/
theorem values_upstreamMessage (name : Bytes) :
    (upstreamMessage request upstream context).head.values name =
      ((request.headers.passedOn.filter fun h => normalizeHeaderName h.name = name) ++
        (addedRequestHeaders request upstream context).filter fun h =>
          normalizeHeaderName h.name = name).map (·.value) := by
  unfold RequestHead.values upstreamMessage
  rw [List.filter_map, List.map_map, List.filter_append]
  rfl

/-- A header of the gateway comes from the gateway. -/
theorem values_gateway (hrequest : Received request) {name : Bytes}
    (hname : name ∈ gatewayHeaders ∨ name = bytes "transfer-encoding") :
    (upstreamMessage request upstream context).head.values name =
      ((addedRequestHeaders request upstream context).filter fun h =>
        normalizeHeaderName h.name = name).map (·.value) := by
  have hnone :
      (request.headers.passedOn.filter fun h => normalizeHeaderName h.name = name) = [] := by
    rw [List.filter_eq_nil_iff]
    intro h hmem
    obtain ⟨hentry, hgateway, htransfer⟩ := passedOn_name hrequest hmem
    rw [decide_eq_true_iff, (hrequest.headers h hentry).lower]
    rintro rfl
    rcases hname with hname | hname
    · exact hgateway hname
    · exact htransfer hname
  rw [values_upstreamMessage, hnone, List.nil_append]

/-! ### The text is read back -/

/-- A header line takes its bytes. -/
theorem linesText_length (lines : List HeaderLine) :
    ∀ l ∈ lines, l.text.length ≤ (linesText lines).length := by
  induction lines with
  | nil => simp [linesText]
  | cons l lines ih =>
    have hcons : (linesText (l :: lines)).length =
        l.text.length + 2 + (linesText lines).length := by
      rw [linesText, List.flatMap_cons, List.length_append, List.length_append]
      rfl
    rw [hcons]
    intro l' hmem
    rcases List.mem_cons.mp hmem with rfl | hmem
    · omega
    · have hle := ih l' hmem
      omega

/-- The other headers that the upstream sees are those that are passed on. -/
theorem upstreamMessage_others (hrequest : Received request) :
    (upstreamMessage request upstream context).head.headers.entries.filter
      (fun h => h.name ∉ gatewayHeaders) = request.headers.passedOn := by
  have hentries : (upstreamMessage request upstream context).head.headers.entries =
      request.headers.passedOn.map (fun h => h.toLine.header) ++
        (addedRequestHeaders request upstream context).map fun h => h.toLine.header := by
    unfold RequestHead.headers upstreamMessage
    rw [List.map_map, List.map_append]
    rfl
  have hpassed : request.headers.passedOn.map (fun h => h.toLine.header) =
      request.headers.passedOn := by
    rw [List.map_congr_left (g := id), List.map_id]
    intro h hmem
    have hlower := (hrequest.headers h (passedOn_name hrequest hmem).1).lower
    show ({ name := normalizeHeaderName h.name, value := h.value } : Header) = h
    rw [hlower]
  have hkept : request.headers.passedOn.filter (fun h => h.name ∉ gatewayHeaders) =
      request.headers.passedOn := by
    rw [List.filter_eq_self]
    intro h hmem
    simpa using (passedOn_name hrequest hmem).2.1
  have hadded : ((addedRequestHeaders request upstream context).map
      (fun h => h.toLine.header)).filter (fun h => h.name ∉ gatewayHeaders) = [] := rfl
  rw [hentries, hpassed, List.filter_append, hkept, hadded, List.append_nil]

theorem isValidHeaderName_method (method : HttpMethod) :
    isValidHeaderName method.name = true := by
  cases method <;> decide

theorem upstreamMessage_wellFormed {limits : HttpParserLimits} (hrequest : Received request)
    (hupstream : upstream.OneLine) (hcontext : context.Printed)
    (hlimits : limits.AtLeast (serializeUpstreamRequest request upstream context).length
      (request.headers.entries.length + 6)) :
    (upstreamMessage request upstream context).WellFormed limits := by
  rw [← upstreamMessage_text hrequest.target.1] at hlimits
  generalize hm : upstreamMessage request upstream context = m at hlimits ⊢
  have hlines : m.head.lines =
      (request.headers.passedOn ++ addedRequestHeaders request upstream context).map
        Header.toLine := by rw [← hm]; rfl
  -- the parts of the text are no longer than the text
  have hhead := m.head.text_length
  have hmessage : m.text.length = m.head.text.length + 2 + m.body.length := by
    simp only [RequestMessage.text, List.length_append, crlf, List.length_cons, List.length_nil]
  have hline := linesText_length m.head.lines
  have hcount : m.head.lines.length ≤ request.headers.entries.length + 6 := by
    have hpassed : request.headers.passedOn.length ≤ request.headers.entries.length :=
      List.length_filter_le ..
    have hadded : (addedRequestHeaders request upstream context).length = 6 := rfl
    rw [hlines, List.length_map, List.length_append, hadded]
    omega
  have hlimit := hlimits.header
  have hvalues : ∀ name, name ∈ gatewayHeaders ∨ name = bytes "transfer-encoding" →
      m.head.values name = ((addedRequestHeaders request upstream context).filter fun h =>
        normalizeHeaderName h.name = name).map (·.value) := by
    intro name hname
    rw [← hm]
    exact values_gateway hrequest hname
  refine ⟨⟨?_, ?_, ?_, ?_, ?_, ?_, ?_⟩, ?_, ⟨?_, ?_, .inr ⟨toChars 10 m.body.length, ?_, ?_⟩⟩, ?_⟩
  · rw [← hm]
    exact isValidHeaderName_method request.method
  · rw [← hm]
    exact hrequest.target
  · intro l hmem
    rw [hlines] at hmem
    obtain ⟨h, hheader, rfl⟩ := List.mem_map.mp hmem
    rcases List.mem_append.mp hheader with hpassed | hadded
    · have hh := hrequest.headers h (passedOn_name hrequest hpassed).1
      exact toLine_wellFormed hh.name hh.value hh.trimmed
    · exact addedRequestHeaders_wellFormed hupstream hcontext h hadded
  · have hle := hlimits.requestLine
    omega
  · intro l hmem
    have hle := hlimits.headerLine
    have hlength := hline l hmem
    omega
  · omega
  · have hle := hlimits.headerCount
    omega
  · rw [List.length_append]
    show m.head.text.length + 2 ≤ limits.maxHeaderBytes
    omega
  · intro _
    rw [hvalues _ (.inl (by decide))]
    exact List.cons_ne_nil (authority upstream) []
  · rw [hvalues _ (.inr rfl)]
    rfl
  · rw [hvalues _ (.inl (by decide)), ← hm]
    rfl
  · exact Numeral.read_write (by omega) (fun _ => digitValue_digitChar (by omega)) _
  · have hle := hlimits.body
    omega

/-- **No smuggling.**  What the gateway sends for a request that it has read is read by another
    parser of the same kind as one request, to the last byte: that of the client with its own
    headers, less those that are not passed on, and the headers of the gateway. -/
theorem serializeUpstreamRequest_read {limits limits' : HttpParserLimits}
    (hlimits : limits.Accepted) {s rest : Bytes} {q : HttpParser}
    (hparse : ({ limits := limits } : HttpParser).parse s = (.Complete, q, rest))
    (hupstream : upstream.OneLine) (hcontext : context.Printed)
    (hlimits' : limits'.AtLeast (serializeUpstreamRequest q.request upstream context).length
      (q.request.headers.entries.length + 6)) :
    ∃ q' : HttpParser,
      ({ limits := limits' } : HttpParser).parse
          (serializeUpstreamRequest q.request upstream context) = (.Complete, q', []) ∧
        ForwardedTo upstream context q.request q'.request := by
  have hrequest := received_of_parse hlimits hparse
  have hm := upstreamMessage_wellFormed hrequest hupstream hcontext hlimits'
  have hread := HttpParser.parse_message hm hrequest.body []
  rw [List.append_nil, upstreamMessage_text hrequest.target.1] at hread
  have hvalues : ∀ name, name ∈ gatewayHeaders → normalizeHeaderName name = name →
      (upstreamMessage q.request upstream context).head.headers.values name =
        ((addedRequestHeaders q.request upstream context).filter fun h =>
          normalizeHeaderName h.name = name).map (·.value) := by
    intro name hname hlower
    rw [RequestHead.values_headers _ hlower, values_gateway hrequest (.inl hname)]
  refine ⟨_, hread, ⟨parseHttpMethod_name q.request.method, rfl, rfl, ?_, ?_, ?_, ?_, ?_, ?_, ?_⟩⟩
  · exact hvalues _ (by decide) (by decide)
  · exact hvalues _ (by decide) (by decide)
  · exact hvalues _ (by decide) (by decide)
  · exact hvalues _ (by decide) (by decide)
  · exact hvalues _ (by decide) (by decide)
  · exact hvalues _ (by decide) (by decide)
  · rw [← passedOn_eq hrequest]
    exact upstreamMessage_others hrequest

end Text

/-- A request with a header that its `Connection` header names. -/
theorem serializeUpstreamRequest_read_named :
    ∃ q q' : HttpParser,
      ({ limits := {} } : HttpParser).parse
          (bytes "GET / HTTP/1.0\r\nConnection: X-A\r\nX-A:1\r\n\r\n") = (.Complete, q, []) ∧
        ({ limits := {} } : HttpParser).parse
          (serializeUpstreamRequest q.request ⟨bytes "h", bytes "80"⟩
            ⟨toChars 10 7, none, false, false⟩) = (.Complete, q', []) ∧
        ForwardedTo ⟨bytes "h", bytes "80"⟩ ⟨toChars 10 7, none, false, false⟩
          q.request q'.request := by
  let m : RequestMessage :=
    ⟨⟨bytes "GET", bytes "/", .Http10,
      [⟨bytes "Connection", bytes " ", bytes "X-A", []⟩, ⟨bytes "X-A", [], bytes "1", []⟩]⟩, []⟩
  have hline : ∀ l ∈ m.head.lines, l.WellFormed := by
    intro l hmem
    simp only [m, List.mem_cons, List.not_mem_nil, or_false] at hmem
    rcases hmem with rfl | rfl <;>
      exact ⟨by decide, by decide, by decide, by decide +kernel, by decide +kernel⟩
  have hm : m.WellFormed {} :=
    ⟨⟨by decide, by decide +kernel, hline, by decide, by decide, by decide, by decide⟩,
      ⟨by decide, ⟨by decide, by decide, .inl ⟨by decide, rfl⟩⟩, by decide⟩⟩
  have htext : bytes "GET / HTTP/1.0\r\nConnection: X-A\r\nX-A:1\r\n\r\n" = m.text ++ [] := by
    decide
  have hparse := HttpParser.parse_message hm (by decide) []
  rw [← htext] at hparse
  have hupstream : UpstreamEndpoint.OneLine ⟨bytes "h", bytes "80"⟩ := ⟨by decide, by decide⟩
  have hcontext : RequestContext.Printed ⟨toChars 10 7, none, false, false⟩ := ⟨by simp, 7, rfl⟩
  have hlimits : ({} : HttpParserLimits).AtLeast
      (serializeUpstreamRequest (HttpParser.completed {} m).request ⟨bytes "h", bytes "80"⟩
        ⟨toChars 10 7, none, false, false⟩).length
      ((HttpParser.completed {} m).request.headers.entries.length + 6) :=
    ⟨by decide +kernel, by decide +kernel, by decide +kernel, by decide +kernel, by decide +kernel⟩
  obtain ⟨q', hread, hforwarded⟩ :=
    serializeUpstreamRequest_read (by decide) hparse hupstream hcontext hlimits
  exact ⟨_, q', hparse, hread, hforwarded⟩

end PulseGate
