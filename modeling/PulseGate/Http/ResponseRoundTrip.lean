import PulseGate.Http.ResponseSegments
import PulseGate.Http.SessionPersistence

namespace PulseGate

/-!
# Responses are read back

The parser of upstream responses, when it reads what `HttpResponse::serialize` writes.  The
reader finds the headers of the response other than `content-length` and `connection`, with the
two that `serialize` adds behind them.

* `loopBody_fixedLength` — the headers that are added frame the body;
* `parse_serialize` — one call reads the response back, and leaves what follows it;
* `serialize_round_trip` — so do the calls for its fragments.
-/

namespace HttpResponse

/-- The bytes of the body that are written. -/
def sentBody (r : HttpResponse) (headRequest : Bool) : Bytes := if headRequest then [] else r.body

/-- The response as its reader has it. -/
def readBack (r : HttpResponse) (headRequest : Bool) : HttpResponse where
  statusCode := r.statusCode
  reason := r.reason
  headers := { entries := r.ownHeaders ++ (serializedHeaders r).map Header.normalized }
  body := r.sentBody headRequest

/-- A response that its reader can tell from its text. -/
structure Legible (r : HttpResponse) : Prop where
  final : r.statusCode.tdiv 100 ≠ 1
  unchunked : r.headers.contains (bytes "transfer-encoding") = false
  lower : r.headers.Lower
  trimmed : ∀ h ∈ r.ownHeaders, trim h.value = h.value
  empty : r.statusCode = 204 ∨ r.statusCode = 304 → r.body = []

end HttpResponse

/-- The limits admit the text of the response. -/
structure HttpResponseParserLimits.Admits (l : HttpResponseParserLimits) (r : HttpResponse)
    (headRequest : Bool) : Prop where
  statusLine : r.statusLine.length ≤ l.maxStatusLineBytes + 2
  headerBytes : r.statusLine.length +
    ((r.ownHeaders ++ serializedHeaders r).flatMap Header.line).length + 2 ≤ l.maxHeaderBytes
  headerCount : r.ownHeaders.length + 2 ≤ l.maxHeaderCount
  body : (r.sentBody headRequest).length ≤ l.maxBodyBytes

namespace HttpResponseParser

variable {r : HttpResponse} {headRequest : Bool} {limits : HttpResponseParserLimits}
  {p : HttpResponseParser} {rest text : Bytes} {fragments : List Bytes}

/-! ### The framing -/

theorem normalized_serializedHeaders (r : HttpResponse) :
    (serializedHeaders r).map Header.normalized =
      [{ name := bytes "content-length", value := toChars 10 r.body.length },
       { name := bytes "connection",
         value := if r.closeConnection then bytes "close" else bytes "keep-alive" }] := by
  have hnames : normalizeHeaderName (bytes "Content-Length") = bytes "content-length" ∧
      normalizeHeaderName (bytes "Connection") = bytes "connection" := by decide
  simp only [serializedHeaders, List.map_cons, List.map_nil, Header.normalized, hnames]

/-- No header says that the body is chunked. -/
theorem transfers_readBack (h : r.headers.contains (bytes "transfer-encoding") = false) :
    (r.readBack headRequest).headers.values (bytes "transfer-encoding") = [] := by
  have hlower : normalizeHeaderName (bytes "transfer-encoding") = bytes "transfer-encoding" := by
    decide
  have hdiffer : bytes "content-length" ≠ bytes "transfer-encoding" ∧
      bytes "connection" ≠ bytes "transfer-encoding" := by decide
  have hnone : ∀ header ∈ r.ownHeaders, header.name ≠ bytes "transfer-encoding" := by
    intro header hmem
    simp only [Headers.contains, Headers.get, Option.isSome_map, List.find?_isSome, hlower,
      Bool.eq_false_iff, ne_eq, not_exists, not_and, decide_eq_true_eq] at h
    exact h header (List.mem_filter.mp hmem).1
  have hown : r.ownHeaders.filter
      (fun header => decide (header.name = bytes "transfer-encoding")) = [] := by
    rw [List.filter_eq_nil_iff]
    intro header hmem
    simpa using hnone header hmem
  simp [Headers.values, HttpResponse.readBack, normalized_serializedHeaders, hlower, hown, hdiffer]

/-- The one length is that of the body. -/
theorem lengths_readBack (r : HttpResponse) (headRequest : Bool) :
    (r.readBack headRequest).headers.values (bytes "content-length") =
      [toChars 10 r.body.length] := by
  have hlower : normalizeHeaderName (bytes "content-length") = bytes "content-length" := by decide
  have hdiffer : bytes "connection" ≠ bytes "content-length" := by decide
  have hown : r.ownHeaders.filter
      (fun header => decide (header.name = bytes "content-length")) = [] := by
    rw [List.filter_eq_nil_iff]
    intro header hmem
    obtain ⟨-, hkept⟩ := List.mem_filter.mp hmem
    simp only [Bool.not_eq_true', decide_eq_false_iff_not, not_or] at hkept
    simpa using hkept.1
  simp [Headers.values, HttpResponse.readBack, normalized_serializedHeaders, hlower, hown, hdiffer]

/-- A response without a body is complete, whatever length it gives. -/
theorem finishHeaders_headOnly
    (htransfers : p.response.headers.values (bytes "transfer-encoding") = [])
    (hfinal : p.response.statusCode.tdiv 100 ≠ 1)
    (hbody : p.headRequest = true ∨ noBodyStatus p.response.statusCode = true) :
    p.finishHeaders = (.Complete, { p with state := .Complete }) := by
  have hswitching : p.response.statusCode ≠ 101 := by
    intro hswitching
    rw [hswitching] at hfinal
    exact hfinal (by decide)
  unfold finishHeaders
  dsimp only
  rw [htransfers, if_neg (by simp), if_neg (by simp), if_neg (by simp [hfinal]),
    if_neg hswitching, if_pos (by simpa using hbody)]

/-- A response with a length goes on with that many bytes. -/
theorem finishHeaders_fixedLength {n : Nat}
    (htransfers : p.response.headers.values (bytes "transfer-encoding") = [])
    (hlengths : p.response.headers.values (bytes "content-length") = [toChars 10 n])
    (hfinal : p.response.statusCode.tdiv 100 ≠ 1) (hhead : p.headRequest = false)
    (hbody : noBodyStatus p.response.statusCode = false) (hn : n ≤ p.limits.maxBodyBytes)
    (hsize : n < sizeModulus) :
    p.finishHeaders = (.Complete,
      { p with expectedBodyBytes := n, state := if n = 0 then .Complete else .FixedBody }) := by
  have hswitching : p.response.statusCode ≠ 101 := by
    intro hswitching
    rw [hswitching] at hfinal
    exact hfinal (by decide)
  unfold finishHeaders
  dsimp only
  rw [htransfers, hlengths, if_neg (by simp), if_neg (by simp), if_neg (by simp [hfinal]),
    if_neg hswitching, if_neg (by simp [hhead, hbody]), if_neg (by simp)]
  dsimp only
  rw [fromChars_toChars (by omega) (by omega) hsize]
  dsimp only
  rw [if_neg (by omega)]

/-! ### One call -/

/-- The parser when it has read the head of the response. -/
def headersRead (limits : HttpResponseParserLimits) (headRequest : Bool) (r : HttpResponse) :
    HttpResponseParser :=
  afterHead limits headRequest r.statusCode r.reason (r.ownHeaders ++ serializedHeaders r)

/-- The headers of a response are stored as they were. -/
theorem response_headersRead (hlower : r.headers.Lower) :
    (headersRead limits headRequest r).response = { r.readBack headRequest with body := [] } := by
  have hown : r.ownHeaders.map Header.normalized = r.ownHeaders := by
    refine (List.map_congr_left fun h hmem => ?_).trans (List.map_id' _)
    unfold Header.normalized
    rw [hlower h (List.mem_filter.mp hmem).1]
  simp [headersRead, afterHead, HttpResponse.readBack, hown]

theorem writable_serialized (hr : r.Serializable) (htrimmed : ∀ h ∈ r.ownHeaders,
    trim h.value = h.value) : ∀ h ∈ r.ownHeaders ++ serializedHeaders r, Writable h := by
  intro h hmem
  obtain ⟨hname, hvalue⟩ := hr.valid h hmem
  refine ⟨hname, hvalue, ?_⟩
  rcases List.mem_append.mp hmem with hmem | hmem
  · exact htrimmed h hmem
  · simp only [serializedHeaders, List.mem_cons, List.not_mem_nil, or_false] at hmem
    rcases hmem with rfl | rfl
    · exact trim_toChars r.body.length
    · show trim (if r.closeConnection then bytes "close" else bytes "keep-alive") = _
      split <;> decide

/-- The status line and the headers are read. -/
theorem reaches_headersRead (hr : r.Serializable) (htrimmed : ∀ h ∈ r.ownHeaders,
    trim h.value = h.value) (hlarge : limits.Admits r headRequest)
    (hroom : (headersRead limits headRequest r).headerBytes ≤ vectorMaxSize) :
    Loop.Reaches loopBody (fresh limits headRequest, statusText r.statusCode r.reason ++ crlf ++
      ((r.ownHeaders ++ serializedHeaders r).flatMap Header.line ++ rest))
      (headersRead limits headRequest r, rest) := by
  have hlength : r.statusLine.length = (statusText r.statusCode r.reason).length + 2 :=
    List.length_append
  have hstatus : (intToString r.statusCode).length = 3 := by
    obtain ⟨hlow, hhigh⟩ := hr.status
    exact (intToString_length ⟨by omega, hhigh⟩).2.mpr (.inl hlow)
  have hline := hlarge.statusLine
  have hbytes := hlarge.headerBytes
  apply reaches_afterHead headRequest hstatus hr.reason.1 hr.reason.2 (by omega)
    (writable_serialized hr htrimmed)
  · simpa [serializedHeaders] using hlarge.headerCount
  · show (statusText r.statusCode r.reason).length + 2 + _ ≤ _
    omega
  · exact hroom

/-- From the end of the headers the message is read to its end. -/
theorem ends_framed (hr : r.Legible) (hlarge : limits.Admits r headRequest) {q : HttpResponseParser}
    (hq : q.Bounded) (hs : q.state = .Headers) (hlimits : q.limits = limits)
    (hhead : q.headRequest = headRequest)
    (hresponse : q.response = { r.readBack headRequest with body := [] })
    {s : HttpResponseParser × Bytes}
    (hbody : loopBody s = (q.finishHeadersStep (r.sentBody headRequest ++ rest)).next) :
    ∃ p, Loop.Ends loopBody s (.finished .Complete p rest) ∧ p.messageComplete = true ∧
      p.response = r.readBack headRequest := by
  have hstatus : q.response.statusCode = r.statusCode := by rw [hresponse]; rfl
  have htransfers : q.response.headers.values (bytes "transfer-encoding") = [] := by
    rw [hresponse]
    show (r.readBack headRequest).headers.values _ = []
    exact transfers_readBack hr.unchunked
  have hlengths : q.response.headers.values (bytes "content-length") =
      [toChars 10 r.body.length] := by
    rw [hresponse]
    exact lengths_readBack r headRequest
  have hfinal : q.response.statusCode.tdiv 100 ≠ 1 := by
    rw [hstatus]
    exact hr.final
  unfold finishHeadersStep at hbody
  by_cases hbodiless : q.headRequest = true ∨ noBodyStatus q.response.statusCode = true
  · have hsent : r.sentBody headRequest = [] := by
      unfold HttpResponse.sentBody
      split
      · rfl
      next hnot =>
      rcases hbodiless with hbodiless | hbodiless
      · exact absurd (hhead.symm.trans hbodiless) hnot
      · rw [hstatus] at hbodiless
        exact hr.empty (by simpa [noBodyStatus, hr.final] using hbodiless)
    rw [finishHeaders_headOnly htransfers hfinal hbodiless, hsent] at hbody
    refine ⟨{ q with state := .Complete }, .done hbody, rfl, ?_⟩
    show q.response = _
    rw [hresponse, ← hsent]
    rfl
  · simp only [not_or, Bool.not_eq_true] at hbodiless
    have hsent : r.sentBody headRequest = r.body := by
      rw [HttpResponse.sentBody, ← hhead, hbodiless.1]
      rfl
    have hlimit : r.body.length ≤ q.limits.maxBodyBytes := by
      rw [hlimits, ← hsent]
      exact hlarge.body
    have hsize : r.body.length < sizeModulus := by
      have hmost := hq.accepted.2.2.2.2.2
      unfold kAbsoluteBodyLimit at hmost
      unfold sizeModulus
      omega
    rw [finishHeaders_fixedLength htransfers hlengths hfinal hbodiless.1 hbodiless.2 hlimit hsize,
      hsent] at hbody
    have hframing : q.Framing { q with
        expectedBodyBytes := r.body.length
        state := if r.body.length = 0 then .Complete else .FixedBody } :=
      .fixed hbodiless.1 hbodiless.2 r.body.length hlimit
    have hbounded := (hframing.bounded hq hs).1
    by_cases hzero : r.body.length = 0
    · have hnil : r.body = [] := List.length_eq_zero_iff.mp hzero
      simp only [hzero, if_true] at hbody
      rw [hnil] at hbody
      refine ⟨{ q with expectedBodyBytes := 0, state := .Complete }, .done hbody, rfl, ?_⟩
      show q.response = _
      rw [hresponse, ← hnil, ← hsent]
      rfl
    · simp only [hzero, if_false, reduceCtorEq] at hbody hbounded
      -- the body is read in one iteration
      have hread := loopBody_fixedBody hbounded rfl (r.body ++ rest)
      have hempty : q.response.body = [] := by rw [hresponse]
      rw [hempty, List.length_nil, Nat.sub_zero, if_neg (by simp), List.take_left' rfl,
        List.drop_left' rfl] at hread
      refine ⟨_, .next hbody (.done hread), rfl, ?_⟩
      show { q.response with body := q.response.body ++ r.body } = _
      rw [hempty, hresponse, ← hsent]
      rfl

/-- **One call reads the response back**, and leaves what follows it. -/
theorem parse_serialize (hlimits : limits.Accepted) (hr : r.Legible)
    (hlarge : limits.Admits r headRequest) (htext : r.serialize headRequest = .ok text)
    (hsize : (text ++ rest).length ≤ vectorMaxSize) :
    ∃ p, (fresh limits headRequest).parse (text ++ rest) = .finished .Complete p rest ∧
      p.messageComplete = true ∧ p.response = r.readBack headRequest := by
  obtain ⟨hserializable, rfl⟩ := HttpResponse.serialize_eq_ok.mp htext
  have hinput : statusText r.statusCode r.reason ++ crlf ++
      (r.ownHeaders ++ serializedHeaders r).flatMap Header.line ++ crlf ++
        (if headRequest then [] else r.body) ++ rest =
      statusText r.statusCode r.reason ++ crlf ++
        ((r.ownHeaders ++ serializedHeaders r).flatMap Header.line ++
          (crlf ++ (r.sentBody headRequest ++ rest))) := by
    simp [HttpResponse.sentBody]
  rw [hinput] at hsize ⊢
  have hlength : r.statusLine.length = (statusText r.statusCode r.reason).length + 2 :=
    List.length_append
  have hhead : (headersRead limits headRequest r).headerBytes + 2 ≤ limits.maxHeaderBytes := by
    have hbytes := hlarge.headerBytes
    show (statusText r.statusCode r.reason).length + 2 + _ + 2 ≤ _
    omega
  have hroom : (headersRead limits headRequest r).headerBytes + 2 ≤ vectorMaxSize := by
    have hcrlf : crlf.length = 2 := rfl
    have hsize := hsize
    rw [List.length_append, List.length_append, List.length_append, List.length_append] at hsize
    show (statusText r.statusCode r.reason).length + 2 +
      ((r.ownHeaders ++ serializedHeaders r).flatMap Header.line).length + 2 ≤ vectorMaxSize
    omega
  have hreaches : Loop.Reaches loopBody _
      (headersRead limits headRequest r, crlf ++ (r.sentBody headRequest ++ rest)) :=
    reaches_headersRead hserializable hr.trimmed hlarge (by omega)
  have hempty : loopBody (headersRead limits headRequest r,
      crlf ++ (r.sentBody headRequest ++ rest)) = _ := loopBody_emptyLine rfl hhead hroom
  -- the parser when it has read the head
  let q : HttpResponseParser :=
    { headersRead limits headRequest r with
      headerBytes := (headersRead limits headRequest r).headerBytes + 2 }
  have hresponse : q.response = { r.readBack headRequest with body := [] } :=
    (response_headersRead hr.lower : (headersRead limits headRequest r).response = _)
  have hadvances := reaches_advances hreaches (reading_fresh hlimits) hsize
  have hq : q.Bounded :=
    { hadvances.1.1 with
      header := fun _ => hroom
      count := fun hs => Nat.le_trans (hadvances.1.1.count hs) (Nat.le_add_right _ 2) }
  obtain ⟨p, hends, hread⟩ := ends_framed (q := q) hr hlarge hq rfl rfl rfl
    hresponse hempty
  refine ⟨p, ?_, hread⟩
  obtain ⟨t, ht, hdone⟩ := hends.exists_reaches
  exact parse_local.parse_eq (reading_fresh hlimits) hsize (hreaches.trans ht) hdone

/-! ### All the calls -/

/-- **Serialized responses are read back.**  The calls for the fragments of a text that
    `serialize` writes, with anything behind it, give the response and leave what is behind
    it. -/
theorem serialize_round_trip (limits : HttpResponseParserLimits) (hlimits : limits.Accepted)
    (r : HttpResponse) (headRequest : Bool) (text rest : Bytes) (fragments : List Bytes)
    (htext : r.serialize headRequest = .ok text) (hr : r.Legible)
    (hlarge : limits.Admits r headRequest) (hfragments : fragments.flatten = text ++ rest)
    (hsize : (text ++ rest).length ≤ vectorMaxSize)
    (hcuts : ¬CutsStatusLine limits headRequest fragments) :
    ∃ p, parseFragments limits headRequest fragments = .finished .Complete p rest ∧
      p.messageComplete = true ∧ p.response = r.readBack headRequest := by
  obtain ⟨p, hparse, hread⟩ := parse_serialize hlimits hr hlarge htext hsize
  have halike := parseFragments_whole hlimits (hfragments ▸ hsize) hcuts
  rw [hfragments, hparse] at halike
  refine ⟨p, ?_, hread⟩
  generalize parseFragments limits headRequest fragments = o at halike
  cases halike with
  | same => rfl
  | failed _ _ hcomplete => exact absurd rfl hcomplete

/-- A response with a header of its own, cut inside the header, with another message behind it. -/
theorem serialize_round_trip_ok :
    ∃ p, parseFragments {} false
      [bytes "HTTP/1.1 200 OK\r\nx-ro",
       bytes "ute: a\r\nContent-Length: 2\r\nConnection: keep-alive\r\n\r\nhiHTTP/1.1 404"] =
        .finished .Complete p (bytes "HTTP/1.1 404") ∧ p.messageComplete = true ∧
      p.response =
        HttpResponse.readBack
          { headers := { entries := [{ name := bytes "x-route", value := bytes "a" },
                                     { name := bytes "connection", value := bytes "close" }] },
            body := bytes "hi" } false :=
  serialize_round_trip {} (by decide) _ false
    (bytes "HTTP/1.1 200 OK\r\nx-route: a\r\nContent-Length: 2\r\nConnection: keep-alive\r\n\r\nhi")
    _ _ (by decide +kernel)
    ⟨by decide, by decide +kernel, by decide +kernel, by decide +kernel, by decide⟩
    ⟨by decide +kernel, by decide +kernel, by decide +kernel, by decide +kernel⟩ (by decide +kernel)
    (by decide +kernel) (not_cutsStatusLine (by decide +kernel))

end HttpResponseParser
end PulseGate
