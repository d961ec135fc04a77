import PulseGate.Http.RequestParser

namespace PulseGate

/-!
# The grammar of requests

What `HttpParser` reads, as texts: a request head is a request line and header lines, a
message is a head, an empty line and a body.

* `RequestHead.Admitted`, `RequestHead.Declares` — a head within the limits, and the length of
  the body that its headers declare;
* `HttpParser.reaches_cases`, `HttpParser.reaches_head` — the loop of `parse` is at the start,
  after an admitted head, or before a declared body, and nowhere else;
* `HttpParser.parse_complete` — a call of `parse` is complete exactly on the messages within
  the limits;
* `HttpParser.takeRequests_messages` — messages in a row are read one after the other.
-/

/-! ### Texts -/

inductive HttpVersion
  | Http10
  | Http11
  deriving DecidableEq, Repr

namespace HttpVersion

def text : HttpVersion → Bytes
  | .Http10 => bytes "HTTP/1.0"
  | .Http11 => bytes "HTTP/1.1"

def minor : HttpVersion → Int
  | .Http10 => 0
  | .Http11 => 1

end HttpVersion

/-- A header line: a name, a colon, and a value between blanks. -/
structure HeaderLine where
  name : Bytes
  before : Bytes := []
  value : Bytes
  after : Bytes := []
  deriving DecidableEq, Repr

namespace HeaderLine

def text (l : HeaderLine) : Bytes := l.name ++ 58 :: (l.before ++ l.value ++ l.after)

/-- The header as it is stored. -/
def header (l : HeaderLine) : Header := { name := normalizeHeaderName l.name, value := l.value }

/-- The blanks around the value do not count as part of it. -/
structure WellFormed (l : HeaderLine) : Prop where
  name : isValidHeaderName l.name = true
  value : isValidHeaderValue l.value = true
  trimmed : trim l.value = l.value
  before : ∀ c ∈ l.before, isBlank c = true
  after : ∀ c ∈ l.after, isBlank c = true

end HeaderLine

/-- The text of header lines, each with its end. -/
def linesText (lines : List HeaderLine) : Bytes := lines.flatMap fun l => l.text ++ crlf

/-- A request line and header lines. -/
structure RequestHead where
  method : Bytes
  target : Bytes
  version : HttpVersion
  lines : List HeaderLine
  deriving DecidableEq, Repr

namespace RequestHead

def requestLine (h : RequestHead) : Bytes := h.method ++ 32 :: (h.target ++ 32 :: h.version.text)

def text (h : RequestHead) : Bytes := h.requestLine ++ crlf ++ linesText h.lines

def headers (h : RequestHead) : Headers := { entries := h.lines.map HeaderLine.header }

/-- A well-formed head within the limits. -/
structure Admitted (limits : HttpParserLimits) (h : RequestHead) : Prop where
  method : isValidHeaderName h.method = true
  target : h.target ≠ [] ∧ ∀ c ∈ h.target, 0x20 < c ∧ c ≠ 0x7F
  lines : ∀ l ∈ h.lines, l.WellFormed
  requestLineBytes : h.requestLine.length ≤ limits.maxRequestLineBytes
  headerLineBytes : ∀ l ∈ h.lines, l.text.length ≤ limits.maxHeaderLineBytes
  headerBytes : h.text.length ≤ limits.maxHeaderBytes
  headerCount : h.lines.length ≤ limits.maxHeaderCount

/-- The values of the headers of a name. -/
def values (h : RequestHead) (name : Bytes) : List Bytes :=
  (h.lines.filter fun l => normalizeHeaderName l.name = name).map (·.value)

/-- The head is followed by a body of `n` bytes, and by nothing else. -/
structure Declares (h : RequestHead) (n : Nat) : Prop where
  host : h.version = .Http11 → h.values (bytes "host") ≠ []
  transferEncoding : h.values (bytes "transfer-encoding") = []
  contentLength : h.values (bytes "content-length") = [] ∧ n = 0 ∨
    ∃ value, h.values (bytes "content-length") = [value] ∧
      Numeral.read 10 (digitValue 10) value = some n

/-- The head ends here, and the body that it declares is within the limits. -/
structure Announces (limits : HttpParserLimits) (h : RequestHead) (n : Nat) : Prop where
  headerBytes : (h.text ++ crlf).length ≤ limits.maxHeaderBytes
  declared : h.Declares n
  bodyBytes : n ≤ limits.maxBodyBytes

/-- The request of a head, and of a head and a body. -/
def request (h : RequestHead) (body : Bytes := []) : HttpRequest where
  method := parseHttpMethod h.method
  target := h.target
  versionMajor := 1
  versionMinor := h.version.minor
  headers := h.headers
  body := body

end RequestHead

/-- A whole message. -/
structure RequestMessage where
  head : RequestHead
  body : Bytes
  deriving DecidableEq, Repr

namespace RequestMessage

def text (m : RequestMessage) : Bytes := m.head.text ++ crlf ++ m.body

def request (m : RequestMessage) : HttpRequest := m.head.request m.body

/-- A well-formed message within the limits. -/
structure WellFormed (limits : HttpParserLimits) (m : RequestMessage) : Prop where
  head : m.head.Admitted limits
  body : m.head.Announces limits m.body.length

end RequestMessage

/-! ### Texts and their bytes -/

theorem isRequestTargetValid_iff {target : Bytes} : isRequestTargetValid target = true ↔
    target ≠ [] ∧ ∀ c ∈ target, 0x20 < c ∧ c ≠ 0x7F := by
  simp [isRequestTargetValid, List.all_eq_true]

/-- A name has no separator. -/
theorem not_mem_token {name : Bytes} (h : isValidHeaderName name = true) {c : UInt8}
    (hc : isTokenCharacter c = false) : c ∉ name := by
  intro hmem
  simp only [isValidHeaderName, Bool.and_eq_true, List.all_eq_true] at h
  rw [h.2 c hmem] at hc
  cases hc

theorem not_mem_target {target : Bytes} (h : ∀ c ∈ target, 0x20 < c ∧ c ≠ 0x7F) {c : UInt8}
    (hc : c ≤ 0x20) : c ∉ target :=
  fun hmem => absurd (h c hmem).1 (UInt8.not_lt.mpr hc)

namespace HeaderLine

variable {l : HeaderLine}

theorem WellFormed.not_mem (h : l.WellFormed) : 13 ∉ l.text := by
  have hblank : isBlank 13 = false := by decide
  have hname : 13 ∉ l.name := not_mem_token h.name (by decide)
  have hvalue := mem_isValidHeaderValue h.value
  have hbefore : 13 ∉ l.before := fun hmem => by simp [h.before 13 hmem] at hblank
  have hafter : 13 ∉ l.after := fun hmem => by simp [h.after 13 hmem] at hblank
  simp [text, hname, hvalue, hbefore, hafter]

theorem text_ne_nil : l.text ≠ [] := by
  simp [text]

end HeaderLine

namespace RequestHead

variable {limits : HttpParserLimits} {h : RequestHead}

theorem Admitted.not_mem (ha : h.Admitted limits) : 13 ∉ h.requestLine := by
  have hmethod : 13 ∉ h.method := not_mem_token ha.method (by decide)
  have htarget : 13 ∉ h.target := not_mem_target ha.target.2 (by decide)
  have hversion : 13 ∉ h.version.text := by cases h.version <;> decide
  simp [requestLine, hmethod, htarget, hversion]

/-- One more header line. -/
def snoc (h : RequestHead) (l : HeaderLine) : RequestHead := { h with lines := h.lines ++ [l] }

theorem text_snoc (h : RequestHead) (l : HeaderLine) :
    (h.snoc l).text = h.text ++ (l.text ++ crlf) := by
  simp [snoc, text, linesText, requestLine]

/-- The headers of the request grow by the header of the line. -/
theorem request_snoc (h : RequestHead) (l : HeaderLine) :
    (h.snoc l).request =
      { h.request with headers := h.request.headers.add l.name l.value } := by
  simp [request, headers, snoc, Headers.add, HeaderLine.header]

theorem text_length (h : RequestHead) :
    h.text.length = h.requestLine.length + 2 + (linesText h.lines).length := by
  simp only [text, crlf, List.length_append, List.length_cons, List.length_nil]

end RequestHead

theorem Headers.contains_iff {h : Headers} {name : Bytes} :
    h.contains name = true ↔ h.values name ≠ [] := by
  simp [contains, get, values]

/-- The values that the parser finds for a name in lower case. -/
theorem RequestHead.values_headers (h : RequestHead) {name : Bytes}
    (hname : normalizeHeaderName name = name) : h.headers.values name = h.values name := by
  simp only [headers, Headers.values, hname, List.filter_map, List.map_map]
  rfl

/-! ### One iteration -/

namespace RequestHead

/-- The parser after the head. -/
def parser (h : RequestHead) (limits : HttpParserLimits) : HttpParser where
  limits := limits
  state := .Headers
  request := h.request
  headerBytes := h.text.length
  headerCount := h.lines.length

/-- The parser after the head and the empty line. -/
def endedParser (h : RequestHead) (limits : HttpParserLimits) : HttpParser :=
  { h.parser limits with headerBytes := (h.text ++ crlf).length }

/-- The parser before a body of `n` bytes. -/
def bodyParser (h : RequestHead) (limits : HttpParserLimits) (n : Nat) : HttpParser :=
  { h.endedParser limits with state := .Body, expectedBodyBytes := n }

end RequestHead

namespace HttpParser

variable {p p' : HttpParser} {limits : HttpParserLimits} {h : RequestHead} {l : HeaderLine}
  {line input rest : Bytes} {t : HttpParser × Bytes}

theorem parseRequestLine_requestLine (ha : h.Admitted limits) (hlines : h.lines = []) :
    ({ limits := limits } : HttpParser).parseRequestLine h.requestLine =
      (.Complete, { limits := limits, request := h.request }) := by
  obtain ⟨hmethod, hafter⟩ := takeWhile_separator (c := 32)
    (not_mem_token ha.method (by decide)) (h.target ++ 32 :: h.version.text)
  obtain ⟨htarget, hversion⟩ := takeWhile_separator (c := 32)
    (not_mem_target ha.target.2 (by decide)) h.version.text
  have hspace : h.version.text.contains 32 = false := by cases h.version <;> decide
  have hknown : ¬(h.version.text ≠ bytes "HTTP/1.1" ∧ h.version.text ≠ bytes "HTTP/1.0") := by
    cases h.version <;> decide
  have hminor : ((h.version.text.getLast?.getD 48).toNat : Int) - 48 = h.version.minor := by
    cases h.version <;> decide
  have hvalid : ¬(!isMethodTokenValid h.method ∨ !isRequestTargetValid h.target) := by
    simp [isMethodTokenValid, ha.method, isRequestTargetValid_iff.mpr ha.target]
  unfold parseRequestLine RequestHead.requestLine
  simp only [hmethod, hafter, htarget, hversion]
  rw [if_neg (by rw [hspace]; exact Bool.false_ne_true), if_neg hvalid, if_neg hknown, hminor]
  simp [RequestHead.request, RequestHead.headers, hlines]

/-- A request line that is accepted is the line of a head without headers. -/
theorem parseRequestLine_complete
    (hparse : ({ limits := limits } : HttpParser).parseRequestLine line = (.Complete, p')) :
    ∃ h : RequestHead, h.lines = [] ∧ line = h.requestLine ∧
      isValidHeaderName h.method = true ∧ (h.target ≠ [] ∧ ∀ c ∈ h.target, 0x20 < c ∧ c ≠ 0x7F) ∧
      p' = { limits := limits, request := h.request } := by
  unfold parseRequestLine at hparse
  dsimp only at hparse
  split at hparse
  · simp at hparse
  next d afterMethod hafter =>
  split at hparse
  · simp at hparse
  next d' version hversion =>
  split at hparse
  · simp at hparse
  split at hparse
  · simp at hparse
  next hvalid =>
  split at hparse
  · simp at hparse
  next hknown =>
  have hline : line = line.takeWhile (· ≠ 32) ++
      32 :: (afterMethod.takeWhile (· ≠ 32) ++ 32 :: version) := by
    rw [← eq_append_of_dropWhile hversion]
    exact eq_append_of_dropWhile hafter
  obtain ⟨v, rfl⟩ : ∃ v : HttpVersion, version = v.text := by
    by_cases h11 : version = bytes "HTTP/1.1"
    · exact ⟨.Http11, h11⟩
    · by_cases h10 : version = bytes "HTTP/1.0"
      · exact ⟨.Http10, h10⟩
      · exact absurd ⟨h11, h10⟩ hknown
  have hminor : ((v.text.getLast?.getD 48).toNat : Int) - 48 = v.minor := by
    cases v <;> decide
  simp only [isMethodTokenValid, not_or, Bool.not_eq_true', Bool.not_eq_false] at hvalid
  refine ⟨⟨_, _, v, []⟩, rfl, hline, hvalid.1, isRequestTargetValid_iff.mp hvalid.2, ?_⟩
  rw [← (Prod.mk.inj hparse).2, hminor]
  rfl

/-- A header line within the count is read. -/
theorem parseHeader_text (hl : l.WellFormed)
    (hcount : p.headerCount + 1 ≤ p.limits.maxHeaderCount) :
    p.parseHeader l.text = (.Complete,
      { p with headerCount := p.headerCount + 1,
               request :=
                 { p.request with headers := p.request.headers.add l.name l.value } }) := by
  obtain ⟨hname, hvalue⟩ := takeWhile_separator (c := 58) (not_mem_token hl.name (by decide))
    (l.before ++ l.value ++ l.after)
  unfold parseHeader HeaderLine.text
  simp only [hname, hvalue, trim_surrounded hl.before hl.after hl.trimmed]
  rw [if_neg (by omega), if_neg (by simp [hl.name, hl.value])]

/-- A header line that is accepted has the form of one. -/
theorem parseHeader_complete (hparse : p.parseHeader line = (.Complete, p')) :
    ∃ l : HeaderLine, line = l.text ∧ l.WellFormed ∧ p.headerCount + 1 ≤ p.limits.maxHeaderCount ∧
      p' = { p with
        headerCount := p.headerCount + 1
        request := { p.request with headers := p.request.headers.add l.name l.value } } := by
  unfold parseHeader at hparse
  dsimp only at hparse
  split at hparse
  · simp at hparse
  next hcount =>
  split at hparse
  · simp at hparse
  next d value hvalue =>
  split at hparse
  · simp at hparse
  next hvalid =>
  simp only [not_or, Bool.not_eq_true', Bool.not_eq_false] at hvalid
  obtain ⟨before, after, hsplit, hbefore, hafter⟩ := trim_split value
  refine ⟨⟨line.takeWhile (· ≠ 58), before, trim value, after⟩, ?_,
    ⟨hvalid.1, hvalid.2, trim_trim value, hbefore, hafter⟩, by omega, (Prod.mk.inj hparse).2.symm⟩
  show line = line.takeWhile (· ≠ 58) ++ 58 :: (before ++ trim value ++ after)
  rw [← hsplit]
  exact eq_append_of_dropWhile hvalue

/-- The host of a request with a version that needs one. -/
theorem host_iff (h : RequestHead) :
    ¬(h.request.versionMajor = 1 ∧ h.request.versionMinor = 1 ∧
      (!h.request.headers.contains (bytes "host")) = true) ↔
    (h.version = .Http11 → h.values (bytes "host") ≠ []) := by
  have hvalues : h.request.headers.contains (bytes "host") = true ↔
      h.values (bytes "host") ≠ [] := by
    rw [Headers.contains_iff, ← h.values_headers (by decide)]
    rfl
  have hminor : h.request.versionMinor = 1 ↔ h.version = .Http11 := by
    show h.version.minor = 1 ↔ h.version = .Http11
    cases h.version <;> decide
  have hmajor : h.request.versionMajor = 1 := rfl
  rw [hminor, ← hvalues]
  simp [hmajor]

theorem finishHeaders_declares {n : Nat} (hrequest : p.request = h.request)
    (hd : h.Declares n) (hn : n ≤ p.limits.maxBodyBytes) (hsize : n < sizeModulus) :
    p.finishHeaders = (.Complete, { p with expectedBodyBytes := n }) := by
  have htransfer : h.request.headers.contains (bytes "transfer-encoding") ≠ true := by
    rw [ne_eq, Headers.contains_iff, not_not]
    exact (h.values_headers (by decide)).trans hd.transferEncoding
  have hlength : h.request.headers.values (bytes "content-length") =
      h.values (bytes "content-length") := h.values_headers (by decide)
  unfold finishHeaders
  dsimp only
  rw [hrequest, if_neg ((host_iff h).mpr hd.host), if_neg htransfer, hlength]
  rcases hd.contentLength with ⟨hnone, rfl⟩ | ⟨value, hone, hread⟩
  · rw [hnone]
  · have hvalue : fromChars 10 value = some n := by
      simp [fromChars, hread, hsize]
    rw [hone]
    simp only [hvalue]
    rw [if_neg (by omega)]

theorem finishHeaders_complete (hrequest : p.request = h.request)
    (hfinish : p.finishHeaders = (.Complete, p')) :
    ∃ n, h.Declares n ∧ n ≤ p.limits.maxBodyBytes ∧ p' = { p with expectedBodyBytes := n } := by
  have hlength : h.request.headers.values (bytes "content-length") =
      h.values (bytes "content-length") := h.values_headers (by decide)
  unfold finishHeaders at hfinish
  dsimp only at hfinish
  rw [hrequest, hlength] at hfinish
  split at hfinish
  · simp at hfinish
  next hhost =>
  split at hfinish
  · simp at hfinish
  next htransfer =>
  have hhost := (host_iff h).mp hhost
  have htransfer : h.values (bytes "transfer-encoding") = [] := by
    rw [Headers.contains_iff, not_not] at htransfer
    exact (h.values_headers (by decide)).symm.trans htransfer
  split at hfinish
  · next hnone =>
    have hp' := (Prod.mk.inj hfinish).2.symm
    rw [← hrequest] at hp'
    exact ⟨0, ⟨hhost, htransfer, .inl ⟨hnone, rfl⟩⟩, Nat.zero_le _, hp'⟩
  · next value hone =>
    split at hfinish
    · simp at hfinish
    next n hvalue =>
    split at hfinish
    · simp at hfinish
    next hn =>
    have hread : Numeral.read 10 (digitValue 10) value = some n := by
      simp only [fromChars, Option.filter_eq_some_iff] at hvalue
      exact hvalue.1
    have hp' := (Prod.mk.inj hfinish).2.symm
    rw [← hrequest] at hp'
    exact ⟨n, ⟨hhost, htransfer, .inr ⟨value, hone, hread⟩⟩, by omega, hp'⟩
  · simp at hfinish

/-! #### The request line -/

theorem lineTooLarge_requestLine (hs : p.state = .RequestLine) (size : Nat) :
    p.lineTooLarge size = false ↔
      size ≤ p.limits.maxRequestLineBytes ∧ size + 2 ≤ p.limits.maxHeaderBytes := by
  simp [lineTooLarge, hs]

theorem lineTooLarge_headers (hs : p.state = .Headers) (size : Nat) :
    p.lineTooLarge size = false ↔
      size ≤ p.limits.maxHeaderLineBytes ∧
        p.headerBytes + (size + 2) ≤ p.limits.maxHeaderBytes := by
  have hiff : p.lineTooLarge size = false ↔
      size ≤ p.limits.maxHeaderLineBytes ∧ size + 2 ≤ p.limits.maxHeaderBytes ∧
        p.headerBytes ≤ p.limits.maxHeaderBytes - (size + 2) := by
    simp [lineTooLarge, hs]
  rw [hiff]
  omega

/-- The request line is read. -/
theorem loopBody_requestLine (ha : h.Admitted limits) (hlines : h.lines = []) :
    loopBody ({ limits := limits }, h.text ++ rest) = .inr (h.parser limits, rest) := by
  have hbytes := ha.headerBytes
  have hlength := h.text_length
  have htext : h.text = h.requestLine ++ crlf := by simp [RequestHead.text, hlines, linesText]
  rw [htext, loopBody_splitLine (by simp) (splitLine_append ha.not_mem rest)]
  · unfold lineStep requestLineStep
    rw [if_pos rfl, parseRequestLine_requestLine ha hlines]
    have hcount : h.lines.length = 0 := by simp [hlines]
    have hsize : h.text.length = h.requestLine.length + 2 := by simp [htext, crlf]
    simp [RequestHead.parser, hcount, hsize]
  · rw [lineTooLarge_requestLine rfl]
    refine ⟨ha.requestLineBytes, ?_⟩
    show h.requestLine.length + 2 ≤ limits.maxHeaderBytes
    omega

/-- The first iteration continues after a request line only. -/
theorem loopBody_start (hnext : loopBody ({ limits := limits }, input) = .inr t) :
    ∃ (h : RequestHead) (rest : Bytes), h.Admitted limits ∧ input = h.text ++ rest ∧
      t = (h.parser limits, rest) := by
  obtain ⟨line, _, hsplit, hsize, hline⟩ := loopBody_continues hnext
  have hstep := hline t.2
  obtain ⟨hline, hbytes⟩ := (lineTooLarge_requestLine rfl _).mp hsize
  unfold lineStep requestLineStep at hstep
  rw [if_pos rfl] at hstep
  split at hstep
  · next p' hparse =>
    obtain ⟨h, hlines, rfl, hmethod, htarget, rfl⟩ := parseRequestLine_complete hparse
    have htext : h.text = h.requestLine ++ crlf := by simp [RequestHead.text, hlines, linesText]
    have hsize : h.text.length = h.requestLine.length + 2 := by simp [htext, crlf]
    have ha : h.Admitted limits :=
      ⟨hmethod, htarget, by simp [hlines], hline, by simp [hlines], by rw [hsize]; exact hbytes,
        by simp [hlines]⟩
    refine ⟨h, t.2, ha, ?_, ?_⟩
    · rw [splitLine_eq_some hsplit, htext]
    · have ht : t = (t.1, t.2) := rfl
      rw [ht, ← Sum.inr.inj hstep]
      simp [RequestHead.parser, hlines, hsize]
  · unfold failing at hstep
    cases hstep

/-! #### The headers -/

/-- A header line is read. -/
theorem loopBody_header (ha : (h.snoc l).Admitted limits) :
    loopBody (h.parser limits, l.text ++ crlf ++ rest) =
      .inr ((h.snoc l).parser limits, rest) := by
  have hmem : l ∈ (h.snoc l).lines := by simp [RequestHead.snoc]
  have hl := ha.lines l hmem
  have hcount := ha.headerCount
  have hbytes := ha.headerBytes
  have hlength : (h.snoc l).text.length = h.text.length + (l.text.length + 2) := by
    simp [RequestHead.text_snoc, crlf]
  have hlines : (h.snoc l).lines.length = h.lines.length + 1 := by simp [RequestHead.snoc]
  have hread : ({ h.parser limits with
      headerBytes := h.text.length + (l.text.length + 2) } : HttpParser).parseHeader l.text =
        (.Complete, (h.snoc l).parser limits) := by
    rw [parseHeader_text hl (by show h.lines.length + 1 ≤ limits.maxHeaderCount; omega)]
    simp only [RequestHead.parser, hlength, hlines, h.request_snoc l]
  rw [loopBody_splitLine (by simp [RequestHead.parser]) (splitLine_append hl.not_mem rest)]
  · unfold lineStep headerStep
    rw [if_neg (by simp [RequestHead.parser])]
    dsimp only
    rw [if_neg (by simpa using HeaderLine.text_ne_nil)]
    simp only [RequestHead.parser] at hread ⊢
    rw [hread]
  · rw [lineTooLarge_headers rfl]
    refine ⟨ha.headerLineBytes l hmem, ?_⟩
    show h.text.length + (l.text.length + 2) ≤ limits.maxHeaderBytes
    omega

/-- The empty line is read. -/
theorem lineStep_empty : (h.parser limits).lineStep [] rest =
    (h.endedParser limits).finishHeadersStep rest := by
  have hlength : (h.text ++ crlf).length = h.text.length + (0 + 2) := by simp [crlf]
  unfold lineStep RequestHead.endedParser
  rw [if_neg (by simp [RequestHead.parser]), hlength]
  rfl

/-- The empty line is within the limits. -/
theorem loopBody_emptyLine (hbytes : (h.text ++ crlf).length ≤ limits.maxHeaderBytes)
    (rest : Bytes) :
    loopBody (h.parser limits, crlf ++ rest) =
      (h.endedParser limits).finishHeadersStep rest := by
  have hsplit : splitLine (crlf ++ rest) = some ([], rest) :=
    splitLine_append List.not_mem_nil rest
  rw [loopBody_splitLine (by simp [RequestHead.parser]) hsplit, lineStep_empty]
  rw [lineTooLarge_headers rfl]
  rw [List.length_append] at hbytes
  exact ⟨Nat.zero_le _, hbytes⟩

/-- The headers end in a body, with a complete request, or in an error. -/
theorem finishHeadersStep_cases (hbytes : (h.text ++ crlf).length ≤ limits.maxHeaderBytes)
    (rest : Bytes) :
    (∃ n, h.Announces limits n ∧ (h.endedParser limits).finishHeadersStep rest =
      if n = 0 then .inl (.Complete, { h.endedParser limits with state := .Complete }, rest)
      else .inr (h.bodyParser limits n, rest)) ∨
    ∃ (q : HttpParser) (result : ParseResult), result ≠ .Complete ∧
      (h.endedParser limits).finishHeadersStep rest = q.failing result rest := by
  unfold finishHeadersStep
  split
  · next p' hfinish =>
    obtain ⟨n, hd, hn, rfl⟩ := finishHeaders_complete (h := h) rfl hfinish
    refine .inl ⟨n, ⟨hbytes, hd, hn⟩, ?_⟩
    dsimp only
    by_cases hzero : n = 0
    · rw [if_pos hzero, if_pos hzero, hzero]
      rfl
    · rw [if_neg hzero, if_neg hzero]
      rfl
  · next result q hnot hfinish =>
    exact .inr ⟨q, result, fun heq => hnot heq, rfl⟩

/-- The empty line before a body that is within the limits. -/
theorem finishHeadersStep_announces {n : Nat} (hn : h.Announces limits n)
    (hsize : n < sizeModulus) :
    (h.endedParser limits).finishHeadersStep rest =
      if n = 0 then .inl (.Complete, { h.endedParser limits with state := .Complete }, rest)
      else .inr (h.bodyParser limits n, rest) := by
  unfold finishHeadersStep
  rw [finishHeaders_declares (h := h) rfl hn.declared hn.bodyBytes hsize]
  dsimp only
  by_cases hzero : n = 0
  · rw [if_pos hzero, if_pos hzero, hzero]
    rfl
  · rw [if_neg hzero, if_neg hzero]
    rfl

/-- After a head the loop goes on with a header line or with the body. -/
theorem loopBody_head (ha : h.Admitted limits)
    (hnext : loopBody (h.parser limits, input) = .inr t) :
    (∃ (l : HeaderLine) (rest : Bytes), (h.snoc l).Admitted limits ∧
      input = l.text ++ crlf ++ rest ∧ t = ((h.snoc l).parser limits, rest)) ∨
    ∃ (n : Nat) (rest : Bytes), h.Announces limits n ∧ n ≠ 0 ∧ input = crlf ++ rest ∧
      t = (h.bodyParser limits n, rest) := by
  obtain ⟨line, _, hsplit, hsize, hread⟩ := loopBody_continues hnext
  have hstep : (h.parser limits).lineStep line t.2 = .inr t := hread t.2
  -- the line was not refused, so that it fits the limits
  obtain ⟨hline, hbytes⟩ := (lineTooLarge_headers rfl _).mp hsize
  have hinput := splitLine_eq_some hsplit
  have hbytes : h.text.length + (line.length + 2) ≤ limits.maxHeaderBytes := hbytes
  by_cases hempty : line = []
  · subst hempty
    have hlimit : (h.text ++ crlf).length ≤ limits.maxHeaderBytes := by
      rw [List.length_append]
      exact hbytes
    rw [lineStep_empty] at hstep
    rcases finishHeadersStep_cases hlimit t.2 with ⟨n, hn, heq⟩ | ⟨q, result, _, heq⟩
    · rw [heq] at hstep
      -- without a body the message is complete, and nothing goes on
      by_cases hzero : n = 0
      · rw [if_pos hzero] at hstep
        cases hstep
      · rw [if_neg hzero] at hstep
        exact .inr ⟨n, t.2, hn, hzero, hinput, (Sum.inr.inj hstep).symm⟩
    · rw [heq] at hstep
      cases hstep
  · unfold lineStep at hstep
    rw [if_neg (by simp [RequestHead.parser])] at hstep
    dsimp only at hstep
    rw [if_neg (by simpa using hempty)] at hstep
    unfold headerStep at hstep
    split at hstep
    · next p' hparse =>
      obtain ⟨l, rfl, hl, hcount, hp'⟩ := parseHeader_complete hparse
      have hcount : h.lines.length + 1 ≤ limits.maxHeaderCount := hcount
      have hlength : (h.snoc l).text.length = h.text.length + (l.text.length + 2) := by
        simp [RequestHead.text_snoc, crlf]
      have hlines : (h.snoc l).lines = h.lines ++ [l] := rfl
      -- one more line: each limit is counted with it
      refine .inl ⟨l, t.2, ⟨ha.method, ha.target, ?_, ha.requestLineBytes, ?_, ?_, ?_⟩, hinput, ?_⟩
      · intro l' hmem
        rcases List.mem_append.mp (hlines ▸ hmem) with hmem | hmem
        · exact ha.lines l' hmem
        · rw [List.mem_singleton.mp hmem]
          exact hl
      · intro l' hmem
        rcases List.mem_append.mp (hlines ▸ hmem) with hmem | hmem
        · exact ha.headerLineBytes l' hmem
        · rw [List.mem_singleton.mp hmem]
          exact hline
      · rw [hlength]
        exact hbytes
      · rw [hlines, List.length_append]
        exact hcount
      · rw [← Sum.inr.inj hstep, hp']
        simp [RequestHead.parser, hlength, hlines, h.request_snoc l]
    · unfold failing at hstep
      cases hstep

/-! #### The body -/

/-- The parser after a whole message. -/
def completed (limits : HttpParserLimits) (m : RequestMessage) : HttpParser :=
  { m.head.bodyParser limits m.body.length with state := .Complete, request := m.request }

theorem bodyStep_short {n : Nat} (hshort : input.length < n) :
    loopBody (h.bodyParser limits n, input) = .inl (.NeedMore, h.bodyParser limits n, input) := by
  show (h.bodyParser limits n).bodyStep input = _
  unfold bodyStep
  exact if_pos hshort

theorem bodyStep_enough {n : Nat} (henough : n ≤ input.length) :
    loopBody (h.bodyParser limits n, input) =
      .inl (.Complete, completed limits ⟨h, input.take n⟩, input.drop n) := by
  have hlength : (input.take n).length = n := List.length_take_of_le henough
  show (h.bodyParser limits n).bodyStep input = _
  unfold bodyStep completed
  rw [if_neg (by show ¬ input.length < n; omega), hlength]
  rfl

/-! ### The loop -/

theorem admitted_of_snoc (ha : (h.snoc l).Admitted limits) : h.Admitted limits := by
  have hlines : (h.snoc l).lines = h.lines ++ [l] := rfl
  have hbytes := ha.headerBytes
  have hcount := ha.headerCount
  rw [RequestHead.text_snoc, List.length_append] at hbytes
  rw [hlines, List.length_append] at hcount
  exact ⟨ha.method, ha.target,
    fun l' hmem => ha.lines l' (List.mem_append_left _ hmem), ha.requestLineBytes,
    fun l' hmem => ha.headerLineBytes l' (List.mem_append_left _ hmem), by omega, by omega⟩

/-- **The loop reads an admitted head.** -/
theorem reaches_head (lines : List HeaderLine) {h : RequestHead} (hlines : h.lines = lines)
    (ha : h.Admitted limits) (rest : Bytes) :
    Loop.Reaches loopBody ({ limits := limits }, h.text ++ rest) (h.parser limits, rest) := by
  induction lines using List.reverseRecOn generalizing h rest with
  | nil => exact .next (loopBody_requestLine ha hlines) (.refl _)
  | append_singleton lines l ih =>
    -- the head before its last line
    let before : RequestHead := { h with lines := lines }
    have hsnoc : h = before.snoc l := by
      simp only [RequestHead.snoc, before, ← hlines]
    rw [hsnoc] at ha ⊢
    have hreaches := ih (h := before) rfl (admitted_of_snoc ha) (l.text ++ crlf ++ rest)
    rw [RequestHead.text_snoc, List.append_assoc]
    exact hreaches.snoc (loopBody_header ha)

/-- Where the loop can be, in a call of `parse` on a new parser. -/
inductive Position (limits : HttpParserLimits) (input : Bytes) : HttpParser × Bytes → Prop
  | start : Position limits input ({ limits := limits }, input)
  | head {h : RequestHead} {rest : Bytes} (admitted : h.Admitted limits)
      (text : input = h.text ++ rest) : Position limits input (h.parser limits, rest)
  | body {h : RequestHead} {n : Nat} {rest : Bytes} (admitted : h.Admitted limits)
      (announced : h.Announces limits n) (positive : n ≠ 0)
      (text : input = h.text ++ crlf ++ rest) : Position limits input (h.bodyParser limits n, rest)

/-- **The loop is nowhere else.** -/
theorem reaches_cases (hreaches : Loop.Reaches loopBody ({ limits := limits }, input) t) :
    Position limits input t := by
  refine hreaches.inv (Position limits input) ?_ .start
  intro s s' hs hnext
  cases hs with
  | start =>
    obtain ⟨h, rest, ha, hinput, rfl⟩ := loopBody_start hnext
    exact .head ha hinput
  | @head h rest ha hinput =>
    rcases loopBody_head ha hnext with ⟨l, left, ha', hrest, rfl⟩ | ⟨n, left, hn, hpos, hrest, rfl⟩
    · refine .head ha' ?_
      simp only [hinput, hrest, RequestHead.text_snoc, List.append_assoc]
    · refine .body ha hn hpos ?_
      rw [hinput, hrest, List.append_assoc]
  | @body h n rest _ _ _ _ =>
    obtain ⟨_, hstate, _⟩ := loopBody_continues hnext
    exact absurd rfl hstate

/-! ### Messages -/

theorem parse_start (limits : HttpParserLimits) (input : Bytes) :
    Loop.Ends loopBody ({ limits := limits }, input)
      (({ limits := limits } : HttpParser).parse input) := by
  rw [parse_running (by simp)]
  exact parseLoop_ends _ input

/-- A message is read whole, and nothing of what follows it. -/
theorem parse_message {m : RequestMessage} (hm : m.WellFormed limits)
    (hsize : m.body.length < sizeModulus) (rest : Bytes) :
    ({ limits := limits } : HttpParser).parse (m.text ++ rest) =
      (.Complete, completed limits m, rest) := by
  refine (parse_start limits _).unique ?_
  have hhead := reaches_head m.head.lines rfl hm.head (crlf ++ (m.body ++ rest))
  have hempty := loopBody_emptyLine hm.body.headerBytes (m.body ++ rest)
  rw [finishHeadersStep_announces hm.body hsize] at hempty
  have htext : m.text ++ rest = m.head.text ++ (crlf ++ (m.body ++ rest)) := by
    simp only [RequestMessage.text, List.append_assoc]
  rw [htext]
  refine hhead.ends ?_
  by_cases hzero : m.body.length = 0
  · -- without a body the message ends here
    rw [if_pos hzero] at hempty
    have hnil : m.body = [] := List.length_eq_zero_iff.mp hzero
    have hcompleted : completed limits m =
        { m.head.endedParser limits with state := .Complete } := by
      simp [completed, RequestHead.bodyParser, hnil, RequestMessage.request,
        RequestHead.endedParser, RequestHead.parser]
    rw [hcompleted]
    rw [hnil, List.nil_append] at hempty ⊢
    exact .done hempty
  · rw [if_neg hzero] at hempty
    refine .next hempty (.done ?_)
    rw [bodyStep_enough (by simp), List.take_left' rfl, List.drop_left' rfl]

/-- A request line is never the last line. -/
theorem requestLineStep_ne (p q : HttpParser) (line rest left : Bytes) :
    p.requestLineStep line rest ≠ .inl (.Complete, q, left) := by
  unfold requestLineStep
  split
  · simp
  · next result p' hnot _ =>
    intro heq
    exact hnot (Prod.mk.inj (Sum.inl.inj heq)).1

/-- Nor is a header line. -/
theorem headerStep_ne (p q : HttpParser) (line rest left : Bytes) :
    p.headerStep line rest ≠ .inl (.Complete, q, left) := by
  unfold headerStep
  split
  · simp
  · next result p' hnot _ =>
    intro heq
    exact hnot (Prod.mk.inj (Sum.inl.inj heq)).1

/-- After a head the request is complete only with the empty line. -/
theorem loopBody_head_complete {q : HttpParser} {left : Bytes}
    (hdone : loopBody (h.parser limits, input) = .inl (.Complete, q, left)) :
    h.Announces limits 0 ∧ input = crlf ++ left ∧
      q = { h.endedParser limits with state := .Complete } := by
  cases loopBody_ends (by simp [RequestHead.parser]) hdone with
  | @read line left _ _ hsplit hsmall _ hstep =>
    obtain ⟨_, hbytes⟩ := (lineTooLarge_headers rfl _).mp hsmall
    have hstep := hstep left
    -- only the empty line completes a message here, and only with no body
    by_cases hempty : line = []
    · subst hempty
      rw [lineStep_empty] at hstep
      have hlimit : (h.text ++ crlf).length ≤ limits.maxHeaderBytes := by
        rw [List.length_append]
        exact hbytes
      rcases finishHeadersStep_cases hlimit left with
        ⟨n, hn, heq⟩ | ⟨q', result, hresult, heq⟩
      · rw [heq] at hstep
        by_cases hzero : n = 0
        · rw [if_pos hzero] at hstep
          rw [hzero] at hn
          exact ⟨hn, splitLine_eq_some hsplit,
            (Prod.mk.inj (Prod.mk.inj (Sum.inl.inj hstep)).2).1.symm⟩
        · rw [if_neg hzero] at hstep
          cases hstep
      · rw [heq] at hstep
        exact absurd (Prod.mk.inj (Sum.inl.inj hstep)).1 hresult
    · unfold lineStep at hstep
      rw [if_neg (by simp [RequestHead.parser])] at hstep
      dsimp only at hstep
      rw [if_neg (by simpa using hempty)] at hstep
      exact absurd hstep (headerStep_ne _ _ _ _ _)

/-- **Only messages are complete.** -/
theorem parse_complete {input rest : Bytes} {q : HttpParser}
    (hparse : ({ limits := limits } : HttpParser).parse input = (.Complete, q, rest)) :
    ∃ m : RequestMessage, m.WellFormed limits ∧ input = m.text ++ rest ∧
      q = completed limits m := by
  have hends := parse_start limits input
  rw [hparse] at hends
  obtain ⟨t, hreaches, hdone⟩ := hends.exists_reaches
  cases reaches_cases hreaches with
  | start =>
    cases loopBody_ends (by simp) hdone with
    | read _ _ _ hstep =>
      have hstep := hstep rest
      unfold lineStep at hstep
      rw [if_pos rfl] at hstep
      exact absurd hstep (requestLineStep_ne _ _ _ _ _)
  | @head h left ha hinput =>
    obtain ⟨hn, hleft, rfl⟩ := loopBody_head_complete hdone
    refine ⟨⟨h, []⟩, ⟨ha, hn⟩, ?_, rfl⟩
    rw [hinput, hleft]
    simp [RequestMessage.text]
  | @body h n left ha hn hpos hinput =>
    by_cases hshort : left.length < n
    · rw [bodyStep_short hshort] at hdone
      cases hdone
    · rw [bodyStep_enough (by omega)] at hdone
      obtain ⟨hq, hrest⟩ := Prod.mk.inj (Prod.mk.inj (Sum.inl.inj hdone)).2
      have hlength : (left.take n).length = n := List.length_take_of_le (by omega)
      refine ⟨⟨h, left.take n⟩, ⟨ha, hlength.symm ▸ hn⟩, ?_, hq.symm⟩
      rw [hinput, ← hrest]
      simp [RequestMessage.text]

/-! ### Messages in a row -/

/-- A connection that takes the requests off its input: `parse`, and after a complete request
    `takeRequest` and `reset`. -/
def takeBody (s : HttpParser × Bytes × List HttpRequest) :
    (List HttpRequest × Bytes) ⊕ (HttpParser × Bytes × List HttpRequest) :=
  let (p, input, requests) := s
  match p.parse input with
  | (.Complete, p, rest) =>
    match p.takeRequest with
    | .ok (request, p) => .inr (p.reset, rest, requests ++ [request])
    | .error _ => .inl (requests, rest)
  | (_, _, rest) => .inl (requests, rest)

/-- The requests in the input, and the bytes that are left. -/
def takeRequests (limits : HttpParserLimits) (input : Bytes) : List HttpRequest × Bytes :=
  (Loop.run takeBody (input.length + 1) ({ limits := limits }, input, [])).getD ([], input)

/-- A message is taken. -/
theorem takeBody_message {m : RequestMessage} (hm : m.WellFormed limits)
    (hsize : m.body.length < sizeModulus) (rest : Bytes) (requests : List HttpRequest) :
    takeBody ({ limits := limits }, m.text ++ rest, requests) =
      .inr ({ limits := limits }, rest, requests ++ [m.request]) := by
  unfold takeBody
  simp only [parse_message hm hsize rest]
  rfl

theorem parse_nil (limits : HttpParserLimits) :
    ({ limits := limits } : HttpParser).parse [] = (.NeedMore, { limits := limits }, []) := by
  refine (parse_start limits []).unique (.done ?_)
  simp [loopBody, step, splitLine, partialLineStep]

theorem run_takeBody (messages : List RequestMessage)
    (hmessages : ∀ m ∈ messages, m.WellFormed limits ∧ m.body.length < sizeModulus)
    (requests : List HttpRequest) :
    Loop.run takeBody (messages.length + 1)
      ({ limits := limits }, messages.flatMap RequestMessage.text, requests) =
        some (requests ++ messages.map RequestMessage.request, []) := by
  induction messages generalizing requests with
  | nil => simp [Loop.run, takeBody, parse_nil]
  | cons m messages ih =>
    obtain ⟨hm, hsize⟩ := hmessages m List.mem_cons_self
    have hrest := ih (fun m' hmem => hmessages m' (List.mem_cons_of_mem m hmem))
      (requests ++ [m.request])
    rw [List.append_assoc, List.singleton_append] at hrest
    rw [List.length_cons, Loop.run, List.flatMap_cons, takeBody_message hm hsize]
    exact hrest

/-- A message has at least one byte. -/
theorem length_le_texts (messages : List RequestMessage) :
    messages.length ≤ (messages.flatMap RequestMessage.text).length := by
  induction messages with
  | nil => exact Nat.le_refl 0
  | cons m messages ih =>
    simp only [List.length_cons, List.flatMap_cons, List.length_append, RequestMessage.text, crlf]
    omega

/-- **Messages in a row** are taken one after the other, with nothing left. -/
theorem takeRequests_messages {messages : List RequestMessage}
    (hmessages : ∀ m ∈ messages, m.WellFormed limits ∧ m.body.length < sizeModulus) :
    takeRequests limits (messages.flatMap RequestMessage.text) =
      (messages.map RequestMessage.request, []) := by
  have hle := length_le_texts messages
  unfold takeRequests
  rw [Loop.run_of_le (run_takeBody messages hmessages []) (by omega)]
  rfl

/-- The body of a message within accepted limits has a size that is read. -/
theorem body_lt (hlimits : limits.Accepted) {m : RequestMessage} (hm : m.WellFormed limits) :
    m.body.length < sizeModulus := by
  obtain ⟨_, _, _, _, _, _, _, _, hbody⟩ := hlimits
  have hle := hm.body.bodyBytes
  unfold HttpParserLimits.kAbsoluteBodyLimit at hbody
  unfold sizeModulus
  omega

/-- **The parser accepts exactly its grammar.**  A call of `parse` on a new parser is complete
    when the input starts with a message within the limits, and only then; the request is that
    of the message, and the bytes after it are left.  Hence messages in a row give their
    requests, in order. -/
theorem parse_grammar (limits : HttpParserLimits) (hlimits : limits.Accepted) :
    (∀ s : Bytes, (({ limits := limits } : HttpParser).parse s).1 = .Complete ↔
      ∃ (m : RequestMessage) (rest : Bytes), s = m.text ++ rest ∧ m.WellFormed limits) ∧
    (∀ (m : RequestMessage) (rest : Bytes), m.WellFormed limits →
      ∃ q : HttpParser, ({ limits := limits } : HttpParser).parse (m.text ++ rest) =
        (.Complete, q, rest) ∧ q.request = m.request) ∧
    ∀ messages : List RequestMessage, (∀ m ∈ messages, m.WellFormed limits) →
      takeRequests limits (messages.flatMap RequestMessage.text) =
        (messages.map RequestMessage.request, []) := by
  have hsize : ∀ m : RequestMessage, m.WellFormed limits → m.body.length < sizeModulus :=
    fun m hm => body_lt hlimits hm
  refine ⟨fun s => ⟨fun hcomplete => ?_, ?_⟩, fun m rest hm => ?_, fun messages hmessages => ?_⟩
  · rcases houtcome : ({ limits := limits } : HttpParser).parse s with ⟨result, q, rest⟩
    rw [houtcome] at hcomplete
    obtain rfl : result = .Complete := hcomplete
    obtain ⟨m, hm, hs, _⟩ := parse_complete houtcome
    exact ⟨m, rest, hs, hm⟩
  · rintro ⟨m, rest, rfl, hm⟩
    rw [parse_message hm (hsize m hm)]
  · exact ⟨_, parse_message hm (hsize m hm) rest, rfl⟩
  · exact takeRequests_messages fun m hmem => ⟨hmessages m hmem, hsize m (hmessages m hmem)⟩

/-- A message with two headers and a body. -/
def putMessage : RequestMessage :=
  { head := { method := bytes "PUT", target := bytes "/", version := .Http11,
              lines := [{ name := bytes "Host", before := bytes " ", value := bytes "a" },
                { name := bytes "Content-Length", before := bytes " ", value := bytes "2" }] },
    body := bytes "xy" }

theorem putMessage_wellFormed : putMessage.WellFormed {} where
  head :=
    { method := by decide
      target := by decide +kernel
      lines := by
        intro l hl
        rcases List.mem_pair.mp hl with rfl | rfl
        · exact ⟨by decide +kernel, by decide +kernel, by decide +kernel, by decide +kernel,
            by decide +kernel⟩
        · exact ⟨by decide +kernel, by decide +kernel, by decide +kernel, by decide +kernel,
            by decide +kernel⟩
      requestLineBytes := by decide
      headerLineBytes := by decide +kernel
      headerBytes := by decide +kernel
      headerCount := by decide }
  body := ⟨by decide +kernel, ⟨by decide +kernel, by decide +kernel,
    .inr ⟨bytes "2", by decide +kernel, by decide +kernel⟩⟩, by decide⟩

/-- It is read, with a byte behind it. -/
theorem parse_grammar_default :
    HttpParserLimits.Accepted {} ∧
      (({ limits := {} } : HttpParser).parse (putMessage.text ++ bytes "G")).1 = .Complete :=
  ⟨by decide, ((parse_grammar {} (by decide)).1 _).mpr
    ⟨putMessage, bytes "G", rfl, putMessage_wellFormed⟩⟩

end HttpParser
end PulseGate
