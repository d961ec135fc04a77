import PulseGate.Http.StreamReading
import PulseGate.Http.ResponseSegments

namespace PulseGate

/-!
# The text of a response head

Every response head that the parser reads to its empty line, as text: a status line and field
lines, with their own spelling of the version, the names and the blanks around the values.

* `StatusLine`, `FieldLine`, `HeadText` — a head; its parts cannot be invalid;
* `HeadText.Admitted` — the limits leave room for it;
* `reaches_lines` — the parser reads it up to the empty line, and has its fields then;
* `reaches_unsizedBody` — what the empty line leads to when no field says how long the body is.
-/

/-- A status line: the version may have any end without a space, the status any three
    characters that are an integer. -/
structure StatusLine where
  version : Bytes
  code : Bytes
  status : Int
  reason : Bytes
  unspaced : 32 ∉ version
  threeCharacters : code.length = 3
  isStatus : intFromChars code = some status
  hasReason : reason ≠ []
  validReason : isValidHeaderValue reason = true
  whole : ¬crlf <:+: bytes "HTTP/1." ++ version ++ 32 :: code ++ 32 :: reason

def StatusLine.text (s : StatusLine) : Bytes :=
  bytes "HTTP/1." ++ s.version ++ 32 :: s.code ++ 32 :: s.reason

theorem StatusLine.not_infix_text (s : StatusLine) : ¬crlf <:+: s.text := s.whole

/-- The usual start of a response. -/
def okLine : StatusLine :=
  { version := bytes "1", code := bytes "200", status := 200, reason := bytes "OK",
    unspaced := by decide, threeCharacters := rfl, isStatus := by decide,
    hasReason := by decide, validReason := by decide,
    whole := not_infix_of_not_mem (by decide) }

/-- A field line: a name, a colon and a value that may be surrounded by blanks. -/
structure FieldLine where
  name : Bytes
  spelled : Bytes
  validName : isValidHeaderName name = true
  validValue : isValidHeaderValue (trim spelled) = true

namespace FieldLine

def text (f : FieldLine) : Bytes := f.name ++ 58 :: f.spelled

/-- The header that is stored for the line. -/
def header (f : FieldLine) : Header :=
  { name := normalizeHeaderName f.name, value := trim f.spelled }

/-- A blank is no carriage return, and neither the name nor the value has one. -/
theorem not_mem_text (f : FieldLine) : 13 ∉ f.text := by
  have hname : (13 : UInt8) ∉ f.name := fun hmem =>
    (mem_isValidHeaderName f.validName 13 hmem).2 rfl
  have hspelled : (13 : UInt8) ∉ f.spelled := by
    obtain ⟨before, after, hsplit, hbefore, hafter⟩ := trim_split f.spelled
    have hnone : ∀ blanks : Bytes, (∀ c ∈ blanks, isBlank c = true) → (13 : UInt8) ∉ blanks :=
      fun blanks hblanks hmem => absurd (hblanks 13 hmem) (by decide)
    have hvalue := mem_isValidHeaderValue f.validValue
    rw [hsplit]
    simp [hnone before hbefore, hnone after hafter, hvalue]
  simp [text, hname, hspelled]

end FieldLine

/-- A response head. -/
structure HeadText where
  start : StatusLine
  fields : List FieldLine

namespace HeadText

/-- The lines before the empty line. -/
def lines (h : HeadText) : Bytes :=
  h.start.text ++ crlf ++ h.fields.flatMap fun f => f.text ++ crlf

def text (h : HeadText) : Bytes := h.lines ++ crlf

def headers (h : HeadText) : Headers := { entries := h.fields.map FieldLine.header }

/-- The response of which this is the head, before its body. -/
def response (h : HeadText) : HttpResponse :=
  { statusCode := h.start.status, reason := h.start.reason, headers := h.headers }

/-- The limits leave room for the head. -/
structure Admitted (h : HeadText) (limits : HttpResponseParserLimits) : Prop where
  start : h.start.text.length ≤ limits.maxStatusLineBytes
  count : h.fields.length ≤ limits.maxHeaderCount
  bytes : h.text.length ≤ limits.maxHeaderBytes

end HeadText

/-- A head of a final response that may have a body, without a `Content-Length`. -/
structure UnsizedHead extends HeadText where
  final : HttpResponseParser.noBodyStatus start.status = false
  lengths : toHeadText.headers.values (bytes "content-length") = []

theorem noBodyStatus_okLine : HttpResponseParser.noBodyStatus okLine.status = false := by decide

theorem validName_transferEncoding : isValidHeaderName (bytes "Transfer-Encoding") = true := by
  decide

/-- The transfer codings that the head lists. -/
def HeadText.transfers (h : HeadText) : List Bytes := h.headers.values (bytes "transfer-encoding")

namespace HttpResponseParser

variable {p : HttpResponseParser} {limits : HttpResponseParserLimits} {rest : Bytes}

/-! ### The status line -/

theorem parseStatusLine_text (s : StatusLine) :
    p.parseStatusLine s.text = (.Complete,
      { p with response := { p.response with statusCode := s.status, reason := s.reason } }) := by
  -- the first space is the one before the status
  let before := bytes "HTTP/1." ++ s.version
  have htext : s.text = before ++ 32 :: (s.code ++ 32 :: s.reason) := by
    simp [StatusLine.text, before]
  have hbefore : (32 : UInt8) ∉ before := by
    have hfixed : (32 : UInt8) ∉ bytes "HTTP/1." := by decide
    simp [before, hfixed, s.unspaced]
  have hstart : (bytes "HTTP/1.").isPrefixOf s.text = true := by
    rw [List.isPrefixOf_iff_prefix, htext]
    exact ⟨s.version ++ 32 :: (s.code ++ 32 :: s.reason), by simp [before]⟩
  have hfirst : s.text.findIdx (· == 32) = before.length := by
    have hnone : ∀ c ∈ before, (c == 32) = false := by
      intro c hc
      simpa using fun heq : c = 32 => hbefore (heq ▸ hc)
    rw [htext, List.findIdx_append, List.findIdx_eq_length_of_false hnone]
    simp [List.findIdx_cons]
  have hreason := List.length_pos_iff.mpr s.hasReason
  have hlength : s.text.length = before.length + 5 + s.reason.length := by
    rw [htext]
    simp [s.threeCharacters]
    omega
  have hcode : (s.text.drop (before.length + 1)).take 3 = s.code := by
    rw [htext, List.drop_append, List.drop_of_length_le (by omega), List.nil_append,
      Nat.add_sub_cancel_left, List.drop_succ_cons, List.drop_zero,
      List.take_left' s.threeCharacters]
  have hrest : s.text.drop (before.length + 4) = 32 :: s.reason := by
    rw [htext, List.drop_append, List.drop_of_length_le (by omega), List.nil_append,
      Nat.add_sub_cancel_left, List.drop_succ_cons, List.drop_left' s.threeCharacters]
  have hspace : s.text[before.length + 4]? = some 32 := by
    have hhead := congrArg (·[0]?) hrest
    simpa [List.getElem?_drop] using hhead
  have htail : s.text.drop (before.length + 5) = s.reason := by
    have hdrop := congrArg (List.drop 1) hrest
    simpa [List.drop_drop] using hdrop
  unfold parseStatusLine
  simp only [hstart, hfirst, hlength, hcode, hspace, htail, s.isStatus]
  rw [if_neg (by simp), if_neg (by omega), if_neg (by simp),
    if_neg (by simp [s.hasReason, s.validReason])]

theorem loopBody_statusLineText {s : StatusLine} (hs : p.state = .StatusLine)
    (hline : s.text.length ≤ p.limits.maxStatusLineBytes) :
    loopBody (p, s.text ++ crlf ++ rest) =
      .inr ({ p with
        state := .Headers
        headerBytes := s.text.length + 2
        response := { p.response with statusCode := s.status, reason := s.reason } }, rest) := by
  have hlines : p.ReadsLines := by simp [ReadsLines, hs]
  rw [loopBody_splitLine hlines (splitLine_of_unbroken s.not_infix_text rest)]
  unfold lineStep
  rw [if_pos hs]
  unfold statusLineStep
  rw [if_neg (Nat.not_lt.mpr hline), Iteration.after_next, parseStatusLine_text]
  rfl

/-! ### The fields -/

/-- The parser after more field lines. -/
def withFields (p : HttpResponseParser) (fields : List FieldLine) : HttpResponseParser :=
  { p with
    headerBytes := p.headerBytes + (fields.flatMap fun f => f.text ++ crlf).length
    headerCount := p.headerCount + fields.length
    response := { p.response with
      headers := { entries := p.response.headers.entries ++ fields.map FieldLine.header } } }

theorem parseHeader_text (f : FieldLine)
    (hcount : sizeAdd p.headerCount 1 ≤ p.limits.maxHeaderCount) :
    p.parseHeader f.text = (.Complete,
      { p with
        headerCount := sizeAdd p.headerCount 1
        response := { p.response with
          headers := p.response.headers.add f.name (trim f.spelled) } }) := by
  have hname : (58 : UInt8) ∉ f.name := fun hmem =>
    (mem_isValidHeaderName f.validName 58 hmem).1 rfl
  obtain ⟨htake, hdrop⟩ := takeWhile_separator hname f.spelled
  unfold parseHeader FieldLine.text
  dsimp only
  rw [if_neg (by omega), hdrop, htake]
  simp [f.validName, f.validValue]

theorem loopBody_fieldLine {f : FieldLine} (hs : p.state = .Headers)
    (hcount : p.headerCount + 1 ≤ p.limits.maxHeaderCount)
    (hbytes : p.headerBytes + (f.text.length + 2) ≤ p.limits.maxHeaderBytes)
    (hroom : p.headerBytes + (f.text.length + 2) ≤ vectorMaxSize)
    (hless : p.headerCount ≤ p.headerBytes) :
    loopBody (p, f.text ++ crlf ++ rest) = .inr (p.withFields [f], rest) := by
  have hlines : p.ReadsLines := by simp [ReadsLines, hs]
  have hadd : sizeAdd p.headerCount 1 = p.headerCount + 1 := sizeAdd_of_le (by omega)
  have hempty : f.text.isEmpty = false := by simp [FieldLine.text]
  rw [loopBody_splitLine hlines (splitLine_append f.not_mem_text rest)]
  unfold lineStep
  rw [if_neg (by simp [hs]), if_neg (by simp [hs])]
  dsimp only
  rw [sizeAdd_of_le hroom, Iteration.after_next, if_neg (Nat.not_lt.mpr hbytes),
    if_neg (by simp [hs]), hempty, if_neg (by simp)]
  unfold headerStep
  rw [Iteration.after_next, parseHeader_text f (by simpa [hadd] using hcount)]
  simp [continuing, withFields, hadd, crlf, Headers.add, FieldLine.header]

theorem reaches_fields (fields : List FieldLine) {p : HttpResponseParser}
    (hs : p.state = .Headers)
    (hcount : p.headerCount + fields.length ≤ p.limits.maxHeaderCount)
    (hbytes : (p.withFields fields).headerBytes ≤ p.limits.maxHeaderBytes)
    (hroom : (p.withFields fields).headerBytes ≤ vectorMaxSize)
    (hless : p.headerCount ≤ p.headerBytes) :
    Loop.Reaches loopBody (p, (fields.flatMap fun f => f.text ++ crlf) ++ rest)
      (p.withFields fields, rest) := by
  induction fields generalizing p with
  | nil =>
    have hsame : p.withFields [] = p := by simp [withFields]
    rw [hsame]
    exact .refl _
  | cons f fields ih =>
    -- the first line and the others add up
    have hjoin : (p.withFields [f]).withFields fields = p.withFields (f :: fields) := by
      simp [withFields, Nat.add_assoc, Nat.add_comm 1]
    have hsize : (p.withFields (f :: fields)).headerBytes =
        p.headerBytes + (f.text.length + 2) +
          (fields.flatMap fun f => f.text ++ crlf).length := by
      simp [withFields, crlf]
      omega
    have hfirstBytes : (p.withFields [f]).headerBytes = p.headerBytes + (f.text.length + 2) := by
      simp [withFields, crlf]
    have hfirstCount : (p.withFields [f]).headerCount = p.headerCount + 1 := rfl
    rw [List.length_cons] at hcount
    have hfirst : loopBody (p, f.text ++ crlf ++
        ((fields.flatMap fun f => f.text ++ crlf) ++ rest)) =
          .inr (p.withFields [f], (fields.flatMap fun f => f.text ++ crlf) ++ rest) :=
      loopBody_fieldLine hs (by omega) (by omega) (by omega) hless
    have hrest := ih (p := p.withFields [f]) hs
      (by show (p.withFields [f]).headerCount + _ ≤ p.limits.maxHeaderCount; omega)
      (by rw [hjoin]; exact hbytes) (by rw [hjoin]; exact hroom) (by omega)
    rw [hjoin] at hrest
    rw [List.flatMap_cons, List.append_assoc]
    exact .next hfirst hrest

/-! ### The head -/

/-- The parser at the empty line of a head. -/
def atEmptyLine (limits : HttpResponseParserLimits) (headRequest : Bool) (h : HeadText) :
    HttpResponseParser where
  limits := limits
  headRequest := headRequest
  state := .Headers
  headerBytes := h.lines.length
  headerCount := h.fields.length
  response := h.response

/-- **A head is read** up to its empty line. -/
theorem reaches_lines {h : HeadText} (hlimits : limits.Accepted) (hadmitted : h.Admitted limits)
    (headRequest : Bool) :
    Loop.Reaches loopBody (fresh limits headRequest, h.lines ++ rest)
      (atEmptyLine limits headRequest h, rest) := by
  -- the parser after the status line
  let started : HttpResponseParser :=
    { limits := limits, headRequest := headRequest, state := .Headers,
      headerBytes := h.start.text.length + 2,
      response := { statusCode := h.start.status, reason := h.start.reason } }
  have hafter : started.withFields h.fields = atEmptyLine limits headRequest h := by
    simp [started, withFields, atEmptyLine, HeadText.lines, HeadText.response, HeadText.headers,
      crlf]
    omega
  have hbytes : (atEmptyLine limits headRequest h).headerBytes ≤ limits.maxHeaderBytes := by
    have hle := hadmitted.bytes
    unfold HeadText.text at hle
    rw [List.length_append] at hle
    show h.lines.length ≤ _
    omega
  have hroom : (atEmptyLine limits headRequest h).headerBytes ≤ vectorMaxSize := by
    -- the header limit is far below the sizes of buffers
    have habsolute := hlimits.2.2.2.2.1
    unfold kAbsoluteHeaderLimit at habsolute
    unfold vectorMaxSize
    omega
  have hfields : Loop.Reaches loopBody
      (started, (h.fields.flatMap fun f => f.text ++ crlf) ++ rest)
      (started.withFields h.fields, rest) := by
    apply reaches_fields h.fields rfl
    · simpa [started] using hadmitted.count
    · rw [hafter]
      exact hbytes
    · rw [hafter]
      exact hroom
    · exact Nat.zero_le _
  rw [hafter] at hfields
  unfold HeadText.lines
  rw [List.append_assoc]
  exact .next (loopBody_statusLineText rfl hadmitted.start) hfields

/-! ### The empty line -/

/-- The parser after a head, before a body of chunks. -/
def atFirstChunk (limits : HttpResponseParserLimits) (h : HeadText) : HttpResponseParser :=
  { atEmptyLine limits false h with
    headerBytes := h.text.length, chunked := true, state := .ChunkSize }

/-- The parser after a head, before a body that ends with the connection. -/
def atEofBody (limits : HttpResponseParserLimits) (h : HeadText) : HttpResponseParser :=
  { atEmptyLine limits false h with
    headerBytes := h.text.length, eofDelimited := true, state := .EofBody,
    response := { h.response with closeConnection := true } }

/-- The parser that refuses the coding of a head. -/
def atUnsupported (limits : HttpResponseParserLimits) (h : HeadText) : HttpResponseParser :=
  { atEmptyLine limits false h with headerBytes := h.text.length }.fail
    .UnsupportedTransferEncoding

/-- The only way to chunks is a single field that lists them. -/
def ListsChunked (h : HeadText) : Prop :=
  ∃ value, h.transfers = [value] ∧ containsToken value (bytes "chunked") = true

theorem finishHeaders_unsized (limits : HttpResponseParserLimits) (h : UnsizedHead) {n : Nat} :
    let p : HttpResponseParser :=
      { atEmptyLine limits false h.toHeadText with headerBytes := n }
    (h.transfers = [] ∧ p.finishHeaders = (.Complete,
      { p with eofDelimited := true, state := .EofBody,
               response := { h.response with closeConnection := true } })) ∨
    (ListsChunked h.toHeadText ∧
      p.finishHeaders = (.Complete, { p with chunked := true, state := .ChunkSize })) ∨
    (h.transfers ≠ [] ∧ ¬ListsChunked h.toHeadText ∧
      p.finishHeaders = (.UnsupportedTransferEncoding, p)) := by
  intro p
  have htransfers : p.response.headers.values (bytes "transfer-encoding") = h.transfers := rfl
  have hlengths : p.response.headers.values (bytes "content-length") = [] := h.lengths
  have hhead : p.headRequest = false := rfl
  have hbody : noBodyStatus p.response.statusCode = false := h.final
  -- a status with a body is not informational, and no switch of protocols
  have hone : p.response.statusCode.tdiv 100 ≠ 1 := by
    intro hone
    simp [noBodyStatus, hone] at hbody
  have hswitching : p.response.statusCode ≠ 101 := by
    intro hswitching
    rw [hswitching] at hone
    exact hone (by decide)
  unfold finishHeaders
  rw [htransfers, hlengths]
  by_cases hnone : h.transfers = []
  · left
    refine ⟨hnone, ?_⟩
    simp [hnone, hone, hswitching, hhead, hbody]
    exact ⟨rfl, rfl, rfl, rfl, rfl⟩
  by_cases hlists : ListsChunked h.toHeadText
  · obtain ⟨value, hvalue, hchunked⟩ := hlists
    right; left
    refine ⟨⟨value, hvalue, hchunked⟩, ?_⟩
    simp [hvalue, hchunked, hone, hswitching, hhead, hbody]
  · right; right
    refine ⟨hnone, hlists, ?_⟩
    have hrefused : 1 < h.transfers.length ∨
        (h.transfers.head?.any fun first => !containsToken first (bytes "chunked")) = true := by
      obtain ⟨value, others, hvalues⟩ := List.exists_cons_of_ne_nil hnone
      rw [hvalues]
      by_cases hothers : others = []
      · subst hothers
        have hvalue : containsToken value (bytes "chunked") = false := by
          rw [← Bool.not_eq_true]
          exact fun hchunked => hlists ⟨value, hvalues, hchunked⟩
        right
        simpa using hvalue
      · left
        have hpositive := List.length_pos_iff.mpr hothers
        rw [List.length_cons]
        omega
    rw [if_neg (by simp), if_pos hrefused]

/-- **The empty line of a head without a length.** -/
theorem reaches_unsizedBody (hlimits : limits.Accepted) (h : UnsizedHead)
    (hadmitted : h.Admitted limits) (rest : Bytes) :
    (h.transfers = [] ∧ Loop.Reaches loopBody (fresh limits false, h.text ++ rest)
      (atEofBody limits h.toHeadText, rest)) ∨
    (ListsChunked h.toHeadText ∧ Loop.Reaches loopBody (fresh limits false, h.text ++ rest)
      (atFirstChunk limits h.toHeadText, rest)) ∨
    (h.transfers ≠ [] ∧ ¬ListsChunked h.toHeadText ∧
      Loop.Ends loopBody (fresh limits false, h.text ++ rest)
        (.finished .UnsupportedTransferEncoding (atUnsupported limits h.toHeadText) rest)) := by
  let p : HttpResponseParser := atEmptyLine limits false h.toHeadText
  have hbytes : p.headerBytes + 2 = h.text.length := by
    simp [p, atEmptyLine, HeadText.text, crlf]
  have hle : p.headerBytes + 2 ≤ p.limits.maxHeaderBytes := by
    rw [hbytes]
    exact hadmitted.bytes
  have hroom : p.headerBytes + 2 ≤ vectorMaxSize := by
    have habsolute : p.limits.maxHeaderBytes ≤ kAbsoluteHeaderLimit := hlimits.2.2.2.2.1
    unfold kAbsoluteHeaderLimit at habsolute
    unfold vectorMaxSize
    omega
  have hlines : Loop.Reaches loopBody (fresh limits false, h.text ++ rest) (p, crlf ++ rest) := by
    unfold HeadText.text
    rw [List.append_assoc]
    exact reaches_lines hlimits hadmitted false
  -- the empty line decides, by the transfer codings alone
  have hempty : loopBody (p, crlf ++ rest) = _ := loopBody_emptyLine rfl hle hroom
  rw [hbytes] at hempty
  unfold finishHeadersStep at hempty
  rcases finishHeaders_unsized limits h (n := h.text.length) with
    ⟨hnone, hfinish⟩ | ⟨hlists, hfinish⟩ | ⟨hsome, hlists, hfinish⟩
  · left
    rw [hfinish] at hempty
    exact ⟨hnone, hlines.snoc hempty⟩
  · right; left
    rw [hfinish] at hempty
    exact ⟨hlists, hlines.snoc hempty⟩
  · right; right
    rw [hfinish] at hempty
    exact ⟨hsome, hlists, hlines.ends (.done hempty)⟩

/-- A fresh parser returns what its loop ends with. -/
theorem parse_fresh {input : Bytes} {outcome : ParseOutcome} (hroom : input.length ≤ vectorMaxSize)
    (hends : Loop.Ends loopBody (fresh limits false, input) outcome) :
    (fresh limits false).parse input = outcome := by
  unfold parse
  rw [if_neg (by simp [fresh]), if_neg (by simp [fresh])]
  exact parseLoop_eq hroom hends

end HttpResponseParser
end PulseGate
