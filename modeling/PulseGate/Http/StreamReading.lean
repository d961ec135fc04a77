import PulseGate.Http.ResponseHead

namespace PulseGate

/-!
# Reading what the proxy streams

The parser of upstream responses, when it reads what `forward` writes: a head of
`serializeStreamingHead`, chunks of `chunkFrame`, and the last chunk.

* `reaches_headers`, `reaches_chunks` — the headers and the chunks are read back;
* `parse_stream` — so is a whole stream, with nothing left unread;
* `parse_shortStatus`, `parse_noContent` — unless the status is too short for the parser, or
  lets it expect no body.
-/

/-- A header as it is stored. -/
def Header.normalized (h : Header) : Header := { h with name := normalizeHeaderName h.name }

theorem Header.WellFormed.normalized {h : Header} (hh : h.WellFormed) : h.normalized = h := by
  unfold Header.normalized
  rw [hh.lower]

namespace HttpResponseParser

variable {p : HttpResponseParser} {line rest : Bytes}

/-! ### Lines -/

/-- An iteration that starts at a line. -/
theorem loopBody_line (hp : p.state ≠ .FixedBody ∧ p.state ≠ .ChunkBody ∧ p.state ≠ .EofBody)
    (hline : 13 ∉ line) :
    loopBody (p, line ++ crlf ++ rest) = (p.lineStep line rest).next := by
  -- only the states of a body read anything but lines
  have hstep : (p.step (line ++ crlf ++ rest)).next = (p.lineStep line rest).next := by
    unfold step
    split
    · next hs => exact absurd hs hp.1
    · next hs => exact absurd hs hp.2.1
    · next hs => exact absurd hs hp.2.2
    · rw [splitLine_append hline]
      rfl
  exact hstep

/-! ### The status line -/

/-- The status line that the proxy writes. -/
def statusText (status : Int) (reason : Bytes) : Bytes :=
  bytes "HTTP/1.1 " ++ intToString status ++ bytes " " ++ reason

theorem statusText_first (status : Int) (reason : Bytes) :
    (statusText status reason).findIdx (· == 32) = 8 := by
  have hcons : statusText status reason =
      72 :: 84 :: 84 :: 80 :: 47 :: 49 :: 46 :: 49 :: 32 ::
        (intToString status ++ bytes " " ++ reason) := by
    simp [statusText, bytes]
  rw [hcons]
  simp [List.findIdx_cons]

theorem statusText_drop (status : Int) (reason : Bytes) :
    (statusText status reason).drop 9 = intToString status ++ 32 :: reason := by
  have hcons : statusText status reason = bytes "HTTP/1.1 " ++
      (intToString status ++ 32 :: reason) := by
    simp [statusText, bytes]
  rw [hcons, List.drop_left' (by decide)]

theorem statusText_start (status : Int) (reason : Bytes) :
    (bytes "HTTP/1.").isPrefixOf (statusText status reason) = true := by
  rw [List.isPrefixOf_iff_prefix]
  refine ⟨bytes "1 " ++ intToString status ++ bytes " " ++ reason, ?_⟩
  have hsplit : bytes "HTTP/1.1 " = bytes "HTTP/1." ++ bytes "1 " := by decide
  simp [statusText, hsplit]

/-- No carriage return is written in a number. -/
theorem not_mem_intToString (n : Int) : 13 ∉ intToString n := by
  have hdigits : (13 : UInt8) ∉ toChars 10 n.natAbs := by
    intro hmem
    exact absurd (mem_toChars (by omega) (by omega) hmem).1 (by decide)
  unfold intToString
  split
  · simpa using hdigits
  · exact hdigits

theorem not_mem_statusText {status : Int} {reason : Bytes}
    (hreason : isValidHeaderValue reason = true) : 13 ∉ statusText status reason := by
  have hreason := mem_isValidHeaderValue hreason
  have hstatus := not_mem_intToString status
  have hfixed : (13 : UInt8) ∉ bytes "HTTP/1.1 " ∧ (13 : UInt8) ∉ bytes " " := by decide
  simp [statusText, hreason, hstatus, hfixed]

/-- A status of three characters is read back. -/
theorem parseStatusLine_statusText {status : Int} {reason : Bytes}
    (hstatus : (intToString status).length = 3) (hreason : reason ≠ [])
    (hvalid : isValidHeaderValue reason = true) :
    p.parseStatusLine (statusText status reason) = (.Complete,
      { p with response := { p.response with statusCode := status, reason := reason } }) := by
  have hlength : (statusText status reason).length = 13 + reason.length := by
    have hfixed : (bytes "HTTP/1.1 ").length = 9 ∧ (bytes " ").length = 1 := by decide
    simp only [statusText, List.length_append, hstatus, hfixed]
  have hpos : 0 < reason.length := List.length_pos_iff.mpr hreason
  have hdrop := statusText_drop status reason
  have hchars : ((statusText status reason).drop 9).take 3 = intToString status := by
    rw [hdrop, List.take_left' hstatus]
  -- the status is followed by a space, at the place where the parser looks for it
  have hspace : (statusText status reason)[12]? = some 32 := by
    have hget := congrArg (·[3]?) hdrop
    simpa [List.getElem?_drop, List.getElem?_append_right, hstatus] using hget
  have htail : (statusText status reason).drop 13 = reason := by
    have hsplit : (statusText status reason).drop (9 + 4) =
        ((statusText status reason).drop 9).drop 4 := (List.drop_drop ..).symm
    rw [hsplit, hdrop]
    simp [List.drop_append, hstatus]
  unfold parseStatusLine
  simp only [statusText_start, statusText_first, hlength, hchars, hspace, htail,
    intFromChars_intToString]
  rw [if_neg (by simp), if_neg (by omega), if_neg (by simp), if_neg (by simp [hreason, hvalid])]

/-- A shorter status is not. -/
theorem parseStatusLine_short {status : Int} {reason : Bytes}
    (hstatus : (intToString status).length < 3) :
    ∃ q, p.parseStatusLine (statusText status reason) = (.BadResponse, q) := by
  -- the three characters that the parser takes reach the space after the status
  have hblank : (32 : UInt8) ∈ ((statusText status reason).drop 9).take 3 := by
    rw [statusText_drop, List.mem_take_iff_getElem]
    refine ⟨(intToString status).length, ?_, ?_⟩
    · simp only [List.length_append, List.length_cons]
      omega
    · simp
  unfold parseStatusLine
  simp only [statusText_start, statusText_first, intFromChars_of_blank hblank]
  rw [if_neg (by simp)]
  split <;> exact ⟨_, rfl⟩

/-! ### The headers -/

/-- A header as the proxy writes it: its name may have capitals. -/
structure Writable (h : Header) : Prop where
  name : isValidHeaderName h.name = true
  value : isValidHeaderValue h.value = true
  trimmed : trim h.value = h.value

/-- The parser after the headers `hs`. -/
def withHeaders (p : HttpResponseParser) (hs : List Header) : HttpResponseParser :=
  { p with
    headerBytes := p.headerBytes + (hs.flatMap Header.line).length
    headerCount := p.headerCount + hs.length
    response := { p.response with
      headers := { entries := p.response.headers.entries ++ hs.map Header.normalized } } }

/-- The text of a header line. -/
def headerText (h : Header) : Bytes := h.name ++ bytes ": " ++ h.value

theorem headerLine_eq (h : Header) : h.line = headerText h ++ crlf := rfl

theorem not_mem_headerText {h : Header} (hh : Writable h) : 13 ∉ headerText h := by
  have hname : (13 : UInt8) ∉ h.name := fun hmem =>
    (mem_isValidHeaderName hh.name 13 hmem).2 rfl
  have hvalue := mem_isValidHeaderValue hh.value
  have hfixed : (13 : UInt8) ∉ bytes ": " := by decide
  simp [headerText, hname, hvalue, hfixed]

/-- A header that is written is read back. -/
theorem parseHeader_headerText {h : Header} (hh : Writable h)
    (hcount : sizeAdd p.headerCount 1 ≤ p.limits.maxHeaderCount) :
    p.parseHeader (headerText h) = (.Complete,
      { p with headerCount := sizeAdd p.headerCount 1,
               response :=
                 { p.response with headers := p.response.headers.add h.name h.value } }) := by
  have hcolon : ∀ c ∈ h.name, decide (c ≠ 58) = true := by
    intro c hc
    simpa using (mem_isValidHeaderName hh.name c hc).1
  have hsplit : headerText h = h.name ++ 58 :: 32 :: h.value := by
    simp [headerText, bytes]
  have hdrop : (headerText h).dropWhile (· ≠ 58) = 58 :: 32 :: h.value := by
    rw [hsplit, List.dropWhile_append_of_pos hcolon]
    simp
  have htake : (headerText h).takeWhile (· ≠ 58) = h.name := by
    rw [hsplit, List.takeWhile_append_of_pos hcolon]
    simp
  have htrim : trim (32 :: h.value) = h.value := by
    rw [trim_blank (by decide), hh.trimmed]
  unfold parseHeader
  dsimp only
  rw [if_neg (by omega), hdrop, htake]
  simp [htrim, hh.name, hh.value]

/-- One header line. -/
theorem loopBody_header {h : Header} (hs : p.state = .Headers) (hh : Writable h)
    (hcount : p.headerCount + 1 ≤ p.limits.maxHeaderCount)
    (hbytes : p.headerBytes + h.line.length ≤ p.limits.maxHeaderBytes)
    (hroom : p.headerBytes + h.line.length ≤ vectorMaxSize)
    (hless : p.headerCount ≤ p.headerBytes) :
    loopBody (p, h.line ++ rest) = .inr (p.withHeaders [h], rest) := by
  have hlength : h.line.length = (headerText h).length + 2 := by
    simp [headerLine_eq, crlf]
  rw [headerLine_eq, loopBody_line (by simp [hs]) (not_mem_headerText hh)]
  have hread : sizeAdd p.headerBytes ((headerText h).length + 2) =
      p.headerBytes + h.line.length := by
    rw [← hlength]
    exact sizeAdd_of_le hroom
  have hadd : sizeAdd p.headerCount 1 = p.headerCount + 1 := sizeAdd_of_le (by omega)
  have hname : (headerText h).isEmpty = false := by simp [headerText, bytes]
  unfold lineStep
  rw [if_neg (by simp [hs]), if_neg (by simp [hs])]
  dsimp only
  rw [hread, Iteration.after_next, if_neg (by omega), if_neg (by simp [hs]), hname,
    if_neg (by simp)]
  unfold headerStep
  rw [Iteration.after_next, parseHeader_headerText hh (by simpa [hadd] using hcount)]
  simp only [continuing, withHeaders, hadd, List.flatMap_cons, List.flatMap_nil, List.append_nil,
    List.length_cons, List.length_nil, List.map_cons, List.map_nil]
  rfl

/-- **Headers are read back.** -/
theorem reaches_headers (hs : List Header) {p : HttpResponseParser} (hstate : p.state = .Headers)
    (hwritable : ∀ h ∈ hs, Writable h)
    (hcount : p.headerCount + hs.length ≤ p.limits.maxHeaderCount)
    (hbytes : p.headerBytes + (hs.flatMap Header.line).length ≤ p.limits.maxHeaderBytes)
    (hroom : p.headerBytes + (hs.flatMap Header.line).length ≤ vectorMaxSize)
    (hless : p.headerCount ≤ p.headerBytes) :
    Loop.Reaches loopBody (p, hs.flatMap Header.line ++ rest) (p.withHeaders hs, rest) := by
  induction hs generalizing p with
  | nil =>
    have hsame : p.withHeaders [] = p := by simp [withHeaders]
    rw [hsame]
    exact .refl _
  | cons h hs ih =>
    simp only [List.flatMap_cons, List.length_append, List.length_cons] at hcount hbytes hroom
    have hpos : 1 ≤ h.line.length := by
      rw [headerLine_eq, List.length_append]
      simp [crlf]
    have hfirst : loopBody (p, h.line ++ (hs.flatMap Header.line ++ rest)) =
        .inr (p.withHeaders [h], hs.flatMap Header.line ++ rest) :=
      loopBody_header hstate (hwritable h List.mem_cons_self) (by omega) (by omega) (by omega) hless
    have hlimits : (p.withHeaders [h]).limits = p.limits := rfl
    have hbytes₁ : (p.withHeaders [h]).headerBytes = p.headerBytes + h.line.length := by
      simp [withHeaders]
    have hcount₁ : (p.withHeaders [h]).headerCount = p.headerCount + 1 := rfl
    have hrest := ih (p := p.withHeaders [h]) hstate
      (fun h' hmem => hwritable h' (List.mem_cons_of_mem h hmem))
      (by rw [hlimits, hcount₁]; omega) (by rw [hlimits, hbytes₁]; omega)
      (by rw [hbytes₁]; omega) (by rw [hbytes₁, hcount₁]; omega)
    -- the first header and the others add up
    have hjoin : (p.withHeaders [h]).withHeaders hs = p.withHeaders (h :: hs) := by
      simp [withHeaders, Nat.add_assoc, Nat.add_comm 1]
    rw [hjoin] at hrest
    rw [List.flatMap_cons, List.append_assoc]
    exact .next hfirst hrest

/-! ### The chunks -/

/-- A chunk size that is written is read back. -/
theorem loopBody_chunkSize {n : Nat} (hs : p.state = .ChunkSize) (hn : n < sizeModulus) :
    loopBody (p, toChars 16 n ++ crlf ++ rest) =
      .inr ({ p with chunkBytes := n, state := if n = 0 then .Trailers else .ChunkBody },
        rest) := by
  have hmem : ∀ c ∈ toChars 16 n, 48 ≤ c ∧ c ≤ 102 ∧ c ≠ 59 := fun c hc =>
    mem_toChars (by omega) (by omega) hc
  have hline : 13 ∉ toChars 16 n := fun hmem' => absurd (hmem 13 hmem').1 (by decide)
  have hvalue : (toChars 16 n).takeWhile (· ≠ 59) = toChars 16 n := by
    rw [List.takeWhile_eq_self_iff]
    intro c hc
    simpa using (hmem c hc).2.2
  have hempty : (toChars 16 n).isEmpty = false := by
    rw [List.isEmpty_eq_false_iff]
    exact Numeral.write_ne_nil n
  -- a 64-bit size is printed in the sixteen digits that the parser accepts
  have hlength : (toChars 16 n).length ≤ 16 :=
    (Numeral.write_length_le_iff (by omega) (by omega)).mpr hn
  rw [loopBody_line (by simp [hs]) hline]
  unfold lineStep
  rw [if_neg (by simp [hs]), if_pos hs]
  unfold chunkSizeStep
  dsimp only
  rw [hvalue, hempty, if_neg (by simp; omega), fromChars_toChars (by omega) (by omega) hn]
  rfl

/-- A chunk that is all there is taken. -/
theorem loopBody_chunkBody {payload : Bytes} (hs : p.state = .ChunkBody)
    (hsize : p.chunkBytes = payload.length)
    (hbody : p.response.body.length + payload.length ≤ p.limits.maxBodyBytes)
    (hroom : payload.length + 2 ≤ vectorMaxSize) :
    loopBody (p, payload ++ crlf ++ rest) =
      .inr ({ p with state := .ChunkSize, response := { p.response with
        body := p.response.body ++ payload } }, rest) := by
  have hadd₂ : sizeAdd payload.length 2 = payload.length + 2 := sizeAdd_of_le hroom
  have hadd₁ : sizeAdd payload.length 1 = payload.length + 1 := sizeAdd_of_le (by omega)
  have hcr : (payload ++ crlf ++ rest)[payload.length]? = some 13 := by
    simp [crlf]
  have hlf : (payload ++ crlf ++ rest)[payload.length + 1]? = some 10 := by
    simp [crlf]
  have htake : (payload ++ crlf ++ rest).take payload.length = payload := by
    rw [List.append_assoc, List.take_left' rfl]
  have hdrop : (payload ++ crlf ++ rest).drop (payload.length + 2) = rest := by
    rw [List.drop_left' (by simp [crlf])]
  have happend : p.appendBody payload =
      some { p with response := { p.response with body := p.response.body ++ payload } } := by
    have hsub : sizeSub p.limits.maxBodyBytes p.response.body.length =
        p.limits.maxBodyBytes - p.response.body.length := if_pos (by omega)
    unfold appendBody
    rw [hsub, if_neg (by omega)]
  -- the whole chunk and its CRLF are there
  have hlong : ¬ (payload ++ crlf ++ rest).length < payload.length + 2 := by
    simp [crlf]
  unfold loopBody step
  simp only [hs]
  unfold chunkBodyStep
  simp only [hsize, hadd₂, hadd₁, Iteration.after_next]
  rw [if_neg hlong, Iteration.after_next, hcr, hlf]
  dsimp only
  rw [if_neg (by simp), Iteration.after_next, htake, happend]
  dsimp only
  rw [Iteration.after_next, hdrop]
  simp only [continuing, hsize]

/-- **Chunks are read back.** -/
theorem reaches_chunks (payloads : List Bytes) {p : HttpResponseParser}
    (hs : p.state = .ChunkSize) (hpayloads : ∀ payload ∈ payloads, payload ≠ [])
    (hbody : p.response.body.length + payloads.flatten.length ≤ p.limits.maxBodyBytes)
    (hroom : (payloads.flatMap chunkFrame ++ rest).length ≤ vectorMaxSize) :
    ∃ n, Loop.Reaches loopBody (p, payloads.flatMap chunkFrame ++ rest)
      ({ p with chunkBytes := n, response := { p.response with
          body := p.response.body ++ payloads.flatten } }, rest) := by
  induction payloads generalizing p with
  | nil =>
    refine ⟨p.chunkBytes, ?_⟩
    simp only [List.flatten_nil, List.append_nil]
    exact .refl _
  | cons payload payloads ih =>
    simp only [List.flatten_cons, List.length_append] at hbody
    simp only [List.flatMap_cons, List.length_append] at hroom
    have hframe : (chunkFrame payload).length =
        (toChars 16 payload.length).length + 2 + payload.length + 2 := by
      simp [chunkFrame, bytes]
      omega
    have hne := hpayloads payload List.mem_cons_self
    have hzero : payload.length ≠ 0 := fun h => hne (List.length_eq_zero_iff.mp h)
    have hcrlf : bytes "\r\n" = crlf := by decide
    -- one chunk takes two iterations: its size line, then its payload
    let tail := payloads.flatMap chunkFrame ++ rest
    let sized : HttpResponseParser :=
      { p with chunkBytes := payload.length, state := .ChunkBody }
    let taken : HttpResponseParser :=
      { sized with state := .ChunkSize,
                   response := { p.response with body := p.response.body ++ payload } }
    have hsize : loopBody (p, toChars 16 payload.length ++ crlf ++ (payload ++ crlf ++ tail)) =
        .inr (sized, payload ++ crlf ++ tail) := by
      rw [loopBody_chunkSize hs (by unfold sizeModulus; unfold vectorMaxSize at hroom; omega),
        if_neg hzero]
    have hchunk : loopBody (sized, payload ++ crlf ++ tail) = .inr (taken, tail) :=
      loopBody_chunkBody rfl rfl (by simp only [sized]; omega) (by omega)
    obtain ⟨n, hrest⟩ := ih (p := taken) rfl
      (fun q hq => hpayloads q (List.mem_cons_of_mem payload hq))
      (by simp only [taken, sized, List.length_append]; omega) (by rw [List.length_append]; omega)
    refine ⟨n, ?_⟩
    have hinput : (payload :: payloads).flatMap chunkFrame ++ rest =
        toChars 16 payload.length ++ crlf ++
          (payload ++ crlf ++ (payloads.flatMap chunkFrame ++ rest)) := by
      simp [chunkFrame, hcrlf, List.append_assoc]
    rw [hinput]
    refine .next hsize (.next hchunk ?_)
    simpa [taken, sized, hs, List.append_assoc] using hrest

/-- The last chunk ends the message. -/
theorem ends_lastChunk (hs : p.state = .ChunkSize)
    (hbytes : p.headerBytes + 2 ≤ p.limits.maxHeaderBytes)
    (hroom : p.headerBytes + 2 ≤ vectorMaxSize) :
    Loop.Ends loopBody (p, lastChunkFrame) (.finished .Complete
      { p with chunkBytes := 0, state := .Complete, headerBytes := p.headerBytes + 2 } []) := by
  have hframe : lastChunkFrame = toChars 16 0 ++ crlf ++ ([] ++ crlf ++ []) := by decide
  have hsize : loopBody (p, toChars 16 0 ++ crlf ++ ([] ++ crlf ++ [])) =
      .inr ({ p with chunkBytes := 0, state := .Trailers }, [] ++ crlf ++ []) := by
    rw [loopBody_chunkSize hs (by decide), if_pos rfl]
  have hend : loopBody ({ p with chunkBytes := 0, state := .Trailers }, [] ++ crlf ++ []) =
      .inl (.finished .Complete
        { p with chunkBytes := 0, state := .Complete, headerBytes := p.headerBytes + 2 } []) := by
    rw [loopBody_line (by simp) (by simp)]
    unfold lineStep
    rw [if_neg (by simp), if_neg (by simp)]
    dsimp only
    rw [List.length_nil, Nat.zero_add, sizeAdd_of_le hroom, Iteration.after_next,
      if_neg (by omega)]
    rfl
  rw [hframe]
  exact .next hsize (.done hend)

/-! ### The head -/

/-- The status line is read back. -/
theorem loopBody_statusLine {status : Int} {reason : Bytes} (hs : p.state = .StatusLine)
    (hstatus : (intToString status).length = 3) (hreason : reason ≠ [])
    (hvalid : isValidHeaderValue reason = true)
    (hline : (statusText status reason).length ≤ p.limits.maxStatusLineBytes) :
    loopBody (p, statusText status reason ++ crlf ++ rest) =
      .inr ({ p with
        state := .Headers
        headerBytes := (statusText status reason).length + 2
        response := { p.response with statusCode := status, reason := reason } }, rest) := by
  rw [loopBody_line (by simp [hs]) (not_mem_statusText hvalid)]
  unfold lineStep
  rw [if_pos hs]
  unfold statusLineStep
  rw [if_neg (by omega), Iteration.after_next,
    parseStatusLine_statusText hstatus hreason hvalid]
  rfl

/-- A status line with a shorter status is refused. -/
theorem loopBody_shortStatus {status : Int} {reason : Bytes} (hs : p.state = .StatusLine)
    (hstatus : (intToString status).length < 3) (hvalid : isValidHeaderValue reason = true)
    (hline : (statusText status reason).length ≤ p.limits.maxStatusLineBytes) :
    ∃ q, loopBody (p, statusText status reason ++ crlf ++ rest) =
      .inl (.finished .BadResponse q rest) := by
  obtain ⟨q, hparse⟩ : ∃ q, p.parseStatusLine (statusText status reason) = (.BadResponse, q) :=
    parseStatusLine_short hstatus
  refine ⟨q.fail .BadResponse, ?_⟩
  rw [loopBody_line (by simp [hs]) (not_mem_statusText hvalid)]
  unfold lineStep
  rw [if_pos hs]
  unfold statusLineStep
  rw [if_neg (by omega), Iteration.after_next, hparse]
  rfl

/-- The empty line ends the headers. -/
theorem loopBody_emptyLine (hs : p.state = .Headers)
    (hbytes : p.headerBytes + 2 ≤ p.limits.maxHeaderBytes)
    (hroom : p.headerBytes + 2 ≤ vectorMaxSize) :
    loopBody (p, crlf ++ rest) =
      ({ p with headerBytes := p.headerBytes + 2 }.finishHeadersStep rest).next := by
  have hline : loopBody (p, [] ++ crlf ++ rest) = (p.lineStep [] rest).next :=
    loopBody_line (by simp [hs]) (by simp)
  rw [List.nil_append] at hline
  rw [hline]
  unfold lineStep
  rw [if_neg (by simp [hs]), if_neg (by simp [hs])]
  dsimp only
  rw [List.length_nil, Nat.zero_add, sizeAdd_of_le hroom, Iteration.after_next,
    if_neg (by omega), if_neg (by simp [hs])]
  rfl

/-- The headers that `serializeStreamingHead` adds. -/
def addedHeaders (requestId : Bytes) : List Header :=
  [{ name := bytes "X-Request-Id", value := requestId },
   { name := bytes "Transfer-Encoding", value := bytes "chunked" },
   { name := bytes "Connection", value := bytes "keep-alive" }]

/-- The headers say that the body is chunked, and nothing else about it. -/
structure SaysChunked (h : Headers) : Prop where
  transfers : h.values (bytes "transfer-encoding") = [bytes "chunked"]
  lengths : h.values (bytes "content-length") = []

theorem saysChunked_addedHeaders {hs : List Header} {requestId : Bytes}
    (h : ∀ header ∈ hs, header.name ≠ bytes "transfer-encoding" ∧
      header.name ≠ bytes "content-length") :
    SaysChunked { entries := hs ++ (addedHeaders requestId).map Header.normalized } := by
  have hadded : (addedHeaders requestId).map Header.normalized =
      [{ name := bytes "x-request-id", value := requestId },
       { name := bytes "transfer-encoding", value := bytes "chunked" },
       { name := bytes "connection", value := bytes "keep-alive" }] := by
    have hnames : normalizeHeaderName (bytes "X-Request-Id") = bytes "x-request-id" ∧
        normalizeHeaderName (bytes "Transfer-Encoding") = bytes "transfer-encoding" ∧
        normalizeHeaderName (bytes "Connection") = bytes "connection" := by decide
    simp only [addedHeaders, List.map_cons, List.map_nil, Header.normalized, hnames]
  have hlower : normalizeHeaderName (bytes "transfer-encoding") = bytes "transfer-encoding" ∧
      normalizeHeaderName (bytes "content-length") = bytes "content-length" := by decide
  have hdiffer : bytes "x-request-id" ≠ bytes "transfer-encoding" ∧
      bytes "connection" ≠ bytes "transfer-encoding" ∧
      bytes "x-request-id" ≠ bytes "content-length" ∧
      bytes "transfer-encoding" ≠ bytes "content-length" ∧
      bytes "connection" ≠ bytes "content-length" := by decide
  constructor
  · have hnone : hs.filter (fun e => decide (e.name = bytes "transfer-encoding")) = [] := by
      rw [List.filter_eq_nil_iff]
      intro header hmem
      simpa using (h header hmem).1
    simp [Headers.values, hadded, hlower, hnone, hdiffer]
  · have hnone : hs.filter (fun e => decide (e.name = bytes "content-length")) = [] := by
      rw [List.filter_eq_nil_iff]
      intro header hmem
      simpa using (h header hmem).2
    simp [Headers.values, hadded, hlower, hnone, hdiffer]

/-- A final response with a body goes on with the chunks. -/
theorem finishHeaders_chunked (h : SaysChunked p.response.headers) (hhead : p.headRequest = false)
    (hbody : noBodyStatus p.response.statusCode = false) :
    p.finishHeaders = (.Complete, { p with chunked := true, state := .ChunkSize }) := by
  have hchunked : containsToken (bytes "chunked") (bytes "chunked") = true := by decide
  -- a status with a body is not informational, and no switch of protocols
  have hone : p.response.statusCode.tdiv 100 ≠ 1 := by
    intro hone
    simp [noBodyStatus, hone] at hbody
  have hswitching : p.response.statusCode ≠ 101 := by
    intro hswitching
    rw [hswitching] at hone
    exact hone (by decide)
  unfold finishHeaders
  simp [h.transfers, h.lengths, hhead, hbody, hchunked, hone, hswitching]

/-- A response without a body is complete. -/
theorem finishHeaders_bodiless (h : SaysChunked p.response.headers)
    (hbody : p.response.statusCode = 204 ∨ p.response.statusCode = 304) :
    p.finishHeaders = (.Complete, { p with state := .Complete }) := by
  have hchunked : containsToken (bytes "chunked") (bytes "chunked") = true := by decide
  unfold finishHeaders
  rcases hbody with hbody | hbody <;>
    simp [h.transfers, h.lengths, hbody, hchunked, noBodyStatus]

end HttpResponseParser

/-! ### The whole stream -/

/-- A response that `forward` streams: it was parsed, and its headers are those that are passed
    on. -/
structure HttpResponse.Streamable (r : HttpResponse) : Prop where
  status : r.statusCode.tdiv 100 ≠ 1 ∧ -99 ≤ r.statusCode ∧ r.statusCode ≤ 999
  reason : r.reason ≠ [] ∧ isValidHeaderValue r.reason = true
  headers : ∀ h ∈ r.headers.entries, h.WellFormed
  passed : ∀ h ∈ r.headers.entries, h.name ≠ bytes "transfer-encoding" ∧
    h.name ≠ bytes "content-length" ∧ h.name ≠ bytes "connection"

/-- The limits admit the response as it is streamed. -/
structure HttpResponseParserLimits.LargeEnough (l : HttpResponseParserLimits) (r : HttpResponse)
    (requestId : Bytes) : Prop where
  statusLine : r.statusLine.length ≤ l.maxStatusLineBytes + 2
  headerBytes : (serializeStreamingHead r requestId).length + 2 ≤ l.maxHeaderBytes
  headerCount : r.headers.entries.length + 3 ≤ l.maxHeaderCount
  body : r.body.length ≤ l.maxBodyBytes

/-- What is written for a response whose body is sent in these chunks. -/
def streamBytes (r : HttpResponse) (requestId : Bytes) (payloads : List Bytes) : Bytes :=
  serializeStreamingHead r requestId ++ payloads.flatMap chunkFrame ++ lastChunkFrame

/-- A status that is printed in three characters. -/
theorem intToString_length {n : Int} (h : -99 ≤ n ∧ n ≤ 999) :
    (intToString n).length ≤ 3 ∧
      ((intToString n).length = 3 ↔ 100 ≤ n ∨ n ≤ -10) := by
  have hdigits : ∀ k, k ≠ 0 → ((toChars 10 n.natAbs).length ≤ k ↔ n.natAbs < 10 ^ k) :=
    fun k hk => Numeral.write_length_le_iff (by omega) hk
  have hthree := hdigits 3 (by omega)
  have htwo := hdigits 2 (by omega)
  have hone := hdigits 1 (by omega)
  unfold intToString
  split
  · rw [List.length_cons]
    omega
  · omega

namespace HttpResponseParser

variable {r : HttpResponse} {requestId : Bytes} {limits : HttpResponseParserLimits}
  {payloads : List Bytes} {rest : Bytes}

theorem serializeStreamingHead_eq (hr : r.Streamable) (requestId : Bytes) :
    serializeStreamingHead r requestId = statusText r.statusCode r.reason ++ crlf ++
      (r.headers.entries ++ addedHeaders requestId).flatMap Header.line ++ crlf := by
  -- none of the headers is left out
  have hpassed : r.streamedHeaders = r.headers.entries := by
    unfold HttpResponse.streamedHeaders
    rw [List.filter_eq_self]
    intro h hmem
    obtain ⟨htransfer, hlength, hconnection⟩ := hr.passed h hmem
    simp [htransfer, hlength, hconnection]
  have hadded : (addedHeaders requestId).flatMap Header.line ++ crlf =
      bytes "X-Request-Id: " ++ requestId ++
        bytes "\r\nTransfer-Encoding: chunked\r\nConnection: keep-alive\r\n\r\n" := by
    have hname : bytes "X-Request-Id: " = bytes "X-Request-Id" ++ bytes ": " := by decide
    have hend : bytes "\r\nTransfer-Encoding: chunked\r\nConnection: keep-alive\r\n\r\n" =
        crlf ++ Header.line { name := bytes "Transfer-Encoding", value := bytes "chunked" } ++
          Header.line { name := bytes "Connection", value := bytes "keep-alive" } ++ crlf := by
      decide
    rw [hname, hend]
    simp [addedHeaders, Header.line]
  rw [List.flatMap_append]
  simp only [List.append_assoc] at hadded ⊢
  rw [hadded]
  simp [serializeStreamingHead, HttpResponse.statusLine, statusText, hpassed]

/-- The headers of a stream are read back as they are stored. -/
theorem writable_streamed (hr : r.Streamable) (hvalid : isValidHeaderValue requestId = true)
    (htrimmed : trim requestId = requestId) :
    ∀ h ∈ r.headers.entries ++ addedHeaders requestId, Writable h := by
  intro h hmem
  rcases List.mem_append.mp hmem with hmem | hmem
  · have hwell := hr.headers h hmem
    exact ⟨hwell.name, hwell.value, hwell.trimmed⟩
  · simp only [addedHeaders, List.mem_cons, List.not_mem_nil, or_false] at hmem
    rcases hmem with rfl | rfl | rfl
    · exact ⟨show isValidHeaderName (bytes "X-Request-Id") = true by decide, hvalid, htrimmed⟩
    · exact ⟨by decide, by decide, by decide⟩
    · exact ⟨by decide, by decide, by decide⟩

/-- The parser after the status line and the headers of a response. -/
def afterHead (limits : HttpResponseParserLimits) (headRequest : Bool) (status : Int)
    (reason : Bytes) (hs : List Header) : HttpResponseParser where
  limits := limits
  state := .Headers
  headerBytes := (statusText status reason).length + 2 + (hs.flatMap Header.line).length
  headerCount := hs.length
  headRequest := headRequest
  response :=
    { statusCode := status, reason := reason, headers := { entries := hs.map Header.normalized } }

/-- **A head is read back**, up to its empty line. -/
theorem reaches_afterHead {status : Int} {reason : Bytes} {hs : List Header} (headRequest : Bool)
    (hstatus : (intToString status).length = 3) (hreason : reason ≠ [])
    (hvalid : isValidHeaderValue reason = true)
    (hline : (statusText status reason).length ≤ limits.maxStatusLineBytes)
    (hwritable : ∀ h ∈ hs, Writable h) (hcount : hs.length ≤ limits.maxHeaderCount)
    (hbytes : (afterHead limits headRequest status reason hs).headerBytes ≤ limits.maxHeaderBytes)
    (hroom : (afterHead limits headRequest status reason hs).headerBytes ≤ vectorMaxSize) :
    Loop.Reaches loopBody ({ limits := limits, headRequest := headRequest },
      statusText status reason ++ crlf ++ (hs.flatMap Header.line ++ rest))
      (afterHead limits headRequest status reason hs, rest) := by
  -- the parser after the status line
  let started : HttpResponseParser :=
    { limits := limits, headRequest := headRequest, state := .Headers,
      headerBytes := (statusText status reason).length + 2,
      response := { statusCode := status, reason := reason } }
  have hfirst : loopBody ({ limits := limits, headRequest := headRequest },
      statusText status reason ++ crlf ++ (hs.flatMap Header.line ++ rest)) =
        .inr (started, hs.flatMap Header.line ++ rest) :=
    loopBody_statusLine rfl hstatus hreason hvalid hline
  have hcount' : started.headerCount + hs.length ≤ limits.maxHeaderCount := by
    simpa [started] using hcount
  have hheaders : Loop.Reaches loopBody (started, hs.flatMap Header.line ++ rest)
      (started.withHeaders hs, rest) :=
    reaches_headers hs rfl hwritable hcount' hbytes hroom (Nat.zero_le _)
  have hafter : started.withHeaders hs = afterHead limits headRequest status reason hs := by
    simp [started, withHeaders, afterHead]
  rw [hafter] at hheaders
  exact .next hfirst hheaders

/-- The parser after the headers of a stream. -/
def afterHeaders (limits : HttpResponseParserLimits) (r : HttpResponse) (requestId : Bytes) :
    HttpResponseParser where
  limits := limits
  state := .Headers
  headerBytes := (statusText r.statusCode r.reason).length + 2 +
    ((r.headers.entries ++ addedHeaders requestId).flatMap Header.line).length
  headerCount := r.headers.entries.length + 3
  response :=
    { statusCode := r.statusCode, reason := r.reason,
      headers := { entries := r.headers.entries ++
        (addedHeaders requestId).map Header.normalized } }

/-- The size of the head. -/
theorem headerBytes_afterHeaders (limits : HttpResponseParserLimits) (hr : r.Streamable)
    (requestId : Bytes) :
    (afterHeaders limits r requestId).headerBytes + 2 =
      (serializeStreamingHead r requestId).length := by
  rw [serializeStreamingHead_eq hr]
  simp only [List.length_append, afterHeaders, crlf, List.length_cons, List.length_nil]

/-- **The head of a stream is read back.** -/
theorem reaches_afterHeaders (hr : r.Streamable) (hstatus : (intToString r.statusCode).length = 3)
    (hvalid : isValidHeaderValue requestId = true) (htrimmed : trim requestId = requestId)
    (hlarge : limits.LargeEnough r requestId)
    (hroom : (serializeStreamingHead r requestId).length ≤ vectorMaxSize) :
    Loop.Reaches loopBody ({ limits := limits }, serializeStreamingHead r requestId ++ rest)
      (afterHeaders limits r requestId, crlf ++ rest) := by
  have hlimit := hlarge.headerBytes
  have hline : (statusText r.statusCode r.reason).length ≤ limits.maxStatusLineBytes := by
    have hlimit := hlarge.statusLine
    have hlength : r.statusLine.length = (statusText r.statusCode r.reason).length + 2 :=
      List.length_append
    omega
  have hafter : afterHead limits false r.statusCode r.reason
      (r.headers.entries ++ addedHeaders requestId) = afterHeaders limits r requestId := by
    have hsame : r.headers.entries.map Header.normalized = r.headers.entries :=
      (List.map_congr_left fun h hmem => (hr.headers h hmem).normalized).trans (List.map_id' _)
    simp [afterHead, afterHeaders, hsame, addedHeaders]
  have hsize := headerBytes_afterHeaders limits hr requestId
  have hcount : (r.headers.entries ++ addedHeaders requestId).length ≤ limits.maxHeaderCount := by
    simpa [addedHeaders] using hlarge.headerCount
  have hreaches : Loop.Reaches loopBody ({ limits := limits, headRequest := false },
      statusText r.statusCode r.reason ++ crlf ++
        ((r.headers.entries ++ addedHeaders requestId).flatMap Header.line ++ (crlf ++ rest)))
      (afterHead limits false r.statusCode r.reason (r.headers.entries ++ addedHeaders requestId),
        crlf ++ rest) := reaches_afterHead false hstatus
    hr.reason.1 hr.reason.2 hline (writable_streamed hr hvalid htrimmed) hcount
    (by rw [hafter]; omega) (by rw [hafter]; omega)
  rw [hafter] at hreaches
  -- the head as the lines that the parser reads
  have hinput : serializeStreamingHead r requestId ++ rest = statusText r.statusCode r.reason ++
      crlf ++ ((r.headers.entries ++ addedHeaders requestId).flatMap Header.line ++
        (crlf ++ rest)) := by
    rw [serializeStreamingHead_eq hr]
    simp [List.append_assoc]
  rw [hinput]
  exact hreaches

theorem parse_of_ends {input : Bytes} (hinput : input.length ≤ vectorMaxSize)
    {outcome : ParseOutcome} (h : Loop.Ends loopBody ({ limits := limits }, input) outcome) :
    HttpResponseParser.parse { limits := limits } input = outcome := by
  unfold parse
  rw [if_neg (by simp), if_neg (by simp), parseLoop_eq hinput h]

/-- The parser holds the response, with the headers that the proxy adds. -/
structure Holds (p : HttpResponseParser) (r : HttpResponse) (requestId : Bytes) : Prop where
  statusCode : p.response.statusCode = r.statusCode
  reason : p.response.reason = r.reason
  body : p.response.body = r.body
  headers : p.response.headers.entries = r.headers.entries ++
    (addedHeaders requestId).map Header.normalized

/-- A fresh parser reads the response back, and all of the input. -/
def RoundTrip (limits : HttpResponseParserLimits) (r : HttpResponse) (requestId input : Bytes) :
    Prop :=
  ∃ p, HttpResponseParser.parse { limits := limits } input = .finished .Complete p [] ∧
    p.Holds r requestId

/-- What the stream of a response is read with. -/
structure Readable (limits : HttpResponseParserLimits) (r : HttpResponse) (requestId : Bytes)
    (payloads : List Bytes) : Prop where
  streamable : r.Streamable
  valid : isValidHeaderValue requestId = true
  trimmed : trim requestId = requestId
  nonempty : ∀ payload ∈ payloads, payload ≠ []
  body : payloads.flatten = r.body
  large : limits.LargeEnough r requestId
  room : (streamBytes r requestId payloads).length ≤ vectorMaxSize

/-- The stream is read up to the empty line after the headers. -/
theorem Readable.ends (h : Readable limits r requestId payloads)
    (hstatus : (intToString r.statusCode).length = 3) {outcome : ParseOutcome}
    (hends : Loop.Ends loopBody (afterHeaders limits r requestId,
      crlf ++ (payloads.flatMap chunkFrame ++ lastChunkFrame)) outcome) :
    HttpResponseParser.parse { limits := limits } (streamBytes r requestId payloads) = outcome := by
  refine parse_of_ends h.room ?_
  have hroom := h.room
  unfold streamBytes at hroom ⊢
  rw [List.append_assoc] at hroom ⊢
  rw [List.length_append] at hroom
  exact (reaches_afterHeaders h.streamable hstatus h.valid h.trimmed h.large (by omega)).ends hends

/-- The parser when it has read the head. -/
def headRead (limits : HttpResponseParserLimits) (r : HttpResponse) (requestId : Bytes) :
    HttpResponseParser :=
  { afterHeaders limits r requestId with
    headerBytes := (serializeStreamingHead r requestId).length }

theorem saysChunked_headRead (hr : r.Streamable) :
    SaysChunked (headRead limits r requestId).response.headers :=
  saysChunked_addedHeaders fun header hmem =>
    ⟨(hr.passed header hmem).1, (hr.passed header hmem).2.1⟩

/-- The framing is decided when the head is read. -/
theorem Readable.loopBody_afterHeaders (h : Readable limits r requestId payloads) :
    loopBody (afterHeaders limits r requestId, crlf ++ rest) =
      ((headRead limits r requestId).finishHeadersStep rest).next := by
  have hsize := headerBytes_afterHeaders limits h.streamable requestId
  have hlimit := h.large.headerBytes
  have hroom := h.room
  simp only [streamBytes, List.length_append] at hroom
  have hbytes : (afterHeaders limits r requestId).headerBytes + 2 ≤ limits.maxHeaderBytes := by
    omega
  rw [loopBody_emptyLine rfl hbytes (by omega), hsize]
  rfl

/-- **A stream is read back**, with nothing left unread. -/
theorem parse_stream (h : Readable limits r requestId payloads)
    (hstatus : (intToString r.statusCode).length = 3)
    (hbody : r.statusCode ≠ 204 ∧ r.statusCode ≠ 304) :
    RoundTrip limits r requestId (streamBytes r requestId payloads) := by
  have hlimit := h.large.headerBytes
  have hroom := h.room
  simp only [streamBytes, List.length_append] at hroom
  -- the parser after the empty line, before the first chunk
  let chunks : HttpResponseParser :=
    { headRead limits r requestId with chunked := true, state := .ChunkSize }
  have hnoBody : noBodyStatus r.statusCode = false := by
    simp [noBodyStatus, h.streamable.status.1, hbody]
  have hempty : loopBody (afterHeaders limits r requestId,
      crlf ++ (payloads.flatMap chunkFrame ++ lastChunkFrame)) =
        .inr (chunks, payloads.flatMap chunkFrame ++ lastChunkFrame) := by
    rw [h.loopBody_afterHeaders]
    unfold finishHeadersStep
    rw [finishHeaders_chunked (saysChunked_headRead h.streamable) rfl hnoBody]
    rfl
  have hfits : chunks.response.body.length + payloads.flatten.length ≤ limits.maxBodyBytes := by
    rw [h.body]
    simpa [chunks, headRead, afterHeaders] using h.large.body
  have hleft : (payloads.flatMap chunkFrame ++ lastChunkFrame).length ≤ vectorMaxSize := by
    rw [List.length_append]
    omega
  obtain ⟨n, hchunks⟩ := reaches_chunks payloads (p := chunks) rfl h.nonempty hfits hleft
  have hlast : (serializeStreamingHead r requestId).length + 2 ≤ vectorMaxSize := by
    have hfive : lastChunkFrame.length = 5 := by decide
    omega
  have hparse := h.ends hstatus (.next hempty (hchunks.ends (ends_lastChunk rfl hlimit hlast)))
  refine ⟨_, hparse, rfl, rfl, ?_, rfl⟩
  simpa [chunks, headRead, afterHeaders] using h.body

/-- A response without a body is complete before its chunks. -/
theorem parse_noContent (h : Readable limits r requestId payloads)
    (hbody : r.statusCode = 204 ∨ r.statusCode = 304) :
    HttpResponseParser.parse { limits := limits } (streamBytes r requestId payloads) =
      .finished .Complete { headRead limits r requestId with state := .Complete }
        (payloads.flatMap chunkFrame ++ lastChunkFrame) := by
  have hstatus : (intToString r.statusCode).length = 3 := by
    rcases hbody with hbody | hbody <;> rw [hbody] <;> decide +kernel
  refine h.ends hstatus (.done ?_)
  rw [h.loopBody_afterHeaders]
  unfold finishHeadersStep
  rw [finishHeaders_bodiless (saysChunked_headRead h.streamable) hbody]
  rfl

/-- A status of fewer characters is refused. -/
theorem parse_shortStatus (h : Readable limits r requestId payloads)
    (hstatus : (intToString r.statusCode).length < 3) :
    ∃ p rest, HttpResponseParser.parse { limits := limits } (streamBytes r requestId payloads) =
      .finished .BadResponse p rest := by
  have hline : (statusText r.statusCode r.reason).length ≤ limits.maxStatusLineBytes := by
    have hlimit := h.large.statusLine
    have hlength : r.statusLine.length = (statusText r.statusCode r.reason).length + 2 :=
      List.length_append
    omega
  obtain ⟨rest, hinput⟩ : ∃ rest, streamBytes r requestId payloads =
      statusText r.statusCode r.reason ++ crlf ++ rest := by
    unfold streamBytes
    rw [serializeStreamingHead_eq h.streamable]
    simp only [List.append_assoc]
    exact ⟨_, rfl⟩
  have hroom := h.room
  rw [hinput] at hroom ⊢
  obtain ⟨p, hfirst⟩ : ∃ p, loopBody ({ limits := limits },
      statusText r.statusCode r.reason ++ crlf ++ rest) = .inl (.finished .BadResponse p rest) :=
    loopBody_shortStatus rfl hstatus h.streamable.reason.2 hline
  exact ⟨p, rest, parse_of_ends hroom (.done hfirst)⟩

/-- **The responses whose streams are read back.** -/
theorem roundTrip_iff (h : Readable limits r requestId payloads) :
    RoundTrip limits r requestId (streamBytes r requestId payloads) ↔
      (r.statusCode ≠ 204 ∧ r.statusCode ≠ 304) ∧ (100 ≤ r.statusCode ∨ r.statusCode ≤ -10) := by
  obtain ⟨hle, hthree⟩ := intToString_length h.streamable.status.2
  rw [← hthree]
  constructor
  · rintro ⟨p, hparse, _⟩
    refine ⟨?_, ?_⟩
    · rw [← not_or]
      intro hbody
      -- the last chunk at least is left unread
      have hleft := parse_noContent h hbody
      rw [hparse] at hleft
      have hnil := congrArg List.length (ParseOutcome.finished.inj hleft).2.2
      rw [List.length_append, show lastChunkFrame.length = 5 by decide, List.length_nil] at hnil
      omega
    · by_contra hshort
      obtain ⟨q, rest, hrefused⟩ := parse_shortStatus h (by omega)
      rw [hparse] at hrefused
      cases (ParseOutcome.finished.inj hrefused).1
  · rintro ⟨hbody, hstatus⟩
    exact parse_stream h hstatus hbody

end HttpResponseParser
end PulseGate
