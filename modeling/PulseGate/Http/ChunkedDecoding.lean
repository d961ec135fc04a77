import PulseGate.Http.HeadText

namespace PulseGate

/-!
# Chunked bodies are decoded

Every spelling of a chunked body, after the head of a final response.

* `SizeLine`, `Chunk`, `LastChunk`, `TrailerLine` — the parts of a chunked body, with the leading
  zeros, the case of the digits and the extensions as they are spelled;
* `ChunkedHead` — a final response head that says `chunked`;
* `reaches_chunkTexts`, `reaches_trailers` — the chunks and the trailers are read;
* `chunked_decoding` — a whole body is decoded, and what is none is refused.
-/

/-- A size line: up to sixteen digits of either case, and what follows a semicolon. -/
structure SizeLine where
  digits : Bytes
  ending : Bytes
  value : Nat
  short : digits.length ≤ 16
  isValue : Numeral.read 16 (digitValue 16) digits = some value
  extended : ending = [] ∨ ending.head? = some 59
  whole : ¬crlf <:+: digits ++ ending

def SizeLine.text (s : SizeLine) : Bytes := s.digits ++ s.ending

theorem SizeLine.not_infix_text (s : SizeLine) : ¬crlf <:+: s.text := s.whole

/-- A chunk of a body. -/
structure Chunk where
  size : SizeLine
  payload : Bytes
  nonempty : payload ≠ []
  sized : size.value = payload.length

def Chunk.text (c : Chunk) : Bytes := c.size.text ++ crlf ++ (c.payload ++ crlf)

/-- The chunk that ends the body. -/
structure LastChunk where
  size : SizeLine
  zero : size.value = 0

/-- A line between the last chunk and the empty line. -/
structure TrailerLine where
  text : Bytes
  named : isValidHeaderName (text.takeWhile (· ≠ 58)) = true
  whole : ¬crlf <:+: text

/-- The text of trailers. -/
def trailerText (trailers : List TrailerLine) : Bytes := trailers.flatMap fun t => t.text ++ crlf

/-- The bytes that chunks carry. -/
def payloads (chunks : List Chunk) : Bytes := chunks.flatMap Chunk.payload

/-- A final response head that has a body, and says `chunked` for it. -/
structure ChunkedHead extends UnsizedHead where
  coding : Bytes
  codings : toHeadText.transfers = [coding]
  isChunked : equalsIgnoreCase coding (bytes "chunked") = true

/-! ### The digits of a size -/

theorem SizeLine.digits_nonempty (s : SizeLine) : s.digits ≠ [] := by
  intro hempty
  have hvalue := s.isValue
  rw [hempty] at hvalue
  cases hvalue

/-- The digits end at the semicolon. -/
theorem SizeLine.takeWhile_text (s : SizeLine) : s.text.takeWhile (· ≠ 59) = s.digits := by
  have hdigits : ∀ c ∈ s.digits, decide (c ≠ 59) = true := by
    intro c hc
    have hdigit := Numeral.read_mem s.isValue c hc
    rw [decide_eq_true_eq]
    rintro rfl
    exact absurd hdigit (by decide)
  unfold SizeLine.text
  rw [List.takeWhile_append_of_pos hdigits]
  rcases s.extended with hending | hending
  · rw [hending]
    simp
  · obtain ⟨ending, hending⟩ := List.head?_eq_some_iff.mp hending
    rw [hending]
    simp

/-- Sixteen digits fit in a 64-bit size. -/
theorem SizeLine.fromChars_digits (s : SizeLine) : fromChars 16 s.digits = some s.value := by
  have hlt : s.value < sizeModulus := by
    calc s.value < 16 ^ s.digits.length :=
          Numeral.read_lt (fun c => digitValue_lt (c := c)) s.isValue
      _ ≤ 16 ^ 16 := Nat.pow_le_pow_right (by omega) s.short
      _ = sizeModulus := by decide
  unfold fromChars
  rw [s.isValue, Option.filter_some, if_pos (by simpa using hlt)]

namespace HttpResponseParser

variable {p : HttpResponseParser} {limits : HttpResponseParserLimits} {line rest : Bytes}

/-! ### Size lines -/

theorem loopBody_sizeText (hs : p.state = .ChunkSize) (s : SizeLine) :
    loopBody (p, s.text ++ crlf ++ rest) =
      .inr ({ p with chunkBytes := s.value,
                     state := if s.value = 0 then .Trailers else .ChunkBody }, rest) := by
  have hlines : p.ReadsLines := by simp [ReadsLines, hs]
  have hempty : s.digits.isEmpty = false := by
    rw [List.isEmpty_eq_false_iff]
    exact s.digits_nonempty
  rw [loopBody_splitLine hlines (splitLine_of_unbroken s.not_infix_text rest)]
  unfold lineStep
  rw [if_neg (by simp [hs]), if_pos hs]
  unfold chunkSizeStep
  dsimp only
  rw [s.takeWhile_text, hempty, if_neg (by simpa using s.short), s.fromChars_digits]
  rfl

/-- A line that is none is refused. -/
theorem loopBody_noSizeLine (hs : p.state = .ChunkSize) (hwhole : ¬crlf <:+: line)
    (hnone : ∀ s : SizeLine, s.text ≠ line) :
    loopBody (p, line ++ crlf ++ rest) =
      .inl (.finished .BadResponse (p.fail .BadResponse) rest) := by
  have hlines : p.ReadsLines := by simp [ReadsLines, hs]
  have hsplit : line.takeWhile (· ≠ 59) ++ line.dropWhile (· ≠ 59) = line :=
    List.takeWhile_append_dropWhile
  rw [loopBody_splitLine hlines (splitLine_of_unbroken hwhole rest)]
  unfold lineStep
  rw [if_neg (by simp [hs]), if_pos hs]
  unfold chunkSizeStep
  dsimp only
  by_cases hlength : (line.takeWhile (· ≠ 59)).isEmpty ∨ 16 < (line.takeWhile (· ≠ 59)).length
  · rw [if_pos hlength]
    rfl
  · rw [if_neg hlength]
    cases hread : fromChars 16 (line.takeWhile (· ≠ 59)) with
    | none => rfl
    | some value =>
      -- the line would be a size line
      refine absurd hsplit (hnone
        { digits := line.takeWhile (· ≠ 59), ending := line.dropWhile (· ≠ 59), value := value,
          short := by omega, isValue := ?_, extended := ?_, whole := by rwa [hsplit] })
      · exact (Option.filter_eq_some_iff.mp hread).1
      · cases hdrop : line.dropWhile (· ≠ 59) with
        | nil => exact .inl rfl
        | cons c ending =>
          rw [hdrop] at hsplit
          have hcons : c :: ending = 59 :: ending :=
            List.append_cancel_left (hsplit.trans (eq_append_of_dropWhile hdrop))
          exact .inr (congrArg List.head? hcons)

/-! ### Chunks -/

/-- **Chunks are read.** -/
theorem reaches_chunkTexts (chunks : List Chunk) {p : HttpResponseParser}
    (hs : p.state = .ChunkSize)
    (hbody : p.response.body.length + (payloads chunks).length ≤ p.limits.maxBodyBytes)
    (hroom : (chunks.flatMap Chunk.text ++ rest).length ≤ vectorMaxSize) :
    ∃ n, Loop.Reaches loopBody (p, chunks.flatMap Chunk.text ++ rest)
      ({ p.grown (payloads chunks) with chunkBytes := n }, rest) := by
  induction chunks generalizing p with
  | nil =>
    refine ⟨p.chunkBytes, ?_⟩
    have hsame : { p.grown (payloads []) with chunkBytes := p.chunkBytes } = p := p.grown_nil
    rw [hsame]
    exact .refl _
  | cons c chunks ih =>
    have hpositive : c.size.value ≠ 0 := by
      rw [c.sized]
      exact fun hzero => c.nonempty (List.length_eq_zero_iff.mp hzero)
    -- one chunk takes two iterations: its size line, then its payload
    let tail := chunks.flatMap Chunk.text ++ rest
    let sized : HttpResponseParser := { p with chunkBytes := c.size.value, state := .ChunkBody }
    let taken : HttpResponseParser :=
      { sized with state := .ChunkSize, response := { p.response with
        body := p.response.body ++ c.payload } }
    have hinput : (c :: chunks).flatMap Chunk.text ++ rest =
        c.size.text ++ crlf ++ (c.payload ++ crlf ++ tail) := by
      simp [Chunk.text, tail]
    have hpayloads : (payloads (c :: chunks)).length =
        c.payload.length + (payloads chunks).length := by
      simp [payloads]
    have hlength : c.size.text.length + c.payload.length + 4 + tail.length ≤ vectorMaxSize := by
      rw [hinput] at hroom
      simp only [List.length_append, crlf, List.length_cons, List.length_nil] at hroom
      omega
    have hsize : loopBody (p, c.size.text ++ crlf ++ (c.payload ++ crlf ++ tail)) =
        .inr (sized, c.payload ++ crlf ++ tail) := by
      rw [loopBody_sizeText hs, if_neg hpositive]
    have hchunk : loopBody (sized, c.payload ++ crlf ++ tail) = .inr (taken, tail) :=
      loopBody_chunkBody rfl c.sized
        (by show p.response.body.length + c.payload.length ≤ p.limits.maxBodyBytes; omega)
        (by omega)
    obtain ⟨n, hrest⟩ := ih (p := taken) rfl
      (by
        show (p.response.body ++ c.payload).length + _ ≤ p.limits.maxBodyBytes
        rw [List.length_append]
        omega)
      (by show tail.length ≤ vectorMaxSize; omega)
    refine ⟨n, ?_⟩
    have hjoin : { taken.grown (payloads chunks) with chunkBytes := n } =
        { p.grown (payloads (c :: chunks)) with chunkBytes := n } := by
      simp [grown, taken, sized, payloads, hs]
    rw [hjoin] at hrest
    rw [hinput]
    exact .next hsize (.next hchunk hrest)

/-- A payload that is not followed by CRLF is refused. -/
theorem loopBody_brokenChunk {payload : Bytes} {a b : UInt8} (hs : p.state = .ChunkBody)
    (hsize : p.chunkBytes = payload.length) (hbroken : a ≠ 13 ∨ b ≠ 10)
    (hroom : payload.length + 2 ≤ vectorMaxSize) :
    loopBody (p, payload ++ a :: b :: rest) =
      .inl (.finished .BadResponse (p.fail .BadResponse) (payload ++ a :: b :: rest)) := by
  have hadd₂ : sizeAdd payload.length 2 = payload.length + 2 := sizeAdd_of_le hroom
  have hadd₁ : sizeAdd payload.length 1 = payload.length + 1 := sizeAdd_of_le (by omega)
  have hfirst : (payload ++ a :: b :: rest)[payload.length]? = some a := by simp
  have hsecond : (payload ++ a :: b :: rest)[payload.length + 1]? = some b := by simp
  have hlong : ¬(payload ++ a :: b :: rest).length < payload.length + 2 := by simp
  unfold loopBody step
  simp only [hs]
  unfold chunkBodyStep
  simp only [hsize, hadd₂, hadd₁, Iteration.after_next]
  rw [if_neg hlong, Iteration.after_next, hfirst, hsecond]
  dsimp only
  rw [if_pos hbroken]
  rfl

/-! ### Trailers -/

/-- One line is counted, and nothing of it is kept. -/
theorem loopBody_trailer (hs : p.state = .Trailers) (t : TrailerLine)
    (hbytes : p.headerBytes + (t.text.length + 2) ≤ p.limits.maxHeaderBytes)
    (hroom : p.headerBytes + (t.text.length + 2) ≤ vectorMaxSize) :
    loopBody (p, t.text ++ crlf ++ rest) =
      .inr ({ p with headerBytes := p.headerBytes + (t.text.length + 2) }, rest) := by
  have hlines : p.ReadsLines := by simp [ReadsLines, hs]
  have hempty : t.text.isEmpty = false := by
    rw [List.isEmpty_eq_false_iff]
    intro hnil
    have hnamed := t.named
    rw [hnil] at hnamed
    cases hnamed
  rw [loopBody_splitLine hlines (splitLine_of_unbroken t.whole rest)]
  unfold lineStep
  rw [if_neg (by simp [hs]), if_neg (by simp [hs])]
  dsimp only
  rw [sizeAdd_of_le hroom, Iteration.after_next, if_neg (Nat.not_lt.mpr hbytes), if_pos hs]
  unfold trailerStep
  rw [hempty, if_neg (by simp), t.named, if_neg (by simp)]
  rfl

/-- **Trailers are read.** -/
theorem reaches_trailers (trailers : List TrailerLine) {p : HttpResponseParser}
    (hs : p.state = .Trailers)
    (hbytes : p.headerBytes + (trailerText trailers).length ≤ p.limits.maxHeaderBytes)
    (hroom : p.headerBytes + (trailerText trailers).length ≤ vectorMaxSize) :
    Loop.Reaches loopBody (p, trailerText trailers ++ rest)
      ({ p with headerBytes := p.headerBytes + (trailerText trailers).length }, rest) := by
  induction trailers generalizing p with
  | nil => exact .refl _
  | cons t trailers ih =>
    have htext : trailerText (t :: trailers) = t.text ++ crlf ++ trailerText trailers := by
      simp [trailerText]
    have hlength : (trailerText (t :: trailers)).length =
        (t.text.length + 2) + (trailerText trailers).length := by
      rw [htext]
      simp [crlf]
      omega
    rw [hlength, ← Nat.add_assoc] at hbytes hroom ⊢
    have hfirst : loopBody (p, t.text ++ crlf ++ (trailerText trailers ++ rest)) =
        .inr ({ p with headerBytes := p.headerBytes + (t.text.length + 2) },
          trailerText trailers ++ rest) :=
      loopBody_trailer hs t (by omega) (by omega)
    rw [htext, List.append_assoc]
    exact .next hfirst (ih hs hbytes hroom)

/-- The empty line ends the message. -/
theorem loopBody_endOfTrailers (hs : p.state = .Trailers)
    (hbytes : p.headerBytes + 2 ≤ p.limits.maxHeaderBytes)
    (hroom : p.headerBytes + 2 ≤ vectorMaxSize) :
    loopBody (p, crlf ++ rest) = .inl (.finished .Complete
      { p with headerBytes := p.headerBytes + 2, state := .Complete } rest) := by
  have hline : loopBody (p, [] ++ crlf ++ rest) = (p.lineStep [] rest).next :=
    loopBody_line (by simp [hs]) (by simp)
  rw [List.nil_append] at hline
  rw [hline]
  unfold lineStep
  rw [if_neg (by simp [hs]), if_neg (by simp [hs])]
  dsimp only
  rw [List.length_nil, Nat.zero_add, sizeAdd_of_le hroom, Iteration.after_next,
    if_neg (Nat.not_lt.mpr hbytes), if_pos hs]
  rfl

/-! ### The head -/

/-- The single coding `chunked`, in any case. -/
theorem containsToken_chunked {coding : Bytes}
    (h : equalsIgnoreCase coding (bytes "chunked") = true) :
    containsToken coding (bytes "chunked") = true := by
  have hlower : (bytes "chunked").map tolower = bytes "chunked" := by decide
  have hcoding : coding.map tolower = bytes "chunked" := (eq_of_beq h).trans hlower
  have hmem : ∀ c ∈ coding, tolower c ∈ bytes "chunked" := by
    intro c hc
    rw [← hcoding]
    exact List.mem_map_of_mem hc
  have hcomma : 44 ∉ coding := fun hc => absurd (hmem 44 hc) (by decide)
  have htrim : trim coding = coding := by
    apply trim_eq_self
    intro c hc
    by_contra hblank
    rw [Bool.not_eq_false] at hblank
    rcases of_decide_eq_true hblank with rfl | rfl
    · exact absurd (hmem 32 hc) (by decide)
    · exact absurd (hmem 9 hc) (by decide)
  rw [containsToken_iff (by decide), List.splitOn_eq_singleton hcomma]
  exact ⟨coding, List.mem_singleton_self coding, by rw [htrim, hcoding, hlower]⟩

/-- **A chunked head is read**, and the chunks come next. -/
theorem reaches_firstChunk (hlimits : limits.Accepted) (h : ChunkedHead)
    (hadmitted : h.Admitted limits) :
    Loop.Reaches loopBody (fresh limits false, h.text ++ rest)
      (atFirstChunk limits h.toHeadText, rest) := by
  have hlists : ListsChunked h.toHeadText :=
    ⟨h.coding, h.codings, containsToken_chunked h.isChunked⟩
  rcases reaches_unsizedBody hlimits h.toUnsizedHead hadmitted rest with
    ⟨hnone, _⟩ | ⟨_, hreaches⟩ | ⟨_, hnone, _⟩
  · rw [h.codings] at hnone
    cases hnone
  · exact hreaches
  · exact absurd hlists hnone

/-- The head and the chunks. -/
theorem reaches_headAndChunks (hlimits : limits.Accepted) (h : ChunkedHead)
    (hadmitted : h.Admitted limits) (chunks : List Chunk)
    (hbody : (payloads chunks).length ≤ limits.maxBodyBytes)
    (hroom : (h.text ++ (chunks.flatMap Chunk.text ++ rest)).length ≤ vectorMaxSize) :
    ∃ n, Loop.Reaches loopBody (fresh limits false, h.text ++ (chunks.flatMap Chunk.text ++ rest))
      ({ (atFirstChunk limits h.toHeadText).grown (payloads chunks) with chunkBytes := n },
        rest) := by
  have hstart : (atFirstChunk limits h.toHeadText).response.body.length = 0 := rfl
  rw [List.length_append] at hroom
  obtain ⟨n, hchunks⟩ : ∃ n, Loop.Reaches loopBody
      (atFirstChunk limits h.toHeadText, chunks.flatMap Chunk.text ++ rest)
      ({ (atFirstChunk limits h.toHeadText).grown (payloads chunks) with chunkBytes := n }, rest) :=
    reaches_chunkTexts chunks rfl (by show 0 + _ ≤ limits.maxBodyBytes; omega) (by omega)
  exact ⟨n, (reaches_firstChunk hlimits h hadmitted).trans hchunks⟩

/-! ### Whole bodies -/

/-- **Chunked decoding is exact.**  A body in chunks is decoded, its trailers change nothing, and
    what follows is left; a chunk that is not followed by CRLF and a line that is no size line are
    refused. -/
theorem chunked_decoding (limits : HttpResponseParserLimits) (hlimits : limits.Accepted)
    (h : ChunkedHead) (hadmitted : h.Admitted limits) (chunks : List Chunk)
    (hbody : (payloads chunks).length ≤ limits.maxBodyBytes) (rest : Bytes) :
    (∀ (last : LastChunk) (trailers : List TrailerLine) (input : Bytes),
      input = h.text ++ (chunks.flatMap Chunk.text ++
        (last.size.text ++ crlf ++ (trailerText trailers ++ (crlf ++ rest)))) →
      input.length ≤ vectorMaxSize →
      h.text.length + (trailerText trailers).length + 2 ≤ limits.maxHeaderBytes →
      ∃ q, (fresh limits false).parse input = .finished .Complete q rest ∧
        q.state = .Complete ∧ q.response = { h.response with body := payloads chunks }) ∧
    (∀ (c : Chunk) (a b : UInt8) (input : Bytes),
      input = h.text ++ (chunks.flatMap Chunk.text ++
        (c.size.text ++ crlf ++ (c.payload ++ a :: b :: rest))) →
      input.length ≤ vectorMaxSize → a ≠ 13 ∨ b ≠ 10 →
      ∃ q left, (fresh limits false).parse input = .finished .BadResponse q left) ∧
    (∀ line input : Bytes,
      input = h.text ++ (chunks.flatMap Chunk.text ++ (line ++ crlf ++ rest)) →
      input.length ≤ vectorMaxSize → ¬crlf <:+: line → (∀ s : SizeLine, s.text ≠ line) →
      ∃ q left, (fresh limits false).parse input = .finished .BadResponse q left) := by
  refine ⟨?_, ?_, ?_⟩
  · rintro last trailers input rfl hroom hbytes
    obtain ⟨n, hchunks⟩ := reaches_headAndChunks hlimits h hadmitted chunks hbody hroom
    -- the last chunk, the trailers, the empty line
    let p : HttpResponseParser :=
      { (atFirstChunk limits h.toHeadText).grown (payloads chunks) with
        chunkBytes := last.size.value, state := .Trailers }
    have hlast := hchunks.snoc (by rw [loopBody_sizeText rfl, if_pos last.zero])
    have hsmall : h.text.length + (trailerText trailers).length + 2 ≤ vectorMaxSize := by
      simp only [List.length_append, crlf, List.length_cons, List.length_nil] at hroom ⊢
      omega
    have htrailers := hlast.trans (reaches_trailers (p := p) trailers rfl
      (by show h.text.length + _ ≤ limits.maxHeaderBytes; omega)
      (by show h.text.length + _ ≤ vectorMaxSize; omega))
    have hend := htrailers.ends (.done (loopBody_endOfTrailers rfl hbytes hsmall))
    refine ⟨_, parse_fresh hroom hend, rfl, ?_⟩
    simp [p, grown, atFirstChunk, atEmptyLine, HeadText.response]
  · rintro c a b input rfl hroom hbroken
    obtain ⟨n, hchunks⟩ := reaches_headAndChunks hlimits h hadmitted chunks hbody hroom
    have hpositive : c.size.value ≠ 0 := by
      rw [c.sized]
      exact fun hzero => c.nonempty (List.length_eq_zero_iff.mp hzero)
    have hsized := hchunks.snoc (by rw [loopBody_sizeText rfl, if_neg hpositive])
    have hpayload : c.payload.length + 2 ≤ vectorMaxSize := by
      simp only [List.length_append, List.length_cons] at hroom
      omega
    have hend := hsized.ends (.done (loopBody_brokenChunk rfl c.sized hbroken hpayload))
    exact ⟨_, _, parse_fresh hroom hend⟩
  · rintro line input rfl hroom hwhole hnone
    obtain ⟨n, hchunks⟩ := reaches_headAndChunks hlimits h hadmitted chunks hbody hroom
    have hend := hchunks.ends (.done (loopBody_noSizeLine rfl hwhole hnone))
    exact ⟨_, _, parse_fresh hroom hend⟩

/-- A head that says `Chunked`. -/
def chunkedOk : ChunkedHead where
  start := okLine
  fields :=
    [{ name := bytes "Transfer-Encoding", spelled := bytes " Chunked",
       validName := validName_transferEncoding, validValue := by decide }]
  final := noBodyStatus_okLine
  lengths := by decide
  coding := bytes "Chunked"
  codings := by decide
  isChunked := by decide

/-- Ten bytes, with a leading zero and an extension. -/
def tenBytes : Chunk where
  size :=
    { digits := bytes "0A", ending := bytes ";a=1", value := 10, short := by decide,
      isValue := by decide, extended := by decide, whole := not_infix_of_not_mem (by decide) }
  payload := bytes "0123456789"
  nonempty := by decide
  sized := by decide

def zeroChunk : LastChunk where
  size :=
    { digits := bytes "0", ending := [], value := 0, short := by decide, isValue := by decide,
      extended := by decide, whole := not_infix_of_not_mem (by decide) }
  zero := rfl

def oneTrailer : TrailerLine where
  text := bytes "Expires: never"
  named := by decide
  whole := not_infix_of_not_mem (by decide)

def tenBytesText : Bytes :=
  bytes "HTTP/1.1 200 OK\r\nTransfer-Encoding: Chunked\r\n\r\n" ++
    bytes "0A;a=1\r\n0123456789\r\n0\r\nExpires: never\r\n\r\nHTTP"

/-- The theorem at one chunk, one trailer and the start of the next response. -/
theorem chunked_decoding_tenBytes :
    ∃ q, (fresh {} false).parse tenBytesText = .finished .Complete q (bytes "HTTP") ∧
      q.state = .Complete ∧
      q.response = { chunkedOk.response with body := bytes "0123456789" } :=
  (chunked_decoding {} (by decide) chunkedOk ⟨by decide, by decide, by decide⟩ [tenBytes]
    (by decide) (bytes "HTTP")).1 zeroChunk [oneTrailer] _ (by decide) (by decide) (by decide)

end HttpResponseParser
end PulseGate
