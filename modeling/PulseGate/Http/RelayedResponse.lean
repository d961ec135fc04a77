import PulseGate.Http.Downstream
import PulseGate.Http.StreamRoundTrip

namespace PulseGate

/-!
# Responses that are relayed in one piece

`parseStatusLine` reads the three characters of the status with `std::from_chars`, which takes a
minus sign and leading zeros, and only a status from 100 to 999 is accepted by `serialize`.

* `FinalStatus` — the status field of the final response in a stream, read off its lines;
* `Parsed` — what a parser is after a stream that was received in any pieces;
* `serialize_relayed_iff` — the response that was parsed can be serialized exactly if that field
  is at least 100.
-/

namespace HttpResponseParser

/-! ### The status in the stream -/

/-- The three bytes after the first space. -/
def statusField (line : Bytes) : Bytes := (line.drop (line.findIdx (· == 32) + 1)).take 3

/-- The status line starts an informational response. -/
def InformationalLine (line : Bytes) : Prop :=
  ∃ status, intFromChars (statusField line) = some status ∧ status.tdiv 100 = 1

/-- The status field of the first response in a text that is not informational; with
    `inHeaders` the text starts in the headers of an informational one. -/
inductive FinalStatus : (inHeaders : Bool) → Bytes → Bytes → Prop
  | final {text line rest : Bytes} (split : splitLine text = some (line, rest))
      (final : ¬InformationalLine line) : FinalStatus false text (statusField line)
  | informational {text line rest field : Bytes} (split : splitLine text = some (line, rest))
      (informational : InformationalLine line) (next : FinalStatus true rest field) :
      FinalStatus false text field
  | header {text line rest field : Bytes} (split : splitLine text = some (line, rest))
      (header : line ≠ []) (next : FinalStatus true rest field) : FinalStatus true text field
  | headersEnd {text rest field : Bytes} (split : splitLine text = some ([], rest))
      (next : FinalStatus false rest field) : FinalStatus true text field

theorem FinalStatus.unique {inHeaders : Bool} {text field field' : Bytes}
    (h : FinalStatus inHeaders text field) (h' : FinalStatus inHeaders text field') :
    field = field' := by
  induction h with
  | final hsplit hfinal =>
    cases h' with
    | final hsplit' _ =>
      obtain ⟨rfl, -⟩ := Prod.mk.inj (Option.some.inj (hsplit.symm.trans hsplit'))
      rfl
    | informational hsplit' hinformational _ =>
      obtain ⟨rfl, -⟩ := Prod.mk.inj (Option.some.inj (hsplit.symm.trans hsplit'))
      exact absurd hinformational hfinal
  | informational hsplit hinformational _ ih =>
    cases h' with
    | final hsplit' hfinal =>
      obtain ⟨rfl, -⟩ := Prod.mk.inj (Option.some.inj (hsplit.symm.trans hsplit'))
      exact absurd hinformational hfinal
    | informational hsplit' _ hnext =>
      obtain ⟨-, rfl⟩ := Prod.mk.inj (Option.some.inj (hsplit.symm.trans hsplit'))
      exact ih hnext
  | header hsplit hheader _ ih =>
    cases h' with
    | header hsplit' _ hnext =>
      obtain ⟨-, rfl⟩ := Prod.mk.inj (Option.some.inj (hsplit.symm.trans hsplit'))
      exact ih hnext
    | headersEnd hsplit' _ =>
      obtain ⟨rfl, -⟩ := Prod.mk.inj (Option.some.inj (hsplit.symm.trans hsplit'))
      exact absurd rfl hheader
  | headersEnd hsplit _ ih =>
    cases h' with
    | header hsplit' hheader _ =>
      obtain ⟨rfl, -⟩ := Prod.mk.inj (Option.some.inj (hsplit.symm.trans hsplit'))
      exact absurd rfl hheader
    | headersEnd hsplit' hnext =>
      obtain ⟨-, rfl⟩ := Prod.mk.inj (Option.some.inj (hsplit.symm.trans hsplit'))
      exact ih hnext

/-! ### What the parser knows of it -/

/-- The text ends with the status `status`, whatever follows it. -/
def EndsFinal (text : Bytes) (status : Int) : Prop :=
  ∃ field, intFromChars field = some status ∧ ∀ rest, FinalStatus false (text ++ rest) field

/-- The final status of a stream that starts with `consumed` is the one the parser has read, or
    will read. -/
def Reads (consumed : Bytes) (p : HttpResponseParser) : Prop :=
  match p.state with
  | .Error => True
  | .StatusLine =>
    ∀ rest field, FinalStatus false rest field → FinalStatus false (consumed ++ rest) field
  | .Headers =>
    if p.response.statusCode.tdiv 100 = 1 then
      ∀ rest field, FinalStatus true rest field → FinalStatus false (consumed ++ rest) field
    else EndsFinal consumed p.response.statusCode
  | _ => EndsFinal consumed p.response.statusCode

variable {p p' : HttpResponseParser} {consumed taken input line rest : Bytes}

theorem EndsFinal.append {status : Int} (h : EndsFinal consumed status) (taken : Bytes) :
    EndsFinal (consumed ++ taken) status := by
  obtain ⟨field, hfield, hfinal⟩ := h
  refine ⟨field, hfield, fun rest => ?_⟩
  rw [List.append_assoc]
  exact hfinal (taken ++ rest)

theorem reads_inBody (hp : p.InBody) :
    Reads consumed p ↔ EndsFinal consumed p.response.statusCode := by
  obtain ⟨hheaders, herror⟩ := hp
  unfold Reads
  split
  · next hs => exact absurd hs herror
  · next hs => exact absurd (.inl hs) hheaders
  · next hs => exact absurd (.inr hs) hheaders
  · exact Iff.rfl

theorem reads_error (hp : p.state = .Error) : Reads consumed p := by
  unfold Reads
  rw [hp]
  trivial

/-- The parser reads what it has consumed, and then what the iteration takes. -/
def ReadsOn (consumed input : Bytes) (p' : HttpResponseParser) (rest : Bytes) : Prop :=
  ∀ taken, input = taken ++ rest → Reads (consumed ++ taken) p'

theorem readsOn_error (hp : p'.state = .Error) : ReadsOn consumed input p' rest :=
  fun _ _ => reads_error hp

theorem readsOn_self (h : Reads consumed p) : ReadsOn consumed input p input := by
  intro taken htaken
  have hnil : taken = [] := by simpa using htaken
  rw [hnil, List.append_nil]
  exact h

theorem reads_statusLineStep (h : Reads consumed p) (hs : p.state = .StatusLine)
    (hsplit : splitLine input = some (line, rest)) :
    (p.statusLineStep line rest).Keeps fun _ p' rest => ReadsOn consumed input p' rest := by
  have hbefore : ∀ rest field, FinalStatus false rest field →
      FinalStatus false (consumed ++ rest) field := by
    unfold Reads at h
    rwa [hs] at h
  unfold statusLineStep
  split
  · exact readsOn_error rfl
  · rw [Iteration.after_keeps]
    obtain ⟨status, reason, ⟨hparse, -, -, hstatus⟩ | hparse⟩ := p.parseStatusLine_cases line
    · rw [hparse]
      intro taken htaken
      have hline : taken = line ++ crlf := by
        have hinput := splitLine_eq_some hsplit
        rw [htaken] at hinput
        exact List.append_cancel_right hinput
      subst hline
      -- what follows the line is free
      have hfree (z : Bytes) := splitLine_replace hsplit z
      show if status.tdiv 100 = 1 then _ else EndsFinal (consumed ++ (line ++ crlf)) status
      split
      · next hone =>
        intro z field hnext
        rw [List.append_assoc]
        exact hbefore _ _ (.informational (hfree z) ⟨status, hstatus, hone⟩ hnext)
      · next hone =>
        refine ⟨statusField line, hstatus, fun z => ?_⟩
        rw [List.append_assoc]
        refine hbefore _ _ (.final (hfree z) ?_)
        rintro ⟨status', hstatus', hone'⟩
        obtain rfl := Option.some.inj (hstatus.symm.trans hstatus')
        exact hone hone'
    · rw [hparse]
      exact readsOn_error rfl

/-- What a parser in the headers has read. -/
theorem reads_headers (hs : p.state = .Headers) : Reads consumed p ↔
    if p.response.statusCode.tdiv 100 = 1 then
      ∀ rest field, FinalStatus true rest field → FinalStatus false (consumed ++ rest) field
    else EndsFinal consumed p.response.statusCode := by
  unfold Reads
  rw [hs]

theorem reads_headerStep (h : Reads consumed p) (hs : p.state = .Headers) (hline : line ≠ [])
    (hsplit : splitLine input = some (line, rest)) :
    (p.headerStep line rest).Keeps fun _ p' rest => ReadsOn consumed input p' rest := by
  rw [reads_headers hs] at h
  unfold headerStep
  rw [Iteration.after_keeps]
  rcases p.parseHeader_cases line with ⟨name, value, hparse, -, -, -, -⟩ | ⟨e, he, hparse⟩
  · rw [hparse]
    intro taken htaken
    obtain rfl : taken = line ++ crlf := by
      have hinput := splitLine_eq_some hsplit
      rw [htaken] at hinput
      exact List.append_cancel_right hinput
    refine (reads_headers hs).mpr ?_
    show if p.response.statusCode.tdiv 100 = 1 then _
      else EndsFinal (consumed ++ (line ++ crlf)) p.response.statusCode
    split
    · next hone =>
      rw [if_pos hone] at h
      intro z field hnext
      rw [List.append_assoc]
      exact h _ _ (.header (splitLine_replace hsplit z) hline hnext)
    · next hone =>
      rw [if_neg hone] at h
      exact h.append _
  · rw [hparse]
    rcases he with rfl | rfl <;> exact readsOn_error rfl

theorem reads_finishHeadersStep (h : Reads consumed p) (hs : p.state = .Headers)
    (hsplit : splitLine input = some ([], rest)) :
    (p.finishHeadersStep rest).Keeps fun _ p' rest => ReadsOn consumed input p' rest := by
  rw [reads_headers hs] at h
  unfold finishHeadersStep
  rcases p.finishHeaders_cases with ⟨p', hfinish, hframing, hfinal⟩ | ⟨e, he, hfinish⟩
  · rw [hfinish]
    have hreads : ReadsOn consumed input p' rest := by
      intro taken htaken
      obtain rfl : taken = crlf := by
        have hinput := splitLine_eq_some hsplit
        rw [htaken] at hinput
        exact List.append_cancel_right hinput
      by_cases hone : p.response.statusCode.tdiv 100 = 1
      · -- the next response starts here
        have hline := hfinal hone
        rw [if_pos hone] at h
        unfold Reads
        rw [hline]
        intro z field hnext
        rw [List.append_assoc]
        exact h _ _ (.headersEnd (splitLine_replace hsplit z) hnext)
      · rw [if_neg hone] at h
        -- a final response goes on in its body, with its status
        have hbody : p'.InBody ∧ p'.response.statusCode = p.response.statusCode := by
          cases hframing with
          | informational hinformational => exact absurd hinformational hone
          | bodiless => exact ⟨by simp [InBody, InHeaders], rfl⟩
          | chunked => exact ⟨by simp [InBody, InHeaders], rfl⟩
          | untilEof => exact ⟨by simp [InBody, InHeaders], rfl⟩
          | fixed _ _ length hlength =>
            refine ⟨?_, rfl⟩
            simp only [InBody, InHeaders]
            split <;> simp
        rw [reads_inBody hbody.1, hbody.2]
        exact h.append _
    dsimp only
    split
    · exact hreads
    · exact hreads
  · rw [hfinish]
    rcases he with rfl | rfl | rfl <;> exact readsOn_error rfl

theorem reads_partialLineStep (h : Reads consumed p) :
    (p.partialLineStep input).Keeps fun _ p' rest => ReadsOn consumed input p' rest := by
  unfold partialLineStep
  split
  · split
    · exact readsOn_error rfl
    · exact readsOn_self h
  · split
    · rw [Iteration.after_keeps]
      split
      · exact readsOn_error rfl
      · exact readsOn_self h
    · exact readsOn_self h

/-- **One iteration.** -/
theorem reads_step (h : Reads consumed p) (hbounded : Bounded p) (hp : p.Running)
    (hinput : input.length ≤ vectorMaxSize) :
    (p.step input).Keeps fun _ p' rest => ReadsOn consumed input p' rest := by
  -- past the headers the status stays
  by_cases hbody : p.InBody
  · refine (step_advances hbounded hp hinput).mono fun _ p' _ hadv => ?_
    obtain ⟨hin, -, data, hdata⟩ := hadv.grows hbody
    rcases hin with hin | herror
    · intro taken _
      rw [reads_inBody hin, hdata]
      exact ((reads_inBody hbody).mp h).append taken
    · exact readsOn_error herror
  have hheaders := inHeaders_of_running hbody hp
  have hline : p.state ≠ .FixedBody ∧ p.state ≠ .ChunkBody ∧ p.state ≠ .EofBody := by
    rcases hheaders with hs | hs <;> simp [hs]
  unfold step
  split
  · next hs => exact absurd hs hline.1
  · next hs => exact absurd hs hline.2.1
  · next hs => exact absurd hs hline.2.2
  split
  · exact reads_partialLineStep h
  · next line rest hsplit =>
    rw [Iteration.after_keeps]
    unfold lineStep
    split
    · next hs => exact reads_statusLineStep h hs hsplit
    next hs =>
    have hs : p.state = .Headers := hheaders.resolve_left hs
    rw [if_neg (by simp [hs])]
    dsimp only
    rw [Iteration.after_keeps]
    have hread : Reads consumed
        { p with headerBytes := sizeAdd p.headerBytes (line.length + 2) } := h
    split
    · exact readsOn_error rfl
    rw [if_neg (by simp [hs])]
    split
    · next hempty =>
      obtain rfl := List.isEmpty_iff.mp hempty
      exact reads_finishHeadersStep hread hs hsplit
    · next hne => exact reads_headerStep hread hs (by simpa using hne) hsplit

/-- **One call of `parse`.** -/
theorem reads_parse (h : Reads consumed p) (hbounded : Bounded p)
    (hinput : input.length ≤ vectorMaxSize) {e : ResponseParseResult}
    (hparse : p.parse input = .finished e p' rest) : ReadsOn consumed input p' rest := by
  unfold parse at hparse
  split at hparse
  · obtain ⟨_, rfl, rfl⟩ := ParseOutcome.finished.inj hparse
    exact readsOn_self h
  split at hparse
  · obtain ⟨_, rfl, rfl⟩ := ParseOutcome.finished.inj hparse
    exact readsOn_self h
  next hcomplete herror =>
  have hends := parse_ends p hinput
  rw [hparse] at hends
  -- the invariant: the input is what was read and what is left of it
  refine Loop.Ends.result
    (fun s : HttpResponseParser × Bytes => (∃ before, input = before ++ s.2 ∧
      Reads (consumed ++ before) s.1) ∧ Bounded s.1 ∧ s.1.Running ∧ s.2.length ≤ vectorMaxSize)
    (P := fun outcome => ∀ e p' rest, outcome = .finished e p' rest →
      ReadsOn consumed input p' rest) ?_ ?_ hends
    ⟨⟨[], rfl, by rwa [List.append_nil]⟩, hbounded, ⟨hcomplete, herror⟩, hinput⟩ e p' rest rfl
  · rintro ⟨q, left⟩ ⟨q', left'⟩ ⟨⟨before, rfl, hq⟩, hqbounded, hrun, hleft⟩ hnext
    have hadv := (step_advances hqbounded hrun hleft).continued hnext
    obtain ⟨more, rfl⟩ := hadv.suffix
    have hq' := (reads_step hq hqbounded hrun hleft).continued hnext more rfl
    exact ⟨⟨before ++ more, by rw [List.append_assoc], by rwa [← List.append_assoc]⟩,
      hadv.bounded, hadv.running (.inl rfl), Nat.le_trans hadv.suffix.length_le hleft⟩
  · rintro ⟨q, left⟩ _ ⟨⟨before, rfl, hq⟩, hqbounded, hrun, hleft⟩ hnext e p' rest rfl taken htaken
    have hadv := (step_advances hqbounded hrun hleft).finished hnext
    obtain ⟨more, rfl⟩ := hadv.suffix
    have hq' := (reads_step hq hqbounded hrun hleft).finished hnext more rfl
    rw [← List.append_assoc] at htaken
    rw [← List.append_cancel_right htaken, ← List.append_assoc]
    exact hq'

/-! ### A stream received in pieces -/

/-- After the stream, whose pieces were parsed as they came, the parser is `p`, and the last
    bytes are unread. -/
inductive Parsed (limits : HttpResponseParserLimits) (headRequest : Bool) :
    Bytes → HttpResponseParser → Bytes → Prop
  | create : Parsed limits headRequest [] { limits := limits, headRequest := headRequest } []
  | parse {stream unread rest : Bytes} {p p' : HttpResponseParser} {result : ResponseParseResult}
      (before : Parsed limits headRequest stream p unread) (piece : Bytes)
      (room : (unread ++ piece).length ≤ vectorMaxSize)
      (parsed : p.parse (unread ++ piece) = .finished result p' rest) :
      Parsed limits headRequest (stream ++ piece) p' rest
  | finishOnEof {stream unread : Bytes} {p : HttpResponseParser}
      (before : Parsed limits headRequest stream p unread) :
      Parsed limits headRequest stream p.finishOnEof.2 unread

variable {limits : HttpResponseParserLimits} {headRequest : Bool} {stream unread : Bytes}

theorem Parsed.bounded (hlimits : limits.Accepted) (h : Parsed limits headRequest stream p unread) :
    Bounded p := by
  induction h with
  | create => exact bounded_reset (p := { limits := limits }) hlimits headRequest
  | parse _ piece hroom hparse ih => exact (parse_advances ih hroom hparse).bounded
  | finishOnEof _ ih => exact ih.finishOnEof

theorem Parsed.headOk (hlimits : limits.Accepted) (h : Parsed limits headRequest stream p unread) :
    HeadOk p := by
  induction h with
  | create => exact headOk_reset { limits := limits } headRequest
  | parse before piece hroom hparse ih =>
    exact headOk_parse ih (before.bounded hlimits) hroom hparse
  | finishOnEof _ ih => exact headOk_finishOnEof ih

theorem reads_finishOnEof (h : Reads consumed p) : Reads consumed p.finishOnEof.2 := by
  rcases p.finishOnEof_cases with ⟨hs, heq⟩ | ⟨-, heq⟩ | heq <;> rw [heq]
  · have hp : p.InBody := by simp [InBody, InHeaders, hs]
    exact (reads_inBody hp).mp h
  · exact h
  · exact reads_error rfl

theorem Parsed.reads (hlimits : limits.Accepted) (h : Parsed limits headRequest stream p unread) :
    ∃ consumed, stream = consumed ++ unread ∧ Reads consumed p := by
  induction h with
  | create => exact ⟨[], rfl, fun _ _ hfinal => hfinal⟩
  | parse before piece hroom hparse ih =>
    obtain ⟨consumed, rfl, hreads⟩ := ih
    obtain ⟨taken, htaken⟩ := (parse_advances (before.bounded hlimits) hroom hparse).suffix
    refine ⟨consumed ++ taken, ?_, ?_⟩
    · rw [List.append_assoc, List.append_assoc, htaken]
    · exact reads_parse hreads (before.bounded hlimits) hroom hparse taken htaken.symm
  | finishOnEof _ ih =>
    obtain ⟨consumed, rfl, hreads⟩ := ih
    exact ⟨consumed, rfl, reads_finishOnEof hreads⟩

/-- **Relayed responses.** A complete response can be serialized once it is sanitized exactly if
the status in the stream it was parsed from is at least 100. -/
theorem serialize_relayed_iff (hlimits : limits.Accepted)
    (h : Parsed limits headRequest stream p unread) (hcomplete : p.messageComplete = true)
    (head : Bool) :
    (∃ text, (sanitizeUpstreamResponse p.response).serialize head = .ok text) ↔
      ∃ field status, FinalStatus false stream field ∧ intFromChars field = some status ∧
        100 ≤ status := by
  have hstate := messageComplete_iff.mp hcomplete
  have hbody : p.InBody := by simp [InBody, InHeaders, hstate]
  obtain ⟨consumed, rfl, hreads⟩ := h.reads hlimits
  obtain ⟨field, hfield, hfinal⟩ := (reads_inBody hbody).mp hreads
  have hstream := (h.headOk hlimits).streamable hbody
  have hstatus : (sanitizeUpstreamResponse p.response).statusCode = p.response.statusCode := rfl
  constructor
  · rintro ⟨text, htext⟩
    refine ⟨field, p.response.statusCode, hfinal unread, hfield, ?_⟩
    by_contra hlow
    rw [HttpResponse.serialize, if_pos (by rw [hstatus]; omega)] at htext
    cases htext
  · rintro ⟨field', status, hfinal', hfield', hlow⟩
    -- there is one final status, and the parser has read it
    obtain rfl := (hfinal unread).unique hfinal'
    obtain rfl := Option.some.inj (hfield.symm.trans hfield')
    have hsendable : (sanitizeUpstreamResponse p.response).Sendable :=
      ⟨⟨hlow, hstream.status.2.2⟩, hstream.reason, fun header hmem =>
        ⟨(hstream.headers header hmem).name, (hstream.headers header hmem).value⟩⟩
    exact hsendable.serialize head

/-- What is left of a stream that comes in one piece. -/
theorem parsed_whole {p : HttpResponseParser} {rest : Bytes} {result : ResponseParseResult}
    (hroom : stream.length ≤ vectorMaxSize)
    (hparse : ({ limits := limits, headRequest := headRequest } : HttpResponseParser).parse stream =
      .finished result p rest) : Parsed limits headRequest stream p rest :=
  .parse .create stream hroom hparse

/-- A response with a status of three characters that is below 100. -/
def lowStatus : Bytes := bytes "HTTP/1.1 099 Low\r\nContent-Length: 0\r\n\r\n"

/-- The parser after it. -/
def lowParser : HttpResponseParser where
  limits := {}
  state := .Complete
  response :=
    { statusCode := 99, reason := bytes "Low",
      headers := { entries := [{ name := bytes "content-length", value := bytes "0" }] } }
  headerBytes := lowStatus.length
  headerCount := 1

theorem parsed_lowStatus : Parsed {} false lowStatus lowParser [] := by
  have hparse : ({ limits := {} } : HttpResponseParser).parse lowStatus =
      .finished .Complete lowParser [] := by decide +kernel
  exact parsed_whole (by decide +kernel) hparse

theorem serialize_relayed_iff_lowStatus :
    (∃ text, (sanitizeUpstreamResponse lowParser.response).serialize false = .ok text) ↔
      ∃ field status, FinalStatus false lowStatus field ∧ intFromChars field = some status ∧
        100 ≤ status :=
  serialize_relayed_iff (by decide) parsed_lowStatus (by decide) false

/-- It is complete, and cannot be serialized. -/
theorem not_serialize_relayed :
    Parsed {} false lowStatus lowParser [] ∧ lowParser.messageComplete = true ∧
      (sanitizeUpstreamResponse lowParser.response).serialize false = .error .InvalidArgument :=
  ⟨parsed_lowStatus, by decide, by decide +kernel⟩

end HttpResponseParser
end PulseGate
