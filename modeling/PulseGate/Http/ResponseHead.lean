import PulseGate.Http.ProxySteps

namespace PulseGate

/-!
# The status line and the headers of a parsed response

* `HeadOk` — what the parser has found out about the head of the response in it: its headers
  can be written and read again as they are, its status has three characters on the wire, and
  it is no informational response once the headers are over;
* `headOk_parse` — a call of `parse` keeps it;
* `ProxySession.headInv_step` — so does a step of a session.
-/

namespace HttpResponseParser

/-- The status line the parser has accepted. -/
structure StatusOk (r : HttpResponse) : Prop where
  status : -99 ≤ r.statusCode ∧ r.statusCode ≤ 999
  reason : r.reason ≠ [] ∧ isValidHeaderValue r.reason = true

/-- What the parser has found out about the head of the response. -/
structure HeadOk (p : HttpResponseParser) : Prop where
  headers : ∀ h ∈ p.response.headers.entries, h.WellFormed
  status : p.state ≠ .StatusLine → p.state ≠ .Error → StatusOk p.response
  final : p.InBody → p.response.statusCode.tdiv 100 ≠ 1

variable {p p' : HttpResponseParser} {input line rest : Bytes} {r : Option ResponseParseResult}

/-- A failure leaves only headers to speak of. -/
theorem headOk_fail (h : HeadOk p) (result : ResponseParseResult) : HeadOk (p.fail result) where
  headers := h.headers
  status := fun _ herror => absurd rfl herror
  final := fun hin => absurd rfl hin.2

/-- Past the headers the head stays as it is. -/
theorem headOk_of_advances (h : HeadOk p) (hp : p.InBody) (hadv : Advances p input r p' rest) :
    HeadOk p' := by
  obtain ⟨_, _, data, hdata⟩ := hadv.grows hp
  have hstatus := h.status (fun hs => hp.1 (.inl hs)) hp.2
  -- only the body and the closing flag of the response can have changed
  refine ⟨?_, fun _ _ => ?_, fun _ => ?_⟩ <;> rw [hdata]
  · exact h.headers
  · exact ⟨hstatus.status, hstatus.reason⟩
  · exact h.final hp

theorem headOk_statusLineStep (h : HeadOk p) :
    (p.statusLineStep line rest).Keeps fun _ p' _ => HeadOk p' := by
  unfold statusLineStep
  split
  · exact headOk_fail h _
  · rw [Iteration.after_keeps]
    obtain ⟨status, reason, ⟨hparse, hnonempty, hvalid, hstatus⟩ | hparse⟩ :=
      p.parseStatusLine_cases line
    · rw [hparse]
      refine ⟨h.headers, fun _ _ => ⟨?_, hnonempty, hvalid⟩, fun hin => absurd (.inr rfl) hin.1⟩
      exact intFromChars_bounds hstatus (by rw [List.length_take]; omega)
    · rw [hparse]
      exact ⟨h.headers, fun _ herror => absurd rfl herror, fun hin => absurd rfl hin.2⟩

theorem headOk_headerStep (h : HeadOk p) (hs : p.state = .Headers) :
    (p.headerStep line rest).Keeps fun _ p' _ => HeadOk p' := by
  have hstatus := h.status (by simp [hs]) (by simp [hs])
  unfold headerStep
  rw [Iteration.after_keeps]
  rcases p.parseHeader_cases line with
    ⟨name, value, hparse, hname, hvalue, htrimmed, _⟩ | ⟨e, he, hparse⟩
  · rw [hparse]
    refine ⟨?_, fun _ _ => ⟨hstatus.status, hstatus.reason⟩, fun hin => absurd (.inr hs) hin.1⟩
    intro header hmem
    -- the headers before this one, or the one that was added
    rcases List.mem_append.mp hmem with hmem | hmem
    · exact h.headers header hmem
    · obtain rfl := List.mem_singleton.mp hmem
      exact Header.wellFormed_add hname hvalue htrimmed
  · rw [hparse]
    rcases he with rfl | rfl <;>
      exact ⟨h.headers, fun _ herror => absurd rfl herror, fun hin => absurd rfl hin.2⟩

/-- The headers end in a framing; an informational response starts over. -/
theorem headOk_framing (h : HeadOk p) (hs : p.state = .Headers) (hf : p.Framing p')
    (hfinal : p.response.statusCode.tdiv 100 = 1 → p'.state = .StatusLine) : HeadOk p' := by
  have hstatus := h.status (by simp [hs]) (by simp [hs])
  cases hf with
  | informational hinformational =>
    -- the response of the parser is a fresh one
    exact ⟨by simp, fun hline => absurd rfl hline, fun hin => absurd (.inl rfl) hin.1⟩
  | bodiless =>
    exact ⟨h.headers, fun _ _ => hstatus, fun _ hone => by cases hfinal hone⟩
  | chunked =>
    exact ⟨h.headers, fun _ _ => hstatus, fun _ hone => by cases hfinal hone⟩
  | untilEof =>
    exact ⟨h.headers, fun _ _ => ⟨hstatus.status, hstatus.reason⟩,
      fun _ hone => by cases hfinal hone⟩
  | fixed _ _ length hlength =>
    refine ⟨h.headers, fun _ _ => hstatus, fun _ hone => ?_⟩
    have hline := hfinal hone
    simp only at hline
    split at hline <;> cases hline

theorem headOk_finishHeadersStep (h : HeadOk p) (hs : p.state = .Headers) :
    (p.finishHeadersStep rest).Keeps fun _ p' _ => HeadOk p' := by
  unfold finishHeadersStep
  rcases p.finishHeaders_cases with ⟨p', hfinish, hframing, hfinal⟩ | ⟨e, he, hfinish⟩
  · rw [hfinish]
    have hhead := headOk_framing h hs hframing hfinal
    dsimp only
    split
    · exact hhead
    · exact hhead
  · rw [hfinish]
    rcases he with rfl | rfl | rfl <;> exact headOk_fail h _

theorem headOk_partialLineStep (h : HeadOk p) :
    (p.partialLineStep input).Keeps fun _ p' _ => HeadOk p' := by
  unfold partialLineStep
  split
  · split
    · exact headOk_fail h _
    · exact h
  · split
    · rw [Iteration.after_keeps]
      split
      · exact headOk_fail h _
      · exact h
    · exact h

/-- **One iteration.** -/
theorem headOk_step (h : HeadOk p) (hbounded : Bounded p) (hp : p.Running)
    (hinput : input.length ≤ vectorMaxSize) :
    (p.step input).Keeps fun _ p' _ => HeadOk p' := by
  -- past the headers the step only advances the body
  by_cases hbody : p.InBody
  · exact (step_advances hbounded hp hinput).mono fun _ _ _ hadv => headOk_of_advances h hbody hadv
  have hheaders := inHeaders_of_running hbody hp
  have hline : p.state ≠ .FixedBody ∧ p.state ≠ .ChunkBody ∧ p.state ≠ .EofBody := by
    rcases hheaders with hs | hs <;> simp [hs]
  unfold step
  split
  · next hs => exact absurd hs hline.1
  · next hs => exact absurd hs hline.2.1
  · next hs => exact absurd hs hline.2.2
  split
  · exact headOk_partialLineStep h
  · next line rest _ =>
    rw [Iteration.after_keeps]
    unfold lineStep
    split
    · exact headOk_statusLineStep h
    next hs =>
    have hs : p.state = .Headers := hheaders.resolve_left hs
    split
    · next hchunk =>
      rw [hs] at hchunk
      cases hchunk
    dsimp only
    rw [Iteration.after_keeps]
    have hread : HeadOk { p with headerBytes := sizeAdd p.headerBytes (line.length + 2) } :=
      ⟨h.headers, h.status, h.final⟩
    split
    · exact headOk_fail hread _
    split
    · next htrailers =>
      rw [hs] at htrailers
      cases htrailers
    split
    · exact headOk_finishHeadersStep hread hs
    · exact headOk_headerStep hread hs

/-- **One call of `parse`.** -/
theorem headOk_parse (h : HeadOk p) (hbounded : Bounded p) (hinput : input.length ≤ vectorMaxSize)
    {e : ResponseParseResult} (hparse : p.parse input = .finished e p' rest) : HeadOk p' := by
  unfold parse at hparse
  split at hparse
  · obtain ⟨_, rfl, _⟩ := ParseOutcome.finished.inj hparse
    exact h
  split at hparse
  · obtain ⟨_, rfl, _⟩ := ParseOutcome.finished.inj hparse
    exact h
  next hcomplete herror =>
  have hends := parse_ends p hinput
  rw [hparse] at hends
  -- the loop keeps the head, and with it what a step needs
  refine Loop.Ends.result
    (fun s : HttpResponseParser × Bytes =>
      HeadOk s.1 ∧ Bounded s.1 ∧ s.1.Running ∧ s.2.length ≤ vectorMaxSize)
    (P := fun outcome => ∀ e p' rest, outcome = .finished e p' rest → HeadOk p') ?_ ?_ hends
    ⟨h, hbounded, ⟨hcomplete, herror⟩, hinput⟩ e p' rest rfl
  · rintro ⟨q, left⟩ ⟨q', left'⟩ ⟨hhead, hq, hrun, hleft⟩ hnext
    have hadv := (step_advances hq hrun hleft).continued hnext
    exact ⟨(headOk_step hhead hq hrun hleft).continued hnext, hadv.bounded,
      hadv.running (.inl rfl), Nat.le_trans hadv.suffix.length_le hleft⟩
  · rintro ⟨q, left⟩ _ ⟨hhead, hq, hrun, hleft⟩ hnext e p' rest rfl
    exact (headOk_step hhead hq hrun hleft).finished hnext

theorem headOk_reset (p : HttpResponseParser) (headRequest : Bool) :
    HeadOk (p.reset headRequest) :=
  ⟨by simp [reset], fun hline => absurd rfl hline, fun hin => absurd (.inl rfl) hin.1⟩

theorem headOk_finishOnEof (h : HeadOk p) : HeadOk p.finishOnEof.2 := by
  rcases p.finishOnEof_cases with ⟨hs, heq⟩ | ⟨-, heq⟩ | heq <;> rw [heq]
  · have hp : p.InBody := by simp [InBody, InHeaders, hs]
    exact ⟨h.headers, fun _ _ => h.status (by simp [hs]) (by simp [hs]), fun _ => h.final hp⟩
  · exact h
  · exact headOk_fail h _

end HttpResponseParser

namespace ProxySession

variable {s s' : ProxySession} {e : ProxyEvent}

/-- The head of the response in a session. -/
structure HeadInv (s : ProxySession) : Prop where
  parser : s.ParserInv
  head : s.parser.HeadOk

theorem head_writeEnded {progress : WriteProgress} (h : s.parser.HeadOk) :
    (s.writeEnded progress).parser.HeadOk := by
  rcases s.writeEnded_cases progress with
    ⟨_, _, _, heq⟩ | ⟨_, _, _, heq⟩ | ⟨_, hr⟩ | ⟨_, hr⟩
  · rw [heq]
    exact h
  · rw [heq]
    exact h
  · rw [hr.parser]
    exact h
  · rw [hr.parser]
    exact h

/-- **Every step keeps the head.** -/
theorem headInv_step (h : HeadInv s) (hs : s.step e = some s') : HeadInv s' := by
  refine ⟨parserInv_step h.parser hs, ?_⟩
  have hhead := h.head
  cases step_cases hs with
  | entered hpoint =>
    unfold enter
    split
    · exact hhead
    split
    · exact hhead
    dsimp only
    split <;> exact hhead
  | parsed hpoint =>
    rcases parseInput_cases h.parser.bounded with
      ⟨_, heq⟩ | ⟨parsed, parser, rest, hparse, _, _, heq⟩ <;> rw [heq]
    · exact hhead
    · exact HttpResponseParser.headOk_parse hhead h.parser.bounded s.input_le hparse
  | headChecked r hpoint =>
    unfold checkHead
    split <;> exact hhead
  | bodyChecked r hpoint =>
    unfold checkBody
    split <;> exact hhead
  | resultChecked r hpoint =>
    rcases s.checkResult_cases r with ⟨_, _, heq⟩ | ⟨_, _, hr⟩ | ⟨_, _, heq⟩ | ⟨_, _, hr⟩
    · rw [heq]
      exact hhead
    · rw [hr.parser]
      exact hhead
    · rw [heq]
      exact hhead
    · rw [hr.parser]
      exact hhead
  | prepared hpoint =>
    unfold prepareInput
    split <;> exact hhead
  | resolved ok hpoint =>
    split
    · exact hhead
    · rw [(operationFailed_returned s.phaseEnded).parser]
      exact hhead
  | connected ok hpoint =>
    split
    · exact hhead
    · rw [(operationFailed_returned s.phaseEnded).parser]
      exact hhead
  | requestSent ok request hpoint =>
    split
    -- `reset` forgets the response before
    · exact HttpResponseParser.headOk_reset _ _
    · rw [(operationFailed_returned s.phaseEnded).parser]
      exact hhead
  | received data hpoint hdata hroom => exact hhead
  | readFailed hpoint =>
    rcases s.phaseEnded.endOfInput_cases with
      ⟨_, hr⟩ | ⟨_, _, _, heq⟩ | ⟨_, _, _, hr⟩ | ⟨_, _, hr⟩
    · rw [hr.parser]
      exact hhead
    · rw [heq]
      exact HttpResponseParser.headOk_finishOnEof hhead
    · rw [hr.parser]
      exact HttpResponseParser.headOk_finishOnEof hhead
    · rw [hr.parser]
      exact HttpResponseParser.headOk_finishOnEof hhead
  | headWritten r progress hpoint hprogress => exact head_writeEnded hhead
  | chunkWritten r progress hpoint hprogress => exact head_writeEnded hhead
  | lastWritten progress hpoint hprogress => exact head_writeEnded hhead
  | phaseExpired reason hsuspended hdeadline =>
    unfold cancelInExecutor
    split <;> exact hhead
  | totalExpired hsuspended hdeadline =>
    unfold cancelInExecutor
    split <;> exact hhead
  | cancelled reason hsuspended hreason =>
    unfold cancelInExecutor
    split <;> exact hhead

theorem headInv_create {upstream : UpstreamEndpoint} {limits : ProxyLimits}
    {connectionOpen : Bool} {context : RequestContext} {request : HttpRequest} {forwarding : Bool}
    (h : create upstream limits connectionOpen context request forwarding = .ok s) :
    HeadInv s := by
  obtain ⟨_, _, _, hparser, _⟩ := create_eq_ok h
  refine ⟨parserInv_create h, ?_⟩
  rw [hparser]
  exact HttpResponseParser.headOk_reset { limits := limits.responseParser } false

end ProxySession
end PulseGate
