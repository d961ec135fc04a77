import PulseGate.Http.ProxyInput

namespace PulseGate

/-!
# What a transaction has read

`execute` and `forward` call the same parser, each in a loop of its own.

* `UpstreamReads` — the pieces that were read from the upstream, and whether the stream has ended;
* `ReadsInv` — at each point of both coroutines the parser is where the calls for the pieces so
  far leave it;
* `readsInv_step` — every step keeps it;
* `ReadsInv.completed` — the result for a complete response depends on the pieces only.
-/

namespace HttpResponseParser

variable {p p' : HttpResponseParser} {input line rest : Bytes}

/-! ### Bodies that end with the connection -/

/-- A body that ends with the connection is marked as such. -/
def Marked (p : HttpResponseParser) : Prop := p.state = .EofBody → p.eofDelimited = true

theorem marked_of_state (h : p.state ≠ .EofBody) : p.Marked := fun hs => absurd hs h

theorem marked_fail (p : HttpResponseParser) (result : ResponseParseResult) :
    (p.fail result).Marked := marked_of_state nofun

theorem marked_statusLineStep (p : HttpResponseParser) :
    (p.statusLineStep line rest).Keeps fun _ p' _ => p'.Marked := by
  unfold statusLineStep
  split
  · exact marked_fail p _
  · rw [Iteration.after_keeps]
    split
    · exact marked_of_state nofun
    · exact marked_fail _ _

theorem marked_finishHeadersStep (p : HttpResponseParser) :
    (p.finishHeadersStep rest).Keeps fun _ p' _ => p'.Marked := by
  unfold finishHeadersStep
  rcases p.finishHeaders_cases with ⟨p', hfinish, hframing, -⟩ | ⟨e, he, hfinish⟩
  · have hmarked : p'.Marked := by
      cases hframing with
      | informational => exact marked_of_state nofun
      | bodiless => exact marked_of_state nofun
      | chunked => exact marked_of_state nofun
      | untilEof => exact fun _ => rfl
      | fixed _ _ length =>
        apply marked_of_state
        show (if length = 0 then ResponseParseState.Complete else .FixedBody) ≠ .EofBody
        split <;> exact nofun
    rw [hfinish]
    dsimp only
    split
    · exact hmarked
    · exact hmarked
  · rw [hfinish]
    rcases he with rfl | rfl | rfl <;> exact marked_fail _ _

theorem marked_headerStep (h : p.Marked) :
    (p.headerStep line rest).Keeps fun _ p' _ => p'.Marked := by
  unfold headerStep
  rw [Iteration.after_keeps]
  rcases p.parseHeader_cases line with ⟨name, value, hparse, -⟩ | ⟨e, he, hparse⟩
  · rw [hparse]
    exact h
  · rw [hparse]
    rcases he with rfl | rfl <;> exact marked_fail _ _

theorem marked_lineStep (h : p.Marked) :
    (p.lineStep line rest).Keeps fun _ p' _ => p'.Marked := by
  unfold lineStep
  split
  · exact marked_statusLineStep p
  split
  · unfold chunkSizeStep
    dsimp only
    split
    · exact marked_fail p _
    split
    · exact marked_fail p _
    · next parsed _ =>
      apply marked_of_state
      show (if parsed = 0 then ResponseParseState.Trailers else .ChunkBody) ≠ .EofBody
      split <;> exact nofun
  · dsimp only
    rw [Iteration.after_keeps]
    split
    · exact marked_fail _ _
    split
    · unfold trailerStep
      split
      · exact marked_of_state nofun
      split
      · exact marked_fail _ _
      · exact h
    split
    · exact marked_finishHeadersStep _
    · exact marked_headerStep h

/-- **One iteration.** -/
theorem marked_step (h : p.Marked) : (p.step input).Keeps fun _ p' _ => p'.Marked := by
  -- the body grows without touching the mark
  have happend {q : HttpResponseParser} {data : Bytes} (hq : p.appendBody data = some q) :
      q.state = p.state ∧ q.eofDelimited = p.eofDelimited := by
    unfold appendBody at hq
    split at hq
    · cases hq
    · obtain rfl := Option.some.inj hq
      exact ⟨rfl, rfl⟩
  unfold step
  split
  · -- a body of a fixed length
    next hs =>
    have hdone (q : HttpResponseParser) (hq : q.state = .FixedBody) (left : Bytes) :
        (q.fixedBodyDone left).Keeps fun _ p' _ => p'.Marked := by
      unfold fixedBodyDone
      split
      · exact marked_of_state nofun
      · exact marked_of_state (by rw [hq]; exact nofun)
    unfold fixedBodyStep
    dsimp only
    rw [Iteration.after_keeps]
    split
    · rw [Iteration.after_keeps]
      split
      · exact marked_fail p _
      · next q hq =>
        rw [Iteration.after_keeps]
        exact hdone q ((happend hq).1.trans hs) _
    · exact hdone p hs _
  · -- a chunk
    unfold chunkBodyStep
    dsimp only
    rw [Iteration.after_keeps]
    split
    · exact h
    rw [Iteration.after_keeps]
    split
    · split
      · exact marked_fail p _
      rw [Iteration.after_keeps]
      split
      · exact marked_fail p _
      · exact marked_of_state nofun
    · trivial
  · -- a body that ends with the connection: its bytes leave the mark
    unfold eofBodyStep
    split
    · rw [Iteration.after_keeps]
      split
      · exact marked_fail p _
      · next q hq =>
        intro hstate
        rw [(happend hq).2]
        exact h ((happend hq).1.symm.trans hstate)
    · exact h
  · -- a line
    split
    · unfold partialLineStep
      split
      · split
        · exact marked_fail p _
        · exact h
      split
      · rw [Iteration.after_keeps]
        split
        · exact marked_fail p _
        · exact h
      · exact h
    · rw [Iteration.after_keeps]
      exact marked_lineStep h

/-- **One call of `parse`.** -/
theorem marked_parse (h : p.Marked) (hinput : input.length ≤ vectorMaxSize)
    {r : ResponseParseResult} (hparse : p.parse input = .finished r p' rest) : p'.Marked := by
  unfold parse at hparse
  split at hparse
  · obtain ⟨-, rfl, -⟩ := ParseOutcome.finished.inj hparse
    exact h
  split at hparse
  · obtain ⟨-, rfl, -⟩ := ParseOutcome.finished.inj hparse
    exact h
  have hends := parse_ends p hinput
  rw [hparse] at hends
  refine hends.result (P := fun o => ∀ r q left, o = .finished r q left → q.Marked)
    (fun s => s.1.Marked) ?_ ?_ h r p' rest rfl
  · rintro ⟨q, left⟩ ⟨q', left'⟩ hq hnext
    exact (marked_step hq).continued hnext
  · rintro ⟨q, left⟩ o hq hdone r q' left' rfl
    exact (marked_step hq).finished hdone

/-- At the end of the stream a body that ends with the connection is complete, and the connection
    is not offered again. -/
theorem reusable_finishOnEof (h : p.Marked) (hp : p.Running)
    (hcomplete : p.finishOnEof.1 = .Complete) : p.finishOnEof.2.reusable = false := by
  rcases p.finishOnEof_cases with ⟨hs, heq⟩ | ⟨hs, -⟩ | heq
  · simp [heq, reusable, messageComplete, h hs]
  · exact absurd hs hp.1
  · rw [heq] at hcomplete
    cases hcomplete

end HttpResponseParser

/-! ### The pieces -/

/-- What was read from the upstream. -/
structure UpstreamReads where
  pieces : List Bytes := []
  /-- The stream has ended, or a read has failed. -/
  ended : Bool := false
  deriving DecidableEq, Repr

namespace UpstreamReads

/-- The reads with what an event brings. -/
def after (reads : UpstreamReads) : ProxyEvent → UpstreamReads
  | .received data => { reads with pieces := reads.pieces ++ [data] }
  | .readFailed => { reads with ended := true }
  | _ => reads

/-- The reads of a run. -/
def ofEvents (events : List ProxyEvent) : UpstreamReads := events.foldl after {}

theorem ofEvents_snoc (events : List ProxyEvent) (e : ProxyEvent) :
    ofEvents (events ++ [e]) = (ofEvents events).after e := by
  simp [ofEvents]

/-- What the calls of the parser for the pieces have come to. -/
def outcome (limits : HttpResponseParserLimits) (headRequest : Bool) (reads : UpstreamReads) :
    ParseOutcome :=
  HttpResponseParser.runFragments limits headRequest reads.ended reads.pieces

end UpstreamReads

/-- The result of a coroutine whose response is complete, with `rest` left unread. -/
def completed (forwarding : Bool) (upstream : UpstreamEndpoint) (p : HttpResponseParser)
    (rest : Bytes) : ProxyResult where
  response := if forwarding then { alreadyWritten := true } else sanitizeUpstreamResponse p.response
  upstream := upstream
  reusable := p.reusable && rest.isEmpty
  upstreamStatus := p.response.statusCode

namespace ProxySession

open HttpResponseParser

variable {s s' : ProxySession} {e : ProxyEvent} {limits : HttpResponseParserLimits}
  {headRequest : Bool} {reads : UpstreamReads}

/-! ### The invariant -/

/-- The parser expects no body, as the coroutine resets it. -/
def asksHead (s : ProxySession) : Bool := !s.forwarding && decide (s.request.method = .Head)

/-- What the pieces have come to, by the point of the coroutine. -/
def ReadsAt (outcome : ParseOutcome) (reads : UpstreamReads) (s : ProxySession) :
    ProxyPoint → Prop
  | .entry | .resolving | .connecting | .sending _ => reads = {} ∧ s.input.readableView = []
  | .parsing => s.parser.parse s.input.readableView = outcome
  | .checkingHead r | .checkingBody r | .checkingResult r =>
    outcome = .finished r s.parser s.input.readableView
  | .writingHead r | .writingChunk r =>
    outcome = .finished r s.parser s.input.readableView ∧ s.output ≠ []
  | .writingLast =>
    outcome = .finished .Complete s.parser s.input.readableView ∧ s.forwarding = true
  | .preparing | .reading =>
    reads.ended = false ∧ outcome = .finished .NeedMore s.parser s.input.readableView
  | .returned result =>
    s.parser.state = .Complete → (∀ o ∈ s.output, o.progress = .sent) →
      ∃ rest, outcome = .finished .Complete s.parser rest ∧
        result = completed s.forwarding s.upstream s.parser rest
  | .raised _ | .outOfBounds => True

structure ReadsInv (l : HttpResponseParserLimits) (headRequest : Bool)
    (reads : UpstreamReads) (s : ProxySession) : Prop where
  parser : s.ParserInv
  limits : s.parser.limits = l
  asksHead : s.asksHead = headRequest
  marked : s.parser.Marked
  at_point : s.ReadsAt (reads.outcome l headRequest) reads s.point

/-! ### The calls -/

/-- Nothing was read. -/
theorem outcome_start (hlimits : limits.Accepted) :
    ({} : UpstreamReads).outcome limits headRequest = (fresh limits headRequest).parse [] :=
  (parse_nil hlimits).symm

/-- A piece is read with another call. -/
theorem outcome_received {p : HttpResponseParser} {rest : Bytes} (hended : reads.ended = false)
    (h : reads.outcome limits headRequest = .finished .NeedMore p rest) (data : Bytes) :
    (reads.after (.received data)).outcome limits headRequest = p.parse (rest ++ data) := by
  unfold UpstreamReads.outcome runFragments at h ⊢
  have hplain : ∀ o, atEnd false o = o := by rintro (_ | _) <;> rfl
  rw [hended, hplain] at h
  show atEnd reads.ended (parseFragments limits headRequest (reads.pieces ++ [data])) = _
  rw [hended, hplain]
  unfold parseFragments at h ⊢
  rw [Incremental.feed_append_wait h, Incremental.feed_singleton]

/-- The end of the stream is noted by the parser. -/
theorem outcome_ended {p : HttpResponseParser} {rest : Bytes} (hended : reads.ended = false)
    (h : reads.outcome limits headRequest = .finished .NeedMore p rest) :
    (reads.after .readFailed).outcome limits headRequest =
      .finished p.finishOnEof.1 p.finishOnEof.2 rest := by
  unfold UpstreamReads.outcome runFragments at h ⊢
  have hplain : ∀ o, atEnd false o = o := by rintro (_ | _) <;> rfl
  rw [hended, hplain] at h
  show atEnd true (parseFragments limits headRequest reads.pieces) = _
  rw [h]
  rfl

/-- A stream that has ended is not waited for. -/
theorem ended_of_needMore {p : HttpResponseParser} {rest : Bytes}
    (h : reads.outcome limits headRequest = .finished .NeedMore p rest) : reads.ended = false := by
  unfold UpstreamReads.outcome runFragments at h
  by_contra hended
  rw [Bool.not_eq_false] at hended
  rw [hended] at h
  generalize parseFragments limits headRequest reads.pieces = o at h
  cases o with
  | outOfBounds => cases h
  | finished r q left =>
    have hresult : q.finishOnEof.1 = .NeedMore := (ParseOutcome.finished.inj h).1
    rcases q.finishOnEof_cases with ⟨-, heq⟩ | ⟨-, heq⟩ | heq <;> rw [heq] at hresult <;>
      cases hresult

theorem reusable_eq (s : ProxySession) :
    s.reusable = (s.parser.reusable && s.input.readableView.isEmpty) := by
  have hempty : s.input.readableView.isEmpty = decide (s.input.readableBytes = 0) := by
    rw [Bool.eq_iff_iff, List.isEmpty_iff_length_eq_zero, s.input.readableView_length,
      decide_eq_true_eq]
  rw [reusable, hempty]

/-! ### One step -/

/-- A coroutine that has returned. -/
theorem readsAt_returned {parser : HttpResponseParser} {context : RequestContext}
    {output : List Output} {result : ProxyResult} {outcome : ParseOutcome}
    (hr : Returned parser context output result s)
    (h : parser.state = .Complete → (∀ o ∈ output, o.progress = .sent) →
      ∃ rest, outcome = .finished .Complete parser rest ∧
        result = completed s.forwarding s.upstream parser rest) :
    s.ReadsAt outcome reads s.point := by
  rw [hr.point]
  intro hcomplete hsent
  rw [hr.parser] at hcomplete ⊢
  rw [hr.output] at hsent
  exact h hcomplete hsent

/-- A coroutine that returns before the response. -/
theorem readsAt_early {context : RequestContext} {output : List Output} {result : ProxyResult}
    {outcome : ParseOutcome} (h : s.parser.InHeaders)
    (hr : Returned s.parser context output result s') : s'.ReadsAt outcome reads s'.point :=
  readsAt_returned hr fun hcomplete => by
    rcases h with hs | hs <;> rw [hs] at hcomplete <;> cases hcomplete

theorem readsAt_cancel {outcome : ParseOutcome} (h : s.ReadsAt outcome reads s.point)
    (reason : ProxyStopReason) :
    (s.cancelInExecutor reason).ReadsAt outcome reads (s.cancelInExecutor reason).point := by
  unfold cancelInExecutor
  split
  · exact h
  · exact h

theorem readsAt_parseInput {outcome : ParseOutcome} (hbounded : s.parser.Bounded)
    (h : s.parser.parse s.input.readableView = outcome) :
    s.parseInput.ReadsAt outcome reads s.parseInput.point := by
  rcases parseInput_cases hbounded with ⟨-, heq⟩ | ⟨r, parser, rest, hparse, hadv, -, heq⟩
  · rw [heq]
    trivial
  · have hcalls : outcome = .finished r parser (s.inputAfter rest).readableView := by
      rw [inputAfter_readableView hadv.suffix, ← h, hparse]
    rw [heq]
    split
    · exact hcalls
    · exact hcalls

theorem readsAt_checkResult (h : s.ParserInv) {r : ResponseParseResult}
    (hpoint : s.point = .checkingResult r)
    (hat : reads.outcome limits headRequest = .finished r s.parser s.input.readableView) :
    (s.checkResult r).ReadsAt (reads.outcome limits headRequest) reads
      (s.checkResult r).point := by
  have hagrees := h.agrees r (by simp [hpoint, ProxyPoint.parsed])
  have hconfig := s.checkResult_config r
  rcases s.checkResult_cases r with
    ⟨rfl, hforwarding, heq⟩ | ⟨rfl, hbuffered, hr⟩ | ⟨rfl, state, heq⟩ | ⟨hcomplete, hmore, hr⟩
  · rw [heq]
    exact ⟨hat, hforwarding⟩
  · refine readsAt_returned hr fun _ _ => ⟨_, hat, ?_⟩
    have hforwarding : (s.checkResult .Complete).forwarding = s.forwarding :=
      congrArg Config.forwarding hconfig
    have hupstream : (s.checkResult .Complete).upstream = s.upstream :=
      congrArg Config.upstream hconfig
    rw [hforwarding, hupstream, hbuffered, completeResult, reusable_eq]
    rfl
  · rw [heq]
    exact ⟨ended_of_needMore hat, hat⟩
  · exact readsAt_returned hr fun hstate => by
      rw [hagrees.failed hcomplete hmore] at hstate
      cases hstate

theorem readsAt_endOfInput (h : s.ReadsInv limits headRequest reads) (hpoint : s.point = .reading) :
    s.endOfInput.ReadsAt ((reads.after .readFailed).outcome limits headRequest)
      (reads.after .readFailed) s.endOfInput.point := by
  have hrunning := h.parser.running (by simp [hpoint, ProxyPoint.Waits])
  have hat := h.at_point
  rw [hpoint] at hat
  obtain ⟨hended, hat⟩ : _ ∧ _ := hat
  have hcalls := outcome_ended hended hat
  rcases s.endOfInput_cases with
    ⟨-, hr⟩ | ⟨-, hcomplete, -, heq⟩ | ⟨-, hcomplete, hbuffered, hr⟩ | ⟨-, hcomplete, hr⟩
  · exact readsAt_returned hr fun hstate => absurd hstate hrunning.1
  · -- the next call of `parse` finds the parser complete
    rw [heq, hcalls, hcomplete]
    show s.parser.finishOnEof.2.parse _ = _
    unfold HttpResponseParser.parse
    rw [if_pos (HttpResponseParser.finishOnEof_complete hcomplete)]
  · refine readsAt_returned hr fun _ _ => ⟨s.input.readableView, ?_, ?_⟩
    · rw [hcalls, hcomplete]
    · have hconfig := s.endOfInput_config
      have hforwarding : s.endOfInput.forwarding = s.forwarding :=
        congrArg Config.forwarding hconfig
      have hupstream : s.endOfInput.upstream = s.upstream := congrArg Config.upstream hconfig
      rw [hforwarding, hupstream, hbuffered, completed,
        reusable_finishOnEof h.marked hrunning hcomplete]
      rfl
  · -- the end of the stream did not complete the response
    refine readsAt_returned hr fun hstate => ?_
    rw [HttpResponseParser.finishOnEof_error hcomplete] at hstate
    cases hstate

theorem readsAt_writeEnded {outcome : ParseOutcome} (h : s.ReadsAt outcome reads s.point)
    (hpoint : s.Writing) (progress : WriteProgress) :
    (s.writeEnded progress).ReadsAt outcome reads (s.writeEnded progress).point := by
  have hconfig := s.writeEnded_config progress
  rcases s.writeEnded_cases progress with
    ⟨r, hhead, -, heq⟩ | ⟨r, hchunk, -, heq⟩ | ⟨⟨⟨r, hwriting⟩, hfailed⟩, hr⟩ | ⟨hother, hr⟩
  · rw [hhead] at h
    rw [heq]
    exact h.1
  · rw [hchunk] at h
    rw [heq]
    exact h.1
  · -- the write that has failed is the latest in the log
    obtain ⟨o, log, hlog⟩ : ∃ o log, s.output = o :: log := by
      apply List.exists_cons_of_ne_nil
      rcases hwriting with hpoint | hpoint
      · rw [hpoint] at h
        exact h.2
      · rw [hpoint] at h
        exact h.2
    refine readsAt_returned hr fun _ hsent =>
      absurd (hsent { o with progress := progress } ?_) hfailed
    rw [hlog]
    exact List.mem_cons_self
  · rw [hpoint.last hother] at h
    refine readsAt_returned hr fun _ _ => ⟨_, h.1, ?_⟩
    have hforwarding : (s.writeEnded progress).forwarding = s.forwarding :=
      congrArg Config.forwarding hconfig
    have hupstream : (s.writeEnded progress).upstream = s.upstream :=
      congrArg Config.upstream hconfig
    -- the last write: the result is that of a streamed response
    rw [hforwarding, hupstream, h.2, streamedResult, reusable_eq]
    rfl

/-- What no step but those that read changes. -/
theorem readsInv_of_at (h : s.ReadsInv limits headRequest reads) (hs : s.step e = some s')
    (hparser : s'.parser.limits = s.parser.limits) (hmarked : s'.parser.Marked)
    (hat : s'.ReadsAt ((reads.after e).outcome limits headRequest) (reads.after e) s'.point) :
    s'.ReadsInv limits headRequest (reads.after e) where
  parser := parserInv_step h.parser hs
  limits := hparser.trans h.limits
  asksHead := by
    have hconfig := step_config hs
    have hforwarding : s'.forwarding = s.forwarding := congrArg Config.forwarding hconfig
    have hrequest : s'.request = s.request := congrArg Config.request hconfig
    rw [← h.asksHead, asksHead, asksHead, hforwarding, hrequest]
  marked := hmarked
  at_point := hat

theorem readsInv_same (h : s.ReadsInv limits headRequest reads) (hs : s.step e = some s')
    (hparser : s'.parser = s.parser)
    (hat : s'.ReadsAt ((reads.after e).outcome limits headRequest) (reads.after e) s'.point) :
    s'.ReadsInv limits headRequest (reads.after e) :=
  readsInv_of_at h hs (by rw [hparser]) (by rw [hparser]; exact h.marked) hat

theorem enter_keepsParser (s : ProxySession) : s.enter.parser = s.parser := by
  unfold enter
  split
  · rfl
  split
  · rfl
  dsimp only
  split <;> rfl

theorem checkHead_keepsParser (s : ProxySession) (r : ResponseParseResult) :
    (s.checkHead r).parser = s.parser := by
  unfold checkHead
  split <;> rfl

theorem checkBody_keepsParser (s : ProxySession) (r : ResponseParseResult) :
    (s.checkBody r).parser = s.parser := by
  unfold checkBody
  split <;> rfl

theorem checkResult_keepsParser (s : ProxySession) (r : ResponseParseResult) :
    (s.checkResult r).parser = s.parser := by
  rcases s.checkResult_cases r with ⟨-, -, heq⟩ | ⟨-, -, hr⟩ | ⟨-, _, heq⟩ | ⟨-, -, hr⟩
  · rw [heq]
    rfl
  · exact hr.parser
  · rw [heq]
  · exact hr.parser

theorem prepareInput_keepsParser (s : ProxySession) : s.prepareInput.parser = s.parser := by
  unfold prepareInput
  split <;> rfl

theorem writeEnded_keepsParser (s : ProxySession) (progress : WriteProgress) :
    (s.writeEnded progress).parser = s.parser := by
  rcases s.writeEnded_cases progress with ⟨_, -, -, heq⟩ | ⟨_, -, -, heq⟩ | ⟨-, hr⟩ | ⟨-, hr⟩
  · rw [heq]
  · rw [heq]
  · exact hr.parser
  · exact hr.parser

theorem cancelInExecutor_keepsParser (s : ProxySession) (reason : ProxyStopReason) :
    (s.cancelInExecutor reason).parser = s.parser := by
  unfold cancelInExecutor
  split <;> rfl

/-- The end of the stream is no end of a body but of one that ends with the connection. -/
theorem marked_finishOnEof (p : HttpResponseParser) (h : p.Marked) : p.finishOnEof.2.Marked := by
  rcases p.finishOnEof_cases with ⟨-, heq⟩ | ⟨-, heq⟩ | heq <;> rw [heq]
  · exact marked_of_state (by rintro ⟨⟩)
  · exact h
  · exact marked_fail p _

/-- **Every step keeps the invariant.** -/
theorem readsInv_step (h : s.ReadsInv limits headRequest reads) (hs : s.step e = some s') :
    s'.ReadsInv limits headRequest (reads.after e) := by
  have hat := h.at_point
  have hearly := h.parser.early
  cases step_cases hs with
  | entered hpoint =>
    rw [hpoint] at hat hearly
    refine readsInv_same h hs s.enter_keepsParser ?_
    unfold enter
    split
    · exact readsAt_early (hearly rfl) ⟨rfl, rfl, rfl, rfl⟩
    split
    · exact readsAt_early (hearly rfl) ⟨rfl, rfl, rfl, rfl⟩
    dsimp only
    split
    · exact hat
    · exact hat
  | parsed hpoint =>
    rw [hpoint] at hat
    have hcalled : s.parseInput.ReadsAt _ reads s.parseInput.point :=
      readsAt_parseInput h.parser.bounded hat
    rcases parseInput_cases h.parser.bounded with ⟨-, heq⟩ | ⟨r, parser, rest, hparse, hadv, -, heq⟩
    · exact readsInv_same h hs (by rw [heq]) hcalled
    · refine readsInv_of_at h hs (by rw [heq]; exact hadv.limits) ?_ hcalled
      rw [heq]
      exact marked_parse h.marked s.input_le hparse
  | headChecked r hpoint =>
    rw [hpoint] at hat
    refine readsInv_same h hs (s.checkHead_keepsParser r) ?_
    unfold checkHead
    split
    · exact ⟨hat, List.cons_ne_nil _ _⟩
    · exact hat
  | bodyChecked r hpoint =>
    rw [hpoint] at hat
    refine readsInv_same h hs (s.checkBody_keepsParser r) ?_
    unfold checkBody
    split
    · exact ⟨hat, List.cons_ne_nil _ _⟩
    · exact hat
  | resultChecked r hpoint =>
    rw [hpoint] at hat
    exact readsInv_same h hs (s.checkResult_keepsParser r) (readsAt_checkResult h.parser hpoint hat)
  | prepared hpoint =>
    rw [hpoint] at hat
    refine readsInv_same h hs s.prepareInput_keepsParser ?_
    unfold prepareInput
    split
    · trivial
    · next input hprepare =>
      refine ⟨hat.1, ?_⟩
      show _ = ParseOutcome.finished _ s.parser input.readableView
      rw [Buffer.prepare_readableView hprepare]
      exact hat.2
  | resolved ok hpoint =>
    rw [hpoint] at hat hearly
    have hfailed := operationFailed_returned s.phaseEnded
    cases ok with
    | true => exact readsInv_same h hs rfl hat
    | false => exact readsInv_same h hs hfailed.parser (readsAt_early (s := s) (hearly rfl) hfailed)
  | connected ok hpoint =>
    rw [hpoint] at hat hearly
    have hfailed := operationFailed_returned s.phaseEnded
    cases ok with
    | true => exact readsInv_same h hs rfl hat
    | false => exact readsInv_same h hs hfailed.parser (readsAt_early (s := s) (hearly rfl) hfailed)
  | requestSent ok request hpoint =>
    rw [hpoint] at hat hearly
    have hfailed := operationFailed_returned s.phaseEnded
    cases ok with
    | true =>
      -- the parser is reset to a new one, and nothing has been read yet
      obtain ⟨rfl, hempty⟩ : _ ∧ _ := hat
      have hreset : s.parser.reset s.asksHead = fresh limits headRequest := by
        rw [h.asksHead, HttpResponseParser.reset, h.limits]
        rfl
      refine readsInv_of_at h hs rfl (marked_of_state (by rintro ⟨⟩)) ?_
      show (s.parser.reset s.asksHead).parse s.input.readableView = _
      rw [hreset, hempty]
      exact (outcome_start (h.limits ▸ h.parser.bounded.accepted)).symm
    | false =>
      exact readsInv_same h hs hfailed.parser (readsAt_early (s := s) (hearly rfl) hfailed)
  | received data hpoint hdata hroom =>
    -- the bytes follow those that the last call has left
    rw [hpoint] at hat
    refine readsInv_same h hs rfl ?_
    show s.parser.parse (s.input.received data hroom).readableView = _
    rw [Buffer.received_readableView, outcome_received hat.1 hat.2]
  | readFailed hpoint =>
    have hended := readsAt_endOfInput (s := s.phaseEnded)
      ⟨⟨h.parser.bounded, h.parser.early, h.parser.agrees, h.parser.running, h.parser.last⟩,
        h.limits, h.asksHead, h.marked, hat⟩ hpoint
    rcases s.phaseEnded.endOfInput_cases with
      ⟨-, hr⟩ | ⟨-, -, -, heq⟩ | ⟨-, -, -, hr⟩ | ⟨-, -, hr⟩
    · exact readsInv_same h hs hr.parser hended
    · refine readsInv_of_at h hs ?_ ?_ hended
      · rw [heq]
        exact finishOnEof_limits s.parser
      · rw [heq]
        exact marked_finishOnEof s.parser h.marked
    · refine readsInv_of_at h hs ?_ ?_ hended
      · rw [hr.parser]
        exact finishOnEof_limits s.parser
      · rw [hr.parser]
        exact marked_finishOnEof s.parser h.marked
    · refine readsInv_of_at h hs ?_ ?_ hended
      · rw [hr.parser]
        exact finishOnEof_limits s.parser
      · rw [hr.parser]
        exact marked_finishOnEof s.parser h.marked
  | headWritten r progress hpoint hprogress =>
    exact readsInv_same h hs (s.writeEnded_keepsParser progress)
      (readsAt_writeEnded hat (.inl ⟨r, .inl hpoint⟩) progress)
  | chunkWritten r progress hpoint hprogress =>
    exact readsInv_same h hs (s.writeEnded_keepsParser progress)
      (readsAt_writeEnded hat (.inl ⟨r, .inr hpoint⟩) progress)
  | lastWritten progress hpoint hprogress =>
    exact readsInv_same h hs (s.writeEnded_keepsParser progress)
      (readsAt_writeEnded hat (.inr hpoint) progress)
  | phaseExpired reason hsuspended hdeadline =>
    exact readsInv_same h hs (s.phaseEnded.cancelInExecutor_keepsParser reason)
      (readsAt_cancel (s := s.phaseEnded) hat reason)
  | totalExpired hsuspended hdeadline =>
    exact readsInv_same h hs (cancelInExecutor_keepsParser { s with totalDeadline := false } _)
      (readsAt_cancel (s := { s with totalDeadline := false }) hat _)
  | cancelled reason hsuspended hreason =>
    exact readsInv_same h hs (s.cancelInExecutor_keepsParser reason) (readsAt_cancel hat reason)

theorem readsInv_create {upstream : UpstreamEndpoint} {l : ProxyLimits} {connectionOpen : Bool}
    {context : RequestContext} {request : HttpRequest} {forwarding : Bool}
    (h : create upstream l connectionOpen context request forwarding = .ok s) :
    s.ReadsInv l.responseParser (!forwarding && decide (request.method = .Head)) {} := by
  have hempty := Buffer.create_readableView (create_input h)
  obtain ⟨-, hpoint, -, hparser, -, -, hrequest, hforwarding, -⟩ := create_eq_ok h
  refine ⟨parserInv_create h, by rw [hparser], ?_, ?_, ?_⟩
  · rw [asksHead, hforwarding, hrequest]
  · rw [hparser]
    exact marked_of_state nofun
  · rw [hpoint]
    exact ⟨rfl, hempty⟩

/-! ### Whole runs -/

/-- **The invariant of a run.** -/
theorem readsInv_run {upstream : UpstreamEndpoint} {l : ProxyLimits} {connectionOpen : Bool}
    {context : RequestContext} {request : HttpRequest} {forwarding : Bool} {s₀ : ProxySession}
    (h : create upstream l connectionOpen context request forwarding = .ok s₀)
    {events : List ProxyEvent} (hrun : Machine.run step s₀ events = some s) :
    s.ReadsInv l.responseParser (!forwarding && decide (request.method = .Head))
      (.ofEvents events) := by
  have hstays : ∀ events (s : ProxySession) e s',
      s.ReadsInv l.responseParser (!forwarding && decide (request.method = .Head))
        (.ofEvents events) → s.step e = some s' →
      s'.ReadsInv l.responseParser (!forwarding && decide (request.method = .Head))
        (.ofEvents (events ++ [e])) := by
    intro events s e s' hinv hs
    rw [UpstreamReads.ofEvents_snoc]
    exact readsInv_step hinv hs
  exact Machine.run_of_history hstays (readsInv_create h) hrun

/-! ### What `execute` writes -/

/-- The points of `forward` at which it writes, or is about to. -/
def Streams : ProxyPoint → Bool
  | .checkingHead _ | .writingHead _ | .checkingBody _ | .writingChunk _ | .writingLast => true
  | _ => false

/-- `execute` leaves all writing to the client's session. -/
structure Buffers (s : ProxySession) : Prop where
  forwarding : s.forwarding = false
  output : s.output = []
  point : Streams s.point = false

theorem Buffers.of_returned {parser : HttpResponseParser} {context : RequestContext}
    {result : ProxyResult} (h : s.Buffers) (hs : s.step e = some s')
    (hr : Returned parser context s.output result s') : s'.Buffers where
  forwarding := (congrArg Config.forwarding (step_config hs)).trans h.forwarding
  output := hr.output.trans h.output
  point := by rw [hr.point]; rfl

theorem Buffers.cancel (h : s.Buffers) (reason : ProxyStopReason) :
    (s.cancelInExecutor reason).Buffers := by
  unfold cancelInExecutor
  split
  · exact h
  · exact ⟨h.forwarding, h.output, h.point⟩

theorem buffers_step (h : s.Buffers) (hs : s.step e = some s') : s'.Buffers := by
  -- a transaction that buffers is at no point that streams
  have hnot {point : ProxyPoint} (hpoint : s.point = point) (hstreams : Streams point = true) :
      s'.Buffers := by
    have hfalse := h.point
    rw [hpoint, hstreams] at hfalse
    cases hfalse
  cases step_cases hs with
  | entered hpoint =>
    unfold enter
    split
    · exact ⟨h.forwarding, h.output, rfl⟩
    split
    · exact ⟨h.forwarding, h.output, rfl⟩
    dsimp only
    split
    · exact ⟨h.forwarding, h.output, rfl⟩
    · exact ⟨h.forwarding, h.output, rfl⟩
  | parsed hpoint =>
    unfold parseInput
    split
    · exact ⟨h.forwarding, h.output, rfl⟩
    · refine ⟨h.forwarding, h.output, ?_⟩
      show Streams (if s.forwarding then _ else _) = false
      rw [h.forwarding]
      rfl
  | headChecked r hpoint => exact hnot hpoint rfl
  | bodyChecked r hpoint => exact hnot hpoint rfl
  | resultChecked r hpoint =>
    rcases s.checkResult_cases r with ⟨-, hforwarding, -⟩ | ⟨-, -, hr⟩ | ⟨-, _, heq⟩ | ⟨-, -, hr⟩
    · rw [h.forwarding] at hforwarding
      cases hforwarding
    · exact h.of_returned hs hr
    · rw [heq]
      exact ⟨h.forwarding, h.output, rfl⟩
    · exact h.of_returned hs hr
  | prepared hpoint =>
    unfold prepareInput
    split
    · exact ⟨h.forwarding, h.output, rfl⟩
    · exact ⟨h.forwarding, h.output, rfl⟩
  | resolved ok hpoint =>
    cases ok with
    | true => exact ⟨h.forwarding, h.output, rfl⟩
    | false => exact h.of_returned hs (operationFailed_returned s.phaseEnded)
  | connected ok hpoint =>
    cases ok with
    | true => exact ⟨h.forwarding, h.output, rfl⟩
    | false => exact h.of_returned hs (operationFailed_returned s.phaseEnded)
  | requestSent ok request hpoint =>
    cases ok with
    | true => exact ⟨h.forwarding, h.output, rfl⟩
    | false => exact h.of_returned hs (operationFailed_returned s.phaseEnded)
  | received data hpoint hdata hroom => exact ⟨h.forwarding, h.output, rfl⟩
  | readFailed hpoint =>
    rcases s.phaseEnded.endOfInput_cases with
      ⟨-, hr⟩ | ⟨-, -, -, heq⟩ | ⟨-, -, -, hr⟩ | ⟨-, -, hr⟩
    · exact h.of_returned hs hr
    · rw [heq]
      exact ⟨h.forwarding, h.output, rfl⟩
    · exact h.of_returned hs hr
    · exact h.of_returned hs hr
  | headWritten r progress hpoint hprogress => exact hnot hpoint rfl
  | chunkWritten r progress hpoint hprogress => exact hnot hpoint rfl
  | lastWritten progress hpoint hprogress => exact hnot hpoint rfl
  | phaseExpired reason hsuspended hdeadline =>
    apply Buffers.cancel
    exact ⟨h.forwarding, h.output, h.point⟩
  | totalExpired hsuspended hdeadline =>
    apply Buffers.cancel
    exact ⟨h.forwarding, h.output, h.point⟩
  | cancelled reason hsuspended hreason => exact h.cancel reason

theorem buffers_create {upstream : UpstreamEndpoint} {l : ProxyLimits} {connectionOpen : Bool}
    {context : RequestContext} {request : HttpRequest}
    (h : create upstream l connectionOpen context request false = .ok s) : s.Buffers := by
  obtain ⟨-, hpoint, houtput, -, -, -, -, hforwarding, -⟩ := create_eq_ok h
  exact ⟨hforwarding, houtput, by rw [hpoint]; rfl⟩

/-- **The result for a complete response** is that of the pieces. -/
theorem ReadsInv.completed (h : s.ReadsInv limits headRequest reads) {result : ProxyResult}
    (hpoint : s.point = .returned result) (hcomplete : s.parser.messageComplete = true)
    (hsent : ∀ o ∈ s.output, o.progress = .sent) :
    ∃ rest, reads.outcome limits headRequest = .finished .Complete s.parser rest ∧
      result = PulseGate.completed s.forwarding s.upstream s.parser rest := by
  have hat := h.at_point
  rw [hpoint] at hat
  exact hat (messageComplete_iff.mp hcomplete) hsent

end ProxySession
end PulseGate
