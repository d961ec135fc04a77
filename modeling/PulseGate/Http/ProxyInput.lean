import PulseGate.Http.ProxySteps
import PulseGate.Http.ResponseSegments

namespace PulseGate

/-!
# The input buffer of a transaction

* `contained_iff` — along a run, the parser asks for more only while there is room for the next
  read, `prepare` never throws and what is too large is reported, exactly when no chunk-size
  line is longer than the limit of the headers and no chunk that is longer than the limit of
  the body is waited for.

The parser bounds the bytes it leaves unread in every state but two: the end of a chunk-size
line is waited for however long the line is, and a chunk is waited for whole.
-/

namespace HttpResponseParser

variable {p q : HttpResponseParser} {x y : Bytes}

/-! ### What is too large -/

/-- The bytes of the first line, up to its end when that is there. -/
def lineLength (input : Bytes) : Nat :=
  ((splitLine input).map fun split => split.1.length).getD input.length

/-- A chunk-size line is longer than the headers may be. -/
def LongChunkLine (p : HttpResponseParser) (input : Bytes) : Prop :=
  p.state = .ChunkSize ∧ p.limits.maxHeaderBytes < lineLength input

/-- A chunk is longer than the body may be. -/
def LongChunk (p : HttpResponseParser) : Prop :=
  p.state = .ChunkBody ∧ p.limits.maxBodyBytes < p.chunkBytes

/-- The chunk is there, with its CRLF. -/
def WholeChunk (p : HttpResponseParser) (input : Bytes) : Prop :=
  input[p.chunkBytes]? = some 13 ∧ input[p.chunkBytes + 1]? = some 10

instance (p : HttpResponseParser) (input : Bytes) : Decidable (LongChunkLine p input) :=
  inferInstanceAs (Decidable (_ ∧ _))

instance (p : HttpResponseParser) : Decidable (LongChunk p) :=
  inferInstanceAs (Decidable (_ ∧ _))

instance (p : HttpResponseParser) (input : Bytes) : Decidable (WholeChunk p input) :=
  inferInstanceAs (Decidable (_ ∧ _))

/-- The iteration ends with an error for what is too large. -/
structure Reports (p : HttpResponseParser) (input : Bytes) : Prop where
  line : LongChunkLine p input →
    ∃ q rest, loopBody (p, input) = .inl (.finished .HeaderTooLarge q rest)
  chunk : LongChunk p → ∃ q rest, loopBody (p, input) = .inl (.finished .BodyTooLarge q rest)

/-- No chunk-size line is too long, and no chunk that is too long is waited for. -/
def Moderate (p : HttpResponseParser) (input : Bytes) : Prop :=
  ¬LongChunkLine p input ∧ (LongChunk p → WholeChunk p input)

instance (p : HttpResponseParser) (input : Bytes) : Decidable (Moderate p input) :=
  inferInstanceAs (Decidable (_ ∧ _))

/-! ### One iteration -/

/-- The length of a chunk-size line is no error. -/
theorem loopBody_longChunkLine (hp : p.Reading) (hx : x.length ≤ vectorMaxSize)
    (hs : p.state = .ChunkSize) :
    loopBody (p, x) ≠ .inl (.finished .HeaderTooLarge q y) := by
  intro hdone
  have hfault : p.SizeFault x := (loopBody_headerTooLarge_iff hp hx).mp ⟨q, y, hdone⟩
  unfold SizeFault Overruns at hfault
  split at hfault <;> simp [hs] at hfault

theorem WholeChunk.length_le (h : WholeChunk p x) : p.chunkBytes + 2 ≤ x.length := by
  obtain ⟨hlt, -⟩ := List.getElem?_eq_some_iff.mp h.2
  omega

/-- A chunk that is all there is taken, when the body has room for it. -/
theorem loopBody_wholeChunk (h : p.Bounded) (hs : p.state = .ChunkBody)
    (hx : x.length ≤ vectorMaxSize) (hwhole : WholeChunk p x) :
    loopBody (p, x) =
      if p.response.body.length + p.chunkBytes ≤ p.limits.maxBodyBytes then
        .inr ({ p.grown (x.take p.chunkBytes) with state := .ChunkSize },
          x.drop (p.chunkBytes + 2))
      else .inl (.finished .BodyTooLarge (p.fail .BodyTooLarge) x) := by
  have hle := hwhole.length_le
  have hsmall : p.chunkBytes + 2 < sizeModulus := by
    unfold sizeModulus
    unfold vectorMaxSize at hx
    omega
  have hadd : sizeAdd p.chunkBytes 2 = p.chunkBytes + 2 := if_pos hsmall
  have hadd₁ : sizeAdd p.chunkBytes 1 = p.chunkBytes + 1 := if_pos (by omega)
  have htake : (x.take p.chunkBytes).length = p.chunkBytes := List.length_take_of_le (by omega)
  have hstep : loopBody (p, x) = (p.chunkBodyStep x).next := by
    show (p.step x).next = _
    unfold step
    rw [hs]
  rw [hstep]
  unfold chunkBodyStep
  simp only [hadd, hadd₁, Iteration.after_next]
  rw [if_neg (by omega), Iteration.after_next, hwhole.1, hwhole.2]
  dsimp only
  rw [if_neg (by simp), Iteration.after_next]
  by_cases hroom : p.response.body.length + p.chunkBytes ≤ p.limits.maxBodyBytes
  · rw [if_pos hroom, appendBody_of_le h (by rw [htake]; exact hroom)]
    rfl
  · rw [if_neg hroom, appendBody_of_gt h (by rw [htake]; exact hroom)]
    rfl

/-- Any other chunk is waited for or has no CRLF behind it, if its size leaves room for one. -/
theorem loopBody_otherChunk (hs : p.state = .ChunkBody) (hsmall : p.chunkBytes + 2 < sizeModulus)
    (hwhole : ¬WholeChunk p x) :
    loopBody (p, x) =
      if x.length < p.chunkBytes + 2 then .inl (.finished .NeedMore p x)
      else .inl (.finished .BadResponse (p.fail .BadResponse) x) := by
  have hadd : sizeAdd p.chunkBytes 2 = p.chunkBytes + 2 := if_pos hsmall
  have hadd₁ : sizeAdd p.chunkBytes 1 = p.chunkBytes + 1 := if_pos (by omega)
  by_cases hshort : x.length < p.chunkBytes + 2
  · rw [if_pos hshort, loopBody_chunkBody_short hs (by omega)]
  · obtain ⟨a, ha⟩ : ∃ a, x[p.chunkBytes]? = some a := ⟨_, List.getElem?_eq_getElem (by omega)⟩
    obtain ⟨b, hb⟩ : ∃ b, x[p.chunkBytes + 1]? = some b := ⟨_, List.getElem?_eq_getElem (by omega)⟩
    have hcrlf : a ≠ 13 ∨ b ≠ 10 := by
      by_contra hnone
      rw [not_or, not_not, not_not] at hnone
      exact hwhole ⟨ha.trans (congrArg some hnone.1), hb.trans (congrArg some hnone.2)⟩
    have hstep : loopBody (p, x) = (p.chunkBodyStep x).next := by
      show (p.step x).next = _
      unfold step
      rw [hs]
    rw [hstep, if_neg hshort]
    unfold chunkBodyStep
    simp only [hadd, hadd₁, Iteration.after_next]
    rw [if_neg hshort, Iteration.after_next, ha, hb]
    dsimp only
    rw [if_pos hcrlf]
    rfl

/-- A chunk that is too long is an error once it is all there. -/
theorem loopBody_longChunk (hp : p.Reading) (hx : x.length ≤ vectorMaxSize) (hlong : LongChunk p) :
    (∃ q rest, loopBody (p, x) = .inl (.finished .BodyTooLarge q rest)) ↔ WholeChunk p x := by
  obtain ⟨hs, hlarge⟩ := hlong
  have hresult : ∀ {r : ResponseParseResult} {q p' : HttpResponseParser} {y left : Bytes},
      (Sum.inl (.finished r p' left) : ParseOutcome ⊕ HttpResponseParser × Bytes) =
        .inl (.finished .BodyTooLarge q y) → r = .BodyTooLarge :=
    fun heq => (ParseOutcome.finished.inj (Sum.inl.inj heq)).1
  constructor
  · rintro ⟨q, rest, hdone⟩
    by_contra hwhole
    by_cases hsmall : p.chunkBytes + 2 < sizeModulus
    · rw [loopBody_otherChunk hs hsmall hwhole] at hdone
      split at hdone <;> cases hresult hdone
    · rw [loopBody_chunkOverflow hs (by omega) hx] at hdone
      split at hdone
      · cases hresult hdone
      · cases hdone
  · intro hwhole
    rw [loopBody_wholeChunk hp.1 hs hx hwhole, if_neg (by omega)]
    exact ⟨_, _, rfl⟩

theorem reports_iff (hp : p.Reading) (hx : x.length ≤ vectorMaxSize) :
    Reports p x ↔ Moderate p x := by
  constructor
  · intro hreports
    refine ⟨fun hline => ?_, fun hlong => ?_⟩
    · obtain ⟨q, rest, hdone⟩ := hreports.line hline
      exact loopBody_longChunkLine hp hx hline.1 hdone
    · exact (loopBody_longChunk hp hx hlong).mp (hreports.chunk hlong)
  · rintro ⟨hline, hchunk⟩
    exact ⟨fun hlong => absurd hlong hline,
      fun hlong => (loopBody_longChunk hp hx hlong).mpr (hchunk hlong)⟩

/-- A chunk that is waited for is one that the body could have. -/
theorem Moderate.chunk_le (h : Moderate p x) (hs : p.state = .ChunkBody)
    (hwhole : ¬WholeChunk p x) : p.chunkBytes ≤ p.limits.maxBodyBytes := by
  by_contra hlarge
  exact hwhole (h.2 ⟨hs, Nat.not_le.mp hlarge⟩)

theorem Moderate.chunk_lt (h : Moderate p x) (hp : p.Reading) (hs : p.state = .ChunkBody)
    (hwhole : ¬WholeChunk p x) : p.chunkBytes + 2 < sizeModulus := by
  have hchunk := h.chunk_le hs hwhole
  have haccepted := hp.1.accepted.2.2.2.2.2
  unfold kAbsoluteBodyLimit at haccepted
  unfold sizeModulus
  omega

/-- What a moderate iteration leaves unread when it waits. -/
theorem rest_le_of_waits (hp : p.Reading) (hx : x.length ≤ vectorMaxSize) (hmoderate : Moderate p x)
    (hstatus : p.limits.maxStatusLineBytes ≤ p.limits.maxHeaderBytes)
    (hdone : loopBody (p, x) = .inl (.finished .NeedMore q y)) :
    y.length ≤ p.limits.maxHeaderBytes + p.limits.maxBodyBytes + 1 := by
  by_cases hall : p.TakesAll
  · obtain ⟨-, rfl, -⟩ := waits_takesAll hp hall hdone
    exact Nat.zero_le _
  obtain ⟨rfl, rfl⟩ := waits_same hp hall hx hdone
  by_cases hs : q.state = .ChunkBody
  · -- an unfinished chunk
    have hwhole : ¬WholeChunk q y := by
      intro hwhole
      rw [loopBody_wholeChunk hp.1 hs hx hwhole] at hdone
      split at hdone
      · cases hdone
      · cases (ParseOutcome.finished.inj (Sum.inl.inj hdone)).1
    have hchunk := hmoderate.chunk_le hs hwhole
    rw [loopBody_otherChunk hs (hmoderate.chunk_lt hp hs hwhole) hwhole] at hdone
    split at hdone
    · omega
    · cases (ParseOutcome.finished.inj (Sum.inl.inj hdone)).1
  · -- an unfinished line
    have hlines : q.ReadsLines := ⟨fun h => hall (.inl h), hs, fun h => hall (.inr h)⟩
    cases hsplit : splitLine y with
    | some split =>
      rw [loopBody_splitLine hlines hsplit] at hdone
      rcases settled_lineStep q split.1 with ⟨q', hq⟩ | ⟨r, q', hr, hq⟩
      · rw [hq] at hdone
        cases hdone
      · rw [hq] at hdone
        exact absurd (ParseOutcome.finished.inj (Sum.inl.inj hdone)).1 hr
    | none =>
      rw [loopBody_unfinished hlines hsplit] at hdone
      rcases partialLineStep_next hp hx with ⟨-, hnext⟩ | ⟨hfits, -⟩
      · rw [hnext] at hdone
        cases (ParseOutcome.finished.inj (Sum.inl.inj hdone)).1
      · -- a line with a chunk size has no limit of its own: the peer is taken to be moderate
        have hline : q.state = .ChunkSize → y.length ≤ q.limits.maxHeaderBytes := by
          intro hsize
          by_contra hlarge
          exact hmoderate.1 ⟨hsize, by simpa [lineLength, hsplit] using hlarge⟩
        have hstate : q.state = .StatusLine ∨ (q.state = .Headers ∨ q.state = .Trailers) ∨
            q.state = .ChunkSize := by
          obtain ⟨hcomplete, herror⟩ := hp.2
          obtain ⟨hfixed, -, heof⟩ := hlines
          cases hq : q.state <;> simp_all
        unfold Overruns at hfits
        rw [not_or] at hfits
        rcases hstate with hstart | hheaders | hsize
        · have hle : ¬q.limits.maxStatusLineBytes < y.length := fun h => hfits.1 ⟨hstart, h⟩
          omega
        · have hle : ¬q.limits.maxHeaderBytes < q.headerBytes + y.length :=
            fun h => hfits.2 ⟨hheaders, h⟩
          omega
        · have hle := hline hsize
          omega

/-- A moderate iteration reads no byte that is not there. -/
theorem loopBody_ne_outOfBounds (hp : p.Reading) (hx : x.length ≤ vectorMaxSize)
    (hmoderate : Moderate p x) : loopBody (p, x) ≠ .inl .outOfBounds := by
  intro hdone
  by_cases hfixed : p.state = .FixedBody
  · rw [loopBody_fixedBody hp.1 hfixed] at hdone
    split at hdone <;> cases hdone
  by_cases heof : p.state = .EofBody
  · rw [loopBody_eofBody hp.1 heof] at hdone
    split at hdone <;> cases hdone
  by_cases hs : p.state = .ChunkBody
  · by_cases hwhole : WholeChunk p x
    · rw [loopBody_wholeChunk hp.1 hs hx hwhole] at hdone
      split at hdone <;> cases hdone
    · rw [loopBody_otherChunk hs (hmoderate.chunk_lt hp hs hwhole) hwhole] at hdone
      split at hdone <;> cases hdone
  · have hlines : p.ReadsLines := ⟨hfixed, hs, heof⟩
    cases hsplit : splitLine x with
    | some split =>
      rw [loopBody_splitLine hlines hsplit] at hdone
      rcases settled_lineStep p split.1 with ⟨q', hq⟩ | ⟨r, q', hr, hq⟩ <;>
        · rw [hq] at hdone
          cases hdone
    | none =>
      rw [loopBody_unfinished hlines hsplit] at hdone
      rcases partialLineStep_next hp hx with ⟨-, hnext⟩ | ⟨-, hnext⟩ <;>
        · rw [hnext] at hdone
          cases hdone

/-! ### One call -/

/-- The iterations of a call start from bounded parsers with the same limits. -/
theorem visited_reading (hp : p.Reading) (hx : x.length ≤ vectorMaxSize) :
    ∀ t ∈ p.visited x, t.1.Reading ∧ t.2.length ≤ vectorMaxSize ∧ t.1.limits = p.limits := by
  rw [visited, if_pos hp.2]
  apply Loop.visited_inv fun t : HttpResponseParser × Bytes =>
    t.1.Reading ∧ t.2.length ≤ vectorMaxSize ∧ t.1.limits = p.limits
  · rintro ⟨q, left⟩ ⟨q', left'⟩ ⟨hq, hleft, hlimits⟩ hnext
    have hadv := (step_advances hq.1 hq.2 hleft).continued hnext
    exact ⟨⟨hadv.bounded, hadv.running (.inl rfl)⟩,
      Nat.le_trans hadv.suffix.length_le hleft, hadv.limits.trans hlimits⟩
  · exact ⟨hp, hx, rfl⟩

/-- A parser that is done changes nothing. -/
theorem parse_stopped (hp : p.Bounded) (hrunning : ¬p.Running) (x : Bytes) :
    ∃ r, r ≠ .NeedMore ∧ p.parse x = .finished r p x := by
  by_cases hcomplete : p.state = .Complete
  · exact ⟨.Complete, by simp, by rw [parse, if_pos hcomplete]⟩
  · have herror : p.state = .Error := by
      by_contra hne
      exact hrunning ⟨hcomplete, hne⟩
    exact ⟨p.errorResult, (hp.error herror).1, by rw [parse, if_neg hcomplete, if_pos herror]⟩

/-- A call ends with one of its iterations. -/
theorem exists_last (hp : p.Reading) (hx : x.length ≤ vectorMaxSize) :
    ∃ t ∈ p.visited x, loopBody t = .inl (p.parse x) := by
  obtain ⟨outcome, hrun⟩ :=
    loop_decreases.exists_run (s := (p, x)) hx (Nat.lt_succ_self _)
  obtain ⟨t, hreaches, hdone⟩ := (Loop.Ends.of_run hrun).exists_reaches
  refine ⟨t, ?_, ?_⟩
  · rw [visited, if_pos hp.2]
    exact hreaches.mem_visited hrun
  · have hloop : p.parseLoop x = outcome := parseLoop_eq hx (Loop.Ends.of_run hrun)
    rw [parse, if_neg hp.2.1, if_neg hp.2.2, hloop, hdone]

/-- **What a call leaves unread.** A call whose iterations are moderate asks for more with at
    most the header limit, the body limit and the first byte of a CRLF unread. -/
theorem parse_rest_le (hp : p.Bounded) (hx : x.length ≤ vectorMaxSize)
    (hstatus : p.limits.maxStatusLineBytes ≤ p.limits.maxHeaderBytes)
    (hmoderate : ∀ t ∈ p.visited x, Moderate t.1 t.2)
    (hparse : p.parse x = .finished .NeedMore q y) :
    y.length ≤ p.limits.maxHeaderBytes + p.limits.maxBodyBytes + 1 := by
  by_cases hrunning : p.Running
  · obtain ⟨t, hvisited, hdone⟩ := exists_last ⟨hp, hrunning⟩ hx
    obtain ⟨hreading, hlength, hlimits⟩ := visited_reading ⟨hp, hrunning⟩ hx t hvisited
    rw [hparse] at hdone
    have hle := rest_le_of_waits hreading hlength (hmoderate t hvisited) (hlimits ▸ hstatus) hdone
    rwa [hlimits] at hle
  · obtain ⟨r, hr, hstopped⟩ := parse_stopped hp hrunning x
    rw [hstopped] at hparse
    exact absurd (ParseOutcome.finished.inj hparse).1 hr

theorem parse_ne_outOfBounds (hp : p.Bounded) (hx : x.length ≤ vectorMaxSize)
    (hmoderate : ∀ t ∈ p.visited x, Moderate t.1 t.2) : p.parse x ≠ .outOfBounds := by
  by_cases hrunning : p.Running
  · obtain ⟨t, hvisited, hdone⟩ := exists_last ⟨hp, hrunning⟩ hx
    obtain ⟨hreading, hlength, -⟩ := visited_reading ⟨hp, hrunning⟩ hx t hvisited
    intro hparse
    rw [hparse] at hdone
    exact loopBody_ne_outOfBounds hreading hlength (hmoderate t hvisited) hdone
  · obtain ⟨r, hr, hstopped⟩ := parse_stopped hp hrunning x
    rw [hstopped]
    simp

end HttpResponseParser

/-- The coroutine has the buffer in use. -/
def ProxyPoint.UsesInput : ProxyPoint → Bool
  | .writingLast | .returned _ | .raised _ | .outOfBounds => false
  | _ => true

/-- The parser needs more, and the next read is still to be prepared. -/
def ProxyPoint.Asks (point : ProxyPoint) : Prop :=
  point.parsed = some .NeedMore ∨ point = .preparing

namespace ProxySession

variable {s s' : ProxySession} {e : ProxyEvent}

/-! ### The buffer of a session -/

/-- The limits leave room for a read behind all that the parser should leave unread. -/
structure Roomy (l : ProxyLimits) : Prop where
  buffer : l.responseParser.maxHeaderBytes + l.responseParser.maxBodyBytes + l.readChunkBytes + 2 ≤
    l.maxBufferBytes
  statusLine : l.responseParser.maxStatusLineBytes ≤ l.responseParser.maxHeaderBytes

/-- Nothing that the upstream sends leads to anything but a result. -/
structure Contained (s : ProxySession) : Prop where
  returns : (∀ x, s.point ≠ .raised x) ∧ s.point ≠ .outOfBounds
  /-- When the parser needs more there is room for the next read. -/
  room : s.point = .parsing → ∀ parser rest,
    s.parser.parse s.input.readableView = .finished .NeedMore parser rest →
      rest.length + s.limits.readChunkBytes ≤ s.limits.maxBufferBytes
  prepares : s.point = .preparing → ∃ b, s.input.prepare s.limits.readChunkBytes = .ok b
  reports : s.point = .parsing → ∀ t ∈ s.parser.visited s.input.readableView,
    HttpResponseParser.Reports t.1 t.2

/-- No chunk-size line is too long, no chunk that is too long is waited for, and the buffer
    does not outgrow a vector. -/
structure WithinLimits (s : ProxySession) : Prop where
  moderate : s.point = .parsing → ∀ t ∈ s.parser.visited s.input.readableView,
    HttpResponseParser.Moderate t.1 t.2
  grows : s.point = .preparing → s.input.GrowsWithin s.limits.readChunkBytes

/-- What holds of the buffer between two steps. -/
structure InputInv (s : ProxySession) : Prop where
  parser : ParserInv s
  limits : s.parser.limits = s.limits.responseParser
  roomy : Roomy s.limits
  maximum : s.point.UsesInput = true → s.input.maximumSize = s.limits.maxBufferBytes
  /-- Nothing is prepared but for the read that is under way. -/
  clean : s.point.UsesInput = true → s.point ≠ .reading →
    s.input.preparedBytes = 0 ∨ s.parser.state = .Complete
  room : s.point.Asks → s.input.readableBytes + s.limits.readChunkBytes ≤ s.limits.maxBufferBytes
  inside : (∀ x, s.point ≠ .raised x) ∧ s.point ≠ .outOfBounds

/-- The parser and the buffer stay as they are, and the coroutine goes to a point that is no
    closer to a read. -/
structure Moves (s s' : ProxySession) : Prop where
  parser : s'.parser = s.parser
  input : s'.input = s.input
  uses : s'.point.UsesInput = true →
    s.point.UsesInput = true ∧ (s.point = .reading → s'.point = .reading)
  asks : s'.point.Asks → s.point.Asks
  inside : (∀ x, s'.point ≠ .raised x) ∧ s'.point ≠ .outOfBounds

theorem InputInv.move (h : InputInv s) (hstep : s.step e = some s') (hmoves : Moves s s') :
    InputInv s' := by
  have hlimits : s'.limits = s.limits := congrArg Config.limits (step_config hstep)
  obtain ⟨hparser, hinput, huses, hasks, hinside⟩ := hmoves
  refine ⟨parserInv_step h.parser hstep, ?_, hlimits ▸ h.roomy, ?_, ?_, ?_, hinside⟩
  · rw [hparser, hlimits]
    exact h.limits
  · intro hpoint
    rw [hinput, hlimits]
    exact h.maximum (huses hpoint).1
  · intro hpoint hreading
    rw [hinput, hparser]
    exact h.clean (huses hpoint).1 fun heq => hreading ((huses hpoint).2 heq)
  · intro hpoint
    rw [hinput, hlimits]
    exact h.room (hasks hpoint)

/-- At the same point. -/
theorem Moves.same (h : InputInv s) (hparser : s'.parser = s.parser) (hinput : s'.input = s.input)
    (hpoint : s'.point = s.point) : Moves s s' := by
  refine ⟨hparser, hinput, ?_, ?_, ?_⟩ <;> rw [hpoint]
  · exact fun huses => ⟨huses, id⟩
  · exact id
  · exact h.inside

/-- To a point before the response. -/
theorem Moves.early (hearly : s.point.Early = true) (hparser : s'.parser = s.parser)
    (hinput : s'.input = s.input) (hearly' : s'.point.Early = true) : Moves s s' := by
  refine ⟨hparser, hinput, fun _ => ⟨?_, ?_⟩, ?_, ?_⟩
  · cases hs : s.point <;> simp_all [ProxyPoint.Early, ProxyPoint.UsesInput]
  · intro hreading
    simp [hreading, ProxyPoint.Early] at hearly
  · rintro (hparsed | hpreparing)
    · cases hs : s'.point <;> simp_all [ProxyPoint.Early, ProxyPoint.parsed]
    · simp [hpreparing, ProxyPoint.Early] at hearly'
  · cases hs : s'.point <;> simp_all [ProxyPoint.Early]

/-- To a point with the same result of `parse`. -/
theorem Moves.parsed {r : ResponseParseResult} (hr : s.point.parsed = some r)
    (hparser : s'.parser = s.parser) (hinput : s'.input = s.input)
    (hr' : s'.point.parsed = some r) : Moves s s' := by
  refine ⟨hparser, hinput, fun _ => ⟨?_, ?_⟩, ?_, ?_⟩
  · cases hs : s.point <;> simp_all [ProxyPoint.parsed, ProxyPoint.UsesInput]
  · intro hreading
    simp [hreading, ProxyPoint.parsed] at hr
  · rintro (hparsed | hpreparing)
    · exact .inl (hr.trans (hr'.symm.trans hparsed))
    · simp [hpreparing, ProxyPoint.parsed] at hr'
  · cases hs : s'.point <;> simp_all [ProxyPoint.parsed]

/-- To the end of the coroutine. -/
theorem Moves.returned {result : ProxyResult} (hparser : s'.parser = s.parser)
    (hinput : s'.input = s.input) (hpoint : s'.point = .returned result) : Moves s s' := by
  refine ⟨hparser, hinput, ?_, ?_, ?_⟩
  · simp [hpoint, ProxyPoint.UsesInput]
  · simp [hpoint, ProxyPoint.Asks, ProxyPoint.parsed]
  · simp [hpoint]

theorem enter_moves (hpoint : s.point = .entry) : Moves s s.enter := by
  have hearly : s.point.Early = true := by rw [hpoint]; rfl
  unfold enter
  split
  · exact .returned rfl rfl rfl
  split
  · exact .returned rfl rfl rfl
  dsimp only
  split <;> exact .early hearly rfl rfl rfl

theorem checkHead_moves {r : ResponseParseResult} (hpoint : s.point = .checkingHead r) :
    Moves s (s.checkHead r) := by
  have hr : s.point.parsed = some r := by rw [hpoint]; rfl
  unfold checkHead
  split <;> exact .parsed hr rfl rfl rfl

theorem checkBody_moves {r : ResponseParseResult} (hpoint : s.point = .checkingBody r) :
    Moves s (s.checkBody r) := by
  have hr : s.point.parsed = some r := by rw [hpoint]; rfl
  unfold checkBody
  split <;> exact .parsed hr rfl rfl rfl

theorem cancelInExecutor_moves (h : InputInv s) (hparser : s'.parser = s.parser)
    (hinput : s'.input = s.input) (hpoint : s'.point = s.point) (reason : ProxyStopReason) :
    Moves s (s'.cancelInExecutor reason) := by
  unfold cancelInExecutor
  split <;> exact .same h hparser hinput hpoint

/-- The coroutine has returned. -/
theorem InputInv.of_returned (h : InputInv s) (hstep : s.step e = some s')
    (hparser : s'.parser.limits = s.parser.limits) {result : ProxyResult}
    (hpoint : s'.point = .returned result) : InputInv s' := by
  have hlimits : s'.limits = s.limits := congrArg Config.limits (step_config hstep)
  refine ⟨parserInv_step h.parser hstep, ?_, hlimits ▸ h.roomy, ?_, ?_, ?_, ?_⟩
  · rw [hparser, hlimits]
    exact h.limits
  · simp [hpoint, ProxyPoint.UsesInput]
  · simp [hpoint, ProxyPoint.UsesInput]
  · simp [hpoint, ProxyPoint.Asks, ProxyPoint.parsed]
  · simp [hpoint]

/-! ### The buffer after a call of `parse` -/

theorem inputAfter_maximumSize (s : ProxySession) (rest : Bytes) :
    (s.inputAfter rest).maximumSize = s.input.maximumSize := by
  unfold inputAfter
  split
  · rfl
  · exact Buffer.consumed_maximumSize _ _

theorem inputAfter_preparedBytes (hprepared : s.input.preparedBytes = 0) (rest : Bytes) :
    (s.inputAfter rest).preparedBytes = 0 := by
  unfold inputAfter
  split
  · exact hprepared
  · exact Buffer.consumed_preparedBytes hprepared _

/-- A call of `parse` within the limits. -/
theorem InputInv.parseInput (h : InputInv s) (hpoint : s.point = .parsing)
    (hlimits : WithinLimits s) (hstep : s.step .run = some s.parseInput) :
    InputInv s.parseInput := by
  have hmoderate := hlimits.moderate hpoint
  have huses : s.point.UsesInput = true := by simp [hpoint, ProxyPoint.UsesInput]
  have hparserInv := parserInv_step h.parser hstep
  rcases parseInput_cases h.parser.bounded with
    ⟨hparse, -⟩ | ⟨parsed, parser, rest, hparse, hadv, -, heq⟩
  · exact absurd hparse
      (HttpResponseParser.parse_ne_outOfBounds h.parser.bounded s.input_le hmoderate)
  rw [heq] at hparserInv ⊢
  refine ⟨hparserInv, hadv.limits.trans h.limits, h.roomy, ?_, ?_, ?_, ?_⟩
  · intro _
    exact (s.inputAfter_maximumSize rest).trans (h.maximum huses)
  · intro _ _
    rcases h.clean huses (by simp [hpoint]) with hprepared | hcomplete
    · exact .inl (inputAfter_preparedBytes hprepared rest)
    · -- a parser that is complete stays as it is
      rw [HttpResponseParser.parse, if_pos hcomplete] at hparse
      obtain ⟨-, rfl, -⟩ := ParseOutcome.finished.inj hparse
      exact .inr hcomplete
  · intro hasks
    have hmore : parsed = .NeedMore := by
      by_cases hforward : s.forwarding = true <;>
        simpa [ProxyPoint.Asks, ProxyPoint.parsed, hforward] using hasks
    subst hmore
    -- what the parser leaves is within the limits, so that another read fits
    have hle := HttpResponseParser.parse_rest_le h.parser.bounded s.input_le
      (h.limits ▸ h.roomy.statusLine) hmoderate hparse
    have hbuffer := h.roomy.buffer
    show (s.inputAfter rest).readableBytes + s.limits.readChunkBytes ≤ s.limits.maxBufferBytes
    rw [← Buffer.readableView_length, inputAfter_readableView hadv.suffix]
    rw [h.limits] at hle
    omega
  · by_cases hforward : s.forwarding = true <;> simp [hforward]

/-- `prepare` within the limits. -/
theorem InputInv.prepares (h : InputInv s) (hpoint : s.point = .preparing) :
    (∃ b, s.input.prepare s.limits.readChunkBytes = .ok b) ↔
      s.input.GrowsWithin s.limits.readChunkBytes := by
  have huses : s.point.UsesInput = true := by simp [hpoint, ProxyPoint.UsesInput]
  have hrunning := h.parser.running (by simp [hpoint, ProxyPoint.Waits])
  have hprepared : s.input.preparedBytes = 0 :=
    (h.clean huses (by simp [hpoint])).resolve_right hrunning.1
  apply Buffer.prepare_isOk_iff hprepared
  rw [h.maximum huses]
  exact h.room (.inr hpoint)

theorem InputInv.prepareInput (h : InputInv s) (hpoint : s.point = .preparing)
    (hlimits : WithinLimits s) (hstep : s.step .run = some s.prepareInput) :
    InputInv s.prepareInput := by
  have hparserInv := parserInv_step h.parser hstep
  obtain ⟨b, hb⟩ := (h.prepares hpoint).mpr (hlimits.grows hpoint)
  have heq : s.prepareInput =
      { s with input := b, phaseDeadline := some .ResponseTimeout, point := .reading } := by
    rw [ProxySession.prepareInput, hb]
  rw [heq] at hparserInv ⊢
  refine ⟨hparserInv, h.limits, h.roomy, ?_, by simp, ?_, by simp⟩
  · intro _
    exact (Buffer.prepare_maximumSize hb).trans
      (h.maximum (by simp [hpoint, ProxyPoint.UsesInput]))
  · simp [ProxyPoint.Asks, ProxyPoint.parsed]

theorem finishOnEof_limits (p : HttpResponseParser) : p.finishOnEof.2.limits = p.limits := by
  rcases p.finishOnEof_cases with ⟨-, heq⟩ | ⟨-, heq⟩ | heq <;> rw [heq]
  rfl

theorem InputInv.endOfInput (h : InputInv s) (hpoint : s.point = .reading)
    (hstep : s.step .readFailed = some s.phaseEnded.endOfInput) :
    InputInv s.phaseEnded.endOfInput := by
  have hparserInv := parserInv_step h.parser hstep
  have huses : s.point.UsesInput = true := by simp [hpoint, ProxyPoint.UsesInput]
  rcases s.phaseEnded.endOfInput_cases with
    ⟨-, hr⟩ | ⟨-, hcomplete, -, heq⟩ | ⟨-, -, -, hr⟩ | ⟨-, -, hr⟩
  · exact h.of_returned hstep (by rw [hr.parser]; rfl) hr.point
  · rw [heq] at hparserInv ⊢
    refine ⟨hparserInv, (finishOnEof_limits s.parser).trans h.limits, h.roomy,
      fun _ => h.maximum huses, fun _ _ =>
        .inr (HttpResponseParser.finishOnEof_complete hcomplete), ?_, by simp⟩
    simp [ProxyPoint.Asks, ProxyPoint.parsed]
  · exact h.of_returned hstep (by rw [hr.parser]; exact finishOnEof_limits s.parser) hr.point
  · exact h.of_returned hstep (by rw [hr.parser]; exact finishOnEof_limits s.parser) hr.point

theorem InputInv.writeEnded (h : InputInv s) {progress : WriteProgress}
    (hstep : s.step (.written progress) = some (s.writeEnded progress)) :
    InputInv (s.writeEnded progress) := by
  rcases s.writeEnded_cases progress with
    ⟨r, hpoint, -, heq⟩ | ⟨r, hpoint, -, heq⟩ | ⟨-, hr⟩ | ⟨-, hr⟩
  · rw [heq] at hstep ⊢
    exact h.move hstep (.parsed (congrArg ProxyPoint.parsed hpoint) rfl rfl rfl)
  · rw [heq] at hstep ⊢
    exact h.move hstep (.parsed (congrArg ProxyPoint.parsed hpoint) rfl rfl rfl)
  · exact h.of_returned hstep (by rw [hr.parser]) hr.point
  · exact h.of_returned hstep (by rw [hr.parser]) hr.point

theorem InputInv.checkResult (h : InputInv s) {r : ResponseParseResult}
    (hpoint : s.point = .checkingResult r) (hstep : s.step .run = some (s.checkResult r)) :
    InputInv (s.checkResult r) := by
  rcases s.checkResult_cases r with
    ⟨-, -, heq⟩ | ⟨-, -, hr⟩ | ⟨hmore, state, heq⟩ | ⟨-, -, hr⟩
  · rw [heq] at hstep ⊢
    refine h.move hstep ⟨rfl, rfl, ?_, ?_, ?_⟩
    · simp [startWrite, ProxyPoint.UsesInput]
    · simp [startWrite, ProxyPoint.Asks, ProxyPoint.parsed]
    · simp [startWrite]
  · exact h.of_returned hstep (by rw [hr.parser]) hr.point
  · rw [heq] at hstep ⊢
    refine h.move hstep ⟨rfl, rfl, ?_, ?_, ?_⟩
    · simp [hpoint, ProxyPoint.UsesInput]
    · simp [hpoint, hmore, ProxyPoint.Asks, ProxyPoint.parsed]
    · simp
  · exact h.of_returned hstep (by rw [hr.parser]) hr.point

theorem InputInv.operationFailed (h : InputInv s)
    (hstep : s.step e = some s.phaseEnded.operationFailed) :
    InputInv s.phaseEnded.operationFailed := by
  have hr := operationFailed_returned s.phaseEnded
  exact h.of_returned hstep (by rw [hr.parser]; rfl) hr.point

/-- The request is sent, and the parser starts on the response. -/
theorem InputInv.startResponse (h : InputInv s) {request : Bytes}
    (hpoint : s.point = .sending request)
    (hstep : s.step (.sent true) = some s.phaseEnded.startResponse) :
    InputInv s.phaseEnded.startResponse := by
  have huses : s.point.UsesInput = true := by rw [hpoint]; rfl
  refine ⟨parserInv_step h.parser hstep, h.limits, h.roomy, fun _ => h.maximum huses, ?_, ?_, ?_⟩
  · intro _ _
    have hheaders := h.parser.early (by rw [hpoint]; rfl)
    refine .inl ((h.clean huses (by simp [hpoint])).resolve_right ?_)
    rcases hheaders with hs | hs <;> simp [hs]
  · simp [ProxySession.startResponse, ProxyPoint.Asks, ProxyPoint.parsed]
  · simp [ProxySession.startResponse]

theorem InputInv.received (h : InputInv s) (hpoint : s.point = .reading) {data : Bytes}
    (hroom : data.length ≤ s.input.preparedBytes)
    (hstep : s.step (.received data) = some
      { s.phaseEnded with input := s.input.received data hroom, point := .parsing }) :
    InputInv { s.phaseEnded with input := s.input.received data hroom, point := .parsing } := by
  have huses : s.point.UsesInput = true := by rw [hpoint]; rfl
  refine ⟨parserInv_step h.parser hstep, h.limits, h.roomy, fun _ => h.maximum huses,
    fun _ _ => .inl rfl, ?_, by simp⟩
  simp [ProxyPoint.Asks, ProxyPoint.parsed]

/-- **Step lemma.** -/
theorem inputInv_step (h : InputInv s) (hlimits : WithinLimits s) (hstep : s.step e = some s') :
    InputInv s' := by
  cases step_cases hstep with
  | entered hpoint => exact h.move hstep (enter_moves hpoint)
  | parsed hpoint => exact h.parseInput hpoint hlimits hstep
  | headChecked r hpoint => exact h.move hstep (checkHead_moves hpoint)
  | bodyChecked r hpoint => exact h.move hstep (checkBody_moves hpoint)
  | resultChecked r hpoint => exact h.checkResult hpoint hstep
  | prepared hpoint => exact h.prepareInput hpoint hlimits hstep
  | resolved ok hpoint =>
    cases ok with
    | false => exact h.operationFailed hstep
    | true => exact h.move hstep (.early (by rw [hpoint]; rfl) rfl rfl rfl)
  | connected ok hpoint =>
    cases ok with
    | false => exact h.operationFailed hstep
    | true => exact h.move hstep (.early (by rw [hpoint]; rfl) rfl rfl rfl)
  | requestSent ok request hpoint =>
    cases ok with
    | false => exact h.operationFailed hstep
    | true => exact h.startResponse hpoint hstep
  | received data hpoint hdata hroom => exact h.received hpoint hroom hstep
  | readFailed hpoint => exact h.endOfInput hpoint hstep
  | headWritten r progress hpoint hprogress => exact h.writeEnded hstep
  | chunkWritten r progress hpoint hprogress => exact h.writeEnded hstep
  | lastWritten progress hpoint hprogress => exact h.writeEnded hstep
  | phaseExpired reason hsuspended hdeadline =>
    exact h.move hstep
      (cancelInExecutor_moves h (rfl : s.phaseEnded.parser = s.parser) rfl rfl reason)
  | totalExpired hsuspended hdeadline =>
    let s' : ProxySession := { s with totalDeadline := false }
    have hparser : s'.parser = s.parser := rfl
    exact h.move hstep (cancelInExecutor_moves h hparser rfl rfl .TotalTimeout)
  | cancelled reason hsuspended hreason =>
    exact h.move hstep (cancelInExecutor_moves h rfl rfl rfl reason)

/-! ### Whole runs -/

/-- A new session. -/
theorem inputInv_create {upstream : UpstreamEndpoint} {limits : ProxyLimits}
    {connectionOpen : Bool} {context : RequestContext} {request : HttpRequest} {forwarding : Bool}
    (hcreate : create upstream limits connectionOpen context request forwarding = .ok s)
    (hroomy : Roomy limits) : InputInv s := by
  obtain ⟨-, hpoint, -, hparser, hlimits, -⟩ := create_eq_ok hcreate
  have hinput := Buffer.create_eq_ok (create_input hcreate)
  refine ⟨parserInv_create hcreate, ?_, hlimits ▸ hroomy, ?_, ?_, ?_, ?_⟩
  · rw [hparser, hlimits]
  · rw [hlimits]
    exact fun _ => hinput.1
  · exact fun _ _ => .inl hinput.2
  · simp [hpoint, ProxyPoint.Asks, ProxyPoint.parsed]
  · simp [hpoint]

/-- In the states of the invariant the conditions are the same. -/
theorem InputInv.contained (h : InputInv s) : Contained s ↔ WithinLimits s := by
  have hreports : s.point = .parsing → ∀ t ∈ s.parser.visited s.input.readableView,
      HttpResponseParser.Reports t.1 t.2 ↔ HttpResponseParser.Moderate t.1 t.2 := by
    intro hpoint t ht
    have hrunning : s.parser.Running := by
      by_contra hstopped
      rw [HttpResponseParser.visited, if_neg hstopped] at ht
      exact absurd ht List.not_mem_nil
    obtain ⟨hreading, hlength, -⟩ :=
      HttpResponseParser.visited_reading ⟨h.parser.bounded, hrunning⟩ s.input_le t ht
    exact HttpResponseParser.reports_iff hreading hlength
  constructor
  · intro hcontained
    refine ⟨fun hpoint t ht => (hreports hpoint t ht).mp (hcontained.reports hpoint t ht), ?_⟩
    exact fun hpoint => (h.prepares hpoint).mp (hcontained.prepares hpoint)
  · intro hlimits
    refine ⟨h.inside, ?_, fun hpoint => (h.prepares hpoint).mpr (hlimits.grows hpoint),
      fun hpoint t ht => (hreports hpoint t ht).mpr (hlimits.moderate hpoint t ht)⟩
    intro hpoint parser rest hparse
    have hle := HttpResponseParser.parse_rest_le h.parser.bounded s.input_le
      (h.limits ▸ h.roomy.statusLine) (hlimits.moderate hpoint) hparse
    have hbuffer := h.roomy.buffer
    rw [h.limits] at hle
    omega

/-- **Containment.** With accepted limits that leave room for a response, in every run of a
    session, whatever the upstream sends and however it is cut, every state is contained exactly
    when every state is within the limits. -/
theorem contained_iff {upstream : UpstreamEndpoint} {limits : ProxyLimits}
    {connectionOpen : Bool} {context : RequestContext} {request : HttpRequest} {forwarding : Bool}
    (hcreate : create upstream limits connectionOpen context request forwarding = .ok s)
    (hroomy : Roomy limits) (events : List ProxyEvent) :
    Machine.Always step Contained s events ↔ Machine.Always step WithinLimits s events :=
  Machine.always_congr InputInv (fun _ h => h.contained)
    (fun _ _ _ h hlimits hstep => inputInv_step h hlimits hstep) events
    (inputInv_create hcreate hroomy)

instance : DecidablePred WithinLimits := fun s =>
  decidable_of_iff
    ((s.point = .parsing → ∀ t ∈ s.parser.visited s.input.readableView,
      HttpResponseParser.Moderate t.1 t.2) ∧
        (s.point = .preparing → s.input.GrowsWithin s.limits.readChunkBytes))
    ⟨fun h => ⟨h.1, h.2⟩, fun h => ⟨h.moderate, h.grows⟩⟩

/-- A status line and headers of 64 bytes, a body of 4 bytes, and room for both. -/
def roomyLimits : ProxyLimits :=
  { responseParser := { maxStatusLineBytes := 64, maxHeaderBytes := 64, maxBodyBytes := 4 },
    readChunkBytes := 64, maxBufferBytes := 134 }

/-- Nothing was read yet. -/
theorem unread_le : 0 ≤ 0 := Nat.le_refl 0

/-- The buffer that the constructor makes for them. -/
def roomyBuffer : Buffer where
  storage := List.replicate 64 0
  readIndex := 0
  writeIndex := 0
  preparedBytes := 0
  maximumSize := 134
  read_le := unread_le
  prepared_le := Nat.zero_le 64
  storage_le := Nat.le_of_ble_eq_true rfl
  vector_le := Nat.le_of_ble_eq_true rfl

def roomySession : ProxySession where
  upstream := { host := bytes "u", service := bytes "80" }
  limits := roomyLimits
  context := { requestId := bytes "1", peer := none, writeDownstream := false }
  request := { method := .Get, target := bytes "/" }
  forwarding := false
  input := roomyBuffer
  parser := { limits := roomyLimits.responseParser }
  connectionOpen := true

theorem create_roomy :
    create roomySession.upstream roomyLimits true roomySession.context roomySession.request false =
      .ok roomySession := rfl

/-- The request is sent and the first read started, then the upstream sends. -/
def answeredBy (fragments : List Bytes) : List ProxyEvent :=
  [.run, .sent true, .run, .run, .run] ++
    fragments.flatMap fun fragment => [.received fragment, .run, .run, .run]

def chunkedHead : Bytes := bytes "HTTP/1.1 200 OK\r\nTransfer-Encoding: chunked\r\n\r\n"

/-- A response with one chunk comes in two parts. -/
theorem contained_oneChunk :
    Machine.Always step Contained roomySession
      (answeredBy [chunkedHead, bytes "1\r\na\r\n0\r\n\r\n"]) :=
  have hroomy : Roomy roomyLimits := ⟨by decide, by decide⟩
  (contained_iff create_roomy hroomy _).mpr (by decide +kernel)

/-- The extension of a chunk-size line does not end: with 77 unread bytes the buffer has no room
    for another 64. -/
theorem not_contained :
    ¬ ∀ upstream limits connectionOpen context request forwarding s,
      create upstream limits connectionOpen context request forwarding = .ok s → Roomy limits →
        ∀ events, Machine.Always step Contained s events := by
  intro h
  have hroomy : Roomy roomyLimits := ⟨by decide, by decide⟩
  have halways := h _ _ _ _ _ _ _ create_roomy hroomy
    (answeredBy [chunkedHead ++ bytes "1;", List.replicate 60 120, List.replicate 15 120])
  have hraised : (Machine.run step roomySession
      (answeredBy [chunkedHead ++ bytes "1;", List.replicate 60 120, List.replicate 15 120])).map
        (·.point) = some (.raised .LengthError) := by
    decide +kernel
  obtain ⟨s, hrun, hpoint⟩ := Option.map_eq_some_iff.mp hraised
  exact (halways.last s hrun).returns.1 .LengthError hpoint

end ProxySession
end PulseGate
