import PulseGate.Lib.Incremental
import PulseGate.Http.ResponseParserSteps

namespace PulseGate

/-!
# Responses that arrive in fragments

The parser of upstream responses reads locally, up to the same exception as the parser of
requests: a status line that is exactly as long as the limit is refused if it is cut before its
line feed.

* `parseFragments`, `runFragments` — a call of `parse` after each fragment, and `finishOnEof` at
  the end of the stream;
* `parse_local` — the parser reads locally, with that exception;
* `CutsStatusLine`, `MeetsSizeFault` — where the exception is met, and where a line is too large
  however it is cut;
* `response_same_iff` — two ways of cutting the same bytes agree exactly if both or neither meet the
  exception, or a line is too large.
-/

namespace HttpResponseParser

variable {p q : HttpResponseParser} {limits : HttpResponseParserLimits} {headRequest : Bool}
  {line input rest x y z : Bytes} {r : ResponseParseResult} {fragments : List Bytes}

/-- Two outcomes that say the same: they are equal, or fail with the same result. -/
inductive Alike : ParseOutcome → ParseOutcome → Prop
  | same (o : ParseOutcome) : Alike o o
  | failed {p q : HttpResponseParser} {rest left : Bytes} (r : ResponseParseResult)
      (more : r ≠ .NeedMore) (complete : r ≠ .Complete) (first : p.state = .Error)
      (second : q.state = .Error) : Alike (.finished r p rest) (.finished r q left)

theorem Alike.symm {o o' : ParseOutcome} (h : Alike o o') : Alike o' o := by
  cases h with
  | same => exact .same _
  | failed r more complete first second => exact .failed r more complete second first

theorem Alike.trans {o₁ o₂ o₃ : ParseOutcome} (h : Alike o₁ o₂) (h' : Alike o₂ o₃) :
    Alike o₁ o₃ := by
  cases h with
  | same => exact h'
  | failed r more complete first second =>
    cases h' with
    | same => exact .failed r more complete first second
    | failed _ _ _ _ second' => exact .failed r more complete first second'

/-- The outcomes of `parse`, for calls with the fragments of a response. -/
def outcomes : Incremental.Outcomes HttpResponseParser UInt8 ParseOutcome where
  wait p rest := .finished .NeedMore p rest
  ask
    | .finished .NeedMore p rest => some (p, rest)
    | _ => none
  leave o more :=
    match o with
    | .finished r p rest => .finished r p (rest ++ more)
    | .outOfBounds => .outOfBounds
  ask_eq_some := by
    rintro (⟨r, p, rest⟩ | _) q left
    · cases r <;> simp
    · simp
  leave_nil := by rintro (_ | _) <;> simp
  leave_leave := by rintro (_ | _) <;> simp
  ask_leave := by
    rintro (⟨r, p, rest⟩ | _) left h
    · cases r <;> simp_all
    · simp

/-- The fragments are appended one at a time, with a call of `parse` after each. -/
def parseFragments (limits : HttpResponseParserLimits) (headRequest : Bool)
    (fragments : List Bytes) : ParseOutcome :=
  Incremental.feed outcomes parse { limits := limits, headRequest := headRequest } [] fragments

/-- What the caller has when the stream ends after an outcome. -/
def atEnd (eof : Bool) : ParseOutcome → ParseOutcome
  | .finished r p rest =>
    if eof then .finished p.finishOnEof.1 p.finishOnEof.2 rest else .finished r p rest
  | .outOfBounds => .outOfBounds

/-- The fragments, followed by `finishOnEof` when the stream ends. -/
def runFragments (limits : HttpResponseParserLimits) (headRequest eof : Bool)
    (fragments : List Bytes) : ParseOutcome :=
  atEnd eof (parseFragments limits headRequest fragments)

/-- A parser that `parse` has not finished with. -/
def Reading (p : HttpResponseParser) : Prop := p.Bounded ∧ p.Running

/-- The parser takes what there is of a body. -/
def TakesAll (p : HttpResponseParser) : Prop := p.state = .FixedBody ∨ p.state = .EofBody

/-- The bytes so far are over the limit, and the line is not. -/
def MissesFeed (p : HttpResponseParser) (x z : Bytes) : Prop :=
  p.state = .StatusLine ∧ splitLine x = none ∧ p.limits.maxStatusLineBytes < x.length ∧
    ∃ line rest, splitLine (x ++ z) = some (line, rest) ∧
      line.length = p.limits.maxStatusLineBytes

/-! ### Bodies -/

/-- The parser with more of the body. -/
def grown (p : HttpResponseParser) (data : Bytes) : HttpResponseParser :=
  { p with response := { p.response with body := p.response.body ++ data } }

theorem grown_nil (p : HttpResponseParser) : p.grown [] = p := by
  simp [grown]

theorem grown_grown (p : HttpResponseParser) (x y : Bytes) :
    (p.grown x).grown y = p.grown (x ++ y) := by
  simp [grown]

theorem appendBody_of_le (h : p.Bounded)
    (hroom : p.response.body.length + x.length ≤ p.limits.maxBodyBytes) :
    p.appendBody x = some (p.grown x) := by
  have hsub : sizeSub p.limits.maxBodyBytes p.response.body.length =
      p.limits.maxBodyBytes - p.response.body.length := if_pos h.body
  unfold appendBody
  rw [hsub, if_neg (by omega)]
  rfl

theorem appendBody_of_gt (h : p.Bounded)
    (hroom : ¬p.response.body.length + x.length ≤ p.limits.maxBodyBytes) :
    p.appendBody x = none := by
  have hsub : sizeSub p.limits.maxBodyBytes p.response.body.length =
      p.limits.maxBodyBytes - p.response.body.length := if_pos h.body
  have hbody := h.body
  unfold appendBody
  rw [hsub, if_pos (by omega)]

/-- A body of a known length takes what is missing. -/
theorem loopBody_fixedBody (h : p.Bounded) (hs : p.state = .FixedBody) (x : Bytes) :
    loopBody (p, x) =
      if x.length < p.expectedBodyBytes - p.response.body.length then
        .inl (.finished .NeedMore (p.grown x) [])
      else
        .inl (.finished .Complete
          { p.grown (x.take (p.expectedBodyBytes - p.response.body.length)) with
            state := .Complete }
          (x.drop (p.expectedBodyBytes - p.response.body.length))) := by
  obtain ⟨hle, hmax⟩ := h.fixed hs
  have hsub : sizeSub p.expectedBodyBytes p.response.body.length =
      p.expectedBodyBytes - p.response.body.length := if_pos hle
  have hstep : loopBody (p, x) = (p.fixedBodyStep x).next := by
    show (p.step x).next = _
    unfold step
    rw [hs]
  rw [hstep]
  unfold fixedBodyStep
  dsimp only
  rw [hsub, Iteration.after_next]
  generalize hn : p.expectedBodyBytes - p.response.body.length = n
  -- nothing to append: the body was complete, or there is no input
  by_cases hcount : min n x.length = 0
  · rw [if_neg (by omega)]
    unfold fixedBodyDone
    by_cases hdone : n = 0
    · rw [if_pos (by omega), if_neg (by omega), hdone, List.take_zero, List.drop_zero, grown_nil]
      rfl
    · have hx : x = [] := List.length_eq_zero_iff.mp (by omega)
      subst hx
      rw [if_neg (by omega), if_pos (by simp only [List.length_nil]; omega), grown_nil]
      rfl
  · rw [if_pos hcount, Iteration.after_next]
    have htake : (x.take (min n x.length)).length = min n x.length :=
      List.length_take_of_le (Nat.min_le_right _ _)
    rw [appendBody_of_le h (by rw [htake]; omega)]
    dsimp only
    rw [Iteration.after_next]
    unfold fixedBodyDone
    have hlength : (p.grown (x.take (min n x.length))).response.body.length =
        p.response.body.length + min n x.length := by
      simp [grown, List.length_append]
    have hexpected : (p.grown (x.take (min n x.length))).expectedBodyBytes =
        p.expectedBodyBytes := rfl
    rw [hlength, hexpected]
    by_cases hshort : x.length < n
    · rw [if_neg (by omega), if_pos hshort, Nat.min_eq_right (by omega), List.take_length,
        List.drop_length]
      rfl
    · rw [if_pos (by omega), if_neg hshort, Nat.min_eq_left (by omega)]
      rfl

/-- A body that ends with the connection takes everything. -/
theorem loopBody_eofBody (h : p.Bounded) (hs : p.state = .EofBody) (x : Bytes) :
    loopBody (p, x) =
      if p.response.body.length + x.length ≤ p.limits.maxBodyBytes then
        .inl (.finished .NeedMore (p.grown x) [])
      else .inl (.finished .BodyTooLarge (p.fail .BodyTooLarge) x) := by
  have hbody := h.body
  have hstep : loopBody (p, x) = (p.eofBodyStep x).next := by
    show (p.step x).next = _
    unfold step
    rw [hs]
  rw [hstep]
  unfold eofBodyStep
  by_cases hx : x = []
  · subst hx
    rw [if_neg (by simp), if_pos (by simpa using hbody), grown_nil]
    rfl
  · rw [if_pos (by simpa using hx), Iteration.after_next]
    by_cases hroom : p.response.body.length + x.length ≤ p.limits.maxBodyBytes
    · rw [appendBody_of_le h hroom, if_pos hroom]
      rfl
    · rw [appendBody_of_gt h hroom, if_neg hroom]
      rfl

/-- A chunk whose size leaves no room for its CRLF is waited for, or leads out of bounds. -/
theorem loopBody_chunkOverflow (hs : p.state = .ChunkBody) (hlarge : sizeModulus ≤ p.chunkBytes + 2)
    (hx : x.length ≤ vectorMaxSize) :
    loopBody (p, x) = if x.length < sizeAdd p.chunkBytes 2 then .inl (.finished .NeedMore p x)
      else .inl .outOfBounds := by
  have hnone : x[p.chunkBytes]? = none := by
    apply List.getElem?_eq_none
    unfold sizeModulus at hlarge
    unfold vectorMaxSize at hx
    omega
  have hstep : loopBody (p, x) = (p.chunkBodyStep x).next := by
    show (p.step x).next = _
    unfold step
    rw [hs]
  rw [hstep]
  unfold chunkBodyStep
  dsimp only
  rw [Iteration.after_next]
  by_cases hshort : x.length < sizeAdd p.chunkBytes 2
  · rw [if_pos hshort, if_pos hshort]
    rfl
  · rw [if_neg hshort, if_neg hshort, Iteration.after_next, hnone]

/-- Any other chunk is looked at as soon as it is all there. -/
theorem loopBody_chunkBody_append (hs : p.state = .ChunkBody)
    (hsmall : p.chunkBytes + 2 < sizeModulus) (hx : p.chunkBytes + 2 ≤ x.length) :
    (∃ q, ∀ z, loopBody (p, x ++ z) = .inr (q, x.drop (p.chunkBytes + 2) ++ z)) ∨
      ∃ r q, r ≠ .NeedMore ∧ ∀ z, loopBody (p, x ++ z) = .inl (.finished r q (x ++ z)) := by
  have hadd : sizeAdd p.chunkBytes 2 = p.chunkBytes + 2 := if_pos hsmall
  have hadd₁ : sizeAdd p.chunkBytes 1 = p.chunkBytes + 1 := if_pos (by omega)
  have hstep : ∀ z, loopBody (p, x ++ z) = (p.chunkBodyStep (x ++ z)).next := by
    intro z
    show (p.step (x ++ z)).next = _
    unfold step
    rw [hs]
  -- what the step looks at lies in `x`: both bytes of the CRLF and the chunk before it
  have hlong : ∀ z : Bytes, ¬(x ++ z).length < p.chunkBytes + 2 := by
    intro z
    rw [List.length_append]
    omega
  obtain ⟨a, ha⟩ : ∃ a, x[p.chunkBytes]? = some a := ⟨_, List.getElem?_eq_getElem (by omega)⟩
  obtain ⟨b, hb⟩ : ∃ b, x[p.chunkBytes + 1]? = some b := ⟨_, List.getElem?_eq_getElem (by omega)⟩
  have ha' : ∀ z : Bytes, (x ++ z)[p.chunkBytes]? = some a := by
    intro z
    rw [List.getElem?_append_left (by omega), ha]
  have hb' : ∀ z : Bytes, (x ++ z)[p.chunkBytes + 1]? = some b := by
    intro z
    rw [List.getElem?_append_left (by omega), hb]
  have htake : ∀ z : Bytes, (x ++ z).take p.chunkBytes = x.take p.chunkBytes := by
    intro z
    rw [List.take_append_of_le_length (by omega)]
  have hdrop : ∀ z : Bytes, (x ++ z).drop (p.chunkBytes + 2) = x.drop (p.chunkBytes + 2) ++ z := by
    intro z
    rw [List.drop_append_of_le_length (by omega)]
  -- the three ends: no CRLF, a body too large, the next chunk
  by_cases hcrlf : a ≠ 13 ∨ b ≠ 10
  · refine .inr ⟨.BadResponse, p.fail .BadResponse, by simp, fun z => ?_⟩
    rw [hstep]
    unfold chunkBodyStep
    simp only [hadd, hadd₁, Iteration.after_next]
    rw [if_neg (hlong z), Iteration.after_next, ha', hb']
    dsimp only
    rw [if_pos hcrlf]
    rfl
  · cases happend : p.appendBody (x.take p.chunkBytes) with
    | none =>
      refine .inr ⟨.BodyTooLarge, p.fail .BodyTooLarge, by simp, fun z => ?_⟩
      rw [hstep]
      unfold chunkBodyStep
      simp only [hadd, hadd₁, Iteration.after_next]
      rw [if_neg (hlong z), Iteration.after_next, ha', hb']
      dsimp only
      rw [if_neg hcrlf, Iteration.after_next, htake, happend]
      rfl
    | some p' =>
      refine .inl ⟨{ p' with state := .ChunkSize }, fun z => ?_⟩
      rw [hstep]
      unfold chunkBodyStep
      simp only [hadd, hadd₁, Iteration.after_next]
      rw [if_neg (hlong z), Iteration.after_next, ha', hb']
      dsimp only
      rw [if_neg hcrlf, Iteration.after_next, htake, happend, hdrop]
      rfl

/-- The part of a chunk is not looked at. -/
theorem loopBody_chunkBody_short (hs : p.state = .ChunkBody)
    (hx : x.length < sizeAdd p.chunkBytes 2) :
    loopBody (p, x) = .inl (.finished .NeedMore p x) := by
  have hstep : loopBody (p, x) = (p.chunkBodyStep x).next := by
    show (p.step x).next = _
    unfold step
    rw [hs]
  rw [hstep]
  unfold chunkBodyStep
  dsimp only
  rw [Iteration.after_next, if_pos hx]
  rfl

/-! ### Lines -/

/-- The parser reads lines. -/
def ReadsLines (p : HttpResponseParser) : Prop :=
  p.state ≠ .FixedBody ∧ p.state ≠ .ChunkBody ∧ p.state ≠ .EofBody

theorem loopBody_splitLine (hs : p.ReadsLines) (hsplit : splitLine input = some (line, rest)) :
    loopBody (p, input) = (p.lineStep line rest).next := by
  have hstep : (p.step input).next = (p.lineStep line rest).next := by
    unfold step
    split
    · next h => exact absurd h hs.1
    · next h => exact absurd h hs.2.1
    · next h => exact absurd h hs.2.2
    · rw [hsplit]
      rfl
  exact hstep

theorem loopBody_unfinished (hs : p.ReadsLines) (hsplit : splitLine input = none) :
    loopBody (p, input) = (p.partialLineStep input).next := by
  have hstep : (p.step input).next = (p.partialLineStep input).next := by
    unfold step
    split
    · next h => exact absurd h hs.1
    · next h => exact absurd h hs.2.1
    · next h => exact absurd h hs.2.2
    · rw [hsplit]
  exact hstep

/-- What an iteration does, whatever bytes are left. -/
def Settled (it : Bytes → Iteration) : Prop :=
  (∃ q, ∀ rest, (it rest).next = .inr (q, rest)) ∨
    ∃ r q, r ≠ .NeedMore ∧ ∀ rest, (it rest).next = .inl (.finished r q rest)

theorem settled_failing (p : HttpResponseParser) {r : ResponseParseResult} (hr : r ≠ .NeedMore) :
    Settled (p.failing r) :=
  .inr ⟨r, p.fail r, hr, fun _ => rfl⟩

theorem settled_continuing (p : HttpResponseParser) : Settled p.continuing :=
  .inl ⟨p, fun _ => rfl⟩

/-- A line of the headers or the trailers, once it is counted. -/
theorem settled_countedLine (read : HttpResponseParser) (line : Bytes) :
    Settled fun rest =>
      if read.limits.maxHeaderBytes < read.headerBytes then read.failing .HeaderTooLarge rest
      else if read.state = .Trailers then read.trailerStep line rest
      else if line.isEmpty then read.finishHeadersStep rest
      else read.headerStep line rest := by
  by_cases hlarge : read.limits.maxHeaderBytes < read.headerBytes
  · simp only [if_pos hlarge]
    exact settled_failing read (by simp)
  simp only [if_neg hlarge]
  by_cases htrailers : read.state = .Trailers
  · simp only [if_pos htrailers]
    unfold trailerStep
    by_cases hempty : line.isEmpty
    · simp only [if_pos hempty]
      exact .inr ⟨_, _, by simp, fun _ => rfl⟩
    · simp only [if_neg hempty]
      by_cases hname : !isValidHeaderName (line.takeWhile (· ≠ 58))
      · simp only [if_pos hname]
        exact settled_failing read (by simp)
      · simp only [if_neg hname]
        exact settled_continuing read
  simp only [if_neg htrailers]
  by_cases hempty : line.isEmpty
  · simp only [if_pos hempty]
    unfold finishHeadersStep
    -- none of the ends of the headers looks at what follows
    rcases read.finishHeaders_cases with ⟨p', hfinish, _⟩ | ⟨e, he, hfinish⟩
    · simp only [hfinish]
      by_cases hcomplete : p'.state = .Complete
      · simp only [if_pos hcomplete]
        exact .inr ⟨.Complete, p', by simp, fun _ => rfl⟩
      · simp only [if_neg hcomplete]
        exact settled_continuing p'
    · simp only [hfinish]
      rcases he with rfl | rfl | rfl <;> exact .inr ⟨_, _, by simp, fun _ => rfl⟩
  · simp only [if_neg hempty]
    unfold headerStep
    rcases read.parseHeader_cases line with ⟨name, value, hparse, _⟩ | ⟨e, he, hparse⟩
    · simp only [hparse]
      exact .inl ⟨_, fun _ => rfl⟩
    · simp only [hparse]
      rcases he with rfl | rfl <;> exact .inr ⟨_, _, by simp, fun _ => rfl⟩

/-- Whatever a line leads to, it leaves the bytes after it alone. -/
theorem settled_lineStep (p : HttpResponseParser) (line : Bytes) : Settled (p.lineStep line) := by
  unfold lineStep
  by_cases hstatus : p.state = .StatusLine
  · simp only [if_pos hstatus]
    unfold statusLineStep
    by_cases hlarge : p.limits.maxStatusLineBytes < line.length
    · simp only [if_pos hlarge]
      exact settled_failing p (by simp)
    · simp only [if_neg hlarge]
      obtain ⟨status, reason, ⟨hparse, _⟩ | hparse⟩ := p.parseStatusLine_cases line
      · simp only [hparse]
        exact .inl ⟨_, fun _ => rfl⟩
      · simp only [hparse]
        exact .inr ⟨_, _, by simp, fun _ => rfl⟩
  simp only [if_neg hstatus]
  by_cases hsize : p.state = .ChunkSize
  · simp only [if_pos hsize]
    unfold chunkSizeStep
    dsimp only
    by_cases hempty : (line.takeWhile (· ≠ 59)).isEmpty ∨ 16 < (line.takeWhile (· ≠ 59)).length
    · simp only [if_pos hempty]
      exact settled_failing p (by simp)
    · simp only [if_neg hempty]
      cases fromChars 16 (line.takeWhile (· ≠ 59)) with
      | none => exact settled_failing p (by simp)
      | some parsed => exact settled_continuing _
  simp only [if_neg hsize]
  exact settled_countedLine
    { p with headerBytes := sizeAdd p.headerBytes (line.length + 2) } line

/-! ### One iteration -/

/-- The bytes of a line without its end are over a limit. -/
def Overruns (p : HttpResponseParser) (input : Bytes) : Prop :=
  p.state = .StatusLine ∧ p.limits.maxStatusLineBytes < input.length ∨
    (p.state = .Headers ∨ p.state = .Trailers) ∧
      p.limits.maxHeaderBytes < p.headerBytes + input.length

theorem partialLineStep_next (hp : p.Reading) (hinput : input.length ≤ vectorMaxSize) :
    (p.Overruns input ∧ (p.partialLineStep input).next =
        .inl (.finished .HeaderTooLarge (p.fail .HeaderTooLarge) input)) ∨
      ¬p.Overruns input ∧ (p.partialLineStep input).next = .inl (.finished .NeedMore p input) := by
  have hadd : sizeAdd p.headerBytes input.length = p.headerBytes + input.length :=
    sizeAdd_of_sizes (hp.1.header hp.2.2) hinput
  unfold partialLineStep Overruns
  by_cases hstatus : p.state = .StatusLine
  · rw [if_pos hstatus]
    by_cases hlarge : p.limits.maxStatusLineBytes < input.length
    · rw [if_pos hlarge]
      exact .inl ⟨.inl ⟨hstatus, hlarge⟩, rfl⟩
    · rw [if_neg hlarge]
      refine .inr ⟨?_, rfl⟩
      rintro (⟨_, h⟩ | ⟨h, _⟩)
      · exact hlarge h
      · rcases h with h | h <;> rw [hstatus] at h <;> cases h
  rw [if_neg hstatus]
  -- the two states with a limit on the bytes of the block
  by_cases hheaders : p.state = .Headers ∨ p.state = .Trailers
  · rw [if_pos hheaders, Iteration.after_next, hadd]
    by_cases hlarge : p.limits.maxHeaderBytes < p.headerBytes + input.length
    · rw [if_pos hlarge]
      exact .inl ⟨.inr ⟨hheaders, hlarge⟩, rfl⟩
    · rw [if_neg hlarge]
      refine .inr ⟨?_, rfl⟩
      rintro (⟨h, _⟩ | ⟨_, h⟩)
      · exact hstatus h
      · exact hlarge h
  · rw [if_neg hheaders]
    refine .inr ⟨?_, rfl⟩
    rintro (⟨h, _⟩ | ⟨h, _⟩)
    · exact hstatus h
    · exact hheaders h

/-- A status line that is too long. -/
theorem lineStep_longStatus (hs : p.state = .StatusLine)
    (hlarge : p.limits.maxStatusLineBytes < line.length) :
    (p.lineStep line rest).next =
      .inl (.finished .HeaderTooLarge (p.fail .HeaderTooLarge) rest) := by
  unfold lineStep
  rw [if_pos hs]
  unfold statusLineStep
  rw [if_pos hlarge]
  rfl

/-- A header or trailer line that is too long. -/
theorem lineStep_longHeader (hp : p.Reading) (hs : p.state = .Headers ∨ p.state = .Trailers)
    (hline : line.length + 2 ≤ vectorMaxSize)
    (hlarge : p.limits.maxHeaderBytes < p.headerBytes + (line.length + 2)) (rest : Bytes) :
    ∃ q : HttpResponseParser, q.state = .Error ∧
      (p.lineStep line rest).next = .inl (.finished .HeaderTooLarge q rest) := by
  have hadd : sizeAdd p.headerBytes (line.length + 2) = p.headerBytes + (line.length + 2) :=
    sizeAdd_of_sizes (hp.1.header hp.2.2) hline
  have hstate : p.state ≠ .StatusLine ∧ p.state ≠ .ChunkSize := by
    rcases hs with hs | hs <;> simp [hs]
  unfold lineStep
  rw [if_neg hstate.1, if_neg hstate.2]
  dsimp only
  rw [hadd, Iteration.after_next, if_pos hlarge]
  exact ⟨_, rfl, rfl⟩

/-- Bytes that are too many for a line that has not ended are too many when more follow, except
    at the end of a status line. -/
theorem overrun_append (hp : p.Reading) (hs : p.ReadsLines)
    (hsize : (x ++ z).length ≤ vectorMaxSize)
    (hsplit : splitLine x = none) (hfull : p.Overruns x) (hgood : ¬p.MissesFeed x z) :
    ∃ q left, q.state = .Error ∧ loopBody (p, x ++ z) =
      .inl (.finished .HeaderTooLarge q left) := by
  have hlength : (x ++ z).length = x.length + z.length := List.length_append
  cases hwhole : splitLine (x ++ z) with
  | none =>
    rw [loopBody_unfinished hs hwhole]
    have hstill : p.Overruns (x ++ z) := by
      rcases hfull with ⟨hstate, hlarge⟩ | ⟨hstate, hlarge⟩
      · exact .inl ⟨hstate, by omega⟩
      · exact .inr ⟨hstate, by omega⟩
    rcases partialLineStep_next hp hsize with ⟨_, hnext⟩ | ⟨hnot, _⟩
    · exact ⟨_, _, rfl, hnext⟩
    · exact absurd hstill hnot
  | some split =>
    obtain ⟨line, rest⟩ := split
    -- all of `x` but a carriage return is in the line
    have hx := splitLine_none_length hsplit hwhole
    have hline := splitLine_length hwhole
    rw [loopBody_splitLine hs hwhole]
    rcases hfull with ⟨hstate, hlarge⟩ | ⟨hstate, hlarge⟩
    · have hne : line.length ≠ p.limits.maxStatusLineBytes := fun heq =>
        hgood ⟨hstate, hsplit, hlarge, line, rest, hwhole, heq⟩
      exact ⟨_, _, rfl, lineStep_longStatus hstate (by omega)⟩
    · obtain ⟨q, hq, hnext⟩ := lineStep_longHeader hp hstate
        (by omega : line.length + 2 ≤ vectorMaxSize) (by omega) rest
      exact ⟨q, rest, hq, hnext⟩

theorem ask_needMore (p : HttpResponseParser) (rest : Bytes) :
    outcomes.ask (.finished .NeedMore p rest) ≠ none := by
  simp [outcomes]

/-- **A final outcome** stays what it is when more follows. -/
theorem ends_append {o : ParseOutcome} (hp : p.Reading) (hsize : (x ++ z).length ≤ vectorMaxSize)
    (hdone : loopBody (p, x) = .inl o) (hfinal : outcomes.ask o = none)
    (hgood : ¬p.MissesFeed x z) :
    ∃ o', loopBody (p, x ++ z) = .inl o' ∧ Alike (outcomes.leave o z) o' := by
  have hlength : (x ++ z).length = x.length + z.length := List.length_append
  by_cases hfixed : p.state = .FixedBody
  · -- the body is complete, and what follows is left
    rw [loopBody_fixedBody hp.1 hfixed] at hdone ⊢
    generalize hn : p.expectedBodyBytes - p.response.body.length = n at hdone ⊢
    by_cases hshort : x.length < n
    · rw [if_pos hshort] at hdone
      obtain rfl := Sum.inl.inj hdone
      exact absurd hfinal (ask_needMore _ _)
    · rw [if_neg hshort] at hdone
      obtain rfl := Sum.inl.inj hdone
      rw [if_neg (by omega), List.take_append_of_le_length (by omega),
        List.drop_append_of_le_length (by omega)]
      exact ⟨_, rfl, .same _⟩
  -- a body to the end of the stream ends only when it is too large, and stays so
  by_cases heof : p.state = .EofBody
  · rw [loopBody_eofBody hp.1 heof] at hdone ⊢
    by_cases hroom : p.response.body.length + x.length ≤ p.limits.maxBodyBytes
    · rw [if_pos hroom] at hdone
      obtain rfl := Sum.inl.inj hdone
      exact absurd hfinal (ask_needMore _ _)
    · rw [if_neg hroom] at hdone
      obtain rfl := Sum.inl.inj hdone
      rw [if_neg (by omega)]
      exact ⟨_, rfl, .same _⟩
  by_cases hchunk : p.state = .ChunkBody
  · -- a chunk whose size and CRLF do not wrap is judged by its own bytes
    by_cases hsmall : p.chunkBytes + 2 < sizeModulus
    · have hadd : sizeAdd p.chunkBytes 2 = p.chunkBytes + 2 := if_pos hsmall
      by_cases hshort : x.length < p.chunkBytes + 2
      · rw [loopBody_chunkBody_short hchunk (by omega)] at hdone
        obtain rfl := Sum.inl.inj hdone
        exact absurd hfinal (ask_needMore _ _)
      · rcases loopBody_chunkBody_append hchunk hsmall (Nat.not_lt.mp hshort) with
          ⟨q, hq⟩ | ⟨r, q, hr, hq⟩
        · have hx := hq []
          rw [List.append_nil, hdone] at hx
          cases hx
        · have hx := hq []
          rw [List.append_nil, hdone] at hx
          obtain rfl := Sum.inl.inj hx
          exact ⟨_, hq z, .same _⟩
    · -- a size that wraps leads out of bounds however much follows
      have hlarge : sizeModulus ≤ p.chunkBytes + 2 := by omega
      rw [loopBody_chunkOverflow hchunk hlarge (by omega)] at hdone
      rw [loopBody_chunkOverflow hchunk hlarge hsize]
      by_cases hshort : x.length < sizeAdd p.chunkBytes 2
      · rw [if_pos hshort] at hdone
        obtain rfl := Sum.inl.inj hdone
        exact absurd hfinal (ask_needMore _ _)
      · rw [if_neg hshort] at hdone
        obtain rfl := Sum.inl.inj hdone
        rw [if_neg (by omega)]
        exact ⟨_, rfl, .same _⟩
  have hlines : p.ReadsLines := ⟨hfixed, hchunk, heof⟩
  cases hsplit : splitLine x with
  | none =>
    rw [loopBody_unfinished hlines hsplit] at hdone
    have hsmall : x.length ≤ vectorMaxSize := by omega
    rcases partialLineStep_next hp hsmall with ⟨hfull, hnext⟩ | ⟨_, hnext⟩
    · obtain rfl := Sum.inl.inj (hnext.symm.trans hdone)
      -- an overrun line is refused later too, with other bytes left over
      obtain ⟨q, left, hq, hnext'⟩ := overrun_append hp hlines hsize hsplit hfull hgood
      exact ⟨_, hnext', .failed .HeaderTooLarge (by simp) (by simp) rfl hq⟩
    · obtain rfl := Sum.inl.inj (hnext.symm.trans hdone)
      exact absurd hfinal (ask_needMore _ _)
  | some split =>
    obtain ⟨line, rest⟩ := split
    rw [loopBody_splitLine hlines hsplit] at hdone
    rw [loopBody_splitLine hlines (splitLine_append_right hsplit z)]
    rcases settled_lineStep p line with ⟨q, hq⟩ | ⟨r, q, _, hq⟩
    · rw [hq] at hdone
      cases hdone
    · rw [hq] at hdone ⊢
      obtain rfl := Sum.inl.inj hdone
      exact ⟨_, rfl, .same _⟩

/-- An iteration that waits in a body has taken what there is, and goes on from there as if all
    had come at once. -/
theorem waits_takesAll (hp : p.Reading) (hs : p.TakesAll)
    (hdone : loopBody (p, x) = .inl (.finished .NeedMore q y)) :
    q.TakesAll ∧ y = [] ∧ ∀ z, q.Bounded →
      ∃ o o', loopBody (q, z) = .inl o ∧ loopBody (p, x ++ z) = .inl o' ∧ Alike o o' := by
  rcases hs with hs | hs
  · rw [loopBody_fixedBody hp.1 hs] at hdone
    have hle := (hp.1.fixed hs).1
    generalize hn : p.expectedBodyBytes - p.response.body.length = n at hdone
    by_cases hshort : x.length < n
    · rw [if_pos hshort] at hdone
      obtain ⟨_, rfl, rfl⟩ := ParseOutcome.finished.inj (Sum.inl.inj hdone)
      refine ⟨.inl hs, rfl, fun z hq => ?_⟩
      -- what is missing of the body is less by what came
      have hgrown : (p.grown x).expectedBodyBytes - (p.grown x).response.body.length =
          n - x.length := by
        show p.expectedBodyBytes - (p.response.body ++ x).length = n - x.length
        rw [List.length_append]
        omega
      have hx : x.take n = x ∧ x.drop n = [] :=
        ⟨List.take_of_length_le (by omega), List.drop_of_length_le (by omega)⟩
      rw [loopBody_fixedBody hq hs, loopBody_fixedBody hp.1 hs, hgrown, hn, List.length_append,
        List.take_append, List.drop_append, hx.1, hx.2, grown_grown, grown_grown, List.nil_append]
      by_cases hshort' : x.length + z.length < n
      · rw [if_pos hshort', if_pos (by omega)]
        exact ⟨_, _, rfl, rfl, .same _⟩
      · rw [if_neg hshort', if_neg (by omega)]
        exact ⟨_, _, rfl, rfl, .same _⟩
    · rw [if_neg hshort] at hdone
      cases (ParseOutcome.finished.inj (Sum.inl.inj hdone)).1
  · rw [loopBody_eofBody hp.1 hs] at hdone
    by_cases hroom : p.response.body.length + x.length ≤ p.limits.maxBodyBytes
    · rw [if_pos hroom] at hdone
      obtain ⟨_, rfl, rfl⟩ := ParseOutcome.finished.inj (Sum.inl.inj hdone)
      refine ⟨.inr hs, rfl, fun z hq => ?_⟩
      -- the room is counted from the body as it has grown
      have hgrown : (p.grown x).response.body.length = p.response.body.length + x.length := by
        show (p.response.body ++ x).length = _
        rw [List.length_append]
      have hlimits : (p.grown x).limits = p.limits := rfl
      rw [loopBody_eofBody hq hs, loopBody_eofBody hp.1 hs, hgrown, hlimits, List.length_append,
        Nat.add_assoc, grown_grown]
      by_cases hroom' : p.response.body.length + (x.length + z.length) ≤ p.limits.maxBodyBytes
      · rw [if_pos hroom', if_pos hroom']
        exact ⟨_, _, rfl, rfl, .same _⟩
      · rw [if_neg hroom', if_neg hroom']
        exact ⟨_, _, rfl, rfl, .failed .BodyTooLarge (by simp) (by simp) rfl rfl⟩
    · rw [if_neg hroom] at hdone
      cases (ParseOutcome.finished.inj (Sum.inl.inj hdone)).1

/-- Anywhere else an iteration that waits changes nothing. -/
theorem waits_same (hp : p.Reading) (hs : ¬p.TakesAll) (hsize : x.length ≤ vectorMaxSize)
    (hdone : loopBody (p, x) = .inl (.finished .NeedMore q y)) : q = p ∧ y = x := by
  have hsame : ∀ {r : ResponseParseResult} {p' : HttpResponseParser} {rest : Bytes},
      (Sum.inl (.finished r p' rest) : ParseOutcome ⊕ HttpResponseParser × Bytes) =
        .inl (.finished .NeedMore q y) → r = .NeedMore ∧ p' = q ∧ rest = y :=
    fun heq => ParseOutcome.finished.inj (Sum.inl.inj heq)
  by_cases hchunk : p.state = .ChunkBody
  · by_cases hsmall : p.chunkBytes + 2 < sizeModulus
    · have hadd : sizeAdd p.chunkBytes 2 = p.chunkBytes + 2 := if_pos hsmall
      by_cases hshort : x.length < p.chunkBytes + 2
      · rw [loopBody_chunkBody_short hchunk (by omega)] at hdone
        obtain ⟨_, rfl, rfl⟩ := hsame hdone
        exact ⟨rfl, rfl⟩
      · -- a chunk that is there is consumed or refused
        rcases loopBody_chunkBody_append hchunk hsmall (Nat.not_lt.mp hshort) with
          ⟨q', hq⟩ | ⟨r, q', hr, hq⟩
        · have hx := hq []
          rw [List.append_nil, hdone] at hx
          cases hx
        · have hx := hq []
          rw [List.append_nil, hdone] at hx
          exact absurd (hsame hx.symm).1 hr
    · rw [loopBody_chunkOverflow hchunk (by omega) hsize] at hdone
      by_cases hshort : x.length < sizeAdd p.chunkBytes 2
      · rw [if_pos hshort] at hdone
        obtain ⟨_, rfl, rfl⟩ := hsame hdone
        exact ⟨rfl, rfl⟩
      · rw [if_neg hshort] at hdone
        cases hdone
  · have hlines : p.ReadsLines := ⟨fun h => hs (.inl h), hchunk, fun h => hs (.inr h)⟩
    cases hsplit : splitLine x with
    | none =>
      rw [loopBody_unfinished hlines hsplit] at hdone
      rcases partialLineStep_next hp hsize with ⟨_, hnext⟩ | ⟨_, hnext⟩
      · cases (hsame (hnext.symm.trans hdone)).1
      · obtain ⟨_, rfl, rfl⟩ := hsame (hnext.symm.trans hdone)
        exact ⟨rfl, rfl⟩
    | some split =>
      obtain ⟨line, rest⟩ := split
      rw [loopBody_splitLine hlines hsplit] at hdone
      rcases settled_lineStep p line with ⟨q', hq⟩ | ⟨r, q', hr, hq⟩
      · rw [hq] at hdone
        cases hdone
      · rw [hq] at hdone
        exact absurd (hsame hdone).1 hr

/-- An iteration that continues does not look at what follows the part that it consumes. -/
theorem continues_append (hp : p.Reading) (hsize : x.length ≤ vectorMaxSize)
    (hnext : loopBody (p, x) = .inr (q, y)) :
    ∃ c, x = c ++ y ∧ ∀ z, loopBody (p, c ++ z) = .inr (q, z) := by
  by_cases hchunk : p.state = .ChunkBody
  · by_cases hsmall : p.chunkBytes + 2 < sizeModulus
    · by_cases hshort : x.length < p.chunkBytes + 2
      · have hadd : sizeAdd p.chunkBytes 2 = p.chunkBytes + 2 := if_pos hsmall
        rw [loopBody_chunkBody_short hchunk (by omega)] at hnext
        cases hnext
      · -- the whole chunk is consumed, and the step reads no further
        have hsplit : x = x.take (p.chunkBytes + 2) ++ x.drop (p.chunkBytes + 2) :=
          (List.take_append_drop _ _).symm
        have htake : (x.take (p.chunkBytes + 2)).length = p.chunkBytes + 2 :=
          List.length_take_of_le (by omega)
        rcases loopBody_chunkBody_append (x := x.take (p.chunkBytes + 2)) hchunk hsmall
          (by omega) with ⟨q', hq⟩ | ⟨r, q', _, hq⟩
        · have hdrop : (x.take (p.chunkBytes + 2)).drop (p.chunkBytes + 2) = [] :=
            List.drop_of_length_le (by omega)
          simp only [hdrop, List.nil_append] at hq
          have hwhole := hq (x.drop (p.chunkBytes + 2))
          rw [← hsplit, hnext] at hwhole
          obtain ⟨rfl, rfl⟩ := Prod.mk.inj (Sum.inr.inj hwhole)
          exact ⟨_, hsplit, hq⟩
        · have hwhole := hq (x.drop (p.chunkBytes + 2))
          rw [← hsplit, hnext] at hwhole
          cases hwhole
    · rw [loopBody_chunkOverflow hchunk (by omega) hsize] at hnext
      split at hnext <;> cases hnext
  · have hlines : p.ReadsLines := by
      refine ⟨fun hs => ?_, hchunk, fun hs => ?_⟩
      · rw [loopBody_fixedBody hp.1 hs] at hnext
        split at hnext <;> cases hnext
      · rw [loopBody_eofBody hp.1 hs] at hnext
        split at hnext <;> cases hnext
    cases hsplit : splitLine x with
    | none =>
      rw [loopBody_unfinished hlines hsplit] at hnext
      rcases partialLineStep_next hp hsize with ⟨_, heq⟩ | ⟨_, heq⟩
      · cases heq.symm.trans hnext
      · cases heq.symm.trans hnext
    | some split =>
      obtain ⟨line, rest⟩ := split
      rw [loopBody_splitLine hlines hsplit] at hnext
      rcases settled_lineStep p line with ⟨q', hq⟩ | ⟨r, q', _, hq⟩
      · rw [hq] at hnext
        obtain ⟨rfl, rfl⟩ := Prod.mk.inj (Sum.inr.inj hnext)
        -- the line is consumed, and the next one may be any
        refine ⟨line ++ crlf, splitLine_eq_some hsplit, fun z => ?_⟩
        rw [loopBody_splitLine hlines (splitLine_replace hsplit z), hq]
      · rw [hq] at hnext
        cases hnext

/-- **The parser reads locally**, up to the missing line feed. -/
theorem parse_local :
    Incremental.Local outcomes parse loopBody vectorMaxSize Reading TakesAll Alike MissesFeed where
  refl := .same
  trans := fun _ _ _ => Alike.trans
  parses := fun p input hp hsize => by
    have hparse : p.parse input = p.parseLoop input := by
      unfold parse
      rw [if_neg hp.2.1, if_neg hp.2.2]
    rw [hparse]
    exact parse_ends p hsize
  continues := fun p x q y hp hsize hnext => by
    have hadv := (step_advances hp.1 hp.2 hsize).continued hnext
    exact ⟨⟨hadv.bounded, hadv.running (.inl rfl)⟩, continues_append hp hsize hnext⟩
  waits := fun p x q y hp hsize hdone => by
    have hadv := (step_advances hp.1 hp.2 hsize).finished hdone
    refine ⟨⟨hadv.bounded, hadv.running (.inr rfl)⟩, ?_⟩
    by_cases hs : p.TakesAll
    · obtain ⟨hq, rfl, hsame⟩ := waits_takesAll hp hs hdone
      exact .inr ⟨hq, Nat.zero_le _, fun z _ => hsame z hadv.bounded⟩
    · exact .inl (waits_same hp hs hsize hdone)
  ends := fun p x z o hp hsize hdone hfinal hgood => ends_append hp hsize hdone hfinal hgood
  last := fun p x t hs hnext => by
    change (p.step x).next = .inr (t.1, t.2) at hnext
    unfold step at hnext
    rcases hs with hs | hs
    · rw [hs] at hnext
      exact fixedBodyStep_ends hnext
    · rw [hs] at hnext
      exact eofBodyStep_ends hnext
  last_good := fun p x z hs hbad => by
    rcases hs with hs | hs <;> rw [hbad.1] at hs <;> cases hs

/-! ### Where the exception is met -/

/-- The parser before a response. -/
def fresh (limits : HttpResponseParserLimits) (headRequest : Bool) : HttpResponseParser :=
  { limits := limits, headRequest := headRequest }

/-- A status line that the parser comes to in `s`, at the byte `start`, is exactly as long as the
    limit. -/
def FullStatusLine (limits : HttpResponseParserLimits) (headRequest : Bool) (s : Bytes)
    (start : Nat) : Prop :=
  ∃ p line rest, p.state = .StatusLine ∧
    Loop.Reaches loopBody (fresh limits headRequest, s) (p, s.drop start) ∧ start ≤ s.length ∧
    splitLine (s.drop start) = some (line, rest) ∧ line.length = limits.maxStatusLineBytes

/-- A fragment ends between the carriage return and the line feed of such a status line. -/
def CutsStatusLine (limits : HttpResponseParserLimits) (headRequest : Bool)
    (fragments : List Bytes) : Prop :=
  ∃ before after start, fragments = before ++ after ∧
    FullStatusLine limits headRequest fragments.flatten start ∧
    before.flatten.length = start + limits.maxStatusLineBytes + 1

/-- Bytes without a line of that size are not cut so. -/
theorem not_cutsStatusLine (hshort : fragments.flatten.length < limits.maxStatusLineBytes + 2) :
    ¬CutsStatusLine limits headRequest fragments := by
  rintro ⟨before, after, start, -, ⟨p, line, rest, -, -, -, hsplit, hline⟩, -⟩
  have hlength := splitLine_length hsplit
  rw [List.length_drop] at hlength
  omega

theorem reading_fresh (hlimits : limits.Accepted) : (fresh limits headRequest).Reading :=
  ⟨bounded_reset (p := { limits := limits }) hlimits headRequest, by simp [Running, fresh]⟩

/-- What the loop has come to keeps the limits, and is a parser that reads. -/
theorem reaches_advances {a b : HttpResponseParser × Bytes} (hreaches : Loop.Reaches loopBody a b)
    (ha : a.1.Reading) (hsize : a.2.length ≤ vectorMaxSize) :
    b.1.Reading ∧ b.1.limits = a.1.limits ∧ b.2 <:+ a.2 := by
  refine hreaches.inv
    (fun s => s.1.Reading ∧ s.1.limits = a.1.limits ∧ s.2 <:+ a.2) ?_ ⟨ha, rfl, List.suffix_refl _⟩
  rintro ⟨p, x⟩ ⟨q, y⟩ ⟨hp, hlimits, hx⟩ hnext
  have hadv := (step_advances hp.1 hp.2 (Nat.le_trans hx.length_le hsize)).continued hnext
  exact ⟨⟨hadv.bounded, hadv.running (.inl rfl)⟩, hadv.limits.trans hlimits, hadv.suffix.trans hx⟩

theorem meets_iff (hlimits : limits.Accepted) (fragments : List Bytes)
    (hsize : fragments.flatten.length ≤ vectorMaxSize) :
    Incremental.Meets loopBody MissesFeed (fresh limits headRequest) fragments ↔
      CutsStatusLine limits headRequest fragments := by
  have hfresh : (fresh limits headRequest).Reading := reading_fresh hlimits
  constructor
  · rintro ⟨before, after, rfl, p, y, hreaches, hs, hnone, hlarge, line, rest, hsplit, hline⟩
    rw [List.flatten_append, List.length_append] at hsize
    have hbefore : before.flatten.length ≤ vectorMaxSize := by omega
    obtain ⟨_, c, hc, hreplace⟩ := parse_local.reaches_replace hreaches hfresh hbefore
    have hkept : p.limits = limits := (reaches_advances hreaches hfresh hbefore).2.1
    have hc : before.flatten = c ++ y := hc
    have hle := splitLine_none_length hnone hsplit
    rw [hkept] at hlarge hline
    have hwhole : (before ++ after).flatten = c ++ (y ++ after.flatten) := by
      rw [List.flatten_append, hc, List.append_assoc]
    refine ⟨before, after, c.length, rfl, ⟨p, line, rest, hs, ?_⟩, ?_⟩
    · rw [hwhole, List.drop_left' rfl]
      exact ⟨hreplace _, by simp, hsplit, hline⟩
    · rw [hc, List.length_append]
      omega
  · rintro ⟨before, after, start, rfl,
      ⟨p, line, rest, hs, hreaches, hstart, hsplit, hline⟩, hlength⟩
    obtain ⟨_, c, hc, hreplace⟩ := parse_local.reaches_replace hreaches hfresh hsize
    have hkept : p.limits = limits := (reaches_advances hreaches hfresh hsize).2.1
    have hc : (before ++ after).flatten = c ++ (before ++ after).flatten.drop start := hc
    have hclength : c.length = start := by
      have hsame := congrArg List.length hc
      rw [List.length_append, List.length_drop] at hsame
      omega
    -- the status line starts in `before`, behind the part that is consumed
    have hbefore : before.flatten = c ++ before.flatten.drop start := by
      have htake := congrArg (List.take start) hc
      rw [List.take_left' hclength, List.flatten_append, List.take_append_of_le_length (by omega)]
        at htake
      rw [← htake, List.take_append_drop]
    have hdrop : (before ++ after).flatten.drop start =
        before.flatten.drop start ++ after.flatten := by
      rw [List.flatten_append, List.drop_append_of_le_length (by omega)]
    rw [hdrop] at hsplit
    have hy : (before.flatten.drop start).length = limits.maxStatusLineBytes + 1 := by
      rw [List.length_drop]
      omega
    have hnone : splitLine (before.flatten.drop start) = none := by
      cases hy' : splitLine (before.flatten.drop start) with
      | none => rfl
      | some split =>
        obtain ⟨line', rest'⟩ := split
        have hsame := hsplit.symm.trans (splitLine_append_right hy' after.flatten)
        have hlength' := splitLine_length hy'
        rw [Option.some.injEq, Prod.mk.injEq] at hsame
        rw [← hsame.1] at hlength'
        omega
    refine ⟨before, after, rfl, p, before.flatten.drop start, ?_, hs, hnone, ?_, line, rest,
      hsplit, hkept ▸ hline⟩
    · have hfirst := hreplace (before.flatten.drop start)
      rw [← hbefore] at hfirst
      exact hfirst
    · rw [hkept]
      omega

/-! ### Lines that are too large -/

/-- The line that the parser is at is over a limit, however much of it there is, or is one
    header too many. -/
def SizeFault (p : HttpResponseParser) (input : Bytes) : Prop :=
  match splitLine input with
  | none => p.Overruns input
  | some (line, _) =>
    p.state = .StatusLine ∧ p.limits.maxStatusLineBytes < line.length ∨
      (p.state = .Headers ∨ p.state = .Trailers) ∧
        p.limits.maxHeaderBytes < p.headerBytes + (line.length + 2) ∨
      p.state = .Headers ∧ line ≠ [] ∧ p.limits.maxHeaderCount ≤ p.headerCount

/-- The parser comes to such a line in `s`. -/
def MeetsSizeFault (limits : HttpResponseParserLimits) (headRequest : Bool) (s : Bytes) : Prop :=
  ∃ p rest, Loop.Reaches loopBody (fresh limits headRequest, s) (p, rest) ∧ p.SizeFault rest

/-- Only the number of headers makes a header line too large. -/
theorem parseHeader_result (p : HttpResponseParser) (line : Bytes) :
    (p.parseHeader line).1 = .HeaderTooLarge ↔
      p.limits.maxHeaderCount < sizeAdd p.headerCount 1 := by
  unfold parseHeader
  dsimp only
  by_cases hcount : p.limits.maxHeaderCount < sizeAdd p.headerCount 1
  · rw [if_pos hcount]
    exact ⟨fun _ => hcount, fun _ => rfl⟩
  · rw [if_neg hcount]
    refine ⟨fun hresult => ?_, fun h => absurd h hcount⟩
    exfalso
    revert hresult
    split
    · simp
    split <;> simp

/-- A line that is refused for its size. -/
theorem lineStep_headerTooLarge (hp : p.Reading) (hline : line.length + 2 ≤ vectorMaxSize)
    (hs : p.ReadsLines)
    (hnext : (p.lineStep line rest).next = .inl (.finished .HeaderTooLarge q y)) :
    p.state = .StatusLine ∧ p.limits.maxStatusLineBytes < line.length ∨
      (p.state = .Headers ∨ p.state = .Trailers) ∧
        p.limits.maxHeaderBytes < p.headerBytes + (line.length + 2) ∨
      p.state = .Headers ∧ line ≠ [] ∧ p.limits.maxHeaderCount ≤ p.headerCount := by
  -- the sums of the source do not wrap
  have hadd : sizeAdd p.headerBytes (line.length + 2) = p.headerBytes + (line.length + 2) :=
    sizeAdd_of_sizes (hp.1.header hp.2.2) hline
  have hcount : sizeAdd p.headerCount 1 = p.headerCount + 1 := by
    have hle := hp.1.count hp.2.2
    have hle' := hp.1.header hp.2.2
    exact sizeAdd_of_sizes (by omega) (by unfold vectorMaxSize; omega)
  -- any other result contradicts the hypothesis
  have hresult : ∀ {r : ResponseParseResult} {p' : HttpResponseParser} {left : Bytes},
      (Sum.inl (.finished r p' left) : ParseOutcome ⊕ HttpResponseParser × Bytes) =
        .inl (.finished .HeaderTooLarge q y) → r = .HeaderTooLarge :=
    fun heq => (ParseOutcome.finished.inj (Sum.inl.inj heq)).1
  unfold lineStep at hnext
  by_cases hstatus : p.state = .StatusLine
  · rw [if_pos hstatus] at hnext
    unfold statusLineStep at hnext
    by_cases hlarge : p.limits.maxStatusLineBytes < line.length
    · exact .inl ⟨hstatus, hlarge⟩
    · rw [if_neg hlarge, Iteration.after_next] at hnext
      obtain ⟨status, reason, ⟨hparse, _⟩ | hparse⟩ := p.parseStatusLine_cases line
      · rw [hparse] at hnext
        cases hnext
      · rw [hparse] at hnext
        cases hresult hnext
  rw [if_neg hstatus] at hnext
  by_cases hsize : p.state = .ChunkSize
  · rw [if_pos hsize] at hnext
    unfold chunkSizeStep at hnext
    dsimp only at hnext
    split at hnext
    · cases hresult hnext
    · split at hnext
      · cases hresult hnext
      · cases hnext
  rw [if_neg hsize] at hnext
  dsimp only at hnext
  -- what is left is a line of a header block
  have hheaders : p.state = .Headers ∨ p.state = .Trailers := by
    obtain ⟨hfixed, hchunk, heof⟩ := hs
    obtain ⟨_, hcomplete, herror⟩ := hp
    cases hstate : p.state <;> simp_all
  rw [hadd, Iteration.after_next] at hnext
  by_cases hlarge : p.limits.maxHeaderBytes < p.headerBytes + (line.length + 2)
  · exact .inr (.inl ⟨hheaders, hlarge⟩)
  rw [if_neg hlarge] at hnext
  by_cases htrailers : p.state = .Trailers
  · rw [if_pos htrailers] at hnext
    unfold trailerStep at hnext
    split at hnext
    · cases hresult hnext
    · split at hnext
      · cases hresult hnext
      · cases hnext
  rw [if_neg htrailers] at hnext
  by_cases hempty : line = []
  · rw [if_pos (by simp [hempty])] at hnext
    unfold finishHeadersStep at hnext
    -- the end of the headers gives no HeaderTooLarge
    generalize ({ p with headerBytes := p.headerBytes + (line.length + 2) } :
      HttpResponseParser) = read at hnext
    rcases read.finishHeaders_cases with ⟨p', hfinish, _⟩ | ⟨e, he, hfinish⟩
    · rw [hfinish] at hnext
      dsimp only at hnext
      split at hnext
      · cases hresult hnext
      · cases hnext
    · rw [hfinish] at hnext
      rcases he with rfl | rfl | rfl <;> cases hresult hnext
  · rw [if_neg (by simpa using hempty)] at hnext
    refine .inr (.inr ⟨hheaders.resolve_right htrailers, hempty, ?_⟩)
    unfold headerStep at hnext
    rw [Iteration.after_next] at hnext
    generalize hread : ({ p with headerBytes := p.headerBytes + (line.length + 2) } :
      HttpResponseParser) = read at hnext
    rcases read.parseHeader_cases line with ⟨name, value, hparse, _⟩ | ⟨e, he, hparse⟩
    · rw [hparse] at hnext
      cases hnext
    · rw [hparse] at hnext
      rcases he with rfl | rfl
      · -- the field is one too many
        have hlimit := (read.parseHeader_result line).mp (by rw [hparse])
        rw [← hread] at hlimit
        have hlimit : p.limits.maxHeaderCount < sizeAdd p.headerCount 1 := hlimit
        omega
      · cases hresult hnext

/-- One header too many. -/
theorem lineStep_oneTooMany (hp : p.Reading) (hline : line.length + 2 ≤ vectorMaxSize)
    (hs : p.state = .Headers) (hempty : line ≠ [])
    (hcount : p.limits.maxHeaderCount ≤ p.headerCount) (rest : Bytes) :
    ∃ q, (p.lineStep line rest).next = .inl (.finished .HeaderTooLarge q rest) := by
  have hadd : sizeAdd p.headerBytes (line.length + 2) = p.headerBytes + (line.length + 2) :=
    sizeAdd_of_sizes (hp.1.header hp.2.2) hline
  have hcount' : sizeAdd p.headerCount 1 = p.headerCount + 1 := by
    have hle := hp.1.count hp.2.2
    have hle' := hp.1.header hp.2.2
    exact sizeAdd_of_sizes (by omega) (by unfold vectorMaxSize; omega)
  unfold lineStep
  rw [if_neg (by simp [hs]), if_neg (by simp [hs])]
  dsimp only
  rw [hadd, Iteration.after_next]
  by_cases hlarge : p.limits.maxHeaderBytes < p.headerBytes + (line.length + 2)
  · rw [if_pos hlarge]
    exact ⟨_, rfl⟩
  · rw [if_neg hlarge, if_neg (by simp [hs]), if_neg (by simpa using hempty)]
    unfold headerStep parseHeader
    dsimp only
    rw [Iteration.after_next, if_pos (by omega)]
    exact ⟨_, rfl⟩

/-- **Which lines are too large.** -/
theorem loopBody_headerTooLarge_iff (hp : p.Reading) (hx : x.length ≤ vectorMaxSize) :
    (∃ q rest, loopBody (p, x) = .inl (.finished .HeaderTooLarge q rest)) ↔ p.SizeFault x := by
  have hresult : ∀ {r : ResponseParseResult} {q p' : HttpResponseParser} {y left : Bytes},
      (Sum.inl (.finished r p' left) : ParseOutcome ⊕ HttpResponseParser × Bytes) =
        .inl (.finished .HeaderTooLarge q y) → r = .HeaderTooLarge :=
    fun heq => (ParseOutcome.finished.inj (Sum.inl.inj heq)).1
  unfold SizeFault
  constructor
  · rintro ⟨q, rest, hdone⟩
    -- a body is never too large a header
    have hlines : p.ReadsLines := by
      refine ⟨fun hs => ?_, fun hs => ?_, fun hs => ?_⟩
      · rw [loopBody_fixedBody hp.1 hs] at hdone
        split at hdone <;> cases hresult hdone
      · -- a chunk is refused for its end or for the size of the body
        have hadv : (p.chunkBodyStep x).next = .inl (.finished .HeaderTooLarge q rest) := by
          change (p.step x).next = _ at hdone
          unfold step at hdone
          rw [hs] at hdone
          exact hdone
        unfold chunkBodyStep at hadv
        dsimp only at hadv
        rw [Iteration.after_next] at hadv
        split at hadv
        · cases hresult hadv
        rw [Iteration.after_next] at hadv
        split at hadv
        · split at hadv
          · cases hresult hadv
          · rw [Iteration.after_next] at hadv
            split at hadv
            · cases hresult hadv
            · cases hadv
        · cases hadv
      · rw [loopBody_eofBody hp.1 hs] at hdone
        split at hdone <;> cases hresult hdone
    cases hsplit : splitLine x with
    | none =>
      rw [loopBody_unfinished hlines hsplit] at hdone
      rcases partialLineStep_next hp hx with ⟨hfull, _⟩ | ⟨_, hnext⟩
      · exact hfull
      · cases hresult (hnext.symm.trans hdone)
    | some split =>
      obtain ⟨line, left⟩ := split
      have hlength := splitLine_length hsplit
      rw [loopBody_splitLine hlines hsplit] at hdone
      exact lineStep_headerTooLarge hp (by omega) hlines hdone
  · -- the other way, the fault decides the line that is read
    intro hfault
    cases hsplit : splitLine x with
    | none =>
      rw [hsplit] at hfault
      have hlines : p.ReadsLines := by
        rcases hfault with ⟨hs, _⟩ | ⟨hs | hs, _⟩ <;> simp [ReadsLines, hs]
      rw [loopBody_unfinished hlines hsplit]
      rcases partialLineStep_next hp hx with ⟨_, hnext⟩ | ⟨hnot, _⟩
      · exact ⟨_, _, hnext⟩
      · exact absurd hfault hnot
    | some split =>
      obtain ⟨line, left⟩ := split
      rw [hsplit] at hfault
      have hlength := splitLine_length hsplit
      have hlines : p.ReadsLines := by
        rcases hfault with ⟨hs, _⟩ | ⟨hs | hs, _⟩ | ⟨hs, _⟩ <;> simp [ReadsLines, hs]
      rw [loopBody_splitLine hlines hsplit]
      rcases hfault with ⟨hs, hlarge⟩ | ⟨hs, hlarge⟩ | ⟨hs, hempty, hcount⟩
      · exact ⟨_, _, lineStep_longStatus hs hlarge⟩
      · obtain ⟨q, _, hnext⟩ := lineStep_longHeader hp hs (by omega) hlarge left
        exact ⟨q, left, hnext⟩
      · obtain ⟨q, hnext⟩ := lineStep_oneTooMany hp (by omega) hs hempty hcount left
        exact ⟨q, left, hnext⟩

/-- **Which responses are too large**, for a call of `parse` on a new parser. -/
theorem parse_headerTooLarge_iff (hlimits : limits.Accepted) (hx : x.length ≤ vectorMaxSize) :
    (∃ q rest, (fresh limits headRequest).parse x = .finished .HeaderTooLarge q rest) ↔
      MeetsSizeFault limits headRequest x := by
  have hfresh : (fresh limits headRequest).Reading := reading_fresh hlimits
  constructor
  · rintro ⟨q, rest, hparse⟩
    obtain ⟨t, y, hreaches, hdone, ht, hle, _⟩ := parse_local.exists_last hfresh hx
    rw [hparse] at hdone
    exact ⟨t, y, hreaches, (loopBody_headerTooLarge_iff ht (by omega)).mp ⟨q, rest, hdone⟩⟩
  · rintro ⟨t, y, hreaches, hfault⟩
    obtain ⟨ht, _, hsuffix⟩ := reaches_advances hreaches hfresh hx
    have hle : y.length ≤ x.length := hsuffix.length_le
    obtain ⟨q, rest, hdone⟩ := (loopBody_headerTooLarge_iff ht (by omega)).mpr hfault
    exact ⟨q, rest, parse_local.parse_eq hfresh hx hreaches hdone⟩

/-! ### Two ways of cutting -/

/-- The results are the same, and so are the response, what is known about it, and the bytes that
    are left after a complete one. -/
def SameOutcome : ParseOutcome → ParseOutcome → Prop
  | .finished r p rest, .finished r' p' rest' =>
    r = r' ∧ (r = .Complete → p.response = p'.response ∧ p.chunked = p'.chunked ∧
      p.reusable = p'.reusable ∧ rest = rest')
  | .outOfBounds, .outOfBounds => True
  | _, _ => False

/-- The result of an outcome. -/
def result : ParseOutcome → Option ResponseParseResult
  | .finished r _ _ => some r
  | .outOfBounds => none

theorem SameOutcome.result {o o' : ParseOutcome} (h : SameOutcome o o') :
    result o = result o' := by
  cases o <;> cases o' <;> first | exact h.elim | rfl | exact congrArg some h.1

theorem SameOutcome.refl (o : ParseOutcome) : SameOutcome o o := by
  cases o with
  | finished r p rest => exact ⟨rfl, fun _ => ⟨rfl, rfl, rfl, rfl⟩⟩
  | outOfBounds => trivial

theorem SameOutcome.symm {o o' : ParseOutcome} (h : SameOutcome o o') : SameOutcome o' o := by
  cases o with
  | finished r p rest =>
    cases o' with
    | finished r' p' rest' =>
      refine ⟨h.1.symm, fun hcomplete => ?_⟩
      obtain ⟨hresponse, hchunked, hreusable, hrest⟩ := h.2 (h.1.trans hcomplete)
      exact ⟨hresponse.symm, hchunked.symm, hreusable.symm, hrest.symm⟩
    | outOfBounds => exact h.elim
  | outOfBounds =>
    cases o' with
    | finished r' p' rest' => exact h.elim
    | outOfBounds => trivial

/-- Outcomes that are alike stay so at the end of the stream. -/
theorem Alike.atEnd {o o' : ParseOutcome} (h : Alike o o') (eof : Bool) :
    SameOutcome (atEnd eof o) (atEnd eof o') := by
  cases h with
  | same => exact .refl _
  | @failed p q rest left r _ hcomplete hp hq =>
    cases eof with
    | false => exact ⟨rfl, fun h => absurd h hcomplete⟩
    | true =>
      have hend : ∀ p : HttpResponseParser, p.state = .Error →
          p.finishOnEof = (.PrematureEof, p.fail .PrematureEof) := by
        intro p hs
        simp [finishOnEof, hs]
      show SameOutcome (.finished p.finishOnEof.1 p.finishOnEof.2 rest)
        (.finished q.finishOnEof.1 q.finishOnEof.2 left)
      rw [hend p hp, hend q hq]
      exact ⟨rfl, fun h => by cases h⟩

theorem parse_nil (hlimits : limits.Accepted) : (fresh limits headRequest).parse [] =
    .finished .NeedMore (fresh limits headRequest) [] :=
  parse_local.parse_eq (reading_fresh hlimits) (Nat.zero_le _) (.refl _) rfl

theorem parseFragments_whole (hlimits : limits.Accepted) {fragments : List Bytes}
    (hsize : fragments.flatten.length ≤ vectorMaxSize)
    (hcuts : ¬CutsStatusLine limits headRequest fragments) :
    Alike (parseFragments limits headRequest fragments)
      ((fresh limits headRequest).parse fragments.flatten) :=
  parse_local.feed_alike (reading_fresh hlimits) (parse_nil hlimits) hsize
    fun hmeets => hcuts ((meets_iff hlimits fragments hsize).mp hmeets)

/-- A head that is too large. -/
def TooLarge (o : ParseOutcome) : Prop :=
  ∃ q rest, q.state = .Error ∧ o = .finished .HeaderTooLarge q rest

theorem TooLarge.of_alike {o o' : ParseOutcome} (h : Alike o o') (ho' : TooLarge o') :
    TooLarge o := by
  cases h with
  | same => exact ho'
  | @failed p q rest left r _ _ hp _ =>
    obtain ⟨_, _, _, heq⟩ := ho'
    obtain ⟨rfl, _, _⟩ := ParseOutcome.finished.inj heq
    exact ⟨p, rest, hp, rfl⟩

theorem TooLarge.alike {o o' : ParseOutcome} (h : TooLarge o) (h' : TooLarge o') : Alike o o' := by
  obtain ⟨p, rest, hp, rfl⟩ := h
  obtain ⟨q, left, hq, rfl⟩ := h'
  exact .failed .HeaderTooLarge (by simp) (by simp) hp hq

theorem parseFragments_cut (hlimits : limits.Accepted) {fragments : List Bytes}
    (hsize : fragments.flatten.length ≤ vectorMaxSize)
    (hcuts : CutsStatusLine limits headRequest fragments) :
    TooLarge (parseFragments limits headRequest fragments) := by
  refine parse_local.feed_of_meets (P := TooLarge) ?_ ?_ (fun _ _ => TooLarge.of_alike) ?_
    (reading_fresh hlimits) (parse_nil hlimits) hsize
    ((meets_iff hlimits fragments hsize).mpr hcuts)
  · rintro p x z ⟨hs, hnone, hlarge, line, rest, hsplit, _⟩
    refine ⟨?_, .finished .HeaderTooLarge (p.fail .HeaderTooLarge) x, ?_, _, _, rfl, rfl⟩
    · rintro rfl
      rw [List.append_nil, hnone] at hsplit
      cases hsplit
    · rw [loopBody_unfinished (by simp [ReadsLines, hs]) hnone]
      unfold partialLineStep
      rw [if_pos hs, if_pos hlarge]
      rfl
  · rintro _ ⟨q, rest, _, rfl⟩
    rfl
  · rintro _ z ⟨q, rest, hq, rfl⟩
    exact ⟨q, rest ++ z, hq, rfl⟩

/-- Only an outcome that is too large says the same as one that is. -/
theorem tooLarge_of_same {o o' : ParseOutcome} (ho : TooLarge o) (h : SameOutcome o o') :
    ∃ q rest, o' = .finished .HeaderTooLarge q rest := by
  obtain ⟨q, rest, _, rfl⟩ := ho
  cases o' with
  | finished r p left =>
    obtain rfl := h.1
    exact ⟨p, left, rfl⟩
  | outOfBounds => exact h.elim

/-- A cut of a status line agrees with no cut only if a line is too large anyway. -/
theorem same_of_cut (hlimits : limits.Accepted) {fragments fragments' : List Bytes}
    (hsame : fragments.flatten = fragments'.flatten)
    (hsize : fragments.flatten.length ≤ vectorMaxSize)
    (hcut : CutsStatusLine limits headRequest fragments)
    (hwhole : ¬CutsStatusLine limits headRequest fragments') :
    (∀ eof, SameOutcome (runFragments limits headRequest eof fragments)
      (runFragments limits headRequest eof fragments')) ↔
        MeetsSizeFault limits headRequest fragments.flatten := by
  have htoo := parseFragments_cut hlimits hsize hcut
  have halike := parseFragments_whole hlimits (hsame ▸ hsize) hwhole
  rw [← hsame] at halike
  rw [← parse_headerTooLarge_iff hlimits hsize]
  constructor
  · intro hall
    have hfalse := hall false
    unfold runFragments at hfalse
    have hplain : ∀ o, atEnd false o = o := by rintro (_ | _) <;> rfl
    rw [hplain, hplain] at hfalse
    obtain ⟨q, rest, heq⟩ := tooLarge_of_same htoo hfalse
    -- the whole ends like the way that does not cut
    rw [heq] at halike
    generalize (fresh limits headRequest).parse fragments.flatten = o at halike ⊢
    cases halike with
    | same => exact ⟨_, _, rfl⟩
    | failed => exact ⟨_, _, rfl⟩
  · rintro ⟨q, rest, hparse⟩ eof
    have hfresh : (fresh limits headRequest).Bounded := (reading_fresh hlimits).1
    have hadv := parse_advances hfresh hsize hparse
    have herror := (hadv.failed _ rfl (by simp) (by simp)).1
    have htoo' : TooLarge (parseFragments limits headRequest fragments') :=
      .of_alike halike ⟨q, rest, herror, hparse⟩
    exact (htoo.alike htoo').atEnd eof

/-- **Fragments of a response.**  Two ways of cutting the same bytes, with the end of the stream
    after them or without, have the same outcome if both or neither cut a status line of the
    largest size before its line feed, or if a line is too large anyway; and only then. -/
theorem response_same_iff (limits : HttpResponseParserLimits) (hlimits : limits.Accepted)
    (headRequest : Bool) (fragments fragments' : List Bytes)
    (hsame : fragments.flatten = fragments'.flatten)
    (hsize : fragments.flatten.length ≤ vectorMaxSize) :
    (∀ eof, SameOutcome (runFragments limits headRequest eof fragments)
      (runFragments limits headRequest eof fragments')) ↔
        (CutsStatusLine limits headRequest fragments ↔
          CutsStatusLine limits headRequest fragments') ∨
            MeetsSizeFault limits headRequest fragments.flatten := by
  have hsize' : fragments'.flatten.length ≤ vectorMaxSize := hsame ▸ hsize
  by_cases hcut : CutsStatusLine limits headRequest fragments
  · by_cases hcut' : CutsStatusLine limits headRequest fragments'
    · refine ⟨fun _ => .inl ⟨fun _ => hcut', fun _ => hcut⟩, fun _ eof => ?_⟩
      have htoo := parseFragments_cut hlimits hsize hcut
      have htoo' := parseFragments_cut hlimits hsize' hcut'
      exact (htoo.alike htoo').atEnd eof
    · rw [same_of_cut hlimits hsame hsize hcut hcut']
      simp [hcut, hcut']
  · by_cases hcut' : CutsStatusLine limits headRequest fragments'
    · have hiff := same_of_cut hlimits hsame.symm hsize' hcut' hcut
      rw [← hsame] at hiff
      -- the roles of the two segmentations are exchanged
      have hsymm : (∀ eof, SameOutcome (runFragments limits headRequest eof fragments)
            (runFragments limits headRequest eof fragments')) ↔
          ∀ eof, SameOutcome (runFragments limits headRequest eof fragments')
            (runFragments limits headRequest eof fragments) :=
        ⟨fun h eof => (h eof).symm, fun h eof => (h eof).symm⟩
      rw [hsymm, hiff]
      simp [hcut, hcut']
    · refine ⟨fun _ => .inl ⟨fun h => absurd h hcut, fun h => absurd h hcut'⟩, fun _ eof => ?_⟩
      have halike := parseFragments_whole hlimits hsize hcut
      have halike' := parseFragments_whole hlimits hsize' hcut'
      rw [← hsame] at halike'
      exact (halike.trans halike'.symm).atEnd eof

/-- A response that is cut inside its reason, and not at all. -/
theorem response_same_iff_reason :
    (∀ eof, SameOutcome
      (runFragments {} false eof [bytes "HTTP/1.1 200 O", bytes "K\r\nContent-Length: 0\r\n\r\n"])
      (runFragments {} false eof [bytes "HTTP/1.1 200 OK\r\nContent-Length: 0\r\n\r\n"])) ↔
    (CutsStatusLine {} false [bytes "HTTP/1.1 200 O", bytes "K\r\nContent-Length: 0\r\n\r\n"] ↔
      CutsStatusLine {} false [bytes "HTTP/1.1 200 OK\r\nContent-Length: 0\r\n\r\n"]) ∨
      MeetsSizeFault {} false
        [bytes "HTTP/1.1 200 O", bytes "K\r\nContent-Length: 0\r\n\r\n"].flatten :=
  response_same_iff {} (by decide) false _ _ (by decide) (by decide)

/-- A status line of the largest size, cut before its line feed, and not cut. -/
theorem runFragments_differ :
    ¬∀ (limits : HttpResponseParserLimits) (headRequest : Bool) (fragments fragments' : List Bytes),
      limits.Accepted → fragments.flatten = fragments'.flatten →
      fragments.flatten.length ≤ vectorMaxSize →
      (∀ p rest, Loop.Reaches loopBody (fresh limits headRequest, fragments.flatten) (p, rest) →
        p.state = .ChunkBody → p.chunkBytes + 2 < sizeModulus) →
      ∀ eof, SameOutcome (runFragments limits headRequest eof fragments)
        (runFragments limits headRequest eof fragments') := by
  intro hall
  -- the status line fills its limit, and its CRLF is cut in two
  let limits : HttpResponseParserLimits := { maxStatusLineBytes := 15 }
  let cut : List Bytes := [bytes "HTTP/1.1 200 OK\r", bytes "\nContent-Length: 0\r\n\r\n"]
  let whole : List Bytes := [bytes "HTTP/1.1 200 OK\r\nContent-Length: 0\r\n\r\n"]
  have hvisited : ∀ s ∈ Loop.visited loopBody 4 (fresh limits false, cut.flatten),
      s.1.state ≠ .ChunkBody := by decide +kernel
  have hends : (Loop.run loopBody 4 (fresh limits false, cut.flatten)).isSome = true := by
    decide +kernel
  obtain ⟨o, hrun⟩ := Option.isSome_iff_exists.mp hends
  have hsame := hall limits false cut whole (by decide) (by decide) (by decide)
    (fun p rest hreaches hchunk => absurd hchunk (hvisited _ (hreaches.mem_visited hrun))) false
  have hcut : result (runFragments limits false false cut) = some .HeaderTooLarge := by
    decide +kernel
  have hwhole : result (runFragments limits false false whole) = some .Complete := by
    decide +kernel
  have hresult := hsame.result
  rw [hcut, hwhole] at hresult
  cases hresult

end HttpResponseParser
end PulseGate
