import PulseGate.Http.RequestSegments
import PulseGate.Http.SessionSteps

namespace PulseGate

/-!
# What a session has read of a request

Between two calls of `parse` the parser has read whole lines of one message (`Waiting`), so that
the next call gives what a new parser gives for all the bytes of the message so far
(`parse_waiting`).  In the runs of a session this is where the parser is whenever the session
reads (`readInv_step`).  A step is a call of `readRequest` (`step_readingAgain`), or it passes
nothing to the router and leaves the bytes that were read (`step_aside`).
-/

namespace HttpParser

variable {limits : HttpParserLimits} {p q : HttpParser} {x input rest : Bytes} {r : ParseResult}

/-- A parser that has read the lines of `x`, and waits for more. -/
inductive Waiting (limits : HttpParserLimits) : Bytes → HttpParser → Prop
  | start : Waiting limits [] { limits := limits }
  | head {h : RequestHead} (admitted : h.Admitted limits) :
      Waiting limits h.text (h.parser limits)
  | body {h : RequestHead} {n : Nat} (admitted : h.Admitted limits)
      (announced : h.Announces limits n) (positive : n ≠ 0) (size : n < sizeModulus) :
      Waiting limits (h.text ++ crlf) (h.bodyParser limits n)

theorem Waiting.reading (h : Waiting limits x p) : p.Reading := by
  cases h <;> exact ⟨nofun, nofun⟩

/-- A new parser comes where this one is. -/
theorem Waiting.reaches (h : Waiting limits x p) (input : Bytes) :
    Loop.Reaches loopBody ({ limits := limits }, x ++ input) (p, input) := by
  cases h with
  | start => exact .refl _
  | head ha => exact reaches_head _ rfl ha input
  | @body head n ha hn hpos hsize =>
    have hempty : loopBody (head.parser limits, crlf ++ input) =
        (head.endedParser limits).finishHeadersStep input := loopBody_emptyLine hn.headerBytes input
    rw [finishHeadersStep_announces hn hsize, if_neg hpos] at hempty
    rw [List.append_assoc]
    exact (reaches_head _ rfl ha (crlf ++ input)).snoc hempty

/-- The call gives what a new parser gives for the whole text. -/
theorem parse_waiting (h : Waiting limits x p) (input : Bytes) :
    p.parse input = ({ limits := limits } : HttpParser).parse (x ++ input) := by
  have hends : Loop.Ends loopBody (p, input) (p.parse input) := by
    rw [parse_running h.reading]
    exact parseLoop_ends p input
  exact ((h.reaches input).ends hends).unique (parse_start limits _)

/-- A call that needs more leaves a parser that waits, before a line or a body that is not
    there. -/
theorem parse_needMore (haccepted : limits.Accepted) (h : Waiting limits x p)
    (hparse : p.parse input = (.NeedMore, q, rest)) :
    ∃ y, Waiting limits y q ∧ x ++ input = y ++ rest ∧
      loopBody (q, rest) = .inl (.NeedMore, q, rest) := by
  rw [parse_waiting h] at hparse
  have hends := parse_start limits (x ++ input)
  rw [hparse] at hends
  obtain ⟨⟨p', left⟩, hreaches, hdone⟩ := hends.exists_reaches
  obtain ⟨rfl, rfl⟩ := waits_same hdone
  cases reaches_cases hreaches with
  | start => exact ⟨[], .start, rfl, hdone⟩
  | head ha htext => exact ⟨_, .head ha, htext, hdone⟩
  | body ha hn hpos htext =>
    have hle := hn.bodyBytes
    obtain ⟨-, -, -, -, -, -, -, -, hbody⟩ := haccepted
    unfold HttpParserLimits.kAbsoluteBodyLimit at hbody
    refine ⟨_, .body ha hn hpos ?_, htext, hdone⟩
    unfold sizeModulus
    omega

/-- A call that is complete has read a message. -/
theorem parse_whole (h : Waiting limits x p) (hparse : p.parse input = (.Complete, q, rest)) :
    ∃ m : RequestMessage, m.WellFormed limits ∧ x ++ input = m.text ++ rest ∧
      q = completed limits m := by
  rw [parse_waiting h] at hparse
  exact parse_complete hparse

theorem splitLine_suffix {line : Bytes} (h : splitLine input = some (line, rest)) :
    rest <:+ input := ⟨line ++ crlf, (splitLine_eq_some h).symm⟩

/-- What is left unread is the end of the input. -/
theorem parse_suffix (hparse : p.parse input = (r, q, rest)) : rest <:+ input := by
  by_cases hreading : p.Reading
  · rw [parse_running hreading] at hparse
    have hends := parseLoop_ends p input
    rw [hparse] at hends
    -- the invariant of the loop: what is left is a suffix of the input
    refine hends.result (P := fun o => o.2.2 <:+ input) (fun t => t.2 <:+ input) ?_ ?_
      (List.suffix_refl _)
    · intro t t' ht hnext
      obtain ⟨line, -, hsplit, -⟩ := loopBody_continues hnext
      exact (splitLine_suffix hsplit).trans ht
    · rintro ⟨p', left⟩ o ht hdone
      by_cases hbody : p'.state = .Body
      · rw [loopBody_of_state hbody] at hdone
        unfold bodyStep at hdone
        split at hdone
        · obtain rfl := Sum.inl.inj hdone
          exact ht
        · obtain rfl := Sum.inl.inj hdone
          exact (List.drop_suffix _ _).trans ht
      · cases loopBody_ends hbody hdone with
        | waiting => exact ht
        | overrun => exact ht
        | tooLarge => exact ht
        | read hsplit =>
          exact (splitLine_suffix hsplit).trans ht
  · unfold parse at hparse
    unfold Reading at hreading
    split at hparse
    · obtain ⟨-, -, rfl⟩ := hparse
      exact List.suffix_refl _
    split at hparse
    · obtain ⟨-, -, rfl⟩ := hparse
      exact List.suffix_refl _
    · next hcomplete herror => exact absurd ⟨hcomplete, herror⟩ hreading

end HttpParser

namespace HttpSession

open HttpParser

variable {s t u : HttpSession} {now : Int}

/-! ### The parser of a session -/

/-- What is known of the buffer and the parser where the coroutine is. -/
def InputAt (l : SessionLimits) (input : Buffer) (parser : HttpParser) : SessionPoint → Prop
  | .spawned => input.preparedBytes = 0 ∧ parser = { limits := l.parser }
  | .reading => ∃ x, Waiting l.parser x parser
  | .handling _ | .streaming _ | .responding _ _ =>
    input.preparedBytes = 0 ∧ parser.limits = l.parser
  | .refusing | .finished => True

/-- The buffer and the parser in the runs of a session. -/
structure ReadInv (l : SessionLimits) (s : HttpSession) : Prop where
  limits : s.limits = l
  maximum : s.input.maximumSize = l.maxBufferBytes
  input : InputAt l s.input s.parser s.point
  state : s.state ≠ .Closing

/-- A session that calls `parse`, after the lines of `x`. -/
structure ReadyToParse (l : SessionLimits) (x : Bytes) (t : HttpSession) : Prop where
  limits : t.limits = l
  maximum : t.input.maximumSize = l.maxBufferBytes
  prepared : t.input.preparedBytes = 0
  waiting : Waiting l.parser x t.parser

/-- The next round of the loop of `run`. -/
def again (s : HttpSession) (response : HttpResponse) : HttpSession :=
  { s with
    records := (response.statusCode, s.responseBytes) :: s.records
    servedRequest := true
    parser := s.parser.reset }

theorem received_fits {input : Bytes}
    (h : s.point = .reading ∧ input.length ≤ s.input.preparedBytes) :
    input.length ≤ s.input.preparedBytes := h.2

/-- The session that the event leads to a call of `readRequest`. -/
def readingAgain (s : HttpSession) : SessionEvent → Option HttpSession
  | .started =>
    if s.point = .spawned ∧ (s.state = .Created ∨ s.state = .Running ∨ s.state = .Draining) then
      some (if s.state = .Created then { s with state := .Running } else s)
    else none
  | .received bytes =>
    if h : s.point = .reading ∧ bytes.length ≤ s.input.preparedBytes then
      if bytes = [] then none
      else
        some ({ s with input := s.input.received bytes (received_fits h) } : HttpSession).readEnded
    else none
  | .written ok =>
    match s.point with
    | .responding request response =>
      if (s.writeEnded ok).GoesOn request response then some ((s.writeEnded ok).again response)
      else none
    | _ => none
  | .answered response =>
    match s.point with
    | .handling request =>
      if response.alreadyWritten = true ∧ s.GoesOn request response then
        some (again { s with currentProxy := false } response)
      else none
    | _ => none
  | _ => none

/-- The events that lead to a call of `readRequest`, and the session that makes it. -/
inductive ReadsAgain (s : HttpSession) : SessionEvent → HttpSession → Prop
  | started (point : s.point = .spawned)
      (state : s.state = .Created ∨ s.state = .Running ∨ s.state = .Draining) :
      ReadsAgain s .started (if s.state = .Created then { s with state := .Running } else s)
  | received {data : Bytes} (point : s.point = .reading)
      (fits : data.length ≤ s.input.preparedBytes) (nonempty : data ≠ []) :
      ReadsAgain s (.received data)
        ({ s with input := s.input.received data fits } : HttpSession).readEnded
  | written {ok : Bool} {request : HttpRequest} {response : HttpResponse}
      (point : s.point = .responding request response)
      (goesOn : (s.writeEnded ok).GoesOn request response) :
      ReadsAgain s (.written ok) ((s.writeEnded ok).again response)
  | answered {request : HttpRequest} {response : HttpResponse} (point : s.point = .handling request)
      (written : response.alreadyWritten = true) (goesOn : s.GoesOn request response) :
      ReadsAgain s (.answered response) (again { s with currentProxy := false } response)

theorem readsAgain_of {e : SessionEvent} (hagain : s.readingAgain e = some u) :
    s.ReadsAgain e u := by
  cases e with
  | started =>
    simp only [readingAgain, Option.ite_none_right_eq_some, Option.some.injEq] at hagain
    obtain ⟨⟨hpoint, hstate⟩, rfl⟩ := hagain
    exact .started hpoint hstate
  | received data =>
    simp only [readingAgain, Option.dite_none_right_eq_some] at hagain
    obtain ⟨hread, hagain⟩ := hagain
    split at hagain
    · cases hagain
    · next hdata =>
      obtain rfl := Option.some.inj hagain
      exact .received hread.1 hread.2 hdata
  | written ok =>
    simp only [readingAgain] at hagain
    split at hagain
    · next hpoint =>
      simp only [Option.ite_none_right_eq_some, Option.some.injEq] at hagain
      obtain ⟨hgoes, rfl⟩ := hagain
      exact .written hpoint hgoes
    · cases hagain
  | answered response =>
    simp only [readingAgain] at hagain
    split at hagain
    · next hpoint =>
      simp only [Option.ite_none_right_eq_some, Option.some.injEq] at hagain
      obtain ⟨⟨hwritten, hgoes⟩, rfl⟩ := hagain
      exact .answered hpoint hwritten hgoes
    · cases hagain
  | _ => cases hagain

/-- A step to a call of `readRequest` is that call. -/
theorem step_readingAgain {e : SessionEvent} (hagain : s.readingAgain e = some u)
    (hstep : s.step (now, e) = some t) : t = u.readRequest now := by
  cases readsAgain_of hagain with
  | started hpoint hstate =>
    simp only [step] at hstep
    split at hstep
    · obtain rfl := Option.some.inj hstep
      apply if_pos
      rcases hstate with hstate | hstate | hstate <;> simp [hstate]
    · next hother => exact absurd hpoint hother
  | received hpoint hfits hdata =>
    simp only [step, dif_pos (And.intro hpoint hfits), if_neg hdata] at hstep
    exact (Option.some.inj hstep).symm
  | written hpoint hgoes =>
    simp only [step, hpoint, Option.some.injEq, respond_goesOn hgoes] at hstep
    exact hstep.symm
  | @answered request response hpoint hwritten hgoes =>
    have hgoes' : ({ s with currentProxy := false } : HttpSession).GoesOn request response := hgoes
    simp only [step, hpoint, Option.some.injEq] at hstep
    unfold answer at hstep
    dsimp only at hstep
    rw [if_pos hwritten, respond_goesOn hgoes'] at hstep
    exact hstep.symm

/-- A step to no such call: the session is as it was, or a response is written, or the coroutine
    ends, or the session is closed or drains. -/
inductive OtherStep (s t : HttpSession) : Prop
  | same (work : s.SameWork t) (point : t.point = s.point)
  | writes (limits : t.limits = s.limits) (input : t.input = s.input) (parser : t.parser = s.parser)
      (point : ∃ request, s.point = .handling request ∧
        (t.point = .streaming request ∨ ∃ response, t.point = .responding request response))
  | handles (work : s.SameWork t)
      (point : ∃ request, s.point = .streaming request ∧ t.point = .handling request)
  | ends (limits : t.limits = s.limits) (input : t.input = s.input) (point : t.point = .finished)

/-- Such a step, which passes nothing to the router. -/
def Aside (s t : HttpSession) : Prop := s.OtherStep t ∧ t.handled = s.handled

theorem SameWork.aside (h : s.SameWork t) (hpoint : t.point = s.point) : s.Aside t :=
  ⟨.same h hpoint, h.handled⟩

theorem Ends.aside (h : s.Ends t) (hlimits : s.limits = u.limits) (hinput : s.input = u.input)
    (hhandled : s.handled = u.handled) : u.Aside t :=
  ⟨.ends (h.same.limits.trans hlimits) (h.same.input.trans hinput) h.point,
    h.same.handled.trans hhandled⟩

theorem peerClosed_aside (hstate : s.state ≠ .Closing) :
    s.Aside (s.noteStopReason .PeerClosed).readEnded.leave :=
  (peerClosed_ends hstate).aside rfl rfl rfl

/-- After a response behind which the loop does not go on. -/
theorem respond_aside {v : HttpSession} {request : HttpRequest} {response : HttpResponse}
    (hgoes : ¬v.GoesOn request response) (hv : s.SameWork v) (hclosing : v.state ≠ .Closing) :
    s.Aside (v.respond request response now) := by
  obtain ⟨parser, heq⟩ := respond_leaves hgoes now
  rw [heq]
  exact (leave_ends (by exact hclosing)).aside hv.limits hv.input hv.handled

/-- Without a call of `readRequest`. -/
theorem step_aside {e : SessionEvent} (hstate : s.state ≠ .Closing)
    (hagain : s.readingAgain e = none) (hstep : s.step (now, e) = some t) : s.Aside t := by
  have hwritten (ok : Bool) :
      s.SameWork (s.writeEnded ok) ∧ (s.writeEnded ok).state ≠ .Closing := by
    obtain ⟨hended, -, hsame⟩ := writeEnded_same s ok
    exact ⟨hended, hsame ▸ hstate⟩
  cases moves_of_step hstep with
  | started hpoint =>
    simp only [readingAgain, ite_eq_right_iff, reduceCtorEq, imp_false, not_and] at hagain
    have hother := hagain hpoint
    rw [not_or, not_or] at hother
    rw [if_neg hother.1]
    unfold nextRequest
    rw [if_neg (not_or.mpr hother.2)]
    exact (leave_ends hstate).aside rfl rfl rfl
  | peerClosed | readFailed => exact peerClosed_aside hstate
  -- the one event that is a call of `readRequest` by itself
  | received hpoint hfits hdata =>
    simp [readingAgain, hpoint, hfits, hdata] at hagain
  | proxySet => exact SameWork.aside ⟨rfl, rfl, rfl, rfl, rfl, rfl, rfl, rfl⟩ rfl
  | @streamed data request hpoint =>
    exact ⟨.writes rfl rfl rfl ⟨request, hpoint, .inl rfl⟩, rfl⟩
  | @chunkWritten ok request hpoint =>
    obtain ⟨hended, -⟩ := hwritten ok
    have hhandling : s.SameWork { s.writeEnded ok with point := .handling request } :=
      hended.trans ⟨rfl, rfl, rfl, rfl, rfl, rfl, rfl, rfl⟩
    exact ⟨.handles hhandling ⟨request, hpoint, rfl⟩, hended.handled⟩
  | @responseWritten ok request response hpoint =>
    simp only [readingAgain, hpoint, ite_eq_right_iff, reduceCtorEq, imp_false] at hagain
    exact respond_aside hagain (hwritten ok).1 (hwritten ok).2
  | @refusalWritten ok =>
    obtain ⟨hended, hopen⟩ := hwritten ok
    exact (leave_ends hopen).aside hended.limits hended.input hended.handled
  | @answered request response hpoint =>
    simp only [readingAgain, hpoint, ite_eq_right_iff, reduceCtorEq, imp_false, not_and] at hagain
    unfold answer
    dsimp only
    split
    · next hwritten =>
      exact respond_aside (hagain hwritten) ⟨rfl, rfl, rfl, rfl, rfl, rfl, rfl, rfl⟩ hstate
    · split
      · exact (raised_ends (by exact hstate)).aside rfl rfl rfl
      · exact ⟨.writes rfl rfl rfl ⟨request, hpoint, .inr ⟨response, rfl⟩⟩, rfl⟩
  | @deadlineExpired expiry reason =>
    obtain ⟨hsame, hpoint⟩ := closeInExecutor_same { s with deadline := none } reason
    have hdisarmed : s.SameWork { s with deadline := none } :=
      ⟨rfl, rfl, rfl, rfl, rfl, rfl, rfl, rfl⟩
    exact (hdisarmed.trans hsame).aside hpoint
  | stopped =>
    obtain ⟨hsame, hpoint⟩ := closeInExecutor_same s .ServerShutdown
    exact hsame.aside hpoint
  | drained =>
    obtain ⟨hsame, hpoint⟩ := beginDrainInExecutor_same s
    exact hsame.aside hpoint

/-! ### The invariant -/

theorem inputAfter_readableView {rest : Bytes} (h : rest <:+ s.input.readableView) :
    (s.inputAfter rest).readableView = rest := by
  unfold inputAfter
  split
  · next hlength => exact (h.eq_of_length hlength).symm
  · rw [Buffer.consumed_readableView]
    obtain ⟨read, hread⟩ := h
    rw [← hread]
    simp

theorem inputAfter_maximumSize (s : HttpSession) (rest : Bytes) :
    (s.inputAfter rest).maximumSize = s.input.maximumSize := by
  unfold inputAfter
  split
  · rfl
  · exact Buffer.consumed_maximumSize _ _

theorem inputAfter_preparedBytes (hprepared : s.input.preparedBytes = 0) (rest : Bytes) :
    (s.inputAfter rest).preparedBytes = 0 := by
  unfold inputAfter
  split
  · exact hprepared
  · exact Buffer.consumed_preparedBytes hprepared _

variable {l : SessionLimits} {x : Bytes}

theorem create_readInv (h : create l = .ok s) : s.ReadInv l := by
  obtain ⟨input, hinput, -, -, rfl⟩ := create_eq_ok h
  obtain ⟨hmaximum, hprepared⟩ := Buffer.create_eq_ok hinput
  exact ⟨rfl, hmaximum, ⟨hprepared, rfl⟩, nofun⟩

/-- Wherever a session calls `readRequest` again, its parser waits. -/
theorem ReadInv.ready {e : SessionEvent} (h : s.ReadInv l) (hagain : s.readingAgain e = some u) :
    ∃ x, u.ReadyToParse l x := by
  have hinput := h.input
  cases readsAgain_of hagain with
  | started hpoint =>
    rw [hpoint] at hinput
    obtain ⟨hprepared, hparser⟩ : _ ∧ _ := hinput
    refine ⟨[], ?_⟩
    split
    · exact ⟨h.limits, h.maximum, hprepared, hparser ▸ .start⟩
    · exact ⟨h.limits, h.maximum, hprepared, hparser ▸ .start⟩
  | received hpoint =>
    -- the message goes on where its parser waits
    rw [hpoint] at hinput
    obtain ⟨x, hwaiting⟩ := hinput
    exact ⟨x, h.limits, h.maximum, rfl, hwaiting⟩
  | @written ok _ _ hpoint =>
    -- the parser is reset for the next message
    rw [hpoint] at hinput
    obtain ⟨hprepared, hparser⟩ : _ ∧ _ := hinput
    obtain ⟨hended, -, -⟩ := writeEnded_same s ok
    refine ⟨[], hended.limits.trans h.limits, ?_, ?_, ?_⟩
    · show (s.writeEnded ok).input.maximumSize = _
      rw [hended.input]
      exact h.maximum
    · show (s.writeEnded ok).input.preparedBytes = 0
      rw [hended.input]
      exact hprepared
    · show Waiting l.parser [] (s.writeEnded ok).parser.reset
      rw [hended.parser, reset, hparser]
      exact .start
  | answered hpoint =>
    rw [hpoint] at hinput
    obtain ⟨hprepared, hparser⟩ : _ ∧ _ := hinput
    refine ⟨[], h.limits, h.maximum, hprepared, ?_⟩
    show Waiting l.parser [] s.parser.reset
    rw [reset, hparser]
    exact .start

theorem ReadInv.of_ends (hlimits : s.limits = l) (hmaximum : s.input.maximumSize = l.maxBufferBytes)
    (hends : s.Ends t) : t.ReadInv l := by
  refine ⟨hends.same.limits.trans hlimits, ?_, ?_, ?_⟩
  · rw [hends.same.input]
    exact hmaximum
  · rw [hends.point]
    trivial
  · rw [hends.state]
    exact nofun

theorem ReadInv.other (h : s.ReadInv l) (hother : s.OtherStep t) (hstate : t.state ≠ .Closing) :
    t.ReadInv l := by
  have hinput := h.input
  cases hother with
  | same work point =>
    refine ⟨work.limits.trans h.limits, work.input ▸ h.maximum, ?_, hstate⟩
    rw [work.input, work.parser, point]
    exact hinput
  | writes hlimits hsame hparser hpoint =>
    refine ⟨hlimits.trans h.limits, hsame ▸ h.maximum, ?_, hstate⟩
    obtain ⟨request, hhandling, hpoint⟩ := hpoint
    rw [hhandling] at hinput
    rw [hsame, hparser]
    rcases hpoint with hpoint | ⟨response, hpoint⟩
    · rw [hpoint]
      exact hinput
    · rw [hpoint]
      exact hinput
  | handles work hpoint =>
    refine ⟨work.limits.trans h.limits, work.input ▸ h.maximum, ?_, hstate⟩
    obtain ⟨request, hstreaming, hpoint⟩ := hpoint
    rw [hstreaming] at hinput
    rw [work.input, work.parser, hpoint]
    exact hinput
  | ends hlimits hsame hpoint =>
    refine ⟨hlimits.trans h.limits, hsame ▸ h.maximum, ?_, hstate⟩
    rw [hpoint]
    trivial

/-- A call of `readRequest` after which the session reads on. -/
theorem readRequest_needMore {parser : HttpParser} {rest : Bytes} {input : Buffer}
    (hparse : t.parser.parse t.input.readableView = (.NeedMore, parser, rest))
    (hprepare : (t.inputAfter rest).prepare t.limits.readChunkBytes = .ok input) :
    t.readRequest now =
      { ({ t with parser := parser, input := input } : HttpSession).armReadDeadline now with
        reading := true, point := .reading } := by
  unfold readRequest
  rw [hparse]
  dsimp only
  unfold startReading
  dsimp only
  rw [hprepare]

/-- **Step lemma** for `readRequest`. -/
theorem ReadyToParse.readInv (hl : l.parser.Accepted) (h : t.ReadyToParse l x)
    (hstate : t.state ≠ .Closing) : (t.readRequest now).ReadInv l := by
  rcases houtcome : t.parser.parse t.input.readableView with ⟨result, parser, rest⟩
  have hmaximum : (t.inputAfter rest).maximumSize = l.maxBufferBytes :=
    (inputAfter_maximumSize t rest).trans h.maximum
  have hprepared := inputAfter_preparedBytes h.prepared rest
  -- an exception ends the coroutine, whatever was read
  have hraised (v : HttpSession) (hlimits : v.limits = l)
      (hv : v.input.maximumSize = l.maxBufferBytes) (hvstate : v.state = t.state) :
      v.raised.ReadInv l := .of_ends hlimits hv (raised_ends (hvstate ▸ hstate))
  unfold readRequest
  rw [houtcome]
  dsimp only
  cases result with
  | NeedMore =>
    dsimp only
    unfold startReading
    split
    · exact hraised _ h.limits hmaximum rfl
    · next input hprepare =>
      obtain ⟨y, hwaiting, -, -⟩ := parse_needMore hl h.waiting houtcome
      exact ⟨h.limits, (Buffer.prepare_maximumSize hprepare).trans hmaximum, ⟨y, hwaiting⟩, hstate⟩
  | Complete =>
    obtain ⟨m, -, -, rfl⟩ := parse_whole h.waiting houtcome
    dsimp only
    split
    · exact hraised _ h.limits hmaximum rfl
    · next request parser htake =>
      -- the parser that is taken over has the limits of the session
      have htaken : parser.limits = l.parser := by
        unfold takeRequest at htake
        split at htake
        · cases htake
        · rw [← (Prod.mk.inj (Except.ok.inj htake)).2]
          rfl
      unfold handle
      split
      · exact .of_ends (by exact h.limits) (by exact hmaximum) (leave_ends (by exact hstate))
      · exact ⟨h.limits, hmaximum, ⟨hprepared, htaken⟩, hstate⟩
  | _ =>
    dsimp only
    unfold refuse
    dsimp only
    split
    · exact hraised _ h.limits hmaximum rfl
    · split
      · exact hraised _ h.limits hmaximum rfl
      · exact ⟨h.limits, hmaximum, trivial, hstate⟩

theorem readingAgain_state {e : SessionEvent} (h : s.ReadInv l)
    (hagain : s.readingAgain e = some u) : u.state ≠ .Closing := by
  cases readsAgain_of hagain with
  | started =>
    split
    · rintro ⟨⟩
    · exact h.state
  | received => exact h.state
  | @written ok _ _ _ hgoes =>
    show (s.writeEnded ok).state ≠ .Closing
    rw [hgoes.2.2]
    rintro ⟨⟩
  | answered => exact h.state

/-- **Step lemma.** -/
theorem readInv_step {e : SessionEvent} (hl : l.parser.Accepted) (h : s.ReadInv l ∧ s.CloseInv 0)
    (hstep : s.step (now, e) = some t) : t.ReadInv l ∧ t.CloseInv 0 := by
  have hclose := step_closeInv h.2 hstep
  refine ⟨?_, hclose⟩
  cases hagain : s.readingAgain e with
  | none => exact h.1.other (step_aside h.1.state hagain hstep).1 hclose.recorded.1
  | some u =>
    obtain ⟨x, hready⟩ := h.1.ready hagain
    rw [step_readingAgain hagain hstep]
    exact hready.readInv hl (readingAgain_state h.1 hagain)

end HttpSession

end PulseGate
