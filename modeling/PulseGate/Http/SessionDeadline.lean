import PulseGate.Http.SessionParsing

namespace PulseGate

/-!
# The header deadline

`readRequest` arms its deadline at every read anew, each time with the whole timeout.  A client
that sends a byte in every interval shorter than `header_timeout` is never cut off, however long
its header block takes.

* `TimedSession` — a session whose timers are on time, and when the bytes that it read arrived;
* `onTime_of_prompt` — the header blocks are on time where no late byte of one is read, and one
  that is not completed is closed with HeaderTimeout;
* `trickle_delivered` — a header block of eighteen seconds, where ten are allowed.
-/

/-! ### Header blocks -/

/-- The length of the header block that the text starts with, through its empty line. -/
def headerBlock (text : Bytes) : Option Nat :=
  match hsplit : splitLine text with
  | none => none
  | some (line, rest) =>
    if line = [] then some 2 else (headerBlock rest).map (line.length + 2 + ·)
termination_by text.length
decreasing_by
  have hlength := splitLine_length hsplit
  omega

/-- Bytes, and when they arrived. -/
abbrev Arrived : Type := List (UInt8 × Int)

def Arrived.text (message : Arrived) : Bytes := message.map Prod.fst

/-- When the bytes of the header block arrived, of those that are there. -/
def Arrived.headerTimes (message : Arrived) : List Int :=
  (message.take ((headerBlock message.text).getD message.length)).map Prod.snd

/-- No time is later than the first one by more than the timeout. -/
def InTime (timeout : Int) (times : List Int) : Prop :=
  ∀ first ∈ times.head?, ∀ time ∈ times, time ≤ first + timeout

instance (timeout : Int) (times : List Int) : Decidable (InTime timeout times) :=
  inferInstanceAs (Decidable (∀ first ∈ times.head?, ∀ time ∈ times, time ≤ first + timeout))

/-! ### Sessions with a clock -/

/-- An event at its time, and when the bytes that it brings arrived. -/
structure TimedEvent where
  now : Int
  event : SessionEvent
  arrivals : List Int := []

structure TimedSession where
  session : HttpSession
  clock : Int := 0
  /-- What has been read of the message at hand, and of those behind it. -/
  message : Arrived := []
  /-- The times of the header blocks of the requests that were passed to the router. -/
  delivered : List (List Int) := []

namespace TimedSession

/-- What has been read once the event has come. -/
def arrived (s : TimedSession) (e : TimedEvent) : Arrived :=
  s.message ++ e.event.data.zip e.arrivals

/-- The bytes before those in the buffer belong to a request that has been passed to the router;
    all but its body are its header block. -/
def advance (s : TimedSession) (e : TimedEvent) (session : HttpSession) : TimedSession :=
  let arrived := s.arrived e
  if session.handled.length = s.session.handled.length then
    { s with session := session, clock := e.now, message := arrived }
  else
    let consumed := arrived.length - session.input.readableView.length
    let body := (session.handled.head?.map (·.body.length)).getD 0
    { session := session, clock := e.now, message := arrived.drop consumed,
      delivered := (arrived.take (consumed - body)).map Prod.snd :: s.delivered }

/-- The timers are on time: nothing happens after a deadline before it has expired. -/
def step (s : TimedSession) (e : TimedEvent) : Option TimedSession :=
  if s.clock ≤ e.now ∧ (∀ deadline ∈ s.session.deadline, e.now ≤ deadline.1) ∧
      e.arrivals.length = e.event.data.length ∧ ∀ time ∈ e.arrivals, time ≤ e.now then
    (s.session.step (e.now, e.event)).map (s.advance e)
  else none

/-- `header_timeout`. -/
def headerTimeout (s : TimedSession) : Int := milliseconds s.session.limits.headerTimeout

/-! ### The property -/

/-- The session is open, and waits for more of a header block. -/
structure AwaitsHeader (s : TimedSession) : Prop where
  point : s.session.point = .reading
  state : s.session.state ≠ .Closed
  message : s.message ≠ []
  header : headerBlock s.message.text = none

/-- Every header block whose request was passed to the router came in time; so did what is there
    of the one that the session waits for, and its deadline is the one of a header block. -/
structure OnTime (s : TimedSession) : Prop where
  delivered : ∀ times ∈ s.delivered, InTime s.headerTimeout times
  waiting : s.AwaitsHeader → InTime s.headerTimeout s.message.headerTimes ∧
    ∃ expiry, s.session.deadline = some (expiry, .HeaderTimeout)

/-- A header block that is not completed by the deadline is closed with HeaderTimeout. -/
def TimesOut (s : TimedSession) (e : TimedEvent) (s' : TimedSession) : Prop :=
  e.event = .deadlineExpired → s.AwaitsHeader →
    s'.session.state = .Closed ∧ s'.session.removals = [.HeaderTimeout]

/-! ### Its condition -/

/-- The bytes of the header block at hand that have arrived came in time, and no write has failed
    before the deadline expires. -/
structure Prompt (s : TimedSession) (e : TimedEvent) : Prop where
  arrivals : (s.session.readingAgain e.event).isSome = true →
    InTime s.headerTimeout (s.arrived e).headerTimes
  stopReason : e.event = .deadlineExpired → s.session.stopReason = .None

instance (s : TimedSession) (e : TimedEvent) : Decidable (s.Prompt e) :=
  decidable_of_iff
    (((s.session.readingAgain e.event).isSome = true →
        InTime s.headerTimeout (s.arrived e).headerTimes) ∧
      (e.event = .deadlineExpired → s.session.stopReason = .None))
    ⟨fun h => ⟨h.1, h.2⟩, fun h => ⟨h.1, h.2⟩⟩

end TimedSession

/-! ### The header block of a request -/

variable {limits : HttpParserLimits} {line rest : Bytes}

theorem headerBlock_line (hline : line ≠ []) (hcr : 13 ∉ line) (rest : Bytes) :
    headerBlock (line ++ crlf ++ rest) = (headerBlock rest).map (line.length + 2 + ·) := by
  rw [headerBlock]
  split
  · next hsplit =>
    rw [splitLine_append hcr] at hsplit
    cases hsplit
  · next hsplit =>
    rw [splitLine_append hcr] at hsplit
    cases hsplit
    exact if_neg hline

theorem headerBlock_emptyLine (rest : Bytes) : headerBlock (crlf ++ rest) = some 2 := by
  have hempty : splitLine (crlf ++ rest) = some ([], rest) := splitLine_append List.not_mem_nil rest
  rw [headerBlock]
  split
  · next hsplit =>
    rw [hempty] at hsplit
    cases hsplit
  · next hsplit =>
    rw [hempty] at hsplit
    cases hsplit
    exact if_pos rfl

theorem headerBlock_lines {lines : List HeaderLine} (h : ∀ l ∈ lines, l.WellFormed) (rest : Bytes) :
    headerBlock (linesText lines ++ crlf ++ rest) = some ((linesText lines).length + 2) := by
  induction lines with
  | nil => exact headerBlock_emptyLine rest
  | cons l lines ih =>
    obtain ⟨hl, hlines⟩ := List.forall_mem_cons.mp h
    have hline : l.text ≠ [] := by simp [HeaderLine.text]
    have hsplit : linesText (l :: lines) ++ crlf ++ rest =
        l.text ++ crlf ++ (linesText lines ++ crlf ++ rest) := by simp [linesText]
    rw [hsplit, headerBlock_line hline hl.not_mem, ih hlines]
    simp only [Option.map_some, linesText, List.flatMap_cons, List.length_append, crlf,
      List.length_cons, List.length_nil]
    apply congrArg some
    omega

/-- The header block of a request is its head and the empty line. -/
theorem headerBlock_head {h : RequestHead} (ha : h.Admitted limits) (rest : Bytes) :
    headerBlock (h.text ++ crlf ++ rest) = some (h.text ++ crlf).length := by
  have hline : h.requestLine ≠ [] := by simp [RequestHead.requestLine]
  have hsplit : h.text ++ crlf ++ rest =
      h.requestLine ++ crlf ++ (linesText h.lines ++ crlf ++ rest) := by simp [RequestHead.text]
  rw [hsplit, headerBlock_line hline ha.not_mem, headerBlock_lines ha.lines]
  simp only [Option.map_some, RequestHead.text, List.length_append, crlf, List.length_cons,
    List.length_nil]
  apply congrArg some
  omega

/-! ### The invariant -/

namespace TimedSession

open HttpParser

variable {l : SessionLimits} {s s' : TimedSession} {e : TimedEvent} {t u : HttpSession} {x : Bytes}

/-- What has been read, where the coroutine is. -/
def MessageAt (l : SessionLimits) (text view : Bytes) (parser : HttpParser) : SessionPoint → Prop
  | .spawned => text = [] ∧ view = []
  | .reading => ∃ x, Waiting l.parser x parser ∧ text = x ++ view
  | .handling _ | .streaming _ | .responding _ _ => text = view
  | .refusing | .finished => True

/-- The bytes read are those of the message at hand and those in the buffer, and a session that
    reads has its deadline armed. -/
structure Inv (l : SessionLimits) (s : TimedSession) : Prop where
  session : s.session.ReadInv l ∧ s.session.CloseInv 0
  message : MessageAt l s.message.text s.session.input.readableView s.session.parser
    s.session.point
  deadline : s.session.point = .reading → s.session.state ≠ .Closed →
    ∃ expiry, s.session.deadline = some (expiry, s.session.readDeadline.1)
  delivered : ∀ times ∈ s.delivered, InTime (milliseconds l.headerTimeout) times

theorem Inv.headerTimeout (h : s.Inv l) : s.headerTimeout = milliseconds l.headerTimeout := by
  unfold TimedSession.headerTimeout
  rw [h.session.1.limits]

/-- While a header block is unfinished its deadline is armed. -/
theorem Inv.readDeadline (h : s.Inv l) (hawaits : s.AwaitsHeader) :
    s.session.readDeadline.1 = .HeaderTimeout := by
  have hmessage := h.message
  rw [hawaits.point] at hmessage
  obtain ⟨x, hwaiting, htext⟩ := hmessage
  unfold HttpSession.readDeadline
  generalize s.session.parser = p at hwaiting
  cases hwaiting with
  | start =>
    have hview : s.session.input.readableBytes ≠ 0 := by
      intro hempty
      rw [← Buffer.readableView_length, List.length_eq_zero_iff] at hempty
      rw [hempty, List.append_nil, Arrived.text, List.map_eq_nil_iff] at htext
      exact hawaits.message htext
    rw [if_neg nofun, if_neg (fun hidle => hview hidle.2.2)]
  | head ha => rw [if_neg nofun, if_neg (fun hidle => nomatch hidle.2.1)]
  | body ha hn hpos hsize =>
    have hheader := hawaits.header
    rw [htext, headerBlock_head ha] at hheader
    cases hheader

/-- **The property** follows, if what is there of a header block came in time. -/
theorem Inv.onTime (h : s.Inv l)
    (htimes : s.AwaitsHeader → InTime s.headerTimeout s.message.headerTimes) : s.OnTime := by
  refine ⟨?_, fun hawaits => ⟨htimes hawaits, ?_⟩⟩
  · rw [h.headerTimeout]
    exact h.delivered
  · rw [← h.readDeadline hawaits]
    exact h.deadline hawaits.point hawaits.state

theorem inv_create (hcreate : HttpSession.create l = .ok t) : Inv l { session := t } := by
  refine ⟨⟨HttpSession.create_readInv hcreate, HttpSession.create_closeInv hcreate⟩, ?_, ?_, nofun⟩
  · obtain ⟨input, hinput, -, -, rfl⟩ := HttpSession.create_eq_ok hcreate
    exact ⟨rfl, Buffer.create_readableView hinput⟩
  · obtain ⟨input, hinput, -, -, rfl⟩ := HttpSession.create_eq_ok hcreate
    exact nofun

/-! ### One event -/

theorem arrived_text (hlength : e.arrivals.length = e.event.data.length) :
    (s.arrived e).text = s.message.text ++ e.event.data := by
  unfold arrived Arrived.text
  rw [List.map_append, List.map_fst_zip hlength.ge]

theorem arrived_of_data (hdata : e.event.data = []) : s.arrived e = s.message := by
  unfold arrived
  rw [hdata, List.zip_nil_left, List.append_nil]

/-- The bytes that a call of `readRequest` comes after are those that have been read. -/
theorem Inv.ready (h : s.Inv l) (hlength : e.arrivals.length = e.event.data.length)
    (hagain : s.session.readingAgain e.event = some u) :
    ∃ x, u.ReadyToParse l x ∧ (s.arrived e).text = x ++ u.input.readableView ∧
      u.handled = s.session.handled := by
  obtain ⟨x, hready⟩ := h.session.1.ready hagain
  have hinput := h.session.1.input
  have hmessage := h.message
  rw [arrived_text hlength]
  obtain ⟨event, hevent⟩ : ∃ event, e.event = event := ⟨_, rfl⟩
  rw [hevent] at hagain ⊢
  cases HttpSession.readsAgain_of hagain with
  | started hpoint =>
    rw [hpoint] at hinput hmessage
    have hsame (v : HttpSession) (hv : v.parser = s.session.parser ∧ v.input = s.session.input ∧
        v.handled = s.session.handled) (hready : v.ReadyToParse l x) :
        ∃ x, v.ReadyToParse l x ∧ s.message.text ++ [] = x ++ v.input.readableView ∧
          v.handled = s.session.handled := by
      obtain ⟨hparser, hbuffer, hhandled⟩ := hv
      refine ⟨[], ⟨hready.limits, hready.maximum, hready.prepared, ?_⟩, ?_, hhandled⟩
      · rw [hparser, hinput.2]
        exact .start
      · rw [hbuffer, hmessage.1, hmessage.2]
    refine hsame _ ?_ hready
    split <;> exact ⟨rfl, rfl, rfl⟩
  | @received data hpoint hfits =>
    -- the message goes on
    rw [hpoint] at hmessage
    obtain ⟨y, hwaiting, htext⟩ := hmessage
    refine ⟨y, ⟨hready.limits, hready.maximum, hready.prepared, hwaiting⟩, ?_, rfl⟩
    show s.message.text ++ data = y ++ (s.session.input.received data hfits).readableView
    rw [Buffer.received_readableView, htext, List.append_assoc]
  | @written ok _ _ hpoint =>
    -- the next message starts with the bytes that are left
    obtain ⟨hended, -, -⟩ := HttpSession.writeEnded_same s.session ok
    rw [hpoint] at hinput hmessage
    refine ⟨[], ⟨hready.limits, hready.maximum, hready.prepared, ?_⟩, ?_, hended.handled⟩
    · show Waiting l.parser [] (s.session.writeEnded ok).parser.reset
      rw [hended.parser, reset, hinput.2]
      exact .start
    · show s.message.text ++ [] = (s.session.writeEnded ok).input.readableView
      rw [hended.input, List.append_nil]
      exact hmessage
  | answered hpoint =>
    rw [hpoint] at hinput hmessage
    refine ⟨[], ⟨hready.limits, hready.maximum, hready.prepared, ?_⟩, ?_, rfl⟩
    · show Waiting l.parser [] s.session.parser.reset
      rw [reset, hinput.2]
      exact .start
    · show s.message.text ++ [] = s.session.input.readableView
      rw [List.append_nil]
      exact hmessage

/-- Nothing is passed to the router. -/
theorem advance_of_handled (h : t.handled = s.session.handled) :
    s.advance e t = { s with session := t, clock := e.now, message := s.arrived e } :=
  if_pos (congrArg List.length h)

/-- A request is passed to the router. -/
theorem advance_of_message {m : RequestMessage}
    (hhandled : t.handled = m.request :: s.session.handled)
    (htext : (s.arrived e).text = m.text ++ t.input.readableView) :
    s.advance e t =
      { session := t, clock := e.now, message := (s.arrived e).drop m.text.length,
        delivered := ((s.arrived e).take (m.head.text ++ crlf).length).map Prod.snd ::
          s.delivered } := by
  have hlength := congrArg List.length htext
  rw [Arrived.text, List.length_map, List.length_append] at hlength
  have hmessage : m.text.length = (m.head.text ++ crlf).length + m.body.length := by
    rw [RequestMessage.text, List.length_append]
  have hnot : t.handled.length ≠ s.session.handled.length := by
    rw [hhandled, List.length_cons]
    omega
  have hconsumed : (s.arrived e).length - t.input.readableView.length = m.text.length := by omega
  have hbody : (t.handled.head?.map (·.body.length)).getD 0 = m.body.length := by
    rw [hhandled]
    rfl
  have hheader : m.text.length - m.body.length = (m.head.text ++ crlf).length := by omega
  unfold advance
  dsimp only
  rw [if_neg hnot, hconsumed, hbody, hheader]

theorem step_eq_some (hstep : s.step e = some s') :
    ∃ t, s.session.step (e.now, e.event) = some t ∧ s' = s.advance e t ∧
      e.arrivals.length = e.event.data.length := by
  unfold step at hstep
  split at hstep
  · next henabled =>
    obtain ⟨t, ht, hadvance⟩ := Option.map_eq_some_iff.mp hstep
    exact ⟨t, ht, hadvance.symm, henabled.2.2.1⟩
  · cases hstep

/-- A step after which the session does not read, and has passed nothing to the router. -/
theorem Inv.elsewhere (h : s.Inv l) (hsession : t.ReadInv l ∧ t.CloseInv 0)
    (hhandled : t.handled = s.session.handled) (hpoint : t.point ≠ .reading)
    (hmessage : MessageAt l (s.arrived e).text t.input.readableView t.parser t.point) :
    (s.advance e t).Inv l ∧ (s.advance e t).OnTime := by
  rw [advance_of_handled hhandled]
  have hinv : Inv l { s with session := t, clock := e.now, message := s.arrived e } :=
    ⟨hsession, hmessage, fun hreading => absurd hreading hpoint, h.delivered⟩
  exact ⟨hinv, hinv.onTime fun hawaits => absurd hawaits.point hpoint⟩

/-- A step that calls `readRequest`. -/
theorem Inv.again (hl : l.parser.Accepted) (h : s.Inv l) (hprompt : s.Prompt e)
    (hlength : e.arrivals.length = e.event.data.length)
    (hagain : s.session.readingAgain e.event = some u)
    (hstep : s.session.step (e.now, e.event) = some t) :
    (s.advance e t).Inv l ∧ (s.advance e t).OnTime := by
  obtain ⟨x, hready, htext, hhandled⟩ := h.ready hlength hagain
  have hsession := HttpSession.readInv_step hl h.session hstep
  have htimes : InTime (milliseconds l.headerTimeout) (s.arrived e).headerTimes := by
    rw [← h.headerTimeout]
    exact hprompt.arrivals (by rw [hagain]; rfl)
  have hopen := HttpSession.readingAgain_state h.session.1 hagain
  have hparses : HttpSession.Parses l (x ++ u.input.readableView) e.now u (u.readRequest e.now) :=
    hready.parses hl hopen
  rw [← HttpSession.step_readingAgain hagain hstep, ← htext] at hparses
  cases hparses with
  | waits y hwaiting hsplit hmore hpoint hlogs hdeadline =>
    rw [advance_of_handled (hlogs.handled.trans hhandled)]
    have hinv : Inv l { s with session := t, clock := e.now, message := s.arrived e } := by
      refine ⟨hsession, ?_, fun _ _ => ⟨_, hdeadline⟩, h.delivered⟩
      show MessageAt l _ _ _ t.point
      rw [hpoint]
      exact ⟨y, hwaiting, hsplit⟩
    refine ⟨hinv, hinv.onTime fun _ => ?_⟩
    rw [hinv.headerTimeout]
    exact htimes
  | handles m hm hsplit hpoint hpassed houtput hstate =>
    rw [hhandled] at hpassed
    rw [advance_of_message hpassed hsplit]
    -- the recorded times are those up to the first empty line
    have hheader : headerBlock (s.arrived e).text = some (m.head.text ++ crlf).length := by
      rw [hsplit, RequestMessage.text, List.append_assoc]
      exact headerBlock_head hm.head _
    unfold Arrived.headerTimes at htimes
    rw [hheader, Option.getD_some] at htimes
    have hinv : Inv l
        { session := t, clock := e.now, message := (s.arrived e).drop m.text.length,
          delivered := ((s.arrived e).take (m.head.text ++ crlf).length).map Prod.snd ::
            s.delivered } := by
      refine ⟨hsession, ?_, ?_, List.forall_mem_cons.mpr ⟨htimes, h.delivered⟩⟩
      · show MessageAt l (((s.arrived e).drop m.text.length).map Prod.fst) _ _ t.point
        rw [hpoint, List.map_drop]
        show (s.arrived e).text.drop m.text.length = t.input.readableView
        rw [hsplit, List.drop_left]
      · intro hreading
        cases hpoint.symm.trans hreading
    refine ⟨hinv, hinv.onTime fun hawaits => ?_⟩
    cases hpoint.symm.trans hawaits.point
  | refuses result hrefused response herror written hserialized hpoint hsame houtput hstate =>
    refine h.elsewhere hsession (hsame.trans hhandled) (hpoint.trans_ne (by rintro ⟨⟩)) ?_
    rw [hpoint]
    trivial
  | ends hcause hpoint hstate hsame houtput =>
    refine h.elsewhere hsession (hsame.trans hhandled) (hpoint.trans_ne (by rintro ⟨⟩)) ?_
    rw [hpoint]
    trivial

/-- A step that does not call `readRequest` brings no bytes. -/
theorem data_of_other {now : Int} {event : SessionEvent} (hagain : u.readingAgain event = none)
    (hstep : u.step (now, event) = some t) : event.data = [] := by
  cases HttpSession.moves_of_step hstep with
  | received hpoint hfits hdata => simp [HttpSession.readingAgain, hpoint, hfits, hdata] at hagain
  | _ => rfl

/-- A session that reads on without a call of `readRequest` has its deadline armed as before. -/
theorem deadline_of_other {now : Int} {event : SessionEvent} (hpoint : u.point = .reading)
    (hstate : u.state ≠ .Closing) (hagain : u.readingAgain event = none)
    (hstep : u.step (now, event) = some t) (hreading : t.point = .reading)
    (hopen : t.state ≠ .Closed) : u.state ≠ .Closed ∧ t.deadline = u.deadline := by
  cases HttpSession.moves_of_step hstep with
  | peerClosed | readFailed =>
    cases (HttpSession.peerClosed_ends hstate).point.symm.trans hreading
  | received hpoint hfits hdata =>
    simp [HttpSession.readingAgain, hpoint, hfits, hdata] at hagain
  | deadlineExpired =>
    exact absurd (HttpSession.closeInExecutor_state (by exact hstate) _) hopen
  | stopped => exact absurd (HttpSession.closeInExecutor_state hstate _) hopen
  | drained =>
    unfold HttpSession.beginDrainInExecutor at hopen ⊢
    split at hopen
    · next hclosed => exact absurd (hclosed.resolve_left hstate) hopen
    · next hnot =>
      rw [if_neg hnot]
      dsimp only at hopen ⊢
      split at hopen
      · have hdraining : ({ u with state := .Draining } : HttpSession).state ≠ .Closing := by
          rintro ⟨⟩
        exact absurd (HttpSession.closeInExecutor_state hdraining _) hopen
      · next hidle =>
        rw [if_neg hidle]
        exact ⟨fun hclosed => hnot (.inr hclosed), rfl⟩
  -- the other events find the coroutine elsewhere
  | started helsewhere | proxySet helsewhere | streamed helsewhere | chunkWritten helsewhere
  | responseWritten helsewhere | refusalWritten helsewhere | answered helsewhere =>
    cases hpoint.symm.trans helsewhere

/-- A step that does not call `readRequest`. -/
theorem Inv.other (hl : l.parser.Accepted) (h : s.Inv l) (hontime : s.OnTime)
    (hagain : s.session.readingAgain e.event = none)
    (hstep : s.session.step (e.now, e.event) = some t) :
    (s.advance e t).Inv l ∧ (s.advance e t).OnTime := by
  have hsession := HttpSession.readInv_step hl h.session hstep
  have hclosing := h.session.1.state
  obtain ⟨hother, hhandled⟩ := HttpSession.step_aside hclosing hagain hstep
  have harrived := arrived_of_data (s := s) (data_of_other hagain hstep)
  have hmessage := h.message
  cases hother with
  | same work point =>
    rw [advance_of_handled hhandled, harrived]
    -- a deadline is armed anew by `readRequest` only
    have hdeadline : t.point = .reading → t.state ≠ .Closed →
        s.session.state ≠ .Closed ∧ t.deadline = s.session.deadline := fun hreading hopen =>
      deadline_of_other (point ▸ hreading) hclosing hagain hstep hreading hopen
    have hinv : Inv l { s with session := t, clock := e.now } := by
      refine ⟨hsession, ?_, fun hreading hopen => ?_, h.delivered⟩
      · show MessageAt l s.message.text t.input.readableView t.parser t.point
        rw [work.input, work.parser, point]
        exact hmessage
      · obtain ⟨hbefore, hsame⟩ := hdeadline hreading hopen
        obtain ⟨expiry, hexpiry⟩ := h.deadline (point ▸ hreading) hbefore
        refine ⟨expiry, ?_⟩
        show t.deadline = some (expiry, t.readDeadline.1)
        have hreason : t.readDeadline = s.session.readDeadline := by
          unfold HttpSession.readDeadline
          rw [work.parser, work.limits, work.servedRequest, work.input]
        rw [hsame, hexpiry, hreason]
    refine ⟨hinv, hinv.onTime fun hawaits => ?_⟩
    have hbefore := (hdeadline hawaits.point hawaits.state).1
    have htimes := (hontime.waiting ⟨point ▸ hawaits.point, hbefore, hawaits.message,
      hawaits.header⟩).1
    rw [h.headerTimeout] at htimes
    rw [hinv.headerTimeout]
    exact htimes
  | writes hlimits hinput hparser hpoint =>
    obtain ⟨request, hhandling, hwriting⟩ := hpoint
    rw [hhandling] at hmessage
    rcases hwriting with hpoint | ⟨response, hpoint⟩
    · refine h.elsewhere hsession hhandled (hpoint.trans_ne nofun) ?_
      rw [harrived, hinput, hpoint]
      exact hmessage
    · refine h.elsewhere hsession hhandled (hpoint.trans_ne nofun) ?_
      rw [harrived, hinput, hpoint]
      exact hmessage
  | handles work hpoint =>
    obtain ⟨request, hstreaming, hpoint⟩ := hpoint
    rw [hstreaming] at hmessage
    refine h.elsewhere hsession hhandled (hpoint.trans_ne nofun) ?_
    rw [harrived, work.input, hpoint]
    exact hmessage
  | ends hlimits hinput hpoint =>
    refine h.elsewhere hsession hhandled (hpoint.trans_ne nofun) ?_
    rw [hpoint]
    trivial

/-- **Step lemma.** -/
theorem inv_step (hl : l.parser.Accepted) (h : s.Inv l ∧ s.OnTime) (hprompt : s.Prompt e)
    (hstep : s.step e = some s') : s'.Inv l ∧ s'.OnTime := by
  obtain ⟨t, hsession, rfl, hlength⟩ := step_eq_some hstep
  cases hagain : s.session.readingAgain e.event with
  | none => exact h.1.other hl h.2 hagain hsession
  | some u => exact h.1.again hl hprompt hlength hagain hsession

/-- A session that is closed for the first time, and has no reason yet, is closed with the one
    given. -/
theorem removals_closeInExecutor {reason : StopReason} (hrecorded : u.Recorded 0)
    (hopen : u.state ≠ .Closed) (hnone : u.stopReason = .None) :
    (u.closeInExecutor reason).removals = [reason] := by
  obtain ⟨hclosing, hclosed, hremovals, -⟩ := hrecorded
  have hnot : u.closeRecorded = false := by
    cases hclose : u.closeRecorded with
    | false => rfl
    | true => exact absurd (hclosed.mp hclose) hopen
  rw [hnot] at hremovals
  have hnil : u.removals = [] := List.length_eq_zero_iff.mp hremovals
  unfold HttpSession.closeInExecutor HttpSession.noteStopReason HttpSession.setStopReason
    HttpSession.cancelProxy HttpSession.recordClose
  rw [if_neg (not_or.mpr ⟨hopen, hclosing⟩)]
  dsimp only
  rw [if_pos hnone]
  split <;> simp [hnot, hnil]

/-- The deadline closes a session that waits for more of a header block. -/
theorem Inv.timesOut (h : s.Inv l) (hprompt : s.Prompt e) (hstep : s.step e = some s') :
    s.TimesOut e s' := by
  intro hevent hawaits
  obtain ⟨t, hsession, rfl, -⟩ := step_eq_some hstep
  have hhandled : t.handled = s.session.handled := by
    have hagain : s.session.readingAgain e.event = none := by
      rw [hevent]
      rfl
    exact (HttpSession.step_aside h.session.1.state hagain hsession).2
  obtain ⟨expiry, hdeadline⟩ := h.deadline hawaits.point hawaits.state
  rw [h.readDeadline hawaits] at hdeadline
  rw [advance_of_handled hhandled]
  simp only [hevent, HttpSession.step, hdeadline, Option.ite_none_right_eq_some,
    Option.some.injEq] at hsession
  obtain ⟨-, rfl⟩ := hsession
  refine ⟨HttpSession.closeInExecutor_state (by exact h.session.1.state) _, ?_⟩
  exact removals_closeInExecutor (by exact h.session.2.recorded) (by exact hawaits.state)
    (by exact hprompt.stopReason hevent)

/-! ### Whole runs -/

/-- **Slow header blocks are cut off**, in every run in which no late byte of one is read. -/
theorem onTime_of_prompt (hcreate : HttpSession.create l = .ok t) (es : List TimedEvent)
    (hprompt : Machine.EachStep step (fun s e _ => s.Prompt e) { session := t } es) :
    Machine.Always step OnTime { session := t } es ∧
      Machine.EachStep step TimesOut { session := t } es := by
  obtain ⟨input, -, hl, -, -⟩ := HttpSession.create_eq_ok hcreate
  have hinv := inv_create hcreate
  have hontime : OnTime { session := t } := hinv.onTime fun hawaits => absurd rfl hawaits.message
  have himplies : ∀ s : TimedSession, s.Inv l ∧ s.OnTime → s.OnTime := fun s h => h.2
  constructor
  · apply Machine.always_of_eachStep (fun s => s.Inv l ∧ s.OnTime) himplies ?_ ⟨hinv, hontime⟩
      hprompt
    intro s e s' h hprompt hstep
    exact inv_step hl h hprompt hstep
  · apply Machine.eachStep_of_eachStep (fun s => s.Inv l ∧ s.OnTime) ?_ ⟨hinv, hontime⟩ hprompt
    intro s e s' h hprompt hstep
    exact ⟨h.1.timesOut hprompt hstep, inv_step hl h hprompt hstep⟩

/-- Bytes that are read when they arrive. -/
def received (now : Int) (data : Bytes) : TimedEvent :=
  { now := now, event := .received data, arrivals := List.replicate data.length now }

/-- A header block that is never completed. -/
def stalled : List TimedEvent :=
  [{ now := 0, event := .started }, received 0 (bytes "GET / HTTP/1.0\r\nA"),
    received (milliseconds 9000) (bytes ":b\r\n"),
    { now := milliseconds 19000, event := .deadlineExpired }]

theorem onTime_of_prompt_stalled :
    ∃ t, HttpSession.create smallReads = .ok t ∧
      (Machine.run step { session := t } stalled).map (·.session.removals) =
        some [.HeaderTimeout] ∧
      Machine.Always step OnTime { session := t } stalled ∧
      Machine.EachStep step TimesOut { session := t } stalled := by
  obtain ⟨t, hcreate, hremovals, hprompt⟩ : ∃ t, HttpSession.create smallReads = .ok t ∧
      (Machine.run step { session := t } stalled).map (·.session.removals) =
        some [.HeaderTimeout] ∧
      Machine.EachStep step (fun s e _ => s.Prompt e) { session := t } stalled :=
    ⟨_, rfl, by decide +kernel, by decide +kernel⟩
  exact ⟨t, hcreate, hremovals, onTime_of_prompt hcreate stalled hprompt⟩

/-- Every read comes before the deadline that the one before it has armed. -/
def trickle : List TimedEvent :=
  [{ now := 0, event := .started }, received 0 (bytes "GET / HTTP/1.0\r\n"),
    received (milliseconds 9000) (bytes "A:b\r\n"),
    received (milliseconds 18000) (bytes "\r\n")]

/-- The request is passed to the router. -/
theorem trickle_delivered :
    ∃ t, HttpSession.create smallReads = .ok t ∧
      ¬Machine.Always step OnTime { session := t } trickle := by
  obtain ⟨t, hcreate, hlate⟩ : ∃ t, HttpSession.create smallReads = .ok t ∧
      ∃ s ∈ Machine.run step { session := t } trickle,
        ¬∀ times ∈ s.delivered, InTime s.headerTimeout times :=
    ⟨_, rfl, by decide +kernel⟩
  obtain ⟨s, hrun, hs⟩ := hlate
  exact ⟨t, hcreate, fun halways => hs (halways.last s hrun).delivered⟩

end TimedSession
end PulseGate
