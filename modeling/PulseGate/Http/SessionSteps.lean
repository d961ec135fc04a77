import PulseGate.Http.HttpSession

namespace PulseGate

namespace HttpSession

/-!
# What a step of a session does

The parts of a step, for proofs that follow the coroutine: what closing leaves as it is
(`SameWork`), how the coroutine ends (`Ends`), the four places where `readRequest` leaves it
(`ReadOutcome`), and what each event leads to (`Moves`).
-/

variable {s t : HttpSession} {reason : StopReason} {now : Int}

/-! ### Closing -/

/-- What closing leaves as it is. -/
structure SameWork (s t : HttpSession) : Prop where
  limits : t.limits = s.limits
  input : t.input = s.input
  parser : t.parser = s.parser
  servedRequest : t.servedRequest = s.servedRequest
  responseBytes : t.responseBytes = s.responseBytes
  handled : t.handled = s.handled
  output : t.output = s.output
  records : t.records = s.records

theorem SameWork.trans {u : HttpSession} (h : s.SameWork t) (h' : t.SameWork u) : s.SameWork u where
  limits := h'.limits.trans h.limits
  input := h'.input.trans h.input
  parser := h'.parser.trans h.parser
  servedRequest := h'.servedRequest.trans h.servedRequest
  responseBytes := h'.responseBytes.trans h.responseBytes
  handled := h'.handled.trans h.handled
  output := h'.output.trans h.output
  records := h'.records.trans h.records

theorem noteStopReason_same (s : HttpSession) (reason : StopReason) :
    s.SameWork (s.noteStopReason reason) ∧ (s.noteStopReason reason).point = s.point ∧
      (s.noteStopReason reason).state = s.state := by
  unfold noteStopReason
  split <;> exact ⟨⟨rfl, rfl, rfl, rfl, rfl, rfl, rfl, rfl⟩, rfl, rfl⟩

theorem cancelProxy_same (s : HttpSession) (reason : StopReason) :
    s.SameWork (s.cancelProxy reason) ∧ (s.cancelProxy reason).point = s.point := by
  unfold cancelProxy
  split <;> exact ⟨⟨rfl, rfl, rfl, rfl, rfl, rfl, rfl, rfl⟩, rfl⟩

theorem recordClose_same (s : HttpSession) :
    s.SameWork s.recordClose ∧ s.recordClose.point = s.point ∧ s.recordClose.state = .Closed := by
  unfold recordClose
  split <;> exact ⟨⟨rfl, rfl, rfl, rfl, rfl, rfl, rfl, rfl⟩, rfl, rfl⟩

theorem closeInExecutor_same (s : HttpSession) (reason : StopReason) :
    s.SameWork (s.closeInExecutor reason) ∧ (s.closeInExecutor reason).point = s.point := by
  unfold closeInExecutor
  split
  · exact ⟨⟨rfl, rfl, rfl, rfl, rfl, rfl, rfl, rfl⟩, rfl⟩
  · obtain ⟨hnoted, hnotedPoint, -⟩ :=
      noteStopReason_same { s with state := .Closing } reason
    obtain ⟨hcancelled, hcancelledPoint⟩ := cancelProxy_same
      { ({ s with state := .Closing } : HttpSession).noteStopReason reason with deadline := none }
      reason
    obtain ⟨hclosed, hclosedPoint, -⟩ := recordClose_same (HttpSession.cancelProxy
      { ({ s with state := .Closing } : HttpSession).noteStopReason reason with deadline := none }
      reason)
    refine ⟨?_, hclosedPoint.trans (hcancelledPoint.trans hnotedPoint)⟩
    have hclosing : s.SameWork { s with state := .Closing } :=
      ⟨rfl, rfl, rfl, rfl, rfl, rfl, rfl, rfl⟩
    have hdisarmed : s.SameWork
        { ({ s with state := .Closing } : HttpSession).noteStopReason reason with
          deadline := none } :=
      hclosing.trans ⟨hnoted.limits, hnoted.input, hnoted.parser, hnoted.servedRequest,
        hnoted.responseBytes, hnoted.handled, hnoted.output, hnoted.records⟩
    exact (hdisarmed.trans hcancelled).trans hclosed

/-- Nothing is seen Closing: a session that begins to close is Closed. -/
theorem closeInExecutor_state (h : s.state ≠ .Closing) (reason : StopReason) :
    (s.closeInExecutor reason).state = .Closed := by
  unfold closeInExecutor
  split
  · next hclosed => exact hclosed.resolve_right h
  · exact (recordClose_same _).2.2

/-! ### The end of the coroutine -/

/-- The coroutine has ended, and the session is Closed. -/
structure Ends (s t : HttpSession) : Prop where
  same : s.SameWork t
  point : t.point = .finished
  state : t.state = .Closed

theorem leave_ends (h : s.state ≠ .Closing) : s.Ends s.leave := by
  have hfinished : s.SameWork { s with point := .finished } :=
    ⟨rfl, rfl, rfl, rfl, rfl, rfl, rfl, rfl⟩
  unfold leave
  dsimp only
  split
  · obtain ⟨hsame, hpoint⟩ := closeInExecutor_same { s with point := .finished } _
    refine ⟨hfinished.trans hsame, hpoint, ?_⟩
    apply closeInExecutor_state
    exact h
  · next hclosed => exact ⟨hfinished, rfl, not_not.mp hclosed⟩

theorem raised_ends (h : s.state ≠ .Closing) : s.Ends s.raised := by
  have hfinished : s.SameWork { s with point := .finished } :=
    ⟨rfl, rfl, rfl, rfl, rfl, rfl, rfl, rfl⟩
  obtain ⟨hsame, hpoint⟩ := closeInExecutor_same { s with point := .finished } .InternalError
  refine ⟨hfinished.trans hsame, hpoint, ?_⟩
  apply closeInExecutor_state
  exact h

/-! ### Reading -/

/-- Where `readRequest` leaves the coroutine. -/
inductive ReadOutcome (s t : HttpSession) : Prop
  | ends (point : t.point = .finished) (state : t.state = .Closed)
      (handled : t.handled = s.handled) (output : t.output = s.output)
  | reading (point : t.point = .reading) (state : t.state = s.state)
      (handled : t.handled = s.handled) (output : t.output = s.output)
  | refusing (result : ParseResult) (response : HttpResponse) (text : Bytes)
      (error : makeErrorResponse result = .ok response)
      (serialized : response.serialize false = .ok text)
      (point : t.point = .refusing) (state : t.state = s.state)
      (handled : t.handled = s.handled) (output : t.output = text :: s.output)
  | handling (request : HttpRequest) (point : t.point = .handling request)
      (state : t.state = s.state) (handled : t.handled = request :: s.handled)
      (output : t.output = s.output)

theorem Ends.outcome {u : HttpSession} (h : u.Ends t) (hhandled : u.handled = s.handled)
    (houtput : u.output = s.output) : s.ReadOutcome t :=
  .ends h.point h.state (h.same.handled.trans hhandled) (h.same.output.trans houtput)

theorem readRequest_outcome (h : s.state ≠ .Closing) (now : Int) :
    s.ReadOutcome (s.readRequest now) := by
  have hraised (u : HttpSession) (hstate : u.state = s.state) (hhandled : u.handled = s.handled)
      (houtput : u.output = s.output) : s.ReadOutcome u.raised :=
    (raised_ends (by rw [hstate]; exact h)).outcome hhandled houtput
  unfold readRequest
  dsimp only
  split
  · unfold startReading
    split
    · exact hraised _ rfl rfl rfl
    · exact .reading rfl rfl rfl rfl
  · split
    · exact hraised _ rfl rfl rfl
    · unfold handle
      split
      · exact Ends.outcome (leave_ends (by exact h)) rfl rfl
      · exact .handling _ rfl rfl rfl rfl
  · unfold refuse
    dsimp only
    split
    · exact hraised _ rfl rfl rfl
    · next response herror =>
      split
      · exact hraised _ rfl rfl rfl
      · next text hserialized =>
        exact .refusing _ response text herror hserialized rfl rfl rfl rfl

/-- An outcome speaks of the state, the handled requests and the output only. -/
theorem ReadOutcome.congr {u : HttpSession} (h : u.ReadOutcome t) (hstate : u.state = s.state)
    (hhandled : u.handled = s.handled) (houtput : u.output = s.output) : s.ReadOutcome t := by
  cases h with
  | ends hpoint hclosed hhandled' houtput' =>
    exact .ends hpoint hclosed (hhandled'.trans hhandled) (houtput'.trans houtput)
  | reading hpoint hstate' hhandled' houtput' =>
    exact .reading hpoint (hstate'.trans hstate) (hhandled'.trans hhandled)
      (houtput'.trans houtput)
  | refusing result response text herror hserialized hpoint hstate' hhandled' houtput' =>
    exact .refusing result response text herror hserialized hpoint (hstate'.trans hstate)
      (hhandled'.trans hhandled) (by rw [houtput', houtput])
  | handling request hpoint hstate' hhandled' houtput' =>
    exact .handling request hpoint (hstate'.trans hstate) (by rw [hhandled', hhandled])
      (houtput'.trans houtput)

theorem nextRequest_outcome (h : s.state ≠ .Closing) (now : Int) :
    s.ReadOutcome (s.nextRequest now) := by
  unfold nextRequest
  split
  · exact readRequest_outcome h now
  · exact (leave_ends h).outcome rfl rfl

theorem respond_outcome (h : s.state ≠ .Closing) (request : HttpRequest)
    (response : HttpResponse) (now : Int) : s.ReadOutcome (s.respond request response now) := by
  by_cases hgoes : s.GoesOn request response
  · rw [respond_goesOn hgoes]
    exact (readRequest_outcome (by exact h) now).congr rfl rfl rfl
  · obtain ⟨parser, heq⟩ := respond_leaves hgoes now
    rw [heq]
    exact (leave_ends (by exact h)).outcome rfl rfl

theorem writeEnded_same (s : HttpSession) (ok : Bool) :
    s.SameWork (s.writeEnded ok) ∧ (s.writeEnded ok).point = s.point ∧
      (s.writeEnded ok).state = s.state := by
  unfold writeEnded
  split
  · exact ⟨⟨rfl, rfl, rfl, rfl, rfl, rfl, rfl, rfl⟩, rfl, rfl⟩
  · exact noteStopReason_same s .PeerClosed

/-- A drain changes the state only. -/
theorem beginDrainInExecutor_same (s : HttpSession) :
    s.SameWork s.beginDrainInExecutor ∧ s.beginDrainInExecutor.point = s.point := by
  have hdraining : s.SameWork { s with state := .Draining } :=
    ⟨rfl, rfl, rfl, rfl, rfl, rfl, rfl, rfl⟩
  unfold beginDrainInExecutor
  split
  · exact ⟨⟨rfl, rfl, rfl, rfl, rfl, rfl, rfl, rfl⟩, rfl⟩
  · dsimp only
    split
    · obtain ⟨hsame, hpoint⟩ := closeInExecutor_same { s with state := .Draining } .ServerShutdown
      exact ⟨hdraining.trans hsame, hpoint⟩
    · exact ⟨hdraining, rfl⟩

theorem beginDrainInExecutor_state (h : s.state ≠ .Closing) :
    s.beginDrainInExecutor.state = .Draining ∨ s.beginDrainInExecutor.state = .Closed := by
  unfold beginDrainInExecutor
  split
  · next hclosed => exact .inr (hclosed.resolve_left h)
  · dsimp only
    split
    · exact .inr (closeInExecutor_state (by exact nofun) _)
    · exact .inl rfl

/-- The peer has closed the connection while the session reads. -/
theorem peerClosed_ends (h : s.state ≠ .Closing) :
    s.Ends (s.noteStopReason .PeerClosed).readEnded.leave := by
  obtain ⟨hnoted, -, hsame⟩ := noteStopReason_same s .PeerClosed
  have hopen : (s.noteStopReason .PeerClosed).readEnded.state ≠ .Closing := by
    show (s.noteStopReason .PeerClosed).state ≠ .Closing
    rw [hsame]
    exact h
  have hends := leave_ends hopen
  have hended : s.SameWork (s.noteStopReason .PeerClosed).readEnded :=
    hnoted.trans ⟨rfl, rfl, rfl, rfl, rfl, rfl, rfl, rfl⟩
  exact ⟨hended.trans hends.same, hends.point, hends.state⟩

/-! ### One event -/

/-- What an event does, one constructor for each way it can go. -/
inductive Moves (s : HttpSession) (now : Int) : SessionEvent → HttpSession → Prop
  | started (point : s.point = .spawned) :
    Moves s now .started
      ((if s.state = .Created then { s with state := .Running } else s).nextRequest now)
  | peerClosed (point : s.point = .reading) :
    Moves s now (.received []) (s.noteStopReason .PeerClosed).readEnded.leave
  | received {data : Bytes} (point : s.point = .reading)
    (fits : data.length ≤ s.input.preparedBytes) (nonempty : data ≠ []) :
    Moves s now (.received data)
      (({ s with input := s.input.received data fits } : HttpSession).readEnded.readRequest now)
  | readFailed (point : s.point = .reading) :
    Moves s now .readFailed (s.noteStopReason .PeerClosed).readEnded.leave
  | proxySet {attached : Bool} {request : HttpRequest} (point : s.point = .handling request) :
    Moves s now (.proxySet attached) { s with currentProxy := attached }
  | streamed {data : Bytes} {request : HttpRequest} (point : s.point = .handling request) :
    Moves s now (.streamed data) (s.startWrite data (.streaming request))
  | chunkWritten {ok : Bool} {request : HttpRequest} (point : s.point = .streaming request) :
    Moves s now (.written ok) { s.writeEnded ok with point := .handling request }
  | responseWritten {ok : Bool} {request : HttpRequest} {response : HttpResponse}
    (point : s.point = .responding request response) :
    Moves s now (.written ok) ((s.writeEnded ok).respond request response now)
  | refusalWritten {ok : Bool} (point : s.point = .refusing) :
    Moves s now (.written ok) (s.writeEnded ok).leave
  | answered {request : HttpRequest} {response : HttpResponse}
    (point : s.point = .handling request) :
    Moves s now (.answered response) (s.answer request response now)
  | deadlineExpired {expiry : Int} {reason : StopReason}
    (deadline : s.deadline = some (expiry, reason)) (due : expiry ≤ now) :
    Moves s now .deadlineExpired
      (({ s with deadline := none } : HttpSession).closeInExecutor reason)
  | stopped : Moves s now .stopped (s.closeInExecutor .ServerShutdown)
  | drained : Moves s now .drained s.beginDrainInExecutor

theorem moves_of_step {e : SessionEvent} (hstep : s.step (now, e) = some t) :
    s.Moves now e t := by
  cases e with
  | started =>
    simp only [step] at hstep
    split at hstep
    · next hpoint => exact Option.some.inj hstep ▸ .started hpoint
    · cases hstep
  | received data =>
    simp only [step, Option.dite_none_right_eq_some] at hstep
    obtain ⟨⟨hpoint, hfits⟩, hstep⟩ := hstep
    split at hstep
    · next hdata =>
      subst hdata
      exact Option.some.inj hstep ▸ .peerClosed hpoint
    · next hdata => exact Option.some.inj hstep ▸ .received hpoint hfits hdata
  | readFailed =>
    simp only [step] at hstep
    split at hstep
    · next hpoint => exact Option.some.inj hstep ▸ .readFailed hpoint
    · cases hstep
  | proxySet attached =>
    simp only [step] at hstep
    split at hstep
    · next request hpoint => exact Option.some.inj hstep ▸ .proxySet hpoint
    · cases hstep
  | streamed data =>
    simp only [step] at hstep
    split at hstep
    · next request hpoint => exact Option.some.inj hstep ▸ .streamed hpoint
    · cases hstep
  | written ok =>
    simp only [step] at hstep
    split at hstep
    · next request hpoint => exact Option.some.inj hstep ▸ .chunkWritten hpoint
    · next request response hpoint => exact Option.some.inj hstep ▸ .responseWritten hpoint
    · next hpoint => exact Option.some.inj hstep ▸ .refusalWritten hpoint
    · cases hstep
  | answered response =>
    simp only [step] at hstep
    split at hstep
    · next request hpoint => exact Option.some.inj hstep ▸ .answered hpoint
    · cases hstep
  | deadlineExpired =>
    simp only [step] at hstep
    split at hstep
    · next expiry reason hdeadline =>
      simp only [Option.ite_none_right_eq_some, Option.some.injEq] at hstep
      obtain ⟨hdue, rfl⟩ := hstep
      exact .deadlineExpired hdeadline hdue
    · cases hstep
  | stopped => exact Option.some.inj hstep ▸ .stopped
  | drained => exact Option.some.inj hstep ▸ .drained

/-! ### The record of the close -/

/-- The close is recorded once, when the session is closed, and `least` times already. -/
def Recorded (least : Nat) (s : HttpSession) : Prop :=
  s.state ≠ .Closing ∧ (s.closeRecorded = true ↔ s.state = .Closed) ∧
    s.removals.length = (if s.closeRecorded then 1 else 0) ∧ least ≤ s.removals.length

/-- The record, and a coroutine that has ended only with the session Closed. -/
structure CloseInv (least : Nat) (s : HttpSession) : Prop where
  recorded : s.Recorded least
  finished : s.point = .finished → s.state = .Closed

variable {least : Nat}

theorem noteStopReason_recorded (h : s.Recorded least) :
    (s.noteStopReason reason).Recorded least := by
  unfold noteStopReason
  split <;> exact h

theorem closeInExecutor_recorded (h : s.Recorded least) :
    (s.closeInExecutor reason).Recorded least := by
  obtain ⟨hclosing, hrecorded, hremovals, hleast⟩ := h
  unfold closeInExecutor
  split
  · exact ⟨hclosing, hrecorded, hremovals, hleast⟩
  · next hopen =>
    -- it is the first close, and recorded as such
    have hnot : s.closeRecorded = false := by
      cases hclose : s.closeRecorded with
      | false => rfl
      | true => exact absurd (.inl (hrecorded.mp hclose)) hopen
    rw [hnot] at hremovals
    have hnoted : (HttpSession.cancelProxy
          { ({ s with state := .Closing } : HttpSession).noteStopReason reason with
            deadline := none } reason).closeRecorded = false ∧
        (HttpSession.cancelProxy
          { ({ s with state := .Closing } : HttpSession).noteStopReason reason with
            deadline := none } reason).removals = s.removals := by
      unfold cancelProxy noteStopReason
      split <;> split <;> exact ⟨hnot, rfl⟩
    unfold recordClose
    rw [if_neg (by rw [hnoted.1]; exact Bool.false_ne_true)]
    refine ⟨nofun, by simp, ?_, ?_⟩
    · show (_ :: _).length = 1
      rw [hnoted.2, List.length_cons, hremovals]
      rfl
    · show least ≤ (_ :: _).length
      rw [hnoted.2, List.length_cons]
      exact Nat.le_succ_of_le hleast

theorem leave_recorded (h : s.Recorded least) : s.leave.Recorded least := by
  unfold leave
  dsimp only
  split
  · apply closeInExecutor_recorded
    exact h
  · exact h

theorem raised_recorded (h : s.Recorded least) : s.raised.Recorded least := by
  apply closeInExecutor_recorded
  exact h

theorem beginDrainInExecutor_recorded (h : s.Recorded least) :
    s.beginDrainInExecutor.Recorded least := by
  unfold beginDrainInExecutor
  split
  · exact h
  · next hopen =>
    have hnot : s.closeRecorded = false := by
      cases hclose : s.closeRecorded with
      | false => rfl
      | true => exact absurd (.inr (h.2.1.mp hclose)) hopen
    have hdraining : ({ s with state := .Draining } : HttpSession).Recorded least :=
      ⟨nofun, by simp [hnot], h.2.2.1, h.2.2.2⟩
    dsimp only
    split
    · exact closeInExecutor_recorded hdraining
    · exact hdraining

theorem readRequest_recorded (h : s.Recorded least) : (s.readRequest now).Recorded least := by
  have hparsed (parser : HttpParser) (input : Buffer) :
      ({ s with parser := parser, input := input } : HttpSession).Recorded least := h
  unfold readRequest
  dsimp only
  split
  · unfold startReading
    split
    · exact raised_recorded (hparsed _ _)
    · exact h
  · split
    · exact raised_recorded (hparsed _ _)
    · unfold handle
      split
      · exact leave_recorded (hparsed _ _)
      · exact h
  · unfold refuse
    dsimp only
    split
    · apply raised_recorded
      exact h
    · split
      · apply raised_recorded
        exact h
      · exact h

theorem nextRequest_recorded (h : s.Recorded least) : (s.nextRequest now).Recorded least := by
  unfold nextRequest
  split
  · exact readRequest_recorded h
  · exact leave_recorded h

theorem respond_recorded (h : s.Recorded least) (request : HttpRequest)
    (response : HttpResponse) : (s.respond request response now).Recorded least := by
  by_cases hgoes : s.GoesOn request response
  · rw [respond_goesOn hgoes]
    apply readRequest_recorded
    exact h
  · obtain ⟨parser, heq⟩ := respond_leaves hgoes now
    rw [heq]
    apply leave_recorded
    exact h

theorem writeEnded_recorded (h : s.Recorded least) (ok : Bool) :
    (s.writeEnded ok).Recorded least := by
  unfold writeEnded
  split
  · exact h
  · exact noteStopReason_recorded h

/-- Where `readRequest` leaves the coroutine, it has ended only with the session Closed. -/
theorem ReadOutcome.finished (h : s.ReadOutcome t) (hpoint : t.point = .finished) :
    t.state = .Closed := by
  cases h with
  | ends _ hclosed => exact hclosed
  | reading hpoint' => rw [hpoint'] at hpoint; cases hpoint
  | refusing _ _ _ _ _ hpoint' => rw [hpoint'] at hpoint; cases hpoint
  | handling _ hpoint' => rw [hpoint'] at hpoint; cases hpoint

theorem closeInExecutor_closeInv (h : s.Recorded least) :
    (s.closeInExecutor reason).CloseInv least :=
  ⟨closeInExecutor_recorded h, fun _ => closeInExecutor_state h.1 reason⟩

theorem leave_closeInv (h : s.Recorded least) : s.leave.CloseInv least :=
  ⟨leave_recorded h, fun _ => (leave_ends h.1).state⟩

theorem Moves.closeInv {e : SessionEvent} (h : s.CloseInv least) (hmoves : s.Moves now e t) :
    t.CloseInv least := by
  obtain ⟨hrecorded, hfinished⟩ := h
  cases hmoves with
  | started =>
    have hstarted :
        (if s.state = .Created then { s with state := .Running } else s).Recorded least := by
      split
      · next hcreated =>
        refine ⟨nofun, ?_, hrecorded.2.2.1, hrecorded.2.2.2⟩
        show s.closeRecorded = true ↔ SessionState.Running = .Closed
        rw [hrecorded.2.1, hcreated]
        simp
      · exact hrecorded
    exact ⟨nextRequest_recorded hstarted, (nextRequest_outcome hstarted.1 now).finished⟩
  | peerClosed | readFailed =>
    apply leave_closeInv
    exact noteStopReason_recorded hrecorded
  | @received data _ hfits _ =>
    have hreceived : ({ s with input := s.input.received data hfits } :
        HttpSession).readEnded.Recorded least := hrecorded
    exact ⟨readRequest_recorded hreceived, (readRequest_outcome hreceived.1 now).finished⟩
  | proxySet => exact ⟨hrecorded, hfinished⟩
  | streamed => exact ⟨hrecorded, nofun⟩
  | chunkWritten => exact ⟨writeEnded_recorded hrecorded _, nofun⟩
  | @responseWritten ok =>
    have hended := writeEnded_recorded hrecorded ok
    exact ⟨respond_recorded hended _ _, (respond_outcome hended.1 _ _ now).finished⟩
  | refusalWritten => exact leave_closeInv (writeEnded_recorded hrecorded _)
  | answered =>
    have hcleared : ({ s with currentProxy := false } : HttpSession).Recorded least := hrecorded
    unfold answer
    dsimp only
    split
    · exact ⟨respond_recorded hcleared _ _, (respond_outcome hcleared.1 _ _ now).finished⟩
    · split
      · exact ⟨raised_recorded hcleared, fun _ => (raised_ends hcleared.1).state⟩
      · exact ⟨hcleared, nofun⟩
  | deadlineExpired =>
    apply closeInExecutor_closeInv
    exact hrecorded
  | stopped => exact closeInExecutor_closeInv hrecorded
  | drained =>
    refine ⟨beginDrainInExecutor_recorded hrecorded, fun hpoint => ?_⟩
    rw [(beginDrainInExecutor_same s).2] at hpoint
    -- a coroutine that has ended has left a Closed session, which a drain leaves alone
    have hclosed := hfinished hpoint
    unfold beginDrainInExecutor
    rw [if_pos (.inr hclosed)]
    exact hclosed

theorem step_closeInv {e : SessionEvent} (h : s.CloseInv least)
    (hstep : s.step (now, e) = some t) : t.CloseInv least :=
  (moves_of_step hstep).closeInv h

theorem create_eq_ok {limits : SessionLimits} (h : create limits = .ok s) :
    ∃ input, Buffer.create limits.readChunkBytes limits.maxBufferBytes = .ok input ∧
      limits.parser.Accepted ∧ AcceptedLimits limits ∧
      s = { limits := limits, input := input, parser := { limits := limits.parser } } := by
  unfold create at h
  cases hinput : Buffer.create limits.readChunkBytes limits.maxBufferBytes with
  | error e => simp [hinput, Except.bind] at h
  | ok input =>
    simp only [hinput, Except.bind] at h
    split at h
    · cases h
    next hparser =>
    split at h
    · cases h
    next hlimits =>
    obtain rfl := Except.ok.inj h
    exact ⟨input, rfl, by simpa using hparser, by simpa using hlimits, rfl⟩

theorem create_closeInv {limits : SessionLimits} (h : create limits = .ok s) : s.CloseInv 0 := by
  obtain ⟨input, -, -, -, rfl⟩ := create_eq_ok h
  exact ⟨⟨nofun, by simp, rfl, Nat.zero_le _⟩, nofun⟩

theorem CloseInv.since (h : s.CloseInv least) : s.CloseInv s.removals.length :=
  ⟨⟨h.recorded.1, h.recorded.2.1, h.recorded.2.2.1, le_rfl⟩, h.finished⟩

theorem CloseInv.any (h : s.CloseInv least) : s.CloseInv 0 :=
  ⟨⟨h.recorded.1, h.recorded.2.1, h.recorded.2.2.1, Nat.zero_le _⟩, h.finished⟩

end HttpSession
end PulseGate
