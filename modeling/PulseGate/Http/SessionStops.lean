import PulseGate.Http.SessionSteps

namespace PulseGate

/-!
# The stop reason of a session

Of the places that assign `stop_reason_` all but one look first whether it has a value;
`readRequest` gives it the value ProtocolError whatever it was.  The loop of `run` goes on with
the bytes it has already read after a write has failed, so that the reason of a session can
change.

`stopReason_unique_iff` says that the reason a session was first given stays and is the one that
`SessionRegistry::remove` counts exactly if no parse fails while another reason is in force.  It
is about handlers that return on the executor of the session, as `HttpSession` is.
-/

/-- A result `readRequest` refuses the request with. -/
def ParseResult.Refused (result : ParseResult) : Prop := result ≠ .NeedMore ∧ result ≠ .Complete

instance : DecidablePred ParseResult.Refused := fun _ => inferInstanceAs (Decidable (_ ∧ _))

namespace HttpSession

/-! ### The property -/

/-- All the reasons are the first one that was assigned. -/
structure ReasonsAgree (stopReason : StopReason) (assigned removals : List StopReason) : Prop where
  inForce : stopReason = assigned.getLast?.getD .None
  first : ∀ reason ∈ assigned, reason ≠ .None ∧ assigned.getLast? = some reason
  removed : ∀ reason ∈ removals, assigned.getLast? = some reason

/-- The stop reason never changed once it had a value, and it is what the registry counted. -/
def StopReasonUnique (s : HttpSession) : Prop :=
  ReasonsAgree s.stopReason s.stopReasons s.removals

/-- The deadlines stop the session with a reason. -/
def DeadlineReason (s : HttpSession) : Prop := ∀ deadline ∈ s.deadline, deadline.2 ≠ .None

/-! ### Its condition -/

/-- The parser and the unread bytes that the event leads `readRequest` to. -/
def nextParse (s : HttpSession) : SessionEvent → Option (HttpParser × Bytes)
  | .started =>
    if s.point = .spawned ∧ s.state ≠ .Closing ∧ s.state ≠ .Closed then
      some (s.parser, s.input.readableView)
    else none
  | .received bytes =>
    if s.point = .reading ∧ bytes ≠ [] then some (s.parser, s.input.readableView ++ bytes)
    else none
  | .written _ =>
    match s.point with
    | .responding request response =>
      if s.GoesOn request response then some (s.parser.reset, s.input.readableView) else none
    | _ => none
  | .answered response =>
    match s.point with
    | .handling request =>
      if response.alreadyWritten = true ∧ s.GoesOn request response then
        some (s.parser.reset, s.input.readableView)
      else none
    | _ => none
  | _ => none

/-- The stop reason once the event has been noted. -/
def reasonInForce (s : HttpSession) (e : SessionEvent) : StopReason :=
  if s.stopReason = .None ∧ e = .written false then .PeerClosed else s.stopReason

/-- A parse fails only while there is no other reason than its own. -/
def RefusesUnstopped (s : HttpSession) (e : Int × SessionEvent) : Prop :=
  ∀ next ∈ s.nextParse e.2, (next.1.parse next.2).1.Refused →
    s.reasonInForce e.2 = .None ∨ s.reasonInForce e.2 = .ProtocolError

instance (s : HttpSession) (e : Int × SessionEvent) : Decidable (s.RefusesUnstopped e) :=
  inferInstanceAs (Decidable (∀ next ∈ s.nextParse e.2, _))

/-! ### Assigning a reason -/

section Reasons

variable {reason stopReason : StopReason} {assigned removals : List StopReason}

theorem ReasonsAgree.eq_nil (h : ReasonsAgree stopReason assigned removals)
    (hnone : stopReason = .None) : assigned = [] ∧ removals = [] := by
  have hassigned : assigned = [] := by
    rcases List.eq_nil_or_concat assigned with hnil | ⟨front, first, rfl⟩
    · exact hnil
    · have hforce := h.inForce
      have hfirst := (h.first first (by simp)).1
      simp only [List.concat_eq_append, List.getLast?_concat, Option.getD_some] at hforce
      exact absurd (hforce.symm.trans hnone) hfirst
  refine ⟨hassigned, List.eq_nil_iff_forall_not_mem.mpr fun r hr => ?_⟩
  simpa [hassigned] using h.removed r hr

theorem ReasonsAgree.getLast? (h : ReasonsAgree stopReason assigned removals)
    (hsome : stopReason ≠ .None) : assigned.getLast? = some stopReason := by
  have hforce := h.inForce
  cases hlast : assigned.getLast? with
  | none => exact absurd (by simpa [hlast] using hforce) hsome
  | some first => simp [hforce, hlast]

theorem ReasonsAgree.assign (h : ReasonsAgree stopReason assigned removals)
    (hreason : reason ≠ .None) (hsame : stopReason = .None ∨ stopReason = reason) :
    ReasonsAgree reason (reason :: assigned) removals := by
  rcases hsame with hnone | rfl
  · obtain ⟨rfl, rfl⟩ := h.eq_nil hnone
    exact ⟨rfl, by simpa using hreason, by simp⟩
  -- the reason is the first one already
  · have hlast := h.getLast? hreason
    have hcons : (stopReason :: assigned).getLast? = some stopReason := by
      rw [List.getLast?_cons, hlast, Option.getD_some]
    refine ⟨by rw [hcons, Option.getD_some], fun r hr => ?_, fun r hr => ?_⟩
    · rcases List.mem_cons.mp hr with rfl | hr
      · exact ⟨hreason, hcons⟩
      · exact ⟨(h.first r hr).1, hcons.trans (hlast.symm.trans (h.first r hr).2)⟩
    · exact hcons.trans (hlast.symm.trans (h.removed r hr))

theorem ReasonsAgree.not_assign (h : ReasonsAgree stopReason assigned removals)
    (hsome : stopReason ≠ .None) (hother : stopReason ≠ reason) (removals' : List StopReason) :
    ¬ReasonsAgree reason (reason :: assigned) removals' := by
  intro h'
  have hcons := (h'.first reason (List.mem_cons_self ..)).2
  rw [List.getLast?_cons, h.getLast? hsome] at hcons
  exact hother (by simpa using hcons)

theorem ReasonsAgree.remove (h : ReasonsAgree stopReason assigned removals)
    (hsome : stopReason ≠ .None) :
    ReasonsAgree stopReason assigned (stopReason :: removals) := by
  refine ⟨h.inForce, h.first, fun r hr => ?_⟩
  rcases List.mem_cons.mp hr with rfl | hr
  · exact h.getLast? hsome
  · exact h.removed r hr

end Reasons

/-! ### The parts of a step -/

variable {s : HttpSession} {reason : StopReason} {now : Int}

/-- What a step keeps. -/
def ReasonInv (s : HttpSession) : Prop := s.DeadlineReason ∧ s.StopReasonUnique

theorem noteStopReason_inv (h : s.ReasonInv) (hreason : reason ≠ .None) :
    (s.noteStopReason reason).ReasonInv := by
  unfold noteStopReason
  split
  · next hnone => exact ⟨h.1, h.2.assign hreason (.inl hnone)⟩
  · exact h

theorem noteStopReason_ne (hreason : reason ≠ .None) :
    (s.noteStopReason reason).stopReason ≠ .None := by
  unfold noteStopReason
  split
  · exact hreason
  · assumption

theorem cancelProxy_inv (h : s.ReasonInv) : (s.cancelProxy reason).ReasonInv := by
  unfold cancelProxy
  split <;> exact h

theorem cancelProxy_stopReason : (s.cancelProxy reason).stopReason = s.stopReason := by
  unfold cancelProxy
  split <;> rfl

theorem cancelProxy_stopReasons : (s.cancelProxy reason).stopReasons = s.stopReasons := by
  unfold cancelProxy
  split <;> rfl

theorem recordClose_stopReason : s.recordClose.stopReason = s.stopReason := by
  unfold recordClose
  split <;> rfl

theorem recordClose_stopReasons : s.recordClose.stopReasons = s.stopReasons := by
  unfold recordClose
  split <;> rfl

theorem recordClose_inv (h : s.ReasonInv) (hsome : s.stopReason ≠ .None) :
    s.recordClose.ReasonInv := by
  unfold recordClose
  split
  · exact h
  · exact ⟨h.1, h.2.remove hsome⟩

theorem closeInExecutor_inv (h : s.ReasonInv) (hreason : reason ≠ .None) :
    (s.closeInExecutor reason).ReasonInv := by
  unfold closeInExecutor
  split
  · exact h
  · have hnoted : ({ s with state := .Closing } : HttpSession).ReasonInv := h
    apply recordClose_inv
    · apply cancelProxy_inv
      exact ⟨nofun, (noteStopReason_inv hnoted hreason).2⟩
    · rw [cancelProxy_stopReason]
      exact noteStopReason_ne hreason

/-- A session that has a reason is closed without another one. -/
theorem closeInExecutor_stopReasons (hsome : s.stopReason ≠ .None) :
    (s.closeInExecutor reason).stopReason = s.stopReason ∧
      (s.closeInExecutor reason).stopReasons = s.stopReasons := by
  unfold closeInExecutor
  split
  · exact ⟨rfl, rfl⟩
  · rw [recordClose_stopReason, recordClose_stopReasons, cancelProxy_stopReason,
      cancelProxy_stopReasons]
    show (HttpSession.noteStopReason _ reason).stopReason = _ ∧
      (HttpSession.noteStopReason _ reason).stopReasons = _
    unfold noteStopReason
    rw [if_neg (show ¬({ s with state := .Closing } : HttpSession).stopReason = .None from hsome)]
    exact ⟨rfl, rfl⟩

theorem leave_inv (h : s.ReasonInv) : s.leave.ReasonInv := by
  unfold leave
  dsimp only
  split
  · have hfinished : ({ s with point := .finished } : HttpSession).ReasonInv := h
    apply closeInExecutor_inv hfinished
    split
    · exact nofun
    · assumption
  · exact h

theorem raised_inv (h : s.ReasonInv) : s.raised.ReasonInv := by
  have hfinished : ({ s with point := .finished } : HttpSession).ReasonInv := h
  exact closeInExecutor_inv hfinished nofun

theorem beginDrainInExecutor_inv (h : s.ReasonInv) : s.beginDrainInExecutor.ReasonInv := by
  have hdraining : ({ s with state := .Draining } : HttpSession).ReasonInv := h
  unfold beginDrainInExecutor
  split
  · exact h
  · dsimp only
    split
    · exact closeInExecutor_inv hdraining nofun
    · exact hdraining

theorem readEnded_inv (h : s.ReasonInv) : s.readEnded.ReasonInv := ⟨nofun, h.2⟩

theorem startReading_inv (h : s.ReasonInv) : (s.startReading now).ReasonInv := by
  unfold startReading
  split
  · exact raised_inv h
  · refine ⟨?_, h.2⟩
    rintro _ ⟨⟩
    unfold readDeadline
    split
    · exact nofun
    · split <;> exact nofun

theorem handle_inv (h : s.ReasonInv) (request : HttpRequest) : (s.handle request).ReasonInv := by
  unfold handle
  split
  · exact leave_inv h
  · exact h

theorem refuse_inv {result : ParseResult} (h : s.ReasonInv)
    (hsame : s.stopReason = .None ∨ s.stopReason = .ProtocolError) :
    (s.refuse result).ReasonInv := by
  have hset : (s.setStopReason .ProtocolError).ReasonInv := ⟨h.1, h.2.assign nofun hsame⟩
  unfold refuse
  dsimp only
  split
  · exact raised_inv hset
  · split
    · exact raised_inv hset
    · exact hset

theorem refuse_not_unique {result : ParseResult} (h : s.StopReasonUnique)
    (hother : ¬(s.stopReason = .None ∨ s.stopReason = .ProtocolError)) :
    ¬(s.refuse result).StopReasonUnique := by
  obtain ⟨hsome, hother⟩ := not_or.mp hother
  -- the reason and the values assigned to it are those after the assignment
  have hfields : (s.refuse result).stopReason = .ProtocolError ∧
      (s.refuse result).stopReasons = .ProtocolError :: s.stopReasons := by
    unfold refuse
    dsimp only
    split
    · exact closeInExecutor_stopReasons nofun
    · split
      · exact closeInExecutor_stopReasons nofun
      · exact ⟨rfl, rfl⟩
  intro h'
  unfold StopReasonUnique at h'
  rw [hfields.1, hfields.2] at h'
  exact h.not_assign hsome hother _ h'

theorem readRequest_inv (h : s.ReasonInv)
    (hok : (s.parser.parse s.input.readableView).1.Refused →
      s.stopReason = .None ∨ s.stopReason = .ProtocolError) : (s.readRequest now).ReasonInv := by
  -- only the parser and the buffer have changed
  have hparsed (parser : HttpParser) (input : Buffer) :
      ({ s with parser := parser, input := input } : HttpSession).ReasonInv := h
  unfold readRequest
  dsimp only
  split
  · exact startReading_inv (hparsed _ _)
  · split
    · exact raised_inv (hparsed _ _)
    · exact handle_inv (hparsed _ _) _
  · next hmore hcomplete => exact refuse_inv (hparsed _ _) (hok ⟨hmore, hcomplete⟩)

theorem readRequest_not_unique (h : s.StopReasonUnique)
    (hrefused : (s.parser.parse s.input.readableView).1.Refused)
    (hother : ¬(s.stopReason = .None ∨ s.stopReason = .ProtocolError)) :
    ¬(s.readRequest now).StopReasonUnique := by
  have hparsed (parser : HttpParser) (input : Buffer) :
      ({ s with parser := parser, input := input } : HttpSession).StopReasonUnique := h
  unfold readRequest
  dsimp only
  split
  · next hmore => exact absurd hmore hrefused.1
  · next hcomplete => exact absurd hcomplete hrefused.2
  · exact refuse_not_unique (hparsed _ _) hother

/-! ### One step -/

theorem writeEnded_inv (h : s.ReasonInv) (ok : Bool) : (s.writeEnded ok).ReasonInv := by
  unfold writeEnded
  split
  · exact h
  · exact noteStopReason_inv h nofun

/-- A write that has ended leaves the session with the reason in force. -/
theorem writeEnded_eq (s : HttpSession) (ok : Bool) :
    ∃ reasons, s.writeEnded ok =
      { s with stopReason := s.reasonInForce (.written ok), stopReasons := reasons } := by
  unfold writeEnded noteStopReason reasonInForce
  cases ok
  · by_cases hnone : s.stopReason = .None
    · exact ⟨.PeerClosed :: s.stopReasons, by simp [hnone, setStopReason]⟩
    · exact ⟨s.stopReasons, by simp [hnone]⟩
  · exact ⟨s.stopReasons, by simp⟩

theorem respond_inv {request : HttpRequest} {response : HttpResponse} (h : s.ReasonInv)
    (hends : ¬s.GoesOn request response) : (s.respond request response now).ReasonInv := by
  obtain ⟨parser, heq⟩ := respond_leaves hends now
  rw [heq]
  apply leave_inv
  exact h

/-- A step that leads to a parse is a `readRequest` with the reason in force. -/
theorem step_parses {s' : HttpSession} {e : SessionEvent} {parser : HttpParser} {unread : Bytes}
    (h : s.ReasonInv) (hnext : s.nextParse e = some (parser, unread))
    (hstep : s.step (now, e) = some s') :
    ∃ t : HttpSession, t.ReasonInv ∧ t.parser = parser ∧ t.input.readableView = unread ∧
      t.stopReason = s.reasonInForce e ∧ s' = t.readRequest now := by
  cases moves_of_step hstep with
  | started =>
    simp only [nextParse, Option.ite_none_right_eq_some, Option.some.injEq, Prod.mk.injEq] at hnext
    obtain ⟨⟨-, hclosing, hclosed⟩, rfl, rfl⟩ := hnext
    have hforce : s.stopReason = s.reasonInForce .started := by simp [reasonInForce]
    by_cases hcreated : s.state = .Created
    · rw [if_pos hcreated]
      exact ⟨{ s with state := .Running }, h, rfl, rfl, hforce, rfl⟩
    · rw [if_neg hcreated]
      refine ⟨s, h, rfl, rfl, hforce, if_pos ?_⟩
      cases hstate : s.state <;> simp_all
  | received hpoint hfits =>
    simp only [nextParse, Option.ite_none_right_eq_some, Option.some.injEq, Prod.mk.injEq] at hnext
    obtain ⟨-, rfl, rfl⟩ := hnext
    have hreceived : ({ s with input := s.input.received _ hfits } : HttpSession).ReasonInv := h
    exact ⟨_, readEnded_inv hreceived, rfl, s.input.received_readableView hfits, by
      simp [reasonInForce, readEnded], rfl⟩
  | @responseWritten ok request response hpoint =>
    obtain ⟨reasons, hended⟩ := writeEnded_eq s ok
    simp only [nextParse, hpoint, Option.ite_none_right_eq_some, Option.some.injEq,
      Prod.mk.injEq] at hnext
    obtain ⟨hgoes, rfl, rfl⟩ := hnext
    have hgoes' : (s.writeEnded ok).GoesOn request response := by rw [hended]; exact hgoes
    rw [respond_goesOn hgoes']
    refine ⟨_, ?_, ?_, ?_, ?_, rfl⟩
    · exact writeEnded_inv h ok
    · show (s.writeEnded ok).parser.reset = _
      rw [hended]
    · show (s.writeEnded ok).input.readableView = _
      rw [hended]
    · show (s.writeEnded ok).stopReason = _
      rw [hended]
  | @answered request response hpoint =>
    simp only [nextParse, hpoint, Option.ite_none_right_eq_some, Option.some.injEq,
      Prod.mk.injEq] at hnext
    obtain ⟨⟨hwritten, hgoes⟩, rfl, rfl⟩ := hnext
    have hgoes' : ({ s with currentProxy := false } : HttpSession).GoesOn request response := hgoes
    unfold answer
    dsimp only
    rw [if_pos hwritten, respond_goesOn hgoes']
    refine ⟨_, ?_, ?_, ?_, ?_, rfl⟩
    · exact h
    · rfl
    · rfl
    · simp [reasonInForce]
  -- the other moves call no `readRequest`
  | chunkWritten hpoint | refusalWritten hpoint => simp [nextParse, hpoint] at hnext
  | _ => simp [nextParse] at hnext

/-- A step that leads to no parse assigns no reason without looking. -/
theorem step_noParse {s' : HttpSession} {e : SessionEvent} (h : s.ReasonInv)
    (hnext : s.nextParse e = none) (hstep : s.step (now, e) = some s') : s'.ReasonInv := by
  cases moves_of_step hstep with
  | started hpoint =>
    simp only [nextParse, ite_eq_right_iff, reduceCtorEq, imp_false] at hnext
    have hclosed : s.state = .Closing ∨ s.state = .Closed := by tauto
    rw [if_neg (by rintro hstate; simp [hstate] at hclosed)]
    unfold nextRequest
    rw [if_neg (by rintro (hstate | hstate) <;> simp [hstate] at hclosed)]
    exact leave_inv h
  | peerClosed | readFailed =>
    exact leave_inv (readEnded_inv (noteStopReason_inv h (by rintro ⟨⟩)))
  | received hpoint hfits hdata => simp [nextParse, hpoint, hdata] at hnext
  | proxySet | streamed => exact h
  | @chunkWritten ok => exact writeEnded_inv h ok
  | @responseWritten ok request response hpoint =>
    simp only [nextParse, hpoint, ite_eq_right_iff, reduceCtorEq, imp_false] at hnext
    apply respond_inv (writeEnded_inv h ok)
    obtain ⟨reasons, heq⟩ := writeEnded_eq s ok
    rw [heq]
    exact hnext
  | @refusalWritten ok => exact leave_inv (writeEnded_inv h ok)
  | answered hpoint =>
    simp only [nextParse, hpoint, ite_eq_right_iff, reduceCtorEq, imp_false, not_and] at hnext
    have hcleared : ({ s with currentProxy := false } : HttpSession).ReasonInv := h
    unfold answer
    dsimp only
    split
    · next hwritten => exact respond_inv hcleared (hnext hwritten)
    · split
      · exact raised_inv hcleared
      · exact h
  | deadlineExpired hdeadline =>
    have hfired : ({ s with deadline := none } : HttpSession).ReasonInv := ⟨(by rintro _ ⟨⟩), h.2⟩
    exact closeInExecutor_inv hfired (h.1 _ hdeadline)
  | stopped => exact closeInExecutor_inv h (by rintro ⟨⟩)
  | drained => exact beginDrainInExecutor_inv h

/-! ### Every run -/

theorem create_reasonInv {limits : SessionLimits} (h : create limits = .ok s) : s.ReasonInv := by
  obtain ⟨input, -, -, -, rfl⟩ := create_eq_ok h
  refine ⟨?_, rfl, ?_, ?_⟩ <;> rintro _ ⟨⟩

/-- **Unique reasons.** In the run of a session whose handlers return on its executor the stop
reason keeps the first value it is given, and that is what the registry counts, exactly if no
parse fails while the session has another reason to stop. -/
theorem stopReason_unique_iff {limits : SessionLimits} (hcreate : create limits = .ok s)
    (es : List (Int × SessionEvent)) :
    Machine.Always step StopReasonUnique s es ↔
      Machine.EachStep step (fun s e _ => s.RefusesUnstopped e) s es := by
  have hinv := create_reasonInv hcreate
  refine Machine.always_iff_eachStep DeadlineReason ?_ ?_ es hinv.1 hinv.2
  · rintro s ⟨now, e⟩ s' hdeadline hunique hok hstep
    show s'.ReasonInv
    cases hnext : s.nextParse e with
    | none => exact step_noParse ⟨hdeadline, hunique⟩ hnext hstep
    | some next =>
      obtain ⟨t, ht, hparser, hunread, hforce, rfl⟩ :=
        step_parses ⟨hdeadline, hunique⟩ hnext hstep
      apply readRequest_inv ht
      rw [hparser, hunread, hforce]
      exact hok next hnext
  · rintro s ⟨now, e⟩ s' hdeadline hunique hbad hstep
    simp only [RefusesUnstopped, not_forall] at hbad
    obtain ⟨next, hnext, hrefused, hother⟩ := hbad
    obtain ⟨t, ht, hparser, hunread, hforce, rfl⟩ :=
      step_parses ⟨hdeadline, hunique⟩ hnext hstep
    apply readRequest_not_unique ht.2
    · rw [hparser, hunread]
      exact hrefused
    · rw [hforce]
      exact hother

/-- A request, bytes behind it that are none, and a response that cannot be written. -/
def failedWrite : List (Int × SessionEvent) :=
  [(0, .started), (1, .received (bytes "GET / HTTP/1.1\r\nHost: a\r\n\r\nX\r\n")),
    (2, .answered {}), (3, .written false), (4, .written false)]

/-- A run to its end. -/
theorem stopReason_unique_iff_failedWrite :
    ∃ s, create smallReads = .ok s ∧
      (Machine.Always step StopReasonUnique s failedWrite ↔
        Machine.EachStep step (fun s e _ => s.RefusesUnstopped e) s failedWrite) := by
  obtain ⟨s, hcreate⟩ : ∃ s, create smallReads = .ok s := ⟨_, rfl⟩
  exact ⟨s, hcreate, stopReason_unique_iff hcreate failedWrite⟩

/-- The client is gone when the bytes behind its request are refused: the registry counts
another reason than the first. -/
theorem stopReason_changes :
    ∃ s, create smallReads = .ok s ∧ ¬Machine.Always step StopReasonUnique s failedWrite := by
  obtain ⟨s, hcreate, hend⟩ : ∃ s, create smallReads = .ok s ∧
      (Machine.run step s failedWrite).map (fun t => (t.stopReasons, t.removals)) =
        some ([.ProtocolError, .PeerClosed], [.ProtocolError]) := ⟨_, rfl, by decide +kernel⟩
  refine ⟨s, hcreate, fun halways => ?_⟩
  obtain ⟨t, hrun, hreasons⟩ := Option.map_eq_some_iff.mp hend
  obtain ⟨-, hfirst, -⟩ := halways.last t hrun
  rw [(Prod.mk.inj hreasons).1] at hfirst
  exact absurd (hfirst .ProtocolError (by simp)) (by decide)

end HttpSession
end PulseGate
