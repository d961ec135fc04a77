import PulseGate.Http.ProxyOutcome
import PulseGate.Http.ProxyStrands

namespace PulseGate

/-!
# The lease of a proxied request

The lease of a connection goes back for another request when the parser finds its response
reusable and nothing is left in the buffer; the `Connection` headers and the stop reason are not
looked at.

* `StrandExchange.lease_safe` — the lease is returned for reuse only when the connection may be
  reused, and discarded otherwise, in every run in which a reusable response comes in time
  (`ProxySession.InTime`); a run that misses this condition can go on to an unsafe return;
* `StrandExchange.closing_connection_released` — a connection its upstream is about to close
  goes back to the pool.
-/

/-- A `Connection` header of the response has the token `close`. -/
def HttpResponseParser.announcesClose (p : HttpResponseParser) : Bool :=
  (p.response.headers.values (bytes "connection")).any fun value =>
    containsToken value (bytes "close")

namespace ProxySession

/-- The connection can serve another request: the response was parsed to an end that its
    framing gives, no bytes are left, the upstream keeps the connection, and the session was
    never stopped. -/
structure MayReuse (s : ProxySession) : Prop where
  complete : s.parser.messageComplete = true
  framed : s.parser.eofDelimited = false
  empty : s.input.readableBytes = 0
  kept : s.parser.announcesClose = false
  running : s.stopReason = .None

/-! ### The condition -/

/-- The parser behind a response that the next call of `parse` ends, if it finds the response
    reusable and leaves nothing unread. -/
def endsReusable (s : ProxySession) : Option HttpResponseParser :=
  match s.parser.parse s.input.readableView with
  | .finished .Complete parser [] => if parser.reusable then some parser else none
  | _ => none

/-- A reusable response has ended, and its lease is to go back. -/
def offers (s : ProxySession) : Bool :=
  match s.point with
  | .returned result => decide (result.error = .None) && result.reusable
  | point => (point.parsed.isSome || point.WritesLast) && s.reusable

/-- The event closes the connection: a deadline, a cancellation, or the loss of the last
    chunk. -/
def closes (s : ProxySession) : ProxyEvent → Bool
  | .written (.failed _) => s.point.WritesLast
  | e => e.Stops

/-- What the upstream sends, and when the transaction is stopped: a reusable response ends
    before any stop and announces no close, and from there to the return of the lease nothing
    closes the connection. -/
structure InTime (stopped : Bool) (s : ProxySession) (e : ProxyEvent) : Prop where
  parses : s.ParsesInBounds e
  ends : e = .run → s.point = .parsing → ∀ parser ∈ s.endsReusable,
    stopped = false ∧ parser.announcesClose = false
  closes : s.offers = true → s.closes e = false

instance (stopped : Bool) (s : ProxySession) (e : ProxyEvent) : Decidable (s.InTime stopped e) :=
  have : Decidable (∀ parser ∈ s.endsReusable, stopped = false ∧ parser.announcesClose = false) :=
    Option.decidableForallMem _
  decidable_of_iff (s.ParsesInBounds e ∧ (e = .run → s.point = .parsing →
      ∀ parser ∈ s.endsReusable, stopped = false ∧ parser.announcesClose = false) ∧
      (s.offers = true → s.closes e = false))
    ⟨fun h => ⟨h.1, h.2.1, h.2.2⟩, fun h => ⟨h.parses, h.ends, h.closes⟩⟩

variable {s s' : ProxySession} {e : ProxyEvent} {stopped : Bool}

/-! ### The stop reason -/

/-- While the coroutine is under way, it has a stop reason exactly if it was stopped. -/
def Reasoned (stopped : Bool) (s : ProxySession) : Prop :=
  s.point.Ended = false →
    s.phaseDeadline ≠ some .None ∧ (s.stopReason = .None ↔ stopped = false)

theorem Returned.ended {parser : HttpResponseParser} {context : RequestContext}
    {output : List Output} {result : ProxyResult} (hr : Returned parser context output result s) :
    s.point.Ended = true := by
  rw [hr.point]
  rfl

theorem Reasoned.of_ended (h : s.point.Ended = true) : Reasoned stopped s := fun hended => by
  rw [h] at hended
  cases hended

/-- What a stop changes. -/
structure Stopped (s s' : ProxySession) : Prop where
  point : s'.point = s.point
  parser : s'.parser = s.parser
  input : s'.input = s.input
  phase : s'.phaseDeadline = s.phaseDeadline ∨ s'.phaseDeadline = none
  stopReason : s'.stopReason ≠ .None

theorem stopped_cancel (s : ProxySession) {reason : ProxyStopReason} (hreason : reason ≠ .None) :
    Stopped s (s.cancelInExecutor reason) := by
  unfold cancelInExecutor
  split
  · next hstopped => exact ⟨rfl, rfl, rfl, .inl rfl, hstopped⟩
  · exact ⟨rfl, rfl, rfl, .inl rfl, hreason⟩

theorem stopped_total :
    Stopped s ({ s with totalDeadline := false }.cancelInExecutor .TotalTimeout) := by
  have hne : ProxyStopReason.TotalTimeout ≠ .None := by decide
  obtain ⟨hpoint, hparser, hinput, hphase, hreason⟩ :=
    stopped_cancel { s with totalDeadline := false } hne
  exact ⟨hpoint, hparser, hinput, hphase, hreason⟩

/-- A stop beside the coroutine. -/
theorem stopped_of_stopBeside (hs : s.stopBeside e = some s') : Stopped s s' := by
  unfold stopBeside at hs
  split at hs
  · obtain ⟨_, ⟨⟩⟩ := Option.ite_none_right_eq_some.mp hs
    exact stopped_total
  · obtain ⟨hreason, ⟨⟩⟩ := Option.ite_none_right_eq_some.mp hs
    exact stopped_cancel s (by rcases hreason with rfl | rfl <;> simp)
  · cases hs

/-- A stop that the coroutine meets where it waits; a phase is armed with a reason of its own. -/
theorem stopped_of_step (h : Reasoned stopped s) (hs : s.step e = some s')
    (hstops : e.Stops = true) : Stopped s s' := by
  cases step_cases hs with
  | phaseExpired reason hsuspended hdeadline =>
    have hne : reason ≠ .None := by
      rintro rfl
      exact (h (not_ended_of_step hs)).1 hdeadline
    obtain ⟨hpoint, hparser, hinput, hphase, hreason⟩ := stopped_cancel s.phaseEnded hne
    exact ⟨hpoint, hparser, hinput, .inr (hphase.elim id id), hreason⟩
  | totalExpired hsuspended hdeadline => exact stopped_total
  | cancelled reason hsuspended hreason =>
    exact stopped_cancel s (by rcases hreason with rfl | rfl <;> simp)
  | _ => cases hstops

/-- A stop gives the reason, unless there is one. -/
theorem reasoned_stopped (h : Reasoned stopped s) (hs : Stopped s s') : Reasoned true s' := by
  intro hended
  rw [hs.point] at hended
  refine ⟨?_, iff_of_false hs.stopReason (by simp)⟩
  rcases hs.phase with heq | hnone
  · rw [heq]
    exact (h hended).1
  · simp [hnone]

theorem parserInv_stopped (h : ParserInv s) (hs : Stopped s s') : ParserInv s' := by
  obtain ⟨hpoint, hparser, _, _, _⟩ := hs
  constructor
  · exact hparser ▸ h.bounded
  all_goals rw [hpoint, hparser]
  · exact h.early
  · exact h.agrees
  · exact h.running
  · exact h.last

/-- A step that goes on, and leaves the deadline of the phase as it is or sets it. -/
theorem Reasoned.goOn (h : Reasoned stopped s) (hended : s.point.Ended = false)
    (hphase : s'.phaseDeadline = s.phaseDeadline ∨ s'.phaseDeadline ≠ some .None)
    (hreason : s'.stopReason = s.stopReason) : Reasoned stopped s' := by
  obtain ⟨hdeadline, hstop⟩ := h hended
  intro _
  rw [hreason]
  refine ⟨?_, hstop⟩
  rcases hphase with heq | hne
  · rw [heq]
    exact hdeadline
  · exact hne

theorem reasoned_writeEnded {progress : WriteProgress} (h : Reasoned stopped s)
    (hended : s.point.Ended = false) : Reasoned stopped (s.writeEnded progress) := by
  rcases s.writeEnded_cases progress with
    ⟨_, _, _, heq⟩ | ⟨_, _, _, heq⟩ | ⟨_, hr⟩ | ⟨_, hr⟩
  · rw [heq]
    exact h.goOn hended (.inl rfl) rfl
  · rw [heq]
    exact h.goOn hended (.inl rfl) rfl
  · exact .of_ended hr.ended
  · exact .of_ended hr.ended

/-- **Step lemma** for the stop reason. -/
theorem reasoned_step (h : Reasoned stopped s) (hs : s.step e = some s') :
    Reasoned (stopped || e.Stops) s' := by
  by_cases hstops : e.Stops = true
  · rw [hstops, Bool.or_true]
    exact reasoned_stopped h (stopped_of_step h hs hstops)
  rw [Bool.eq_false_of_not_eq_true hstops, Bool.or_false]
  have hended := not_ended_of_step hs
  cases step_cases hs with
  | phaseExpired | totalExpired | cancelled => exact absurd rfl hstops
  | entered hpoint =>
    unfold enter
    split
    · exact .of_ended rfl
    split
    · exact .of_ended rfl
    dsimp only
    split <;> exact h.goOn hended (.inr (by simp [startSending, startResolve])) rfl
  | parsed hpoint =>
    unfold parseInput
    split
    · exact .of_ended rfl
    · exact h.goOn hended (.inl rfl) rfl
  | headChecked r hpoint =>
    unfold checkHead
    split <;> exact h.goOn hended (.inl rfl) rfl
  | bodyChecked r hpoint =>
    unfold checkBody
    split <;> exact h.goOn hended (.inl rfl) rfl
  | resultChecked r hpoint =>
    rcases s.checkResult_cases r with ⟨_, _, heq⟩ | ⟨_, _, hr⟩ | ⟨_, _, heq⟩ | ⟨_, _, hr⟩
    · rw [heq]
      exact h.goOn hended (.inl rfl) rfl
    · exact .of_ended hr.ended
    · rw [heq]
      exact h.goOn hended (.inl rfl) rfl
    · exact .of_ended hr.ended
  | prepared hpoint =>
    unfold prepareInput
    split
    · exact .of_ended rfl
    · exact h.goOn hended (.inr (by simp)) rfl
  | resolved ok hpoint =>
    split
    · exact h.goOn hended (.inr (by simp [startConnect])) rfl
    · exact .of_ended (operationFailed_returned s.phaseEnded).ended
  | connected ok hpoint =>
    split
    · exact h.goOn hended (.inr (by simp [startSending])) rfl
    · exact .of_ended (operationFailed_returned s.phaseEnded).ended
  | requestSent ok request hpoint =>
    split
    · exact h.goOn hended (.inr (by simp [startResponse, phaseEnded])) rfl
    · exact .of_ended (operationFailed_returned s.phaseEnded).ended
  | received data hpoint hdata hroom => exact h.goOn hended (.inr (by simp [phaseEnded])) rfl
  | readFailed hpoint =>
    rcases s.phaseEnded.endOfInput_cases with ⟨_, hr⟩ | ⟨_, _, _, heq⟩ | ⟨_, _, _, hr⟩ | ⟨_, _, hr⟩
    · exact .of_ended hr.ended
    · rw [heq]
      exact h.goOn hended (.inr (by simp [phaseEnded])) rfl
    · exact .of_ended hr.ended
    · exact .of_ended hr.ended
  | headWritten r progress hpoint hprogress => exact reasoned_writeEnded h hended
  | chunkWritten r progress hpoint hprogress => exact reasoned_writeEnded h hended
  | lastWritten progress hpoint hprogress => exact reasoned_writeEnded h hended

/-! ### The offer -/

/-- The same offer. -/
theorem offers_congr (hpoint : s'.point = s.point) (hparser : s'.parser = s.parser)
    (hinput : s'.input = s.input) : s'.offers = s.offers := by
  simp only [offers, reusable, hpoint, hparser, hinput]

/-- Points before the end of a response offer nothing. -/
theorem offers_early (hparsed : s.point.parsed = none) (hlast : s.point.WritesLast = false)
    (hended : s.point.Ended = false) : s.offers = false := by
  unfold offers
  split
  · next result hpoint => simp [hpoint, ProxyPoint.Ended] at hended
  · simp [hparsed, hlast]

/-- A result that does not offer the connection. -/
theorem offers_withheld {parser : HttpResponseParser} {context : RequestContext}
    {output : List Output} {result : ProxyResult} (hr : Returned parser context output result s)
    (hresult : result.reusable = false) : s.offers = false := by
  simp [offers, hr.point, hresult]

theorem streamErrorResult_reusable (s : ProxySession) (error : ProxyError) :
    (s.streamErrorResult error).reusable = false := by
  unfold streamErrorResult
  split <;> rfl

/-- The coroutine holds a result of `parse`. -/
theorem offers_parsed {parsed : ResponseParseResult} (hparsed : s.point.parsed = some parsed) :
    s.offers = s.reusable := by
  unfold offers
  split
  · next result hpoint => simp [hpoint, ProxyPoint.parsed] at hparsed
  · simp [hparsed]

theorem offers_last (hlast : s.point = .writingLast) : s.offers = s.reusable := by
  simp [offers, hlast, ProxyPoint.parsed, ProxyPoint.WritesLast]

theorem MayReuse.congr (h : s.MayReuse) (hparser : s'.parser = s.parser)
    (hinput : s'.input = s.input) (hstop : s'.stopReason = s.stopReason) : s'.MayReuse :=
  ⟨hparser ▸ h.complete, hparser ▸ h.framed, hinput ▸ h.empty, hparser ▸ h.kept,
    hstop ▸ h.running⟩

/-- A connection that is offered, and was neither stopped nor announced to be closed. -/
theorem mayReuse_of_reusable (hreusable : s.reusable = true) (hstop : s.stopReason = .None)
    (hkept : s.parser.announcesClose = false) : s.MayReuse := by
  simp only [reusable, HttpResponseParser.reusable, Bool.and_eq_true, Bool.not_eq_true',
    decide_eq_true_eq] at hreusable
  obtain ⟨⟨⟨hcomplete, hframed⟩, _⟩, hempty⟩ := hreusable
  exact ⟨hcomplete, hframed, hempty, hkept, hstop⟩

/-! ### One step -/

/-- What a session offers may be reused, and nothing was read outside the buffer. -/
structure LeaseInv (s : ProxySession) : Prop where
  offer : s.offers = true → s.MayReuse
  inBounds : s.point ≠ .outOfBounds

theorem LeaseInv.of_withheld (h : s.offers = false) (hpoint : s.point ≠ .outOfBounds) :
    s.LeaseInv :=
  ⟨fun hoffers => absurd (h.symm.trans hoffers) (by simp), hpoint⟩

theorem leaseInv_returned {parser : HttpResponseParser} {context : RequestContext}
    {output : List Output} {result : ProxyResult} (hr : Returned parser context output result s)
    (hresult : result.reusable = false) : s.LeaseInv :=
  .of_withheld (offers_withheld hr hresult) (by simp [hr.point])

/-- The coroutine goes on with the result it holds. -/
theorem LeaseInv.goOn {parsed : ResponseParseResult} (h : s.LeaseInv)
    (hparsed : s.point.parsed = some parsed) (hparser : s'.parser = s.parser)
    (hinput : s'.input = s.input) (hstop : s'.stopReason = s.stopReason)
    (hpoint : s'.point ≠ .outOfBounds) (hoffers : s'.offers = true → s'.reusable = true) :
    s'.LeaseInv := by
  refine ⟨fun hoffers' => (h.offer ?_).congr hparser hinput hstop, hpoint⟩
  rw [offers_parsed hparsed, ← hoffers hoffers']
  simp only [reusable, hparser, hinput]

/-- A parser that finds its response reusable has ended it. -/
theorem Agrees.eq_complete {parser : HttpResponseParser} {parsed : ResponseParseResult}
    (h : Agrees parser parsed) (hreusable : parser.reusable = true) : parsed = .Complete := by
  have hcomplete : parser.state = .Complete := by
    simp only [HttpResponseParser.reusable, Bool.and_eq_true] at hreusable
    exact HttpResponseParser.messageComplete_iff.mp hreusable.1.1
  by_contra hother
  by_cases hmore : parsed = .NeedMore
  · exact (h.running hmore).1 hcomplete
  · exact absurd ((h.failed hother hmore).symm.trans hcomplete) (by simp)

/-- Nothing stops a session in time that offers its connection. -/
theorem InTime.quiet (hok : s.InTime stopped e) (hstops : e.Stops = true) : s.offers = false := by
  by_contra hoffers
  have hcloses := hok.closes (Bool.eq_true_of_not_eq_false hoffers)
  cases e with
  | phaseExpired | totalExpired | cancelled => cases hcloses
  | _ => cases hstops

theorem leaseInv_parseInput (h : ParserInv s) (hreason : Reasoned stopped s)
    (hpoint : s.point = .parsing) (hok : s.InTime stopped .run) : s.parseInput.LeaseInv := by
  rcases parseInput_cases h.bounded with
    ⟨hout, _⟩ | ⟨parsed, parser, rest, hparse, hadv, hfit, heq⟩
  · exact absurd hout (hok.parses rfl hpoint)
  have hholds : s.parseInput.point.parsed = some parsed := by
    rw [heq]
    dsimp only
    split <;> rfl
  refine ⟨fun hoffers => ?_, ?_⟩
  · rw [offers_parsed hholds, heq] at hoffers
    obtain ⟨hreusable, hempty⟩ :
        parser.reusable = true ∧ (s.inputAfter rest).readableBytes = 0 := by
      simpa [reusable] using hoffers
    -- the call of `parse` has ended a response, and left nothing
    obtain rfl : rest = [] := by
      rw [← Buffer.readableView_length, inputAfter_readableView hadv.suffix] at hempty
      exact List.length_eq_zero_iff.mp hempty
    obtain rfl := hfit.eq_complete hreusable
    have hends : s.endsReusable = some parser := by simp [endsReusable, hparse, hreusable]
    obtain ⟨hstopped, hkept⟩ := hok.ends rfl hpoint parser hends
    have hrunning := ((hreason (by rw [hpoint]; rfl)).2).mpr hstopped
    rw [heq]
    exact mayReuse_of_reusable hoffers hrunning hkept
  · intro hout
    rw [hout] at hholds
    cases hholds

theorem leaseInv_checkResult {parsed : ResponseParseResult} (h : s.LeaseInv)
    (hpoint : s.point = .checkingResult parsed) : (s.checkResult parsed).LeaseInv := by
  have hparsed : s.point.parsed = some parsed := by rw [hpoint]; rfl
  rcases s.checkResult_cases parsed with
    ⟨_, _, heq⟩ | ⟨rfl, hbuffered, hr⟩ | ⟨_, _, heq⟩ | ⟨_, _, hr⟩
  · rw [heq]
    exact h.goOn hparsed rfl rfl rfl (by simp [startWrite]) fun hoffers =>
      (offers_last rfl).symm.trans hoffers
  · -- the result of `execute` offers what is reusable
    have heq : s.checkResult .Complete =
        { s with state := .Complete }.returnResult (s.completeResult s.reusable) := by
      simp [checkResult, hbuffered]
    rw [heq]
    refine h.goOn hparsed rfl rfl rfl (by simp [returnResult]) fun hoffers => ?_
    show s.reusable = true
    simpa [offers, returnResult, completeResult] using hoffers
  · rw [heq]
    exact .of_withheld (offers_early rfl rfl rfl) (by simp)
  · exact leaseInv_returned hr (streamErrorResult_reusable s _)

theorem leaseInv_writeEnded {progress : WriteProgress} (h : s.LeaseInv) (hpoint : s.Writing)
    (hprogress : progress ≠ .pending)
    (hok : s.offers = true → s.closes (.written progress) = false) :
    (s.writeEnded progress).LeaseInv := by
  rcases s.writeEnded_cases progress with
    ⟨parsed, hhead, _, heq⟩ | ⟨parsed, hchunk, _, heq⟩ | ⟨_, hr⟩ | ⟨hother, hr⟩
  · rw [heq]
    exact h.goOn (by rw [hhead]; rfl) rfl rfl rfl (by simp) fun hoffers =>
      (offers_parsed rfl).symm.trans hoffers
  · rw [heq]
    exact h.goOn (by rw [hchunk]; rfl) rfl rfl rfl (by simp) fun hoffers =>
      (offers_parsed rfl).symm.trans hoffers
  · exact leaseInv_returned hr rfl
  · have hlast := hpoint.last hother
    refine ⟨fun hoffers => ?_, by simp [hr.point]⟩
    have hreusable : s.reusable = true := by
      simpa [offers, hr.point, streamedResult] using hoffers
    have hoffered : s.offers = true := (offers_last hlast).trans hreusable
    -- the last chunk was not lost
    cases progress with
    | pending => exact absurd rfl hprogress
    | failed count => simp [closes, hlast, ProxyPoint.WritesLast] at hok; simp [hok] at hoffered
    | sent =>
      have heq : s.writeEnded .sent =
          { s with output := finishWrite .sent s.output, state := .Complete }.returnResult
            s.streamedResult := by
        simp only [writeEnded, hlast, if_true]
        rfl
      rw [heq]
      exact (h.offer hoffered).congr rfl rfl rfl

theorem leaseInv_endOfInput (s : ProxySession) : s.endOfInput.LeaseInv := by
  rcases s.endOfInput_cases with ⟨_, hr⟩ | ⟨_, _, _, heq⟩ | ⟨_, _, _, hr⟩ | ⟨_, _, hr⟩
  · exact leaseInv_returned hr (streamErrorResult_reusable s _)
  · rw [heq]
    exact .of_withheld (offers_early rfl rfl rfl) (by simp)
  · exact leaseInv_returned hr rfl
  · exact leaseInv_returned hr (streamErrorResult_reusable s _)

/-- A stop comes while nothing is offered. -/
theorem leaseInv_stopped (h : s.LeaseInv) (hs : Stopped s s') (hoffers : s.offers = false) :
    s'.LeaseInv :=
  .of_withheld ((offers_congr hs.point hs.parser hs.input).trans hoffers)
    (hs.point ▸ h.inBounds)

/-- **Step lemma.** -/
theorem leaseInv_step (hparser : ParserInv s) (hreason : Reasoned stopped s) (h : s.LeaseInv)
    (hok : s.InTime stopped e) (hs : s.step e = some s') : s'.LeaseInv := by
  by_cases hstops : e.Stops = true
  · exact leaseInv_stopped h (stopped_of_step hreason hs hstops) (hok.quiet hstops)
  cases step_cases hs with
  | phaseExpired | totalExpired | cancelled => exact absurd rfl hstops
  | entered hpoint =>
    unfold enter
    split
    · exact .of_withheld rfl (by simp)
    split
    · exact .of_withheld rfl (by simp)
    dsimp only
    split
    · exact .of_withheld (offers_early rfl rfl rfl) (by simp [startSending])
    · exact .of_withheld (offers_early rfl rfl rfl) (by simp [startResolve])
  | parsed hpoint => exact leaseInv_parseInput hparser hreason hpoint hok
  | headChecked r hpoint =>
    have hparsed : s.point.parsed = some r := by rw [hpoint]; rfl
    unfold checkHead
    split <;> exact h.goOn hparsed rfl rfl rfl (by simp [startWrite]) fun hoffers =>
      (offers_parsed rfl).symm.trans hoffers
  | bodyChecked r hpoint =>
    have hparsed : s.point.parsed = some r := by rw [hpoint]; rfl
    unfold checkBody
    split <;> exact h.goOn hparsed rfl rfl rfl (by simp [startWrite]) fun hoffers =>
      (offers_parsed rfl).symm.trans hoffers
  | resultChecked r hpoint => exact leaseInv_checkResult h hpoint
  | prepared hpoint =>
    unfold prepareInput
    split
    · exact .of_withheld rfl (by simp)
    · exact .of_withheld (offers_early rfl rfl rfl) (by simp)
  | resolved ok hpoint =>
    split
    · exact .of_withheld (offers_early rfl rfl rfl) (by simp [startConnect])
    · exact leaseInv_returned (operationFailed_returned s.phaseEnded) rfl
  | connected ok hpoint =>
    split
    · exact .of_withheld (offers_early rfl rfl rfl) (by simp [startSending])
    · exact leaseInv_returned (operationFailed_returned s.phaseEnded) rfl
  | requestSent ok request hpoint =>
    split
    · exact .of_withheld (offers_early rfl rfl rfl) (by simp [startResponse])
    · exact leaseInv_returned (operationFailed_returned s.phaseEnded) rfl
  | received data hpoint hdata hroom => exact .of_withheld (offers_early rfl rfl rfl) (by simp)
  | readFailed hpoint => exact leaseInv_endOfInput s.phaseEnded
  | headWritten r progress hpoint hprogress =>
    exact leaseInv_writeEnded h (.inl ⟨r, .inl hpoint⟩) hprogress hok.closes
  | chunkWritten r progress hpoint hprogress =>
    exact leaseInv_writeEnded h (.inl ⟨r, .inr hpoint⟩) hprogress hok.closes
  | lastWritten progress hpoint hprogress =>
    exact leaseInv_writeEnded h (.inr hpoint) hprogress hok.closes

/-! ### A new session -/

section Create

variable {upstream : UpstreamEndpoint} {limits : ProxyLimits} {connectionOpen : Bool}
  {context : RequestContext} {request : HttpRequest} {forwarding : Bool}

theorem reasoned_create
    (h : create upstream limits connectionOpen context request forwarding = .ok s) :
    Reasoned false s := by
  obtain ⟨_, _, _, _, _, _, _, _, hstop, _, hphase⟩ := create_eq_ok h
  intro _
  exact ⟨by simp [hphase], iff_of_true hstop rfl⟩

theorem leaseInv_create
    (h : create upstream limits connectionOpen context request forwarding = .ok s) :
    s.LeaseInv := by
  obtain ⟨_, hpoint, _⟩ := create_eq_ok h
  exact .of_withheld (offers_early (by rw [hpoint]; rfl) (by rw [hpoint]; rfl)
    (by rw [hpoint]; rfl)) (by simp [hpoint])

end Create

/-! ### A step that comes too late -/

/-- The connection is closed, or about to be. -/
def Spoiled (s : ProxySession) : Prop :=
  s.stopReason ≠ .None ∨ s.parser.announcesClose = true

theorem Spoiled.not_mayReuse (h : s.Spoiled) : ¬ s.MayReuse := by
  intro hmay
  rcases h with hstop | hclose
  · exact hstop hmay.running
  · rw [hmay.kept] at hclose
    cases hclose

/-- The call of `parse` ends a reusable response. -/
theorem parseInput_of_endsReusable {parser : HttpResponseParser}
    (hends : s.endsReusable = some parser) :
    s.parseInput.offers = true ∧ s.parseInput.parser = parser ∧
      s.parseInput.stopReason = s.stopReason := by
  unfold endsReusable at hends
  split at hends
  · next p hparse =>
    obtain ⟨hreusable, ⟨⟩⟩ := Option.ite_none_right_eq_some.mp hends
    have hempty : (s.inputAfter []).readableBytes = 0 := by
      rw [← Buffer.readableView_length, inputAfter_readableView List.nil_suffix]
      rfl
    have heq : s.parseInput = { s with
        parser := parser, input := s.inputAfter [],
        point := if s.forwarding then .checkingHead .Complete else .checkingResult .Complete } := by
      simp only [parseInput, hparse]
    have hholds : s.parseInput.point.parsed = some .Complete := by
      rw [heq]
      dsimp only
      split <;> rfl
    refine ⟨?_, by rw [heq], by rw [heq]⟩
    rw [offers_parsed hholds, heq]
    simp [reusable, hreusable, hempty]
  · cases hends

/-- The last chunk of an offered connection is lost. -/
theorem writeEnded_failed {count : Nat} (hlast : s.point = .writingLast)
    (hoffers : s.offers = true) :
    (s.writeEnded (.failed count)).offers = true ∧ (s.writeEnded (.failed count)).Spoiled := by
  have heq : s.writeEnded (.failed count) =
      { ({ s with output := finishWrite (.failed count) s.output } : ProxySession).cancelInExecutor
          .DownstreamClosed with state := .Complete }.returnResult
        (({ s with output := finishWrite (.failed count) s.output } :
          ProxySession).cancelInExecutor .DownstreamClosed).streamedResult := by
    simp only [writeEnded, hlast]
    rfl
  have hne : ProxyStopReason.DownstreamClosed ≠ .None := by decide
  have hstopped := stopped_cancel { s with output := finishWrite (.failed count) s.output } hne
  rw [heq]
  refine ⟨?_, .inl hstopped.stopReason⟩
  rw [offers_last hlast] at hoffers
  simpa [offers, returnResult, streamedResult, reusable, hstopped.parser, hstopped.input]
    using hoffers

/-- A response that ends too late, or announces a close. -/
theorem spoiled_parseInput {parser : HttpResponseParser} (hreason : Reasoned stopped s)
    (hpoint : s.point = .parsing) (hends : s.endsReusable = some parser)
    (hlate : ¬ (stopped = false ∧ parser.announcesClose = false)) :
    s.parseInput.offers = true ∧ s.parseInput.Spoiled := by
  obtain ⟨hoffers, hsame, hstop⟩ := parseInput_of_endsReusable hends
  refine ⟨hoffers, ?_⟩
  unfold Spoiled
  rw [hsame, hstop]
  by_cases hnone : s.stopReason = .None
  · have hstopped := ((hreason (by rw [hpoint]; rfl)).2).mp hnone
    exact .inr (Bool.eq_true_of_not_eq_false fun hkept => hlate ⟨hstopped, hkept⟩)
  · exact .inl hnone

/-- A connection that is offered, and an event that closes it. -/
theorem spoiled_of_closes (hreason : Reasoned stopped s) (hoffers : s.offers = true)
    (hcloses : s.closes e = true) (hs : s.step e = some s' ∨ s.stopBeside e = some s') :
    s'.offers = true ∧ s'.Spoiled := by
  cases hstops : e.Stops with
  | true =>
    have hstopped : Stopped s s' := by
      rcases hs with hs | hs
      · exact stopped_of_step hreason hs hstops
      · exact stopped_of_stopBeside hs
    refine ⟨?_, .inl hstopped.stopReason⟩
    rw [offers_congr hstopped.point hstopped.parser hstopped.input]
    exact hoffers
  | false =>
    obtain ⟨count, rfl⟩ : ∃ count, e = .written (.failed count) := by
      cases e with
      | written progress =>
        cases progress with
        | failed count => exact ⟨count, rfl⟩
        | _ => cases hcloses
      | _ => exact absurd (hstops.symm.trans hcloses) (by simp)
    have hlast : s.point = .writingLast := by
      cases hpoint : s.point <;> simp_all [closes, ProxyPoint.WritesLast]
    have heq : s' = s.writeEnded (.failed count) := by
      rcases hs with hs | hs
      · simpa [step, hlast, eq_comm] using hs
      · cases hs
    rw [heq]
    exact writeEnded_failed hlast hoffers

/-- A step that misses the condition reads outside the buffer, or spoils a connection that is
    offered. -/
theorem spoiled_of_not_inTime (hreason : Reasoned stopped s) (hok : ¬ s.InTime stopped e)
    (hs : s.step e = some s' ∨ s.stopBeside e = some s') :
    s'.point = .outOfBounds ∨ (s'.offers = true ∧ s'.Spoiled) := by
  -- a call of `parse` is no stop
  have hparse (he : e = .run) (hpoint : s.point = .parsing) : s' = s.parseInput := by
    subst he
    rcases hs with hs | hs
    · simpa [step, resume, hpoint, eq_comm] using hs
    · cases hs
  by_cases hparses : s.ParsesInBounds e
  · right
    by_cases hends : e = .run → s.point = .parsing → ∀ parser ∈ s.endsReusable,
        stopped = false ∧ parser.announcesClose = false
    · have hcloses : ¬ (s.offers = true → s.closes e = false) := fun hcloses =>
        hok ⟨hparses, hends, hcloses⟩
      obtain ⟨hoffers, hcloses⟩ := Classical.not_imp.mp hcloses
      exact spoiled_of_closes hreason hoffers (Bool.eq_true_of_not_eq_false hcloses) hs
    · simp only [not_forall] at hends
      obtain ⟨he, hpoint, parser, hparser, hlate⟩ := hends
      rw [hparse he hpoint]
      exact spoiled_parseInput hreason hpoint hparser hlate
  · simp only [ParsesInBounds, not_forall, not_not] at hparses
    obtain ⟨he, hpoint, hout⟩ := hparses
    left
    rw [hparse he hpoint]
    simp [parseInput, hout]

/-- How far the coroutine is from its return, once it holds a complete response. -/
def distance (s : ProxySession) : Nat :=
  match s.point with
  | .checkingHead _ => 6
  | .writingHead _ => 5
  | .checkingBody _ => 4
  | .writingChunk _ => 3
  | .checkingResult _ => 2
  | .writingLast => 1
  | _ => 0

/-- A coroutine that offers its connection can go on, when all writes succeed. -/
theorem exists_step_of_offers (h : ParserInv s) (hoffers : s.offers = true)
    (hended : s.point.Ended = false) :
    ∃ e s', s.step e = some s' ∧ s'.offers = true ∧ s'.parser = s.parser ∧
      s'.stopReason = s.stopReason ∧ s'.distance < s.distance := by
  cases hpoint : s.point with
  | checkingHead parsed =>
    rw [offers_parsed (by rw [hpoint]; rfl)] at hoffers
    refine ⟨.run, s.checkHead parsed, by simp [step, resume, hpoint], ?_⟩
    unfold checkHead
    split
    · exact ⟨(offers_parsed rfl).trans hoffers, rfl, rfl, by simp [distance, startWrite, hpoint]⟩
    · exact ⟨(offers_parsed rfl).trans hoffers, rfl, rfl, by simp [distance, hpoint]⟩
  | writingHead parsed =>
    rw [offers_parsed (by rw [hpoint]; rfl)] at hoffers
    have heq : s.writeEnded .sent = { s with
        output := finishWrite .sent s.output, responseStarted := true,
        point := .checkingBody parsed } := by
      simp [writeEnded, hpoint]
    refine ⟨.written .sent, s.writeEnded .sent, by simp [step, hpoint], ?_⟩
    rw [heq]
    exact ⟨(offers_parsed rfl).trans hoffers, rfl, rfl, by simp [distance, hpoint]⟩
  | checkingBody parsed =>
    rw [offers_parsed (by rw [hpoint]; rfl)] at hoffers
    refine ⟨.run, s.checkBody parsed, by simp [step, resume, hpoint], ?_⟩
    unfold checkBody
    split
    · exact ⟨(offers_parsed rfl).trans hoffers, rfl, rfl, by simp [distance, startWrite, hpoint]⟩
    · exact ⟨(offers_parsed rfl).trans hoffers, rfl, rfl, by simp [distance, hpoint]⟩
  | writingChunk parsed =>
    rw [offers_parsed (by rw [hpoint]; rfl)] at hoffers
    have heq : s.writeEnded .sent = { s with
        output := finishWrite .sent s.output,
        forwardedBodyBytes := s.parser.response.body.length, point := .checkingResult parsed } := by
      simp [writeEnded, hpoint]
    refine ⟨.written .sent, s.writeEnded .sent, by simp [step, hpoint], ?_⟩
    rw [heq]
    exact ⟨(offers_parsed rfl).trans hoffers, rfl, rfl, by simp [distance, hpoint]⟩
  | checkingResult parsed =>
    rw [offers_parsed (by rw [hpoint]; rfl)] at hoffers
    have hreusable := (Bool.and_eq_true_iff.mp hoffers).1
    obtain rfl := (h.agrees parsed (by rw [hpoint]; rfl)).eq_complete hreusable
    refine ⟨.run, s.checkResult .Complete, by simp [step, resume, hpoint], ?_⟩
    unfold checkResult
    dsimp only
    split
    · exact ⟨(offers_last rfl).trans hoffers, rfl, rfl, by simp [distance, startWrite, hpoint]⟩
    · refine ⟨?_, rfl, rfl, by simp [distance, returnResult, hpoint]⟩
      simpa [offers, returnResult, completeResult] using hoffers
  | writingLast =>
    rw [offers_last hpoint] at hoffers
    refine ⟨.written .sent, s.writeEnded .sent, by simp [step, hpoint], ?_⟩
    simp only [writeEnded, hpoint, if_true]
    refine ⟨?_, rfl, rfl, by simp [distance, returnResult, hpoint]⟩
    simpa [offers, returnResult, streamedResult, reusable] using hoffers
  | returned | raised | outOfBounds =>
    rw [hpoint] at hended
    cases hended
  | _ =>
    rw [offers_early (by rw [hpoint]; rfl) (by rw [hpoint]; rfl) hended] at hoffers
    cases hoffers

/-- On the way from `s` to the return of a reusable result. -/
structure Returning (s t : ProxySession) : Prop where
  parserInv : t.ParserInv
  offers : t.offers = true
  parser : t.parser = s.parser
  stopReason : t.stopReason = s.stopReason

theorem Returning.progress {t : ProxySession} (h : Returning s t)
    (hended : ¬ t.point.Ended = true) :
    ∃ events t', Machine.run step t events = some t' ∧ (∀ e ∈ events, True) ∧ Returning s t' ∧
      t'.distance < t.distance := by
  obtain ⟨e, t', hs, hoffers, hparser, hstop, hless⟩ :=
    exists_step_of_offers h.parserInv h.offers (Bool.eq_false_of_not_eq_true hended)
  refine ⟨[e], t', by simp [Machine.run, hs], fun _ _ => trivial, ?_, hless⟩
  exact ⟨parserInv_step h.parserInv hs, hoffers, hparser.trans h.parser,
    hstop.trans h.stopReason⟩

/-- It comes to return a result that is reusable. -/
theorem exists_return (h : ParserInv s) (hoffers : s.offers = true) :
    ∃ events t result, Machine.run step s events = some t ∧ t.point = .returned result ∧
      result.error = .None ∧ result.reusable = true ∧ t.parser = s.parser ∧
      t.stopReason = s.stopReason := by
  obtain ⟨events, t, hrun, -, ⟨-, hoffers', hparser, hstop⟩, hended⟩ :=
    Machine.exists_run_of_measure (Returning s) (fun t => t.point.Ended = true) (fun _ => True)
      distance (fun _ h hended => h.progress hended) ⟨h, hoffers, rfl, rfl⟩
  cases hpoint : t.point with
  | returned result =>
    obtain ⟨herror, hreusable⟩ : result.error = .None ∧ result.reusable = true := by
      simpa [offers, hpoint] using hoffers'
    exact ⟨events, t, result, hrun, hpoint, herror, hreusable, hparser, hstop⟩
  | raised | outOfBounds =>
    simp [offers, hpoint, ProxyPoint.parsed, ProxyPoint.WritesLast] at hoffers'
  | _ =>
    rw [hpoint] at hended
    cases hended

end ProxySession

namespace Exchange

/-! ### The lease goes back once -/

/-- The lease is returned once, and reusable only as `MayReuse` allows. -/
structure LeaseSafe (e : Exchange) : Prop where
  inBounds : ∀ endpoint s, e.stage = .transacting endpoint s → s.point ≠ .outOfBounds
  released : .releaseReusable ∈ e.leases → ∃ s ∈ e.transaction, s.MayReuse
  discarded : ∀ s ∈ e.transaction, ¬ s.MayReuse → e.leases = [.discard] ∨ e.leases = [.abandon]
  once : e.leases.length ≤ 1

/-- The leases, by the stage of the exchange. -/
def LeaseStage (stopped : Bool) (e : Exchange) : Stage → Prop
  | .admission | .selecting .. | .acquiring _ =>
    e.leases = [] ∧ e.transaction = none ∧ stopped = false
  | .transacting _ s =>
    e.leases = [] ∧ e.transaction = none ∧ s.ParserInv ∧ s.Reasoned stopped ∧ s.LeaseInv
  | .handled _ | .responding | .finished => e.LeaseSafe

variable {e e' : Exchange} {event : ExchangeEvent} {endpoint : Nat} {stopped : Bool}

/-- No lease has been returned after a transaction. -/
theorem leaseSafe_none (hleases : e.leases = []) (htransaction : e.transaction = none)
    (hbounds : ∀ endpoint s, e.stage = .transacting endpoint s → s.point ≠ .outOfBounds) :
    e.LeaseSafe where
  inBounds := hbounds
  released := by simp [hleases]
  discarded := by simp [htransaction]
  once := by simp [hleases]

theorem LeaseStage.safe (h : e.LeaseStage stopped e.stage) : e.LeaseSafe := by
  cases hstage : e.stage with
  | admission | selecting | acquiring =>
    rw [hstage] at h
    exact leaseSafe_none h.1 h.2.1 (by simp [hstage])
  | transacting endpoint s =>
    rw [hstage] at h
    obtain ⟨hleases, htransaction, _, _, hlease⟩ := h
    refine leaseSafe_none hleases htransaction ?_
    intro endpoint' s' hs'
    obtain ⟨rfl, rfl⟩ := Stage.transacting.inj (hstage.symm.trans hs')
    exact hlease.inBounds
  | handled | responding | finished =>
    rw [hstage] at h
    exact h

theorem afterTransaction_lease {s : ProxySession} (hleases : e.leases = []) (hlease : s.LeaseInv)
    (hs : e.afterTransaction endpoint s = some e') : e'.LeaseStage stopped e'.stage := by
  rcases afterTransaction_cases hs with ⟨result, hpoint, rfl⟩ | ⟨exception, _, rfl⟩
  · -- the lease is returned reusable only when the session offers it
    have hmay (h : result.error = .None ∧ result.reusable = true) : s.MayReuse :=
      hlease.offer (by simp [ProxySession.offers, hpoint, h.1, h.2])
    refine ⟨by simp [handle], ?_, ?_, by simp [handle, returnLease, hleases]⟩
    · intro hmem
      refine ⟨s, by simp [handle, returnLease], hmay ?_⟩
      by_contra hwithheld
      simp [handle, returnLease, hleases, hwithheld] at hmem
    · intro t ht hnot
      obtain rfl : s = t := by simpa [handle, returnLease] using ht
      refine .inl ?_
      have hwithheld : ¬ (result.error = .None ∧ result.reusable = true) := fun h => hnot (hmay h)
      simp [handle, returnLease, hleases, hwithheld]
  · refine ⟨by simp [handlerRaised, handle], by simp [handlerRaised, handle, hleases], ?_,
      by simp [handlerRaised, handle, hleases]⟩
    intro t _ _
    exact .inr (by simp [handlerRaised, handle, hleases])

/-- A step whose session meets the condition. -/
theorem leaseStage_step (h : e.LeaseStage stopped e.stage)
    (hok : OnSession (ProxySession.InTime stopped) e event e') (hs : e.step event = some e') :
    e'.LeaseStage (stopped || event.Stops) e'.stage := by
  cases step_cases hs with
  | observed inFlight hstage =>
    rw [hstage] at h
    have hsame : (stopped || ExchangeEvent.Stops (.observed inFlight)) = stopped :=
      Bool.or_false stopped
    rw [hsame]
    unfold enterFlight
    split
    · exact leaseSafe_none h.1 h.2.1 (by simp [overloaded, handle])
    · exact h
  | attempted ticket healthy allowed circuit retryAt attempt rejected earliest hstage hattempt =>
    rw [hstage] at h
    have hsame : (stopped || ExchangeEvent.Stops
        (.attempted ticket healthy allowed circuit retryAt)) = stopped := Bool.or_false stopped
    rw [hsame]
    rcases e.attempt_cases attempt rejected earliest (ticket % e.proxy.upstreams.length) healthy
      allowed circuit retryAt with ⟨_, heq⟩ | ⟨_, _, _, heq⟩ | ⟨_, _, _, _, heq⟩ <;> rw [heq]
    · exact h
    · exact leaseSafe_none h.1 h.2.1 (by simp [handlerRaised, handle])
    · exact h
  | exhausted now attempt rejected earliest hstage =>
    rw [hstage] at h
    unfold noEndpoint
    split <;> exact leaseSafe_none h.1 h.2.1 (by simp [handle])
  -- only a session that was created has the lease
  | acquired ok connectionOpen endpoint hstage =>
    rw [hstage] at h
    obtain ⟨hleases, htransaction, rfl⟩ := h
    rcases e.acquireDone_cases endpoint ok connectionOpen with
      ⟨_, heq⟩ | ⟨_, _, heq⟩ | ⟨_, upstream, _, ⟨s, hcreate, heq⟩ | ⟨_, _, heq⟩⟩ <;> rw [heq]
    · exact leaseSafe_none hleases htransaction (by simp [overloaded, handle])
    · exact leaseSafe_none hleases htransaction (by simp [handlerRaised, handle])
    · exact ⟨hleases, htransaction, ProxySession.parserInv_create hcreate,
        ProxySession.reasoned_create hcreate, ProxySession.leaseInv_create hcreate⟩
    · exact ⟨by simp [handlerRaised, handle], by simp [handlerRaised, handle, hleases],
        by simp [handlerRaised, handle, htransaction], by simp [handlerRaised, handle, hleases]⟩
  | acquireRaised exception endpoint hstage =>
    rw [hstage] at h
    exact leaseSafe_none h.1 h.2.1 (by simp [handlerRaised, handle])
  | session sessionEvent endpoint s s' hstage hsession =>
    rw [hstage] at h
    obtain ⟨hleases, htransaction, hparser, hreason, hlease⟩ := h
    exact ⟨hleases, htransaction, ProxySession.parserInv_step hparser hsession,
      ProxySession.reasoned_step hreason hsession,
      ProxySession.leaseInv_step hparser hreason hlease (hok.at_step hstage) hsession⟩
  | transacted endpoint s e' hstage hsession =>
    rw [hstage] at h
    exact afterTransaction_lease h.1 h.2.2.2.2 hsession
  | responded stored response hstage =>
    rw [hstage] at h
    unfold writeResponse
    split
    · exact ⟨by simp, h.released, h.discarded, h.once⟩
    · split <;> exact ⟨by simp, h.released, h.discarded, h.once⟩
  | written progress hstage hprogress =>
    rw [hstage] at h
    exact ⟨by simp, h.released, h.discarded, h.once⟩

/-- A result that is reusable releases the lease. -/
theorem releases_of_returned (e : Exchange) (endpoint : Nat) {s : ProxySession}
    {result : ProxyResult}
    (hpoint : s.point = .returned result) (herror : result.error = .None)
    (hreusable : result.reusable = true) :
    ∃ e', e.afterTransaction endpoint s = some e' ∧ .releaseReusable ∈ e'.leases ∧
      e'.transaction = some s := by
  refine ⟨_, by simp only [afterTransaction, hpoint]; rfl, ?_, ?_⟩
  · simp [handle, returnLease, herror, hreusable]
  · simp [handle, returnLease]

end Exchange

namespace StrandExchange

/-! ### Runs -/

/-- The event comes in time for the session of the transaction. -/
def InTime (x : StrandExchange) (event : ExchangeEvent) (x' : StrandExchange) : Prop :=
  Exchange.OnSession (ProxySession.InTime x.stopped) x.exchange event x'.exchange

instance (x : StrandExchange) (event : ExchangeEvent) (x' : StrandExchange) :
    Decidable (InTime x event x') :=
  inferInstanceAs (Decidable (Exchange.OnSession _ _ _ _))

def LeaseSafe (x : StrandExchange) : Prop := x.exchange.LeaseSafe

def LeaseInv (x : StrandExchange) : Prop := x.exchange.LeaseStage x.stopped x.exchange.stage

variable {x x' : StrandExchange} {event : ExchangeEvent}

theorem leaseInv_init (proxy : ReverseProxy) (requestId : Nat) (peer : Option Bytes)
    (request : HttpRequest) (cache : RouteCache) :
    LeaseInv (init proxy requestId peer request cache) := ⟨rfl, rfl, rfl⟩

/-- **Step lemma.** -/
theorem leaseInv_step (h : x.LeaseInv) (hok : InTime x event x') (hs : x.step event = some x') :
    x'.LeaseInv := by
  cases step_cases hs with
  | exchange event e he => exact Exchange.leaseStage_step h hok he
  | beside event endpoint s s' hstage haway hbeside =>
    unfold LeaseInv at h
    rw [hstage] at h
    obtain ⟨hleases, htransaction, hparser, hreason, hlease⟩ := h
    have hstopped := ProxySession.stopped_of_stopBeside hbeside
    have hquiet := (hok.at_step hstage).quiet (s.stops_of_stopBeside hbeside)
    exact ⟨hleases, htransaction, ProxySession.parserInv_stopped hparser hstopped,
      ProxySession.reasoned_stopped hreason hstopped,
      ProxySession.leaseInv_stopped hlease hstopped hquiet⟩

/-- A spoiled connection that is offered goes back to the pool, if nothing else happens. -/
theorem exists_unsafe {endpoint : Nat} {s : ProxySession}
    (hstage : x.exchange.stage = .transacting endpoint s) (hparser : s.ParserInv)
    (hoffers : s.offers = true) (hspoiled : s.Spoiled) :
    ∃ events, ¬ Machine.Always step LeaseSafe x events := by
  obtain ⟨events, t, result, hrun, hpoint, herror, hreusable, hsame, hstop⟩ :=
    ProxySession.exists_return hparser hoffers
  obtain ⟨x₁, hrun₁, hstage₁, -, -⟩ := run_session hstage hrun
  obtain ⟨e, hafter, hreleased, htransaction⟩ :=
    x₁.exchange.releases_of_returned endpoint hpoint herror hreusable
  refine ⟨events.map .session ++ [.transacted], fun halways => ?_⟩
  have hlast : x₁.step .transacted = some (x₁.goesOn .transacted e) :=
    step_of_exchange (by simp [Exchange.step, hstage₁, hafter])
  have hend := halways.last (x₁.goesOn .transacted e)
    (by rw [Machine.run_append, hrun₁]; simp [Machine.run, hlast])
  obtain ⟨u, hu, hmay⟩ := hend.released hreleased
  obtain rfl : t = u := Option.some.inj (htransaction.symm.trans hu)
  have hspoiled' : t.Spoiled := by
    unfold ProxySession.Spoiled
    rw [hsame, hstop]
    exact hspoiled
  exact hspoiled'.not_mayReuse hmay

/-- A step that misses the condition, and the rest of a run that shows it. -/
theorem exists_unsafe_of_not_inTime (h : x.LeaseInv) (hok : ¬ InTime x event x')
    (hs : x.step event = some x') : ∃ events, ¬ Machine.Always step LeaseSafe x' events := by
  obtain ⟨endpoint, s, sessionEvent, hstage, rfl, hlate⟩ := Exchange.exists_of_not_onSession hok
  unfold LeaseInv at h
  rw [hstage] at h
  obtain ⟨_, _, hparser, hreason, _⟩ := h
  obtain ⟨s', hstage', _, _, _, hsession⟩ := step_session hstage hs
  rcases ProxySession.spoiled_of_not_inTime hreason hlate hsession with hout | ⟨hoffers, hspoiled⟩
  · exact ⟨[], fun hsafe => hsafe.inBounds endpoint s' hstage' hout⟩
  · have hparser' : s'.ParserInv := by
      rcases hsession with hstep | hbeside
      · exact ProxySession.parserInv_step hparser hstep
      · exact ProxySession.parserInv_stopped hparser (ProxySession.stopped_of_stopBeside hbeside)
    exact exists_unsafe hstage' hparser' hoffers hspoiled

/-- **Lease safety.** In every run in which the calls of `parse` stay inside the buffer, a
    reusable response ends before any stop and announces no close, and nothing closes the
    connection from there to the return of the lease, the lease is returned once, for reuse
    only when the connection may be reused; and a run whose last step is the first to miss this
    can go on to a return that is unsafe. -/
theorem lease_safe (proxy : ReverseProxy) (requestId : Nat) (peer : Option Bytes)
    (request : HttpRequest) (cache : RouteCache) (events : List ExchangeEvent) :
    (Machine.EachStep step InTime (init proxy requestId peer request cache) events →
      Machine.Always step LeaseSafe (init proxy requestId peer request cache) events) ∧
    ∀ event x x', Machine.EachStep step InTime (init proxy requestId peer request cache) events →
      Machine.run step (init proxy requestId peer request cache) events = some x →
      x.step event = some x' → ¬ InTime x event x' →
        ∃ rest, ¬ Machine.Always step LeaseSafe x' rest := by
  have hinv (hok : Machine.EachStep step InTime (init proxy requestId peer request cache) events) :
      Machine.Always step LeaseInv (init proxy requestId peer request cache) events := by
    refine Machine.always_of_eachStep LeaseInv (fun _ h => h) ?_ (leaseInv_init ..) hok
    exact fun x event x' h hok hs => leaseInv_step h hok hs
  constructor
  · intro hok
    refine Machine.always_of_eachStep LeaseInv (fun _ h => h.safe) ?_ (leaseInv_init ..) hok
    exact fun x event x' h hok hs => leaseInv_step h hok hs
  · intro event x x' hok hrun hs hlate
    exact exists_unsafe_of_not_inTime ((hinv hok).last x hrun) hlate hs

/-- The request of the runs below. -/
def smallExchange (method : HttpMethod) : StrandExchange :=
  init Exchange.smallProxy 1 none { method := method, target := bytes "/" } {}

/-- The upstream announces that it closes the connection after the response. -/
def closingResponse : List ExchangeEvent :=
  Exchange.requestEvents ++ Exchange.readEvents false ++
    [.session (.received (bytes "HTTP/1.1 200 OK\r\nConnection: close\r\n\r\n"))]

/-- The theorem at a response that is buffered, on a connection that goes back, and at one that
    announces a close. -/
theorem lease_safe_buffered :
    Machine.Always step LeaseSafe (smallExchange .Head)
      (Exchange.requestEvents ++ Exchange.readEvents false ++
        [.session (.received (bytes "HTTP/1.1 200 OK\r\n\r\n")), .session .run, .session .run,
         .transacted]) ∧
    ∃ x x', Machine.run step (smallExchange .Head) closingResponse = some x ∧
      x.step (.session .run) = some x' ∧ ∃ rest, ¬ Machine.Always step LeaseSafe x' rest := by
  constructor
  · exact (lease_safe Exchange.smallProxy 1 none _ {} _).1 (by decide +kernel)
  · -- the call of `parse` is the first step that misses the condition
    have hlate : ((Machine.run step (smallExchange .Head) closingResponse).bind fun x =>
        (x.step (.session .run)).filter fun x' => ¬ InTime x (.session .run) x').isSome = true := by
      decide +kernel
    obtain ⟨x', hlate⟩ := Option.isSome_iff_exists.mp hlate
    obtain ⟨x, hrun, hstep⟩ := Option.bind_eq_some_iff.mp hlate
    obtain ⟨hstep, hout⟩ := Option.filter_eq_some_iff.mp hstep
    exact ⟨x, x', hrun, hstep, (lease_safe Exchange.smallProxy 1 none _ {} closingResponse).2
      (.session .run) x x' (by decide +kernel) hrun hstep (of_decide_eq_true hout)⟩

def closingEvents : List ExchangeEvent :=
  closingResponse ++ [.session .run, .session .run, .transacted]

theorem closing_log :
    (Machine.run step (smallExchange .Head) closingEvents).map (fun x =>
        (x.exchange.leases, x.exchange.transaction.map (·.parser.announcesClose))) =
      some ([.releaseReusable], some true) := by
  decide +kernel

/-- The connection goes back to the pool. -/
theorem closing_connection_released :
    ¬ Machine.Always step LeaseSafe (smallExchange .Head) closingEvents := by
  intro h
  obtain ⟨x, hrun, hlog⟩ := Option.map_eq_some_iff.mp closing_log
  obtain ⟨hleases, hclose⟩ := Prod.mk.inj hlog
  obtain ⟨s, hs, hmay⟩ := (h.last x hrun).released (by simp [hleases])
  rw [Option.mem_def.mp hs, Option.map_some, hmay.kept] at hclose
  cases hclose

-- a stop that comes beside the coroutine, between the last call of `parse` and the return
example :
    (Machine.run step (smallExchange .Head) (Exchange.requestEvents ++ Exchange.readEvents false ++
        [.session (.received (bytes "HTTP/1.1 200 OK\r\n\r\n")), .session .run, .session .run,
         .session (.cancelled .ServerShutdown), .transacted])).map (fun x =>
      (x.exchange.leases, x.exchange.transaction.map (·.stopReason))) =
      some ([.releaseReusable], some .ServerShutdown) := by
  decide +kernel

end StrandExchange
end PulseGate
