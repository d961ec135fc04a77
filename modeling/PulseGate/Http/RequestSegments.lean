import PulseGate.Lib.Incremental
import PulseGate.Http.RequestGrammar

namespace PulseGate

/-!
# Requests that arrive in fragments

The request parser reads locally, with one exception: while the end of the request line is
missing, a carriage return that has already arrived counts as a byte of the line.  A line that
is exactly as long as the limit is then refused if it is cut before its line feed.

* `parseFragments` — a call of `parse` after each fragment, up to the first result other than
  `NeedMore`;
* `parse_local` — the parser reads locally, with that exception;
* `CutsLine`, `HeadTooLarge` — where the exception is met, and where the head is too large
  however it is cut;
* `same_iff` — two ways of cutting the same bytes agree exactly if both or neither meet the
  exception, or the head is too large.
-/

namespace HttpParser

variable {p q : HttpParser} {limits : HttpParserLimits} {line input rest x y z : Bytes}

/-- The outcomes of `parse`, for calls with the fragments of a request. -/
def outcomes : Incremental.Outcomes HttpParser UInt8 Outcome where
  wait p rest := (.NeedMore, p, rest)
  ask o := if o.1 = .NeedMore then some o.2 else none
  leave o rest := (o.1, o.2.1, o.2.2 ++ rest)
  ask_eq_some := by
    rintro ⟨result, p, rest⟩ q left
    by_cases h : result = .NeedMore <;> simp [h]
  leave_nil := by simp
  leave_leave := by simp
  ask_leave := by
    rintro ⟨result, p, rest⟩ left h
    by_cases hmore : result = .NeedMore
    · simp [hmore] at h
    · simp [hmore]

/-- The fragments are appended one at a time, with a call of `parse` after each. -/
def parseFragments (limits : HttpParserLimits) (fragments : List Bytes) : Outcome :=
  Incremental.feed outcomes parse { limits := limits } [] fragments

/-- A parser that `parse` has not finished with. -/
def Reading (p : HttpParser) : Prop := p.state ≠ .Complete ∧ p.state ≠ .Error

/-- The bytes so far are over the limit, and the line is not. -/
def MissesFeed (p : HttpParser) (x z : Bytes) : Prop :=
  p.state = .RequestLine ∧ splitLine x = none ∧ p.limits.maxRequestLineBytes < x.length ∧
    ∃ line rest, splitLine (x ++ z) = some (line, rest) ∧
      line.length = p.limits.maxRequestLineBytes

/-! ### One iteration -/

/-- After a line that does not end the loop, the parser reads on. -/
theorem reading_lineStep (hp : p.Reading) (hstep : p.lineStep line rest = .inr (q, x)) :
    q.Reading := by
  unfold lineStep at hstep
  by_cases hs : p.state = .RequestLine
  · rw [if_pos hs] at hstep
    unfold requestLineStep at hstep
    split at hstep
    · obtain ⟨rfl, _⟩ := Prod.mk.inj (Sum.inr.inj hstep)
      simp [Reading]
    · cases hstep
  rw [if_neg hs] at hstep
  dsimp only at hstep
  split at hstep
  · unfold finishHeadersStep at hstep
    split at hstep
    · split at hstep
      · cases hstep
      · obtain ⟨rfl, _⟩ := Prod.mk.inj (Sum.inr.inj hstep)
        simp [Reading]
    · cases hstep
  · unfold headerStep at hstep
    split at hstep
    · next p' hparse =>
      obtain ⟨l, _, _, _, rfl⟩ := parseHeader_complete hparse
      obtain ⟨rfl, _⟩ := Prod.mk.inj (Sum.inr.inj hstep)
      exact hp
    · cases hstep

theorem loopBody_of_state (hs : p.state = .Body) : loopBody (p, input) = p.bodyStep input := by
  show p.step input = p.bodyStep input
  unfold step
  rw [if_pos hs]

/-- An iteration for a line that is too large. -/
theorem loopBody_tooLarge (hs : p.state ≠ .Body) (hsplit : splitLine input = some (line, rest))
    (hlarge : p.lineTooLarge line.length = true) :
    loopBody (p, input) = p.failing .HeaderTooLarge input := by
  show p.step input = _
  unfold step
  rw [if_neg hs, hsplit]
  dsimp only
  rw [if_pos hlarge]

/-- An iteration without a whole line. -/
theorem loopBody_unfinished (hs : p.state ≠ .Body) (hsplit : splitLine input = none) :
    loopBody (p, input) = p.partialLineStep input := by
  show p.step input = _
  unfold step
  rw [if_neg hs, hsplit]

/-- Bytes that are too many for a line that has not ended are too many when more follow, except
    at the end of a request line. -/
theorem overrun_append (hs : p.state ≠ .Body) (hsplit : splitLine x = none)
    (hfull : p.state = .RequestLine ∧ p.limits.maxRequestLineBytes < x.length ∨
      p.state = .Headers ∧ p.limits.maxHeaderBytes < p.headerBytes + x.length)
    (hgood : ¬p.MissesFeed x z) :
    loopBody (p, x ++ z) = p.failing .HeaderTooLarge (x ++ z) := by
  have hlength : (x ++ z).length = x.length + z.length := List.length_append
  cases hwhole : splitLine (x ++ z) with
  | none =>
    rw [loopBody_unfinished hs hwhole]
    unfold partialLineStep
    rcases hfull with ⟨hstate, hlarge⟩ | ⟨hstate, hlarge⟩
    · rw [if_pos ⟨hstate, by omega⟩]
    · rw [if_neg (by simp [hstate]), if_pos ⟨hstate, by omega⟩]
  | some split =>
    obtain ⟨line, rest⟩ := split
    -- all of `x` but a carriage return is in the line
    have hx := splitLine_none_length hsplit hwhole
    refine loopBody_tooLarge hs hwhole ?_
    rcases hfull with ⟨hstate, hlarge⟩ | ⟨hstate, hlarge⟩
    · have hne : line.length ≠ p.limits.maxRequestLineBytes := fun heq =>
        hgood ⟨hstate, hsplit, hlarge, line, rest, hwhole, heq⟩
      by_contra hsmall
      have hle := ((lineTooLarge_requestLine hstate _).mp (by simpa using hsmall)).1
      omega
    · by_contra hsmall
      have hle := ((lineTooLarge_headers hstate _).mp (by simpa using hsmall)).2
      omega

/-- A final outcome stays what it is when more follows. -/
theorem ends_append {o : Outcome} (hdone : loopBody (p, x) = .inl o) (hfinal : o.1 ≠ .NeedMore)
    (hgood : ¬p.MissesFeed x z) :
    loopBody (p, x ++ z) = .inl (outcomes.leave o z) := by
  by_cases hs : p.state = .Body
  · rw [loopBody_of_state hs] at hdone ⊢
    unfold bodyStep at hdone ⊢
    by_cases hshort : x.length < p.expectedBodyBytes
    · rw [if_pos hshort] at hdone
      obtain rfl := Sum.inl.inj hdone
      exact absurd rfl hfinal
    · rw [if_neg hshort] at hdone
      obtain rfl := Sum.inl.inj hdone
      rw [if_neg (by rw [List.length_append]; omega), List.take_append_of_le_length (by omega),
        List.drop_append_of_le_length (by omega)]
      rfl
  · cases loopBody_ends hs hdone with
    | waiting => exact absurd rfl hfinal
    | overrun hsplit hfull => exact overrun_append hs hsplit hfull hgood
    | tooLarge hsplit hlarge => exact loopBody_tooLarge hs (splitLine_append_right hsplit z) hlarge
    | read hsplit hsmall _ hstep =>
      rw [loopBody_splitLine hs (splitLine_append_right hsplit z) hsmall, hstep]
      rfl

/-- An iteration that waits changes nothing. -/
theorem waits_same (hdone : loopBody (p, x) = .inl (.NeedMore, q, y)) : q = p ∧ y = x := by
  by_cases hs : p.state = .Body
  · rw [loopBody_of_state hs] at hdone
    unfold bodyStep at hdone
    split at hdone
    · obtain ⟨_, hq⟩ := Prod.mk.inj (Sum.inl.inj hdone)
      obtain ⟨rfl, rfl⟩ := Prod.mk.inj hq
      exact ⟨rfl, rfl⟩
    · cases (Prod.mk.inj (Sum.inl.inj hdone)).1
  · cases loopBody_ends hs hdone with
    | waiting => exact ⟨rfl, rfl⟩
    | read _ _ hmore => exact absurd rfl hmore

/-- **The parser reads locally**, up to the missing line feed. -/
theorem parse_local (size : Nat) :
    Incremental.Local outcomes parse loopBody size Reading (fun _ => False) Eq MissesFeed where
  refl := fun _ => rfl
  trans := fun _ _ _ => Eq.trans
  parses := fun p input hp _ => by
    rw [parse_running hp]
    exact parseLoop_ends p input
  continues := fun p x q y hp _ hnext => by
    obtain ⟨line, hs, hsplit, hsmall, hstep⟩ := loopBody_continues hnext
    refine ⟨reading_lineStep hp (hstep y), line ++ crlf, splitLine_eq_some hsplit, fun z => ?_⟩
    rw [loopBody_splitLine hs (splitLine_replace hsplit z) hsmall, hstep]
  waits := fun p x q y hp _ hdone => by
    obtain ⟨rfl, rfl⟩ := waits_same hdone
    exact ⟨hp, .inl ⟨rfl, rfl⟩⟩
  ends := fun p x z o hp _ hdone hfinal hgood => by
    have hmore : o.1 ≠ .NeedMore := by
      intro hmore
      simp [outcomes, hmore] at hfinal
    exact ⟨_, ends_append hdone hmore hgood, rfl⟩
  last := fun _ _ _ h => h.elim
  last_good := fun _ _ _ h => h.elim

/-! ### Where the exception is met -/

/-- The first line is exactly as long as the limit, and a fragment ends between its carriage
    return and its line feed. -/
def CutsLine (limits : HttpParserLimits) (fragments : List Bytes) : Prop :=
  ∃ before after line rest, fragments = before ++ after ∧
    splitLine fragments.flatten = some (line, rest) ∧
    line.length = limits.maxRequestLineBytes ∧ before.flatten.length = line.length + 1

theorem meets_iff (fragments : List Bytes) :
    Incremental.Meets loopBody MissesFeed { limits := limits } fragments ↔
      CutsLine limits fragments := by
  constructor
  · rintro ⟨before, after, rfl, t, y, hreaches, hs, hnone, hlarge, line, rest, hsplit, hline⟩
    -- the parser still reads the request line, so it has consumed nothing
    obtain ⟨rfl, rfl⟩ : t = { limits := limits } ∧ y = before.flatten := by
      cases reaches_cases hreaches with
      | start => exact ⟨rfl, rfl⟩
      | head => simp [RequestHead.parser] at hs
      | body => simp [RequestHead.bodyParser] at hs
    have hle := splitLine_none_length hnone hsplit
    have hlarge : limits.maxRequestLineBytes < before.flatten.length := hlarge
    have hline : line.length = limits.maxRequestLineBytes := hline
    refine ⟨before, after, line, rest, rfl, ?_, hline, by omega⟩
    rw [List.flatten_append]
    exact hsplit
  · rintro ⟨before, after, line, rest, rfl, hsplit, hline, hlength⟩
    rw [List.flatten_append] at hsplit
    have hnone : splitLine before.flatten = none := by
      cases hbefore : splitLine before.flatten with
      | none => rfl
      | some split =>
        obtain ⟨line', rest'⟩ := split
        have hsame := hsplit.symm.trans (splitLine_append_right hbefore after.flatten)
        have hlength' := splitLine_length hbefore
        rw [Option.some.injEq, Prod.mk.injEq] at hsame
        rw [hsame.1] at hlength
        omega
    exact ⟨before, after, rfl, _, _, .refl _, rfl, hnone,
      by show limits.maxRequestLineBytes < before.flatten.length; omega, line, rest, hsplit, hline⟩

/-! ### Heads that are too large -/

/-- The request line is over a limit, however much of it there is. -/
def RequestLineTooLarge (limits : HttpParserLimits) (s : Bytes) : Prop :=
  match splitLine s with
  | none => limits.maxRequestLineBytes < s.length
  | some (line, _) =>
    limits.maxRequestLineBytes < line.length ∨ limits.maxHeaderBytes < line.length + 2

/-- The line after a head is over a limit, however much of it there is. -/
def NextLineTooLarge (limits : HttpParserLimits) (h : RequestHead) (s : Bytes) : Prop :=
  match splitLine s with
  | none => limits.maxHeaderBytes < h.text.length + s.length
  | some (line, _) =>
    limits.maxHeaderLineBytes < line.length ∨
      limits.maxHeaderBytes < h.text.length + (line.length + 2) ∨
      line ≠ [] ∧ limits.maxHeaderCount ≤ h.lines.length

/-- The head is over a limit before anything else is wrong with it. -/
def HeadTooLarge (limits : HttpParserLimits) (s : Bytes) : Prop :=
  RequestLineTooLarge limits s ∨
    ∃ (h : RequestHead) (rest : Bytes), h.Admitted limits ∧ s = h.text ++ rest ∧
      NextLineTooLarge limits h rest

theorem parseRequestLine_result (p : HttpParser) (line : Bytes) :
    (p.parseRequestLine line).1 ≠ .HeaderTooLarge := by
  unfold parseRequestLine
  dsimp only
  split
  · simp
  split
  · simp
  split
  · simp
  split
  · simp
  split <;> simp

theorem finishHeaders_result (p : HttpParser) : p.finishHeaders.1 ≠ .HeaderTooLarge := by
  unfold finishHeaders
  dsimp only
  split
  · simp
  split
  · simp
  split
  · simp
  · split
    · simp
    · split <;> simp
  · simp

/-- Only the number of headers makes a header line too large. -/
theorem parseHeader_result (p : HttpParser) (line : Bytes) :
    (p.parseHeader line).1 = .HeaderTooLarge ↔ p.limits.maxHeaderCount ≤ p.headerCount := by
  unfold parseHeader
  dsimp only
  by_cases hcount : p.limits.maxHeaderCount < p.headerCount + 1
  · rw [if_pos hcount]
    exact ⟨fun _ => by omega, fun _ => rfl⟩
  · rw [if_neg hcount]
    refine ⟨fun hresult => ?_, fun _ => by omega⟩
    exfalso
    revert hresult
    split
    · simp
    split <;> simp

/-- A line is too large, or the one header too many. -/
theorem lineStep_headerTooLarge (hs : p.state ≠ .RequestLine)
    (hstep : p.lineStep line rest = .inl (.HeaderTooLarge, q, x)) :
    line ≠ [] ∧ p.limits.maxHeaderCount ≤ p.headerCount := by
  unfold lineStep at hstep
  rw [if_neg hs] at hstep
  dsimp only at hstep
  generalize hread : ({ p with headerBytes := p.headerBytes + (line.length + 2) } : HttpParser)
    = read at hstep
  by_cases hempty : line = []
  · rw [if_pos (by simp [hempty])] at hstep
    unfold finishHeadersStep at hstep
    split at hstep
    · split at hstep <;> cases hstep
    · next result q' _ hfinish =>
      have hresult := (Prod.mk.inj (Sum.inl.inj hstep)).1
      have hne := read.finishHeaders_result
      rw [hfinish, hresult] at hne
      exact absurd rfl hne
  · rw [if_neg (by simpa using hempty)] at hstep
    unfold headerStep at hstep
    split at hstep
    · cases hstep
    · next result q' _ hparse =>
      have hresult := (Prod.mk.inj (Sum.inl.inj hstep)).1
      have hcount := (read.parseHeader_result line).mp (by rw [hparse, hresult])
      rw [← hread] at hcount
      exact ⟨hempty, hcount⟩

theorem requestLineTooLarge_loopBody (h : RequestLineTooLarge limits input) :
    loopBody ({ limits := limits }, input) =
      ({ limits := limits } : HttpParser).failing .HeaderTooLarge input := by
  unfold RequestLineTooLarge at h
  cases hsplit : splitLine input with
  | none =>
    rw [hsplit] at h
    rw [loopBody_unfinished (by simp) hsplit, partialLineStep, if_pos ⟨rfl, h⟩]
  | some split =>
    obtain ⟨line, rest⟩ := split
    rw [hsplit] at h
    refine loopBody_tooLarge (by simp) hsplit ?_
    by_contra hsmall
    obtain ⟨hline, hheader⟩ := (lineTooLarge_requestLine rfl _).mp (by simpa using hsmall)
    rcases h with h | h
    · exact absurd h (Nat.not_lt.mpr hline)
    · exact absurd h (Nat.not_lt.mpr hheader)

theorem nextLineTooLarge_loopBody {h : RequestHead} (hnext : NextLineTooLarge limits h input) :
    ∃ q left, loopBody (h.parser limits, input) = .inl (.HeaderTooLarge, q, left) := by
  have hs : (h.parser limits).state ≠ .Body := by simp [RequestHead.parser]
  unfold NextLineTooLarge at hnext
  cases hsplit : splitLine input with
  | none =>
    rw [hsplit] at hnext
    refine ⟨(h.parser limits).fail .HeaderTooLarge, input, ?_⟩
    rw [loopBody_unfinished hs hsplit, partialLineStep, if_neg (by simp [RequestHead.parser]),
      if_pos ⟨rfl, hnext⟩]
    rfl
  | some split =>
    obtain ⟨line, rest⟩ := split
    rw [hsplit] at hnext
    by_cases hlarge : (h.parser limits).lineTooLarge line.length = true
    · exact ⟨_, _, loopBody_tooLarge hs hsplit hlarge⟩
    · -- the line is within the limits, so that it is one header too many
      have hsmall : (h.parser limits).lineTooLarge line.length = false := by simpa using hlarge
      obtain ⟨hline, hheader⟩ := (lineTooLarge_headers rfl _).mp hsmall
      have hcount : line ≠ [] ∧ limits.maxHeaderCount ≤ h.lines.length := by
        rcases hnext with hnext | hnext | hnext
        · exact absurd hnext (Nat.not_lt.mpr hline)
        · exact absurd hnext (Nat.not_lt.mpr hheader)
        · exact hnext
      rw [loopBody_splitLine hs hsplit hsmall]
      unfold lineStep
      rw [if_neg (by simp [RequestHead.parser])]
      dsimp only
      rw [if_neg (by simpa using hcount.1)]
      unfold headerStep parseHeader
      dsimp only
      rw [if_pos (by show limits.maxHeaderCount < h.lines.length + 1; omega)]
      exact ⟨_, _, rfl⟩

/-- **Which heads are too large**, for a call of `parse` on a new parser. -/
theorem parse_headerTooLarge_iff (limits : HttpParserLimits) (s : Bytes) :
    (({ limits := limits } : HttpParser).parse s).1 = .HeaderTooLarge ↔ HeadTooLarge limits s := by
  constructor
  · intro hresult
    obtain ⟨t, hreaches, hdone⟩ := (parse_start limits s).exists_reaches
    generalize ({ limits := limits } : HttpParser).parse s = outcome at hresult hdone
    -- by where the parser was when it answered
    cases reaches_cases hreaches with
    | start =>
      refine .inl ?_
      unfold RequestLineTooLarge
      cases loopBody_ends (by simp) hdone with
      | waiting => cases hresult
      | overrun hsplit hfull =>
        rw [hsplit]
        rcases hfull with ⟨_, hfull⟩ | ⟨hstate, _⟩
        · exact hfull
        · cases hstate
      | @tooLarge line rest hsplit hlarge =>
        rw [hsplit]
        by_contra hsmall
        simp only [not_or, Nat.not_lt] at hsmall
        rw [(lineTooLarge_requestLine rfl _).mpr hsmall] at hlarge
        cases hlarge
      | @read line rest result q hsplit _ _ hstep =>
        have hstep := hstep rest
        unfold lineStep requestLineStep at hstep
        rw [if_pos rfl] at hstep
        split at hstep
        · cases hstep
        · next result' q' _ hparse =>
          have hne := parseRequestLine_result { limits := limits } line
          have hsame := (Prod.mk.inj (Sum.inl.inj hstep)).1
          rw [hparse, hsame, show result = .HeaderTooLarge from hresult] at hne
          exact absurd rfl hne
    | @head h rest ha hinput =>
      refine .inr ⟨h, rest, ha, hinput, ?_⟩
      unfold NextLineTooLarge
      cases loopBody_ends (by simp [RequestHead.parser]) hdone with
      | waiting => cases hresult
      | overrun hsplit hfull =>
        rw [hsplit]
        rcases hfull with ⟨hstate, _⟩ | ⟨_, hfull⟩
        · cases hstate
        · exact hfull
      | @tooLarge line rest hsplit hlarge =>
        rw [hsplit]
        by_contra hsmall
        simp only [not_or, Nat.not_lt] at hsmall
        rw [(lineTooLarge_headers rfl _).mpr ⟨hsmall.1, hsmall.2.1⟩] at hlarge
        cases hlarge
      | @read line rest result q hsplit _ _ hstep =>
        obtain rfl : result = .HeaderTooLarge := hresult
        rw [hsplit]
        exact .inr (.inr (lineStep_headerTooLarge (by simp [RequestHead.parser]) (hstep rest)))
    -- a body waits or ends the message
    | @body h n rest _ _ _ _ =>
      by_cases hshort : rest.length < n
      · rw [bodyStep_short hshort] at hdone
        obtain rfl := Sum.inl.inj hdone
        cases hresult
      · rw [bodyStep_enough (by omega)] at hdone
        obtain rfl := Sum.inl.inj hdone
        cases hresult
  · rintro (hline | ⟨h, rest, ha, rfl, hnext⟩)
    · -- a run has one end, and this one ends in the fault
      have hends := (parse_start limits s).unique (.done (requestLineTooLarge_loopBody hline))
      rw [hends]
    · obtain ⟨q, left, hdone⟩ := nextLineTooLarge_loopBody hnext
      have hends := (parse_start limits _).unique
        ((reaches_head h.lines rfl ha rest).ends (.done hdone))
      rw [hends]

/-! ### Two ways of cutting -/

/-- The results are the same, and so are the request and the bytes that are left after a
    complete one. -/
def SameOutcome (o o' : Outcome) : Prop :=
  o.1 = o'.1 ∧ (o.1 = .Complete → o.2.1.request = o'.2.1.request ∧ o.2.2 = o'.2.2)

theorem parseFragments_whole {fragments : List Bytes} (hcuts : ¬CutsLine limits fragments) :
    parseFragments limits fragments =
      ({ limits := limits } : HttpParser).parse fragments.flatten :=
  (parse_local fragments.flatten.length).feed_alike (by simp [Reading]) (parse_nil limits)
    (Nat.le_refl _) (fun hmeets => hcuts ((meets_iff fragments).mp hmeets))

theorem parseFragments_cut {fragments : List Bytes} (hcuts : CutsLine limits fragments) :
    (parseFragments limits fragments).1 = .HeaderTooLarge := by
  refine (parse_local fragments.flatten.length).feed_of_meets (P := fun o => o.1 = .HeaderTooLarge)
    ?_ ?_ ?_ ?_ (by simp [Reading]) (parse_nil limits) (Nat.le_refl _)
    ((meets_iff fragments).mpr hcuts)
  · rintro p x z ⟨hs, hnone, hlarge, line, rest, hsplit, _⟩
    refine ⟨?_, (.HeaderTooLarge, p.fail .HeaderTooLarge, x), ?_, rfl⟩
    · rintro rfl
      rw [List.append_nil, hnone] at hsplit
      cases hsplit
    · rw [loopBody_unfinished (by simp [hs]) hnone, partialLineStep, if_pos ⟨hs, hlarge⟩]
      rfl
  · intro o ho
    simp [outcomes, ho]
  · rintro o o' rfl ho
    exact ho
  · intro o z ho
    exact ho

theorem SameOutcome.symm {o o' : Outcome} (h : SameOutcome o o') : SameOutcome o' o := by
  refine ⟨h.1.symm, fun hcomplete => ?_⟩
  obtain ⟨hrequest, hrest⟩ := h.2 (h.1.trans hcomplete)
  exact ⟨hrequest.symm, hrest.symm⟩

/-- A cut of the request line agrees with no cut only if the head is too large anyway. -/
theorem same_of_cut {fragments fragments' : List Bytes}
    (hsame : fragments.flatten = fragments'.flatten) (hcut : CutsLine limits fragments)
    (hwhole : ¬CutsLine limits fragments') :
    SameOutcome (parseFragments limits fragments) (parseFragments limits fragments') ↔
      HeadTooLarge limits fragments.flatten := by
  have hresult := parseFragments_cut hcut
  rw [parseFragments_whole hwhole, ← hsame, ← parse_headerTooLarge_iff]
  refine ⟨fun h => h.1.symm.trans hresult, fun h => ⟨hresult.trans h.symm, fun hcomplete => ?_⟩⟩
  rw [hresult] at hcomplete
  cases hcomplete

/-- **Fragments of a request.**  Two ways of cutting the same bytes have the same outcome if both
    or neither cut a request line of the largest size before its line feed, or if the head is
    too large anyway; and only then. -/
theorem same_iff (limits : HttpParserLimits) (fragments fragments' : List Bytes)
    (hsame : fragments.flatten = fragments'.flatten) :
    SameOutcome (parseFragments limits fragments) (parseFragments limits fragments') ↔
      (CutsLine limits fragments ↔ CutsLine limits fragments') ∨
        HeadTooLarge limits fragments.flatten := by
  by_cases hcut : CutsLine limits fragments
  · by_cases hcut' : CutsLine limits fragments'
    · have hresult := parseFragments_cut hcut
      have hresult' := parseFragments_cut hcut'
      refine ⟨fun _ => .inl ⟨fun _ => hcut', fun _ => hcut⟩,
        fun _ => ⟨hresult.trans hresult'.symm, fun hcomplete => ?_⟩⟩
      rw [hresult] at hcomplete
      cases hcomplete
    · rw [same_of_cut hsame hcut hcut']
      simp [hcut, hcut']
  · by_cases hcut' : CutsLine limits fragments'
    · have hiff := same_of_cut hsame.symm hcut' hcut
      rw [← hsame] at hiff
      -- the roles of the two segmentations are exchanged
      have hsymm :
          SameOutcome (parseFragments limits fragments) (parseFragments limits fragments') ↔
          SameOutcome (parseFragments limits fragments') (parseFragments limits fragments) :=
        ⟨SameOutcome.symm, SameOutcome.symm⟩
      rw [hsymm, hiff]
      simp [hcut, hcut']
    · rw [parseFragments_whole hcut, parseFragments_whole hcut', hsame]
      exact ⟨fun _ => .inl ⟨fun h => absurd h hcut, fun h => absurd h hcut'⟩,
        fun _ => ⟨rfl, fun _ => ⟨rfl, rfl⟩⟩⟩

/-- Bytes that are cut inside the target, and not at all. -/
theorem same_iff_target :
    SameOutcome (parseFragments {} [bytes "GET /a", bytes "b HTTP/1.0\r\n\r\n"])
        (parseFragments {} [bytes "GET /ab HTTP/1.0\r\n\r\n"]) ↔
      (CutsLine {} [bytes "GET /a", bytes "b HTTP/1.0\r\n\r\n"] ↔
        CutsLine {} [bytes "GET /ab HTTP/1.0\r\n\r\n"]) ∨
        HeadTooLarge {} [bytes "GET /a", bytes "b HTTP/1.0\r\n\r\n"].flatten :=
  same_iff {} _ _ (by decide)

/-- A request line of the largest size, cut before its line feed, and not cut. -/
theorem parseFragments_differ :
    ¬∀ (limits : HttpParserLimits) (fragments fragments' : List Bytes), limits.Accepted →
      fragments.flatten = fragments'.flatten →
        SameOutcome (parseFragments limits fragments) (parseFragments limits fragments') := by
  intro hall
  have hsame := hall { maxRequestLineBytes := 14 }
    [bytes "GET / HTTP/1.0\r", bytes "\n\r\n"] [bytes "GET / HTTP/1.0\r\n\r\n"]
    (by decide) (by decide)
  have hcut : (parseFragments { maxRequestLineBytes := 14 }
      [bytes "GET / HTTP/1.0\r", bytes "\n\r\n"]).1 = .HeaderTooLarge := by decide +kernel
  have hwhole : (parseFragments { maxRequestLineBytes := 14 }
      [bytes "GET / HTTP/1.0\r\n\r\n"]).1 = .Complete := by decide +kernel
  have hresult := hsame.1
  rw [hcut, hwhole] at hresult
  cases hresult

end HttpParser
end PulseGate
