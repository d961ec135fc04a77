import PulseGate.Lib.Loop
import PulseGate.Http.HttpMessage

namespace PulseGate

/-!
# The request parser

`HttpParser` of `http_parser.cpp`.  Like the parser of upstream responses it works on the
unread bytes of a buffer and returns those it has not consumed; `loopBody` is one iteration of
the loop of `parse`.  The sizes it adds are those of lines in one buffer and stay far below
`std::size_t`, so that they are plain natural numbers here.
-/

structure HttpParserLimits where
  maxRequestLineBytes : Nat := 8192
  maxHeaderBytes : Nat := 16 * 1024
  maxHeaderCount : Nat := 100
  maxHeaderLineBytes : Nat := 8192
  maxBodyBytes : Nat := 1024 * 1024
  deriving DecidableEq, Repr

namespace HttpParserLimits

def kAbsoluteRequestLineLimit : Nat := 16 * 1024

def kAbsoluteHeaderLimit : Nat := 64 * 1024

def kAbsoluteHeaderCountLimit : Nat := 256

def kAbsoluteBodyLimit : Nat := 16 * 1024 * 1024

/-- The limits the constructor of `HttpParser` accepts. -/
def Accepted (l : HttpParserLimits) : Prop :=
  l.maxRequestLineBytes ≠ 0 ∧ l.maxHeaderBytes ≠ 0 ∧ l.maxHeaderCount ≠ 0 ∧
    l.maxHeaderLineBytes ≠ 0 ∧ l.maxBodyBytes ≠ 0 ∧
    l.maxRequestLineBytes ≤ kAbsoluteRequestLineLimit ∧
    l.maxHeaderBytes ≤ kAbsoluteHeaderLimit ∧
    l.maxHeaderCount ≤ kAbsoluteHeaderCountLimit ∧ l.maxBodyBytes ≤ kAbsoluteBodyLimit

instance : DecidablePred Accepted := fun _ =>
  inferInstanceAs (Decidable (_ ∧ _ ∧ _ ∧ _ ∧ _ ∧ _ ∧ _ ∧ _ ∧ _))

end HttpParserLimits

inductive ParseState
  | RequestLine
  | Headers
  | Body
  | Complete
  | Error
  deriving DecidableEq, Repr

inductive ParseResult
  | NeedMore
  | Complete
  | BadRequest
  | HeaderTooLarge
  | BodyTooLarge
  | UnsupportedTransferEncoding
  deriving DecidableEq, Repr

structure HttpParser where
  limits : HttpParserLimits
  state : ParseState := .RequestLine
  request : HttpRequest := {}
  expectedBodyBytes : Nat := 0
  headerBytes : Nat := 0
  headerCount : Nat := 0
  errorResult : ParseResult := .BadRequest
  deriving DecidableEq, Repr

/-- `isRequestTargetValid`. -/
def isRequestTargetValid (target : Bytes) : Bool :=
  !target.isEmpty && target.all fun c => !(c ≤ 0x20 || c == 0x7F)

/-- `isMethodTokenValid`. -/
def isMethodTokenValid (method : Bytes) : Bool := isValidHeaderName method

namespace HttpParser

/-! ### The functions of the parser -/

/-- `HttpParser::fail`. -/
def fail (p : HttpParser) (result : ParseResult) : HttpParser :=
  { p with state := .Error, errorResult := result }

/-- `HttpParser::parseRequestLine`. -/
def parseRequestLine (p : HttpParser) (line : Bytes) : ParseResult × HttpParser :=
  let method := line.takeWhile (· ≠ 32)
  match line.dropWhile (· ≠ 32) with
  | [] => (.BadRequest, p)
  | _ :: afterMethod =>
    let target := afterMethod.takeWhile (· ≠ 32)
    match afterMethod.dropWhile (· ≠ 32) with
    | [] => (.BadRequest, p)
    | _ :: version =>
      -- a third space
      if version.contains 32 then (.BadRequest, p)
      else if !isMethodTokenValid method ∨ !isRequestTargetValid target then (.BadRequest, p)
      else if version ≠ bytes "HTTP/1.1" ∧ version ≠ bytes "HTTP/1.0" then (.BadRequest, p)
      else
        (.Complete,
          { p with request := { p.request with
              method := parseHttpMethod method
              target := target
              versionMajor := 1
              versionMinor := ((version.getLast?.getD 48).toNat : Int) - 48 } })

/-- `HttpParser::parseHeader`. -/
def parseHeader (p : HttpParser) (line : Bytes) : ParseResult × HttpParser :=
  let p := { p with headerCount := p.headerCount + 1 }
  if p.limits.maxHeaderCount < p.headerCount then (.HeaderTooLarge, p)
  else
    match line.dropWhile (· ≠ 58) with
    | [] => (.BadRequest, p)
    | _ :: value =>
      let name := line.takeWhile (· ≠ 58)
      let value := trim value
      if !isValidHeaderName name ∨ !isValidHeaderValue value then (.BadRequest, p)
      else
        (.Complete,
          { p with request := { p.request with headers := p.request.headers.add name value } })

/-- `HttpParser::finishHeaders`. -/
def finishHeaders (p : HttpParser) : ParseResult × HttpParser :=
  let headers := p.request.headers
  if p.request.versionMajor = 1 ∧ p.request.versionMinor = 1 ∧ !headers.contains (bytes "host") then
    (.BadRequest, p)
  else if headers.contains (bytes "transfer-encoding") then (.UnsupportedTransferEncoding, p)
  else
    match headers.values (bytes "content-length") with
    | [] => (.Complete, { p with expectedBodyBytes := 0 })
    | [value] =>
      match fromChars 10 value with
      | none => (.BadRequest, p)
      | some parsed =>
        if p.limits.maxBodyBytes < parsed then (.BodyTooLarge, p)
        else (.Complete, { p with expectedBodyBytes := parsed })
    | _ :: _ :: _ => (.BadRequest, p)

/-! ### The loop of `parse` -/

/-- What a call of `parse` returns, the parser after it, and the bytes it leaves unread. -/
abbrev Outcome := ParseResult × HttpParser × Bytes

/-- One iteration: it returns, or continues the loop. -/
abbrev Iteration := Outcome ⊕ (HttpParser × Bytes)

def failing (p : HttpParser) (result : ParseResult) (rest : Bytes) : Iteration :=
  .inl (result, p.fail result, rest)

def bodyStep (p : HttpParser) (input : Bytes) : Iteration :=
  if input.length < p.expectedBodyBytes then .inl (.NeedMore, p, input)
  else
    .inl (.Complete,
      { p with request := { p.request with body := input.take p.expectedBodyBytes },
               state := .Complete },
      input.drop p.expectedBodyBytes)

/-- The part of the loop that waits for the end of a line. -/
def partialLineStep (p : HttpParser) (input : Bytes) : Iteration :=
  if p.state = .RequestLine ∧ p.limits.maxRequestLineBytes < input.length then
    p.failing .HeaderTooLarge input
  else if p.state = .Headers ∧ p.limits.maxHeaderBytes < p.headerBytes + input.length then
    p.failing .HeaderTooLarge input
  else .inl (.NeedMore, p, input)

/-- A line of `size` bytes that is over one of the limits. -/
def lineTooLarge (p : HttpParser) (size : Nat) : Bool :=
  (p.state = .RequestLine ∧
    (p.limits.maxRequestLineBytes < size ∨ p.limits.maxHeaderBytes < size + 2)) ∨
  (p.state = .Headers ∧
    (p.limits.maxHeaderLineBytes < size ∨ p.limits.maxHeaderBytes < size + 2 ∨
      p.limits.maxHeaderBytes - (size + 2) < p.headerBytes))

def requestLineStep (p : HttpParser) (line rest : Bytes) : Iteration :=
  match p.parseRequestLine line with
  | (.Complete, p) => .inr ({ p with state := .Headers, headerBytes := line.length + 2 }, rest)
  | (result, p) => p.failing result rest

def finishHeadersStep (p : HttpParser) (rest : Bytes) : Iteration :=
  match p.finishHeaders with
  | (.Complete, p) =>
    if p.expectedBodyBytes = 0 then .inl (.Complete, { p with state := .Complete }, rest)
    else .inr ({ p with state := .Body }, rest)
  | (result, p) => p.failing result rest

def headerStep (p : HttpParser) (line rest : Bytes) : Iteration :=
  match p.parseHeader line with
  | (.Complete, p) => .inr (p, rest)
  | (result, p) => p.failing result rest

/-- The part of the loop that has a complete line, within its limits. -/
def lineStep (p : HttpParser) (line rest : Bytes) : Iteration :=
  if p.state = .RequestLine then p.requestLineStep line rest
  else
    let read := { p with headerBytes := p.headerBytes + (line.length + 2) }
    if line.isEmpty then read.finishHeadersStep rest else read.headerStep line rest

/-- One iteration of the loop of `parse`. -/
def step (p : HttpParser) (input : Bytes) : Iteration :=
  if p.state = .Body then p.bodyStep input
  else
    match splitLine input with
    | none => p.partialLineStep input
    | some (line, rest) =>
      -- the limits are checked before the line is consumed
      if p.lineTooLarge line.length then p.failing .HeaderTooLarge input
      else p.lineStep line rest

/-- The body of the loop, on the parser and the unread bytes. -/
def loopBody (s : HttpParser × Bytes) : Iteration := s.1.step s.2

/-- The loop of `parse`.  Every iteration that continues consumes a line, so the number of
    unread bytes bounds the iterations. -/
def parseLoop (p : HttpParser) (input : Bytes) : Outcome :=
  (Loop.run loopBody (input.length + 1) (p, input)).getD (.NeedMore, p, input)

/-- `HttpParser::parse`. -/
def parse (p : HttpParser) (input : Bytes) : Outcome :=
  if p.state = .Complete then (.Complete, p, input)
  else if p.state = .Error then (p.errorResult, p, input)
  else p.parseLoop input

/-- `HttpParser::takeRequest`; the strings of the request move out of the parser. -/
def takeRequest (p : HttpParser) : Except Exception (HttpRequest × HttpParser) :=
  if p.state ≠ .Complete then .error .LogicError
  else
    .ok (p.request,
      { p with request := { p.request with target := [], headers := {}, body := [] } })

/-- `HttpParser::reset`. -/
def reset (p : HttpParser) : HttpParser := { limits := p.limits }

/-! ### What an iteration does -/

variable {p q : HttpParser} {line input rest : Bytes} {t : HttpParser × Bytes}

theorem parseRequestLine_ne (p : HttpParser) (line : Bytes) :
    (p.parseRequestLine line).1 ≠ .NeedMore := by
  unfold parseRequestLine
  dsimp only
  split
  · simp
  split
  · simp
  split
  · simp
  split
  · simp
  split <;> simp

theorem parseHeader_ne (p : HttpParser) (line : Bytes) : (p.parseHeader line).1 ≠ .NeedMore := by
  unfold parseHeader
  dsimp only
  split
  · simp
  split
  · simp
  split <;> simp

theorem finishHeaders_ne (p : HttpParser) : p.finishHeaders.1 ≠ .NeedMore := by
  unfold finishHeaders
  dsimp only
  split
  · simp
  split
  · simp
  split
  · simp
  · split
    · simp
    · split <;> simp
  · simp

/-- Whatever a line leads to, it leaves the bytes after it alone. -/
theorem lineStep_cases (p : HttpParser) (line : Bytes) :
    (∃ q, ∀ rest, p.lineStep line rest = .inr (q, rest)) ∨
    ∃ result q, result ≠ .NeedMore ∧ ∀ rest, p.lineStep line rest = .inl (result, q, rest) := by
  unfold lineStep
  by_cases hs : p.state = .RequestLine
  · -- the outcome is generalized: it does not depend on the rest of the input
    have hne := p.parseRequestLine_ne line
    simp only [if_pos hs, requestLineStep]
    generalize p.parseRequestLine line = outcome at hne
    obtain ⟨result, q⟩ := outcome
    cases result
    case Complete => exact .inl ⟨_, fun _ => rfl⟩
    case NeedMore => exact absurd rfl hne
    all_goals exact .inr ⟨_, _, by simp, fun _ => rfl⟩
  simp only [if_neg hs]
  by_cases hempty : line.isEmpty
  · simp only [if_pos hempty, finishHeadersStep]
    generalize hread : ({ p with headerBytes := p.headerBytes + (line.length + 2) } : HttpParser)
      = read
    have hne := read.finishHeaders_ne
    generalize read.finishHeaders = outcome at hne
    obtain ⟨result, q⟩ := outcome
    cases result
    case Complete =>
      by_cases hzero : q.expectedBodyBytes = 0
      · exact .inr ⟨.Complete, _, by simp, fun _ => if_pos hzero⟩
      · exact .inl ⟨_, fun _ => if_neg hzero⟩
    case NeedMore => exact absurd rfl hne
    all_goals exact .inr ⟨_, _, by simp, fun _ => rfl⟩
  · simp only [if_neg hempty, headerStep]
    generalize hread : ({ p with headerBytes := p.headerBytes + (line.length + 2) } : HttpParser)
      = read
    have hne := read.parseHeader_ne line
    generalize read.parseHeader line = outcome at hne
    obtain ⟨result, q⟩ := outcome
    cases result
    case Complete => exact .inl ⟨_, fun _ => rfl⟩
    case NeedMore => exact absurd rfl hne
    all_goals exact .inr ⟨_, _, by simp, fun _ => rfl⟩

/-- An iteration that has a whole line. -/
theorem loopBody_splitLine (hs : p.state ≠ .Body) (hsplit : splitLine input = some (line, rest))
    (hsize : p.lineTooLarge line.length = false) :
    loopBody (p, input) = p.lineStep line rest := by
  show p.step input = p.lineStep line rest
  unfold step
  rw [if_neg hs, hsplit]
  dsimp only
  rw [if_neg (by simp [hsize])]

/-- An iteration that continues has read a whole line. -/
theorem loopBody_continues (hnext : loopBody (p, input) = .inr t) :
    ∃ line, p.state ≠ .Body ∧ splitLine input = some (line, t.2) ∧
      p.lineTooLarge line.length = false ∧ ∀ rest, p.lineStep line rest = .inr (t.1, rest) := by
  change p.step input = .inr t at hnext
  unfold step at hnext
  split at hnext
  · unfold bodyStep at hnext
    split at hnext <;> cases hnext
  next hs =>
  split at hnext
  · unfold partialLineStep failing at hnext
    split at hnext
    · cases hnext
    split at hnext <;> cases hnext
  next line rest hsplit =>
  split at hnext
  · cases hnext
  next hsize =>
  rcases p.lineStep_cases line with ⟨q, hq⟩ | ⟨result, q, _, hq⟩
  · rw [hq rest] at hnext
    obtain rfl := Sum.inr.inj hnext
    exact ⟨line, hs, hsplit, by simpa using hsize, hq⟩
  · rw [hq rest] at hnext
    cases hnext

/-- How an iteration ends the loop where the parser reads lines. -/
inductive LineEnd (p : HttpParser) (input : Bytes) : Outcome → Prop
  /-- There is no whole line, and there can still be one. -/
  | waiting (partialLine : splitLine input = none)
      (room : p.partialLineStep input = .inl (.NeedMore, p, input)) :
      LineEnd p input (.NeedMore, p, input)
  /-- There is no whole line, and no room for one. -/
  | overrun (partialLine : splitLine input = none)
      (full : p.state = .RequestLine ∧ p.limits.maxRequestLineBytes < input.length ∨
        p.state = .Headers ∧ p.limits.maxHeaderBytes < p.headerBytes + input.length) :
      LineEnd p input (.HeaderTooLarge, p.fail .HeaderTooLarge, input)
  /-- The line is too large. -/
  | tooLarge {line rest : Bytes} (whole : splitLine input = some (line, rest))
      (large : p.lineTooLarge line.length = true) :
      LineEnd p input (.HeaderTooLarge, p.fail .HeaderTooLarge, input)
  /-- The line is refused, or is the last one. -/
  | read {line rest : Bytes} {result : ParseResult} {q : HttpParser}
      (whole : splitLine input = some (line, rest)) (small : p.lineTooLarge line.length = false)
      (more : result ≠ .NeedMore) (step : ∀ rest, p.lineStep line rest = .inl (result, q, rest)) :
      LineEnd p input (result, q, rest)

theorem loopBody_ends (hs : p.state ≠ .Body) {outcome : Outcome}
    (hdone : loopBody (p, input) = .inl outcome) : LineEnd p input outcome := by
  change p.step input = .inl outcome at hdone
  unfold step at hdone
  rw [if_neg hs] at hdone
  cases hsplit : splitLine input with
  | none =>
    rw [hsplit] at hdone
    have hpartial : p.partialLineStep input = .inl outcome := hdone
    unfold partialLineStep failing at hpartial
    split at hpartial
    · next hfull =>
      obtain rfl := Sum.inl.inj hpartial
      exact .overrun hsplit (.inl hfull)
    split at hpartial
    · next hfull =>
      obtain rfl := Sum.inl.inj hpartial
      exact .overrun hsplit (.inr hfull)
    · obtain rfl := Sum.inl.inj hpartial
      exact .waiting hsplit hdone
  | some split =>
    obtain ⟨line, rest⟩ := split
    rw [hsplit] at hdone
    dsimp only at hdone
    split at hdone
    · next hlarge =>
      obtain rfl := Sum.inl.inj hdone
      exact .tooLarge hsplit hlarge
    next hsmall =>
    -- the line ends the loop whatever follows it
    rcases p.lineStep_cases line with ⟨q, hq⟩ | ⟨result, q, hmore, hq⟩
    · rw [hq rest] at hdone
      cases hdone
    · rw [hq rest] at hdone
      obtain rfl := Sum.inl.inj hdone
      exact .read hsplit (by simpa using hsmall) hmore hq

theorem loopBody_decreases :
    Loop.Decreases loopBody (fun _ => True) (fun s => s.2.length) where
  inv := fun _ _ _ _ => trivial
  lt := by
    rintro ⟨p, input⟩ t _ hnext
    obtain ⟨line, _, hsplit, _⟩ := loopBody_continues hnext
    have hlength := splitLine_length hsplit
    show t.2.length < input.length
    omega

/-- The loop of `parse` ends with what `parseLoop` returns. -/
theorem parseLoop_ends (p : HttpParser) (input : Bytes) :
    Loop.Ends loopBody (p, input) (p.parseLoop input) := by
  obtain ⟨outcome, hrun⟩ := loopBody_decreases.exists_run (n := input.length + 1)
    (s := (p, input)) trivial (Nat.lt_succ_self _)
  unfold parseLoop
  rw [hrun]
  exact .of_run hrun

theorem parse_running (hp : p.state ≠ .Complete ∧ p.state ≠ .Error) :
    p.parse input = p.parseLoop input := by
  unfold parse
  rw [if_neg hp.1, if_neg hp.2]

end HttpParser
end PulseGate
