import PulseGate.Lib.Loop
import PulseGate.Http.HttpMessage

namespace PulseGate

/-!
# The upstream response parser

`HttpResponseParser` of `http_response_parser.cpp`.  The parser works on the unread bytes of
a buffer and returns those it has not consumed.

One iteration of the loop of `parse` is `step`.  It returns, beside what it does, the
operations of the iteration that C++ leaves undefined, or that would wrap around, on bad
operands; a byte access outside the input has no meaning here either, and ends the loop with
`outOfBounds`.
-/

structure HttpResponseParserLimits where
  maxStatusLineBytes : Nat := 8192
  maxHeaderBytes : Nat := 16 * 1024
  maxHeaderCount : Nat := 100
  maxBodyBytes : Nat := 1024 * 1024
  deriving DecidableEq, Repr

def kAbsoluteHeaderLimit : Nat := 64 * 1024

def kAbsoluteBodyLimit : Nat := 16 * 1024 * 1024

/-- The limits the constructor of `HttpResponseParser` accepts. -/
def HttpResponseParserLimits.Accepted (l : HttpResponseParserLimits) : Prop :=
  l.maxStatusLineBytes ≠ 0 ∧ l.maxHeaderBytes ≠ 0 ∧ l.maxHeaderCount ≠ 0 ∧ l.maxBodyBytes ≠ 0 ∧
    l.maxHeaderBytes ≤ kAbsoluteHeaderLimit ∧ l.maxBodyBytes ≤ kAbsoluteBodyLimit

instance HttpResponseParserLimits.decidableAccepted (l : HttpResponseParserLimits) :
    Decidable l.Accepted :=
  inferInstanceAs (Decidable (_ ∧ _ ∧ _ ∧ _ ∧ _ ∧ _))

inductive ResponseParseState
  | StatusLine
  | Headers
  | FixedBody
  | ChunkSize
  | ChunkBody
  | Trailers
  | EofBody
  | Complete
  | Error
  deriving DecidableEq, Repr

inductive ResponseParseResult
  | NeedMore
  | Complete
  | BadResponse
  | HeaderTooLarge
  | BodyTooLarge
  | UnsupportedTransferEncoding
  | PrematureEof
  deriving DecidableEq, Repr

structure HttpResponseParser where
  limits : HttpResponseParserLimits
  state : ResponseParseState := .StatusLine
  response : HttpResponse := {}
  expectedBodyBytes : Nat := 0
  chunkBytes : Nat := 0
  headerBytes : Nat := 0
  headerCount : Nat := 0
  headRequest : Bool := false
  chunked : Bool := false
  eofDelimited : Bool := false
  errorResult : ResponseParseResult := .BadResponse
  deriving DecidableEq, Repr

/-! ### Checked operations -/

/-- `a + b` on `std::size_t`. -/
def sizeAdd (a b : Nat) : Nat := if a + b < sizeModulus then a + b else a + b - sizeModulus

/-- `a - b` on `std::size_t`. -/
def sizeSub (a b : Nat) : Nat := if b ≤ a then a - b else a + sizeModulus - b

/-- An operation with its operands. -/
inductive Operation
  | index (i size : Nat)
  | consume (count readable : Nat)
  | add (a b : Nat)
  | sub (a b : Nat)
  deriving DecidableEq, Repr

/-- The access is inside the bytes, the bytes consumed are there, the result does not wrap
    around. -/
def Operation.Safe : Operation → Prop
  | .index i size => i < size
  | .consume count readable => count ≤ readable
  | .add a b => a + b < sizeModulus
  | .sub a b => b ≤ a

instance : DecidablePred Operation.Safe
  | .index _ _ => inferInstanceAs (Decidable (_ < _))
  | .consume _ _ => inferInstanceAs (Decidable (_ ≤ _))
  | .add _ _ => inferInstanceAs (Decidable (_ < _))
  | .sub _ _ => inferInstanceAs (Decidable (_ ≤ _))

/-- How a call of `parse` ends: with a result, the parser and the bytes left unread, or by a
    byte access outside the input. -/
inductive ParseOutcome
  | finished (result : ResponseParseResult) (parser : HttpResponseParser) (rest : Bytes)
  | outOfBounds
  deriving DecidableEq, Repr

/-- One iteration of the loop of `parse`. -/
structure Iteration where
  operations : List Operation
  next : ParseOutcome ⊕ (HttpResponseParser × Bytes)

/-- The iteration with more operations before its own. -/
def Iteration.after (it : Iteration) (operations : List Operation) : Iteration :=
  { it with operations := operations ++ it.operations }

namespace HttpResponseParser

/-! ### The functions of the parser -/

/-- `noBodyStatus`. -/
def noBodyStatus (status : Int) : Bool := status.tdiv 100 = 1 ∨ status = 204 ∨ status = 304

/-- `HttpResponseParser::fail`. -/
def fail (p : HttpResponseParser) (result : ResponseParseResult) : HttpResponseParser :=
  { p with state := .Error, errorResult := result }

/-- `HttpResponseParser::appendBody`, `none` for `BodyTooLarge`. -/
def appendBody (p : HttpResponseParser) (bytes : Bytes) : Option HttpResponseParser :=
  if sizeSub p.limits.maxBodyBytes p.response.body.length < bytes.length then none
  else some { p with response := { p.response with body := p.response.body ++ bytes } }

/-- `HttpResponseParser::parseStatusLine`. -/
def parseStatusLine (p : HttpResponseParser) (line : Bytes) :
    ResponseParseResult × HttpResponseParser :=
  if !(bytes "HTTP/1.").isPrefixOf line then (.BadResponse, p)
  else
    let first := line.findIdx (· == 32)
    if first = line.length ∨ line.length < first + 5 then (.BadResponse, p)
    else
      -- the three bytes after the first space
      match intFromChars ((line.drop (first + 1)).take 3) with
      | none => (.BadResponse, p)
      | some status =>
        if (line)[first + 4]? ≠ some 32 then (.BadResponse, p)
        else
          let reason := line.drop (first + 5)
          (if reason.isEmpty ∨ !isValidHeaderValue reason then .BadResponse else .Complete,
            { p with response := { p.response with statusCode := status, reason := reason } })

/-- `HttpResponseParser::parseHeader`. -/
def parseHeader (p : HttpResponseParser) (line : Bytes) :
    ResponseParseResult × HttpResponseParser :=
  let p := { p with headerCount := sizeAdd p.headerCount 1 }
  if p.limits.maxHeaderCount < p.headerCount then (.HeaderTooLarge, p)
  else
    match line.dropWhile (· ≠ 58) with
    | [] => (.BadResponse, p)
    | _ :: value =>
      let name := line.takeWhile (· ≠ 58)
      let value := trim value
      if !isValidHeaderName name ∨ !isValidHeaderValue value then (.BadResponse, p)
      else
        (.Complete,
          { p with response := { p.response with headers := p.response.headers.add name value } })

/-- `HttpResponseParser::finishHeaders`. -/
def finishHeaders (p : HttpResponseParser) : ResponseParseResult × HttpResponseParser :=
  let transfers := p.response.headers.values (bytes "transfer-encoding")
  let lengths := p.response.headers.values (bytes "content-length")
  let status := p.response.statusCode
  if !transfers.isEmpty ∧ !lengths.isEmpty then (.BadResponse, p)
  else if 1 < transfers.length ∨
      (transfers.head?.any fun first => !containsToken first (bytes "chunked")) then
    (.UnsupportedTransferEncoding, p)
  -- an informational response is dropped, and the parser starts over
  else if status.tdiv 100 = 1 ∧ status ≠ 101 then
    (.Complete,
      { p with response := {}, expectedBodyBytes := 0, headerCount := 0, headerBytes := 0,
               state := .StatusLine })
  else if status = 101 then (.UnsupportedTransferEncoding, p)
  else if p.headRequest ∨ noBodyStatus status then (.Complete, { p with state := .Complete })
  else if !transfers.isEmpty then (.Complete, { p with chunked := true, state := .ChunkSize })
  else
    match lengths with
    -- the body ends with the connection
    | [] =>
      (.Complete,
        { p with eofDelimited := true, state := .EofBody,
                 response := { p.response with closeConnection := true } })
    | [value] =>
      match fromChars 10 value with
      | none => (.BadResponse, p)
      | some length =>
        if p.limits.maxBodyBytes < length then (.BodyTooLarge, p)
        else
          (.Complete,
            { p with expectedBodyBytes := length,
                     state := if length = 0 then .Complete else .FixedBody })
    | _ :: _ :: _ => (.BadResponse, p)

/-! ### The loop of `parse` -/

/-- The iteration fails with `result`; `rest` is left unread. -/
def failing (p : HttpResponseParser) (result : ResponseParseResult) (rest : Bytes) : Iteration :=
  { operations := [], next := .inl (.finished result (p.fail result) rest) }

/-- The iteration returns `result`. -/
def returning (p : HttpResponseParser) (result : ResponseParseResult) (rest : Bytes) :
    Iteration :=
  { operations := [], next := .inl (.finished result p rest) }

/-- The iteration continues the loop. -/
def continuing (p : HttpResponseParser) (rest : Bytes) : Iteration :=
  { operations := [], next := .inr (p, rest) }

/-- The end of the `FixedBody` branch. -/
def fixedBodyDone (p : HttpResponseParser) (input : Bytes) : Iteration :=
  if p.response.body.length = p.expectedBodyBytes then
    { p with state := .Complete }.returning .Complete input
  else p.returning .NeedMore input

def fixedBodyStep (p : HttpResponseParser) (input : Bytes) : Iteration :=
  let count := min (sizeSub p.expectedBodyBytes p.response.body.length) input.length
  Iteration.after
    (if count ≠ 0 then
      Iteration.after
        (match p.appendBody (input.take count) with
        | none => p.failing .BodyTooLarge input
        | some p => (p.fixedBodyDone (input.drop count)).after [.consume count input.length])
        [.sub p.limits.maxBodyBytes p.response.body.length]
    else p.fixedBodyDone input)
    [.sub p.expectedBodyBytes p.response.body.length]

def chunkBodyStep (p : HttpResponseParser) (input : Bytes) : Iteration :=
  -- the chunk with its CRLF
  let needed := sizeAdd p.chunkBytes 2
  Iteration.after
    (if input.length < needed then p.returning .NeedMore input
    else
      Iteration.after
        (match input[p.chunkBytes]?, input[sizeAdd p.chunkBytes 1]? with
        | some a, some b =>
          if a ≠ 13 ∨ b ≠ 10 then p.failing .BadResponse input
          else
            Iteration.after
              (match p.appendBody (input.take p.chunkBytes) with
              | none => p.failing .BodyTooLarge input
              | some p =>
                ({ p with state := .ChunkSize }.continuing (input.drop needed)).after
                  [.consume needed input.length])
              [.sub p.limits.maxBodyBytes p.response.body.length]
        | _, _ => { operations := [], next := .inl .outOfBounds })
        [.index p.chunkBytes input.length, .add p.chunkBytes 1,
         .index (sizeAdd p.chunkBytes 1) input.length])
    [.add p.chunkBytes 2]

def eofBodyStep (p : HttpResponseParser) (input : Bytes) : Iteration :=
  if input.length ≠ 0 then
    Iteration.after
      (match p.appendBody input with
      | none => p.failing .BodyTooLarge input
      | some p => (p.returning .NeedMore []).after [.consume input.length input.length])
      [.sub p.limits.maxBodyBytes p.response.body.length]
  else p.returning .NeedMore input

/-- The byte access of `parseStatusLine`, for the space after the status. -/
def statusLineAccess (line : Bytes) : List Operation :=
  let first := line.findIdx (· == 32)
  if first = line.length ∨ line.length < first + 5 then [] else [.index (first + 4) line.length]

def statusLineStep (p : HttpResponseParser) (line rest : Bytes) : Iteration :=
  if p.limits.maxStatusLineBytes < line.length then p.failing .HeaderTooLarge rest
  else
    Iteration.after
      (match p.parseStatusLine line with
      | (.Complete, p) =>
        { p with state := .Headers, headerBytes := line.length + 2 }.continuing rest
      | (result, p) => p.failing result rest)
      (statusLineAccess line)

def chunkSizeStep (p : HttpResponseParser) (line rest : Bytes) : Iteration :=
  let value := line.takeWhile (· ≠ 59)
  if value.isEmpty ∨ 16 < value.length then p.failing .BadResponse rest
  else
    match fromChars 16 value with
    | none => p.failing .BadResponse rest
    | some parsed =>
      { p with chunkBytes := parsed,
               state := if parsed = 0 then .Trailers else .ChunkBody }.continuing rest

def trailerStep (p : HttpResponseParser) (line rest : Bytes) : Iteration :=
  if line.isEmpty then { p with state := .Complete }.returning .Complete rest
  else if !isValidHeaderName (line.takeWhile (· ≠ 58)) then p.failing .BadResponse rest
  else p.continuing rest

def finishHeadersStep (p : HttpResponseParser) (rest : Bytes) : Iteration :=
  match p.finishHeaders with
  | (.Complete, p) =>
    if p.state = .Complete then p.returning .Complete rest else p.continuing rest
  | (result, p) => p.failing result rest

def headerStep (p : HttpResponseParser) (line rest : Bytes) : Iteration :=
  Iteration.after
    (match p.parseHeader line with
    | (.Complete, p) => p.continuing rest
    | (result, p) => p.failing result rest)
    [.add p.headerCount 1]

/-- The part of the loop that has a complete line. -/
def lineStep (p : HttpResponseParser) (line rest : Bytes) : Iteration :=
  if p.state = .StatusLine then p.statusLineStep line rest
  else if p.state = .ChunkSize then p.chunkSizeStep line rest
  else
    -- headers and trailers count against one limit
    let read := { p with headerBytes := sizeAdd p.headerBytes (line.length + 2) }
    Iteration.after
      (if read.limits.maxHeaderBytes < read.headerBytes then read.failing .HeaderTooLarge rest
      else if read.state = .Trailers then read.trailerStep line rest
      else if line.isEmpty then read.finishHeadersStep rest
      else read.headerStep line rest)
      [.add p.headerBytes (line.length + 2)]

/-- The part of the loop that waits for the end of a line. -/
def partialLineStep (p : HttpResponseParser) (input : Bytes) : Iteration :=
  if p.state = .StatusLine then
    if p.limits.maxStatusLineBytes < input.length then p.failing .HeaderTooLarge input
    else p.returning .NeedMore input
  else if p.state = .Headers ∨ p.state = .Trailers then
    Iteration.after
      (if p.limits.maxHeaderBytes < sizeAdd p.headerBytes input.length then
        p.failing .HeaderTooLarge input
      else p.returning .NeedMore input)
      [.add p.headerBytes input.length]
  else p.returning .NeedMore input

/-- One iteration of the loop of `parse`. -/
def step (p : HttpResponseParser) (input : Bytes) : Iteration :=
  match p.state with
  | .FixedBody => p.fixedBodyStep input
  | .ChunkBody => p.chunkBodyStep input
  | .EofBody => p.eofBodyStep input
  | _ =>
    match splitLine input with
    | none => p.partialLineStep input
    | some (line, rest) =>
      (p.lineStep line rest).after
        [.add line.length 2, .consume (line.length + 2) input.length]

/-- The body of the loop, on the parser and the unread bytes. -/
def loopBody (s : HttpResponseParser × Bytes) : ParseOutcome ⊕ (HttpResponseParser × Bytes) :=
  (s.1.step s.2).next

/-- The loop of `parse`.  Every iteration that continues consumes a line or a chunk, so the
    number of unread bytes bounds the iterations. -/
def parseLoop (p : HttpResponseParser) (input : Bytes) : ParseOutcome :=
  (Loop.run loopBody (input.length + 1) (p, input)).getD .outOfBounds

/-- `HttpResponseParser::parse`. -/
def parse (p : HttpResponseParser) (input : Bytes) : ParseOutcome :=
  if p.state = .Complete then .finished .Complete p input
  else if p.state = .Error then .finished p.errorResult p input
  else p.parseLoop input

/-- `HttpResponseParser::finishOnEof`. -/
def finishOnEof (p : HttpResponseParser) : ResponseParseResult × HttpResponseParser :=
  if p.state = .EofBody then (.Complete, { p with state := .Complete })
  else if p.state = .Complete then (.Complete, p)
  else (.PrematureEof, p.fail .PrematureEof)

def headerComplete (p : HttpResponseParser) : Bool :=
  p.state ≠ .StatusLine ∧ p.state ≠ .Headers ∧ p.state ≠ .Error

def messageComplete (p : HttpResponseParser) : Bool := p.state = .Complete

def reusable (p : HttpResponseParser) : Bool :=
  p.messageComplete && !p.eofDelimited && !p.response.closeConnection

/-- `HttpResponseParser::takeResponse`; the strings of the response move out of the parser. -/
def takeResponse (p : HttpResponseParser) : Except Exception (HttpResponse × HttpResponseParser) :=
  if !p.messageComplete then .error .LogicError
  else
    .ok (p.response,
      { p with response := { p.response with reason := [], headers := {}, body := [] } })

/-- `HttpResponseParser::reset`. -/
def reset (p : HttpResponseParser) (headRequest : Bool) : HttpResponseParser :=
  { limits := p.limits, headRequest := headRequest }

end HttpResponseParser
end PulseGate
