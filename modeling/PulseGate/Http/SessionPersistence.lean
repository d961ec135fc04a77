import PulseGate.Http.SessionSteps
import PulseGate.Http.StreamReading

namespace PulseGate

/-!
# What a session says about the connection

The loop of `run` closes the connection for three reasons that it finds itself, but the header
`Connection` of a response is written from `close_connection` alone, and the head of a streamed
response always says `keep-alive`.

* `carriesClose` — the head of a message has the header `Connection: close`;
* `AnnouncingSession` — a session with the first bytes of the response that it writes;
* `announced_iff` — what the responses of a run say is true exactly if no response is written
  that says `keep-alive` where the session already has a reason to close.
-/

/-! ### What a response says about the connection -/

/-- The first lines of a text, up to an empty one. -/
def headLines : Nat → Bytes → List Bytes
  | 0, _ => []
  | n + 1, text =>
    match splitLine text with
    | some (line, rest) => if line = [] then [] else line :: headLines n rest
    | none => []

/-- The line is a header `Connection` with the token `close`. -/
def saysClose (line : Bytes) : Bool :=
  equalsIgnoreCase (line.takeWhile (· ≠ 58)) (bytes "connection") &&
    containsToken ((line.dropWhile (· ≠ 58)).drop 1) (bytes "close")

/-- The head of the message carries `Connection: close`. -/
def carriesClose (text : Bytes) : Bool := (headLines text.length text).any saysClose

theorem headLines_eq {lines : List Bytes} (hlines : ∀ line ∈ lines, 13 ∉ line ∧ line ≠ [])
    {n : Nat} (hn : lines.length < n) (rest : Bytes) :
    headLines n (lines.flatMap (· ++ crlf) ++ crlf ++ rest) = lines := by
  induction lines generalizing n with
  | nil =>
    obtain ⟨m, rfl⟩ : ∃ m, n = m + 1 := ⟨n - 1, by simp at hn; omega⟩
    have hend : splitLine ([].flatMap (· ++ crlf) ++ crlf ++ rest) = some ([], rest) :=
      splitLine_append (by simp) rest
    rw [headLines, hend]
    rfl
  | cons line lines ih =>
    obtain ⟨m, rfl⟩ : ∃ m, n = m + 1 := ⟨n - 1, by omega⟩
    obtain ⟨hline, hne⟩ := hlines line (List.mem_cons_self ..)
    have hfirst := splitLine_append hline (lines.flatMap (· ++ crlf) ++ crlf ++ rest)
    have htext : (line :: lines).flatMap (· ++ crlf) ++ crlf ++ rest =
        line ++ crlf ++ (lines.flatMap (· ++ crlf) ++ crlf ++ rest) := by
      simp [List.flatMap_cons]
    rw [htext, headLines, hfirst]
    dsimp only
    rw [if_neg hne, ih (fun l hl => hlines l (List.mem_cons_of_mem _ hl)) (by simpa using hn)]

theorem length_le_lines (lines : List Bytes) :
    lines.length ≤ (lines.flatMap (· ++ crlf)).length := by
  induction lines with
  | nil => simp
  | cons line lines ih =>
    rw [List.flatMap_cons, List.length_append, List.length_append, List.length_cons]
    have hcrlf : crlf.length = 2 := rfl
    omega

theorem carriesClose_lines {lines : List Bytes} (hlines : ∀ line ∈ lines, 13 ∉ line ∧ line ≠ [])
    (rest : Bytes) :
    carriesClose (lines.flatMap (· ++ crlf) ++ crlf ++ rest) = lines.any saysClose := by
  have hlength := length_le_lines lines
  unfold carriesClose
  rw [headLines_eq hlines]
  rw [List.length_append, List.length_append]
  have hcrlf : crlf.length = 2 := rfl
  omega

/-- A header without the end of its line. -/
def Header.text (h : Header) : Bytes := h.name ++ bytes ": " ++ h.value

/-- A header is written with a valid name and a valid value. -/
def Header.Valid (h : Header) : Prop :=
  isValidHeaderName h.name = true ∧ isValidHeaderValue h.value = true

/-- A valid header is in one line. -/
theorem Header.not_mem_text {h : Header} (hvalid : h.Valid) : 13 ∉ h.text := by
  have hname : 13 ∉ h.name := fun hmem => (mem_isValidHeaderName hvalid.1 13 hmem).2 rfl
  have hvalue := mem_isValidHeaderValue hvalid.2
  simp [Header.text, bytes, hname, hvalue]

/-- The header is `Connection` with the token `close`. -/
def Header.saysClose (h : Header) : Bool :=
  equalsIgnoreCase h.name (bytes "connection") && containsToken (32 :: h.value) (bytes "close")

theorem saysClose_text {h : Header} (hname : isValidHeaderName h.name = true) :
    PulseGate.saysClose h.text = h.saysClose := by
  have hcolon : 58 ∉ h.name := fun hmem => (mem_isValidHeaderName hname 58 hmem).1 rfl
  have htext : h.text = h.name ++ 58 :: 32 :: h.value := by simp [Header.text, bytes]
  obtain ⟨htake, hdrop⟩ := takeWhile_separator hcolon (32 :: h.value)
  unfold PulseGate.saysClose Header.saysClose
  rw [htext, htake, hdrop]
  rfl

/-- A status line says nothing. -/
theorem saysClose_statusText (status : Int) (reason : Bytes) :
    PulseGate.saysClose (HttpResponseParser.statusText status reason) = false := by
  have hcons : HttpResponseParser.statusText status reason =
      72 :: (bytes "TTP/1.1 " ++ intToString status ++ bytes " " ++ reason) := by
    simp [HttpResponseParser.statusText, bytes]
  -- the first letter of `connection` is another one
  have hname (s : Bytes) : equalsIgnoreCase (72 :: s) (bytes "connection") = false := by
    simp [equalsIgnoreCase, bytes, tolower]
  unfold PulseGate.saysClose
  rw [hcons, List.takeWhile_cons_of_pos (by decide), hname, Bool.false_and]

theorem carriesClose_head (status : Int) {reason : Bytes} {headers : List Header}
    (hreason : isValidHeaderValue reason = true)
    (hheaders : ∀ h ∈ headers, isValidHeaderName h.name = true ∧ isValidHeaderValue h.value = true)
    (rest : Bytes) :
    carriesClose (HttpResponseParser.statusText status reason ++ crlf ++
      headers.flatMap Header.line ++ crlf ++ rest) = headers.any Header.saysClose := by
  have hlines : ∀ line ∈ HttpResponseParser.statusText status reason :: headers.map Header.text,
      13 ∉ line ∧ line ≠ [] := by
    intro line hmem
    rcases List.mem_cons.mp hmem with rfl | hmem
    · refine ⟨HttpResponseParser.not_mem_statusText hreason, ?_⟩
      simp [HttpResponseParser.statusText, bytes]
    · obtain ⟨h, hh, rfl⟩ := List.mem_map.mp hmem
      have hvalid : h.Valid := hheaders h hh
      exact ⟨h.not_mem_text hvalid, by simp [Header.text, bytes]⟩
  have htext : HttpResponseParser.statusText status reason ++ crlf ++
      headers.flatMap Header.line =
        (HttpResponseParser.statusText status reason :: headers.map Header.text).flatMap
          (· ++ crlf) := by
    rw [List.flatMap_cons, List.flatMap_map]
    rfl
  rw [htext, carriesClose_lines hlines, List.any_cons, saysClose_statusText, Bool.false_or,
    List.any_map, Bool.eq_iff_iff, List.any_eq_true, List.any_eq_true]
  apply exists_congr
  intro h
  apply and_congr_right
  intro hh
  show PulseGate.saysClose h.text = true ↔ _
  rw [saysClose_text (hheaders h hh).1]

/-- The names are in lower case, as `Headers::add` leaves them. -/
def Headers.Lower (headers : Headers) : Prop :=
  ∀ h ∈ headers.entries, normalizeHeaderName h.name = h.name

instance : DecidablePred Headers.Lower := fun headers =>
  inferInstanceAs (Decidable (∀ h ∈ headers.entries, normalizeHeaderName h.name = h.name))

/-- A header with another name says nothing. -/
theorem Header.saysClose_of_ne {h : Header} (hlower : normalizeHeaderName h.name = h.name)
    (hname : h.name ≠ bytes "connection") : h.saysClose = false := by
  have hconnection : (bytes "connection").map tolower = bytes "connection" := by decide
  have hdiffer : equalsIgnoreCase h.name (bytes "connection") = false := by
    unfold equalsIgnoreCase
    rw [hconnection]
    exact beq_eq_false_iff_ne.mpr fun heq => hname (hlower.symm.trans heq)
  rw [Header.saysClose, hdiffer, Bool.false_and]

/-- The headers that `serialize` adds. -/
def serializedHeaders (r : HttpResponse) : List Header :=
  [{ name := bytes "Content-Length", value := toChars 10 r.body.length },
   { name := bytes "Connection",
     value := if r.closeConnection then bytes "close" else bytes "keep-alive" }]

theorem serializedHeaders_valid (r : HttpResponse) :
    ∀ h ∈ serializedHeaders r,
      isValidHeaderName h.name = true ∧ isValidHeaderValue h.value = true := by
  intro h hmem
  simp only [serializedHeaders, List.mem_cons, List.not_mem_nil, or_false] at hmem
  rcases hmem with rfl | rfl
  · exact ⟨show isValidHeaderName (bytes "Content-Length") = true by decide,
      isValidHeaderValue_toChars _⟩
  · refine ⟨show isValidHeaderName (bytes "Connection") = true by decide, ?_⟩
    dsimp only
    split <;> decide

theorem serializedHeaders_saysClose (r : HttpResponse) :
    (serializedHeaders r).any Header.saysClose = r.closeConnection := by
  have hlength (value : Bytes) :
      Header.saysClose { name := bytes "Content-Length", value := value } = false := by
    have hname : equalsIgnoreCase (bytes "Content-Length") (bytes "connection") = false := by decide
    rw [Header.saysClose, hname, Bool.false_and]
  rw [serializedHeaders, List.any_cons, List.any_cons, hlength]
  cases r.closeConnection <;> decide

/-- What `serialize` accepts. -/
structure HttpResponse.Serializable (r : HttpResponse) : Prop where
  status : 100 ≤ r.statusCode ∧ r.statusCode ≤ 999
  reason : r.reason ≠ [] ∧ isValidHeaderValue r.reason = true
  headers : ∀ h ∈ r.ownHeaders,
    isValidHeaderName h.name = true ∧ isValidHeaderValue h.value = true

/-- The headers of the text that `serialize` writes are valid. -/
theorem HttpResponse.Serializable.valid {r : HttpResponse} (hr : r.Serializable) :
    ∀ h ∈ r.ownHeaders ++ serializedHeaders r,
      isValidHeaderName h.name = true ∧ isValidHeaderValue h.value = true := by
  intro h hmem
  rcases List.mem_append.mp hmem with hmem | hmem
  · exact hr.headers h hmem
  · exact serializedHeaders_valid r h hmem

/-- What `serialize` writes is a head with two headers behind those of the response, and the
    body. -/
theorem HttpResponse.serialize_eq_ok {r : HttpResponse} {headRequest : Bool} {text : Bytes} :
    r.serialize headRequest = .ok text ↔ r.Serializable ∧
      text = HttpResponseParser.statusText r.statusCode r.reason ++ crlf ++
        (r.ownHeaders ++ serializedHeaders r).flatMap Header.line ++ crlf ++
          (if headRequest then [] else r.body) := by
  -- the chunks of the source, as the lines that a reader splits
  have hwritten : r.statusLine ++ r.ownHeaders.flatMap Header.line ++ bytes "Content-Length: " ++
      toChars 10 r.body.length ++ bytes "\r\nConnection: " ++
      (if r.closeConnection then bytes "close" else bytes "keep-alive") ++ bytes "\r\n\r\n" ++
      (if headRequest then [] else r.body) =
        HttpResponseParser.statusText r.statusCode r.reason ++ crlf ++
          (r.ownHeaders ++ serializedHeaders r).flatMap Header.line ++ crlf ++
            (if headRequest then [] else r.body) := by
    simp [serializedHeaders, HttpResponse.statusLine, HttpResponseParser.statusText, Header.line,
      bytes, crlf]
  unfold HttpResponse.serialize
  rw [hwritten]
  split
  · next hstatus =>
    refine iff_of_false (by rintro ⟨⟩) fun h => ?_
    obtain ⟨⟨⟨hlow, hhigh⟩, ⟨hne, hvalid⟩, -⟩, -⟩ := h
    rcases hstatus with hstatus | hstatus | hstatus | hstatus
    · omega
    · omega
    · exact hne (List.isEmpty_iff.mp hstatus)
    · simp [hvalid] at hstatus
  next hstatus =>
  obtain ⟨hlow, hhigh, hne, hinvalid⟩ : _ ∧ _ ∧ _ ∧ _ := by simpa only [not_or] using hstatus
  split
  · next hheaders =>
    refine iff_of_false (by rintro ⟨⟩) fun h => ?_
    obtain ⟨header, hmem, hheader⟩ := List.any_eq_true.mp hheaders
    simp [h.1.headers header hmem] at hheader
  next hheaders =>
  have hall : ∀ h ∈ r.ownHeaders,
      isValidHeaderName h.name = true ∧ isValidHeaderValue h.value = true := by
    intro h hmem
    simpa using List.any_eq_false.mp (Bool.eq_false_iff.mpr hheaders) h hmem
  constructor
  · intro h
    refine ⟨⟨⟨by omega, by omega⟩, ⟨?_, by simpa using hinvalid⟩, hall⟩, (Except.ok.inj h).symm⟩
    rintro hnil
    simp [hnil] at hne
  · rintro ⟨-, rfl⟩
    rfl

/-- What `serialize` says is `close_connection`. -/
theorem carriesClose_serialize {r : HttpResponse} (hlower : r.headers.Lower) {headRequest : Bool}
    {text : Bytes} (h : r.serialize headRequest = .ok text) :
    carriesClose text = r.closeConnection := by
  obtain ⟨hr, rfl⟩ := HttpResponse.serialize_eq_ok.mp h
  have hown : r.ownHeaders.any Header.saysClose = false := by
    rw [List.any_eq_false]
    intro h hmem
    obtain ⟨hentry, hkept⟩ := List.mem_filter.mp hmem
    simp only [Bool.not_eq_true', decide_eq_false_iff_not, not_or] at hkept
    simp [Header.saysClose_of_ne (hlower h hentry) hkept.2]
  rw [carriesClose_head r.statusCode hr.reason.2 hr.valid, List.any_append, hown, Bool.false_or,
    serializedHeaders_saysClose]

/-- The head of a streamed response does not say that the connection is closed. -/
theorem carriesClose_serializeStreamingHead {r : HttpResponse} (hr : r.Streamable)
    {requestId : Bytes} (hid : isValidHeaderValue requestId = true) :
    carriesClose (serializeStreamingHead r requestId) = false := by
  have hvalid : ∀ h ∈ r.headers.entries ++ HttpResponseParser.addedHeaders requestId,
      isValidHeaderName h.name = true ∧ isValidHeaderValue h.value = true := by
    intro h hmem
    rcases List.mem_append.mp hmem with hmem | hmem
    · exact ⟨(hr.headers h hmem).name, (hr.headers h hmem).value⟩
    · simp only [HttpResponseParser.addedHeaders, List.mem_cons, List.not_mem_nil, or_false] at hmem
      rcases hmem with rfl | rfl | rfl
      · exact ⟨show isValidHeaderName (bytes "X-Request-Id") = true by decide, hid⟩
      · exact ⟨by decide, by decide⟩
      · exact ⟨by decide, by decide⟩
  have htext := carriesClose_head r.statusCode hr.reason.2 hvalid []
  rw [List.append_nil, ← HttpResponseParser.serializeStreamingHead_eq hr] at htext
  rw [htext, List.any_append, Bool.or_eq_false_iff]
  constructor
  · rw [List.any_eq_false]
    intro h hmem
    simp [Header.saysClose_of_ne (hr.headers h hmem).lower (hr.passed h hmem).2.2]
  · have hname : equalsIgnoreCase (bytes "X-Request-Id") (bytes "connection") = false := by decide
    have hrequestId : Header.saysClose { name := bytes "X-Request-Id", value := requestId } =
        false := by
      rw [Header.saysClose, hname, Bool.false_and]
    rw [HttpResponseParser.addedHeaders, List.any_cons, hrequestId]
    decide

/-- The response to a request that cannot be parsed says that the connection is closed. -/
theorem carriesClose_makeErrorResponse {result : ParseResult} {r : HttpResponse}
    (herror : makeErrorResponse result = .ok r) {text : Bytes}
    (h : r.serialize false = .ok text) : carriesClose text = true := by
  obtain ⟨hclose, hheaders⟩ : r.closeConnection = true ∧ r.headers = {} := by
    cases result <;> cases herror <;> exact ⟨rfl, rfl⟩
  rw [carriesClose_serialize (by rw [hheaders]; exact nofun) h, hclose]

/-! ### A session and the response it writes -/

/-- The first bytes of a response, and whether the session was draining when they were written. -/
structure FirstWrite where
  draining : Bool
  text : Bytes
  deriving DecidableEq, Repr

structure AnnouncingSession where
  session : HttpSession
  /-- The first write of the response to the request that was handled last. -/
  firstWrite : Option FirstWrite := none

namespace AnnouncingSession

/-- The newest write of a session. -/
def newestWrite (t : HttpSession) : FirstWrite :=
  { draining := decide (t.state = .Draining), text := t.output.headD [] }

/-- The first write of the current response, once the session has become `t`. -/
def firstWriteAfter (s : AnnouncingSession) (t : HttpSession) : Option FirstWrite :=
  if t.handled.length ≠ s.session.handled.length then none
  else if t.output.length = s.session.output.length then s.firstWrite
  else
    match t.point with
    | .streaming _ => some (s.firstWrite.getD (newestWrite t))
    | _ => some (newestWrite t)

def step (s : AnnouncingSession) (e : Int × SessionEvent) : Option AnnouncingSession :=
  (s.session.step e).map fun t => { session := t, firstWrite := s.firstWriteAfter t }

/-! ### The property and its condition -/

/-- The session was draining when the response was written. -/
def WrittenDraining (s : AnnouncingSession) : Prop :=
  ∃ write ∈ s.firstWrite, write.draining = true

instance (s : AnnouncingSession) : Decidable s.WrittenDraining :=
  match h : s.firstWrite with
  | none => isFalse (by simp [WrittenDraining, h])
  | some write => decidable_of_iff (write.draining = true) (by simp [WrittenDraining, h])

/-- The response said that the connection is closed. -/
def SaidClose (s : AnnouncingSession) : Prop :=
  ∃ write ∈ s.firstWrite, carriesClose write.text = true

/-- The response that the event ends: whether the request or the response asks for the
    connection to be closed. -/
def endsResponse (s : AnnouncingSession) : SessionEvent → Option Bool
  | .written _ =>
    match s.session.point with
    | .responding request response => some (!request.keepAlive || response.closeConnection)
    | .refusing => some true
    | _ => none
  | .answered response =>
    match s.session.point with
    | .handling request =>
      if response.alreadyWritten then some (!request.keepAlive || response.closeConnection)
      else none
    | _ => none
  | _ => none

/-- The coroutine has ended with the connection closed. -/
def Left (s : AnnouncingSession) : Prop := s.session.point = .finished ∧ s.session.state = .Closed

/-- When the event ends a response after which the session closes as it was asked to, the
    response said so, and when the response said so the session closes. -/
def Announced (s : AnnouncingSession) (e : Int × SessionEvent) (s' : AnnouncingSession) : Prop :=
  ∀ asked ∈ s.endsResponse e.2,
    (s'.Left ∧ (asked = true ∨ s.WrittenDraining) → s.SaidClose) ∧ (s.SaidClose → s'.Left)

instance (s : AnnouncingSession) : Decidable s.SaidClose :=
  match h : s.firstWrite with
  | none => isFalse (by simp [SaidClose, h])
  | some write => decidable_of_iff (carriesClose write.text = true) (by simp [SaidClose, h])

instance : DecidablePred Left := fun _ => inferInstanceAs (Decidable (_ ∧ _))

instance (s : AnnouncingSession) (e : Int × SessionEvent) (s' : AnnouncingSession) :
    Decidable (s.Announced e s') :=
  inferInstanceAs (Decidable (∀ asked ∈ s.endsResponse e.2,
    (s'.Left ∧ (asked = true ∨ s.WrittenDraining) → s.SaidClose) ∧ (s.SaidClose → s'.Left)))

/-- A serialized response has `close_connection` set where the request or the drain closes the
    connection, and a streamed response ends where nothing does. -/
def Foreseen (s : AnnouncingSession) (e : Int × SessionEvent) : Prop :=
  match e.2, s.session.point with
  | .written _, .responding request response =>
    response.closeConnection = true ∨ request.keepAlive = true ∧ ¬s.WrittenDraining
  | .answered response, .handling request =>
    response.alreadyWritten = true →
      request.keepAlive = true ∧ response.closeConnection = false ∧ ¬s.WrittenDraining
  | _, _ => True

/-! ### The handlers -/

/-- What the router's handlers do: a response has headers that were added, and a handler that
    writes, writes the head of a streamed response first. -/
def Handler (s : AnnouncingSession) (e : Int × SessionEvent) : Prop :=
  match e.2 with
  | .answered response => response.headers.Lower
  | .streamed text =>
    s.firstWrite = none → ∃ (r : HttpResponse) (requestId : Bytes), r.Streamable ∧
      isValidHeaderValue requestId = true ∧ text = serializeStreamingHead r requestId
  | _ => True

/-! ### The invariant -/

variable {s : AnnouncingSession} {t u : HttpSession}

/-- What the first write says about the response that is written. -/
def Says (firstWrite : Option FirstWrite) : SessionPoint → Prop
  | .spawned => firstWrite = none
  | .handling _ | .streaming _ => ∀ write ∈ firstWrite, carriesClose write.text = false
  | .responding _ response =>
    ∃ write ∈ firstWrite, carriesClose write.text = response.closeConnection
  | .refusing => ∃ write ∈ firstWrite, carriesClose write.text = true
  | .reading | .finished => True

structure Inv (s : AnnouncingSession) : Prop where
  text : Says s.firstWrite s.session.point
  notClosing : s.session.state ≠ .Closing
  created : s.session.state = .Created → s.session.point = .spawned
  /-- A session that has begun to drain does not stop to. -/
  draining : s.WrittenDraining → s.session.state = .Draining ∨ s.session.state = .Closed

theorem Inv.notCreated (h : s.Inv) (hpoint : s.session.point ≠ .spawned) :
    s.session.state ≠ .Created :=
  fun hstate => hpoint (h.created hstate)

/-- Nothing was written, and no request handled. -/
theorem firstWriteAfter_same (hhandled : t.handled = s.session.handled)
    (houtput : t.output = s.session.output) : s.firstWriteAfter t = s.firstWrite := by
  simp [firstWriteAfter, hhandled, houtput]

/-- The step leaves the coroutine where it is. -/
theorem inv_same (h : s.Inv) (hpoint : t.point = s.session.point)
    (hhandled : t.handled = s.session.handled) (houtput : t.output = s.session.output)
    (hstate : t.state = s.session.state ∨ t.state = .Draining ∨ t.state = .Closed) :
    Inv { session := t, firstWrite := s.firstWriteAfter t } := by
  rw [firstWriteAfter_same hhandled houtput]
  refine ⟨?_, ?_, ?_, fun hwritten => ?_⟩
  · show Says s.firstWrite t.point
    rw [hpoint]
    exact h.text
  · rcases hstate with hstate | hstate | hstate <;> simp [hstate, h.notClosing]
  · rcases hstate with hstate | hstate | hstate <;> simp [hstate]
    intro hcreated
    rw [hpoint]
    exact h.created hcreated
  · rcases hstate with hstate | hstate | hstate <;> simp [hstate]
    exact h.draining hwritten

/-- The step ends where `readRequest` leaves the coroutine. -/
theorem inv_outcome (h : u.ReadOutcome t) (hhandled : u.handled = s.session.handled)
    (houtput : u.output = s.session.output) (hopen : u.state ≠ .Closing)
    (hcreated : u.state ≠ .Created)
    (hdraining : s.WrittenDraining → u.state = .Draining ∨ u.state = .Closed) :
    Inv { session := t, firstWrite := s.firstWriteAfter t } := by
  cases h with
  | ends hpoint hstate hhandled' houtput' =>
    refine ⟨?_, ?_, ?_, fun _ => .inr hstate⟩
    · show Says _ t.point
      rw [hpoint]
      trivial
    · simp [hstate]
    · simp [hstate]
  | reading hpoint hstate hhandled' houtput' =>
    rw [firstWriteAfter_same (hhandled'.trans hhandled) (houtput'.trans houtput)]
    refine ⟨?_, ?_, ?_, fun hwritten => ?_⟩
    · show Says _ t.point
      rw [hpoint]
      trivial
    · rwa [hstate]
    · simp [hstate, hcreated]
    · rw [hstate]
      exact hdraining hwritten
  | refusing result response text herror hserialized hpoint hstate hhandled' houtput' =>
    have hwrite : s.firstWriteAfter t = some (newestWrite t) := by
      simp [firstWriteAfter, hhandled', hhandled, houtput', houtput, hpoint]
    refine ⟨?_, ?_, ?_, ?_⟩
    · show Says (s.firstWriteAfter t) t.point
      rw [hpoint, hwrite]
      refine ⟨newestWrite t, rfl, ?_⟩
      simp only [newestWrite, houtput', List.headD_cons]
      exact carriesClose_makeErrorResponse herror hserialized
    · rwa [hstate]
    · simp [hstate, hcreated]
    · simp only [WrittenDraining, hwrite]
      rintro ⟨_, ⟨⟩, hdrains⟩
      exact .inl (by simpa [newestWrite] using hdrains)
  | handling request hpoint hstate hhandled' houtput' =>
    have hwrite : s.firstWriteAfter t = none := by
      simp [firstWriteAfter, hhandled', hhandled]
    rw [hwrite]
    refine ⟨?_, ?_, ?_, fun ⟨_, hnone, _⟩ => nomatch hnone⟩
    · show Says none t.point
      rw [hpoint]
      exact nofun
    · rwa [hstate]
    · simp [hstate, hcreated]

/-! ### One step -/

theorem inv_streamed {now : Int} {data : Bytes} {request : HttpRequest} (h : s.Inv)
    (hhandler : s.Handler (now, .streamed data)) (hpoint : s.session.point = .handling request) :
    Inv { session := s.session.startWrite data (.streaming request),
          firstWrite := s.firstWriteAfter (s.session.startWrite data (.streaming request)) } := by
  have hwrite : s.firstWriteAfter (s.session.startWrite data (.streaming request)) =
      some (s.firstWrite.getD (newestWrite (s.session.startWrite data (.streaming request)))) := by
    simp [firstWriteAfter, HttpSession.startWrite]
  have htext := h.text
  rw [hpoint] at htext
  refine ⟨?_, h.notClosing, ?_, ?_⟩
  · rw [hwrite]
    rintro _ ⟨⟩
    cases hfirst : s.firstWrite with
    | none =>
      obtain ⟨r, requestId, hr, hid, rfl⟩ := hhandler hfirst
      exact carriesClose_serializeStreamingHead hr hid
    | some write => exact htext write hfirst
  · exact fun hcreated => absurd hcreated (h.notCreated (by rw [hpoint]; rintro ⟨⟩))
  · simp only [WrittenDraining, hwrite]
    rintro ⟨_, ⟨⟩, hdrains⟩
    cases hfirst : s.firstWrite with
    | none =>
      rw [hfirst] at hdrains
      exact .inl (of_decide_eq_true hdrains)
    | some write =>
      rw [hfirst] at hdrains
      exact h.draining ⟨write, hfirst, hdrains⟩

theorem inv_answered {now : Int} {request : HttpRequest} {response : HttpResponse} (h : s.Inv)
    (hhandler : s.Handler (now, .answered response))
    (hpoint : s.session.point = .handling request) :
    Inv { session := s.session.answer request response now,
          firstWrite := s.firstWriteAfter (s.session.answer request response now) } := by
  have hcreated : s.session.state ≠ .Created := h.notCreated (by rw [hpoint]; rintro ⟨⟩)
  unfold HttpSession.answer
  dsimp only
  split
  · refine inv_outcome (HttpSession.respond_outcome ?_ request response now) rfl rfl ?_ ?_ ?_
    · exact h.notClosing
    · exact h.notClosing
    · exact hcreated
    · exact h.draining
  · split
    · refine inv_outcome ((HttpSession.raised_ends ?_).outcome ?_ ?_) rfl rfl h.notClosing
        hcreated h.draining
      · exact h.notClosing
      · rfl
      · rfl
    · next text hserialized =>
      have hwrite : s.firstWriteAfter (HttpSession.startWrite
          { s.session with currentProxy := false } text (.responding request response)) =
            some (newestWrite (HttpSession.startWrite
              { s.session with currentProxy := false } text (.responding request response))) := by
        simp [firstWriteAfter, HttpSession.startWrite]
      rw [hwrite]
      refine ⟨⟨_, rfl, carriesClose_serialize hhandler hserialized⟩, h.notClosing,
        fun hcreated' => absurd hcreated' hcreated, ?_⟩
      rintro ⟨_, ⟨⟩, hdrains⟩
      exact .inl (of_decide_eq_true hdrains)

/-- A read that has failed ends the coroutine. -/
theorem inv_peerClosed (h : s.Inv) (hpoint : s.session.point = .reading) :
    Inv { session := (s.session.noteStopReason .PeerClosed).readEnded.leave,
          firstWrite := s.firstWriteAfter
            (s.session.noteStopReason .PeerClosed).readEnded.leave } := by
  have hends := HttpSession.peerClosed_ends h.notClosing
  exact inv_outcome (hends.outcome rfl rfl) rfl rfl h.notClosing
    (h.notCreated (by rw [hpoint]; rintro ⟨⟩)) h.draining

/-- The state is as a write leaves it. -/
theorem inv_chunkWritten {request : HttpRequest} (h : s.Inv)
    (hpoint : s.session.point = .streaming request) (ok : Bool) :
    Inv { session := { s.session.writeEnded ok with point := .handling request },
          firstWrite := s.firstWriteAfter
            { s.session.writeEnded ok with point := .handling request } } := by
  obtain ⟨hsame, -, hstate⟩ := HttpSession.writeEnded_same s.session ok
  have htext := h.text
  rw [hpoint] at htext
  rw [firstWriteAfter_same (by exact hsame.handled) (by exact hsame.output)]
  refine ⟨htext, ?_, ?_, ?_⟩
  · show (s.session.writeEnded ok).state ≠ .Closing
    rw [hstate]
    exact h.notClosing
  · show (s.session.writeEnded ok).state = .Created → _
    rw [hstate]
    exact fun hcreated => absurd hcreated (h.notCreated (by rw [hpoint]; rintro ⟨⟩))
  · show s.WrittenDraining → (s.session.writeEnded ok).state = .Draining ∨
      (s.session.writeEnded ok).state = .Closed
    rw [hstate]
    exact h.draining

theorem step_inv {now : Int} {e : SessionEvent} (h : s.Inv) (hhandler : s.Handler (now, e))
    (hstep : s.session.step (now, e) = some t) :
    Inv { session := t, firstWrite := s.firstWriteAfter t } := by
  have hopen (ok : Bool) : (s.session.writeEnded ok).state ≠ .Closing := by
    rw [(HttpSession.writeEnded_same s.session ok).2.2]
    exact h.notClosing
  cases HttpSession.moves_of_step hstep with
  | started hpoint =>
    have hnone : s.firstWrite = none := by
      have htext := h.text
      rwa [hpoint] at htext
    have hwritten : ¬s.WrittenDraining := by simp [WrittenDraining, hnone]
    split
    · refine inv_outcome (HttpSession.nextRequest_outcome ?_ now) rfl rfl ?_ ?_
        (fun hdraining => absurd hdraining hwritten)
      all_goals exact SessionState.noConfusion
    · next hstate =>
      exact inv_outcome (HttpSession.nextRequest_outcome h.notClosing now) rfl rfl h.notClosing
        hstate h.draining
  | peerClosed hpoint | readFailed hpoint => exact inv_peerClosed h hpoint
  | received hpoint =>
    refine inv_outcome (HttpSession.readRequest_outcome ?_ now) rfl rfl ?_ ?_ ?_
    · exact h.notClosing
    · exact h.notClosing
    · exact h.notCreated (by rw [hpoint]; rintro ⟨⟩)
    · exact h.draining
  | proxySet => exact inv_same h rfl rfl rfl (.inl rfl)
  | streamed hpoint => exact inv_streamed h hhandler hpoint
  | @chunkWritten ok request hpoint => exact inv_chunkWritten h hpoint ok
  | @responseWritten ok request response hpoint =>
    obtain ⟨hsame, -, hstate⟩ := HttpSession.writeEnded_same s.session ok
    refine inv_outcome (HttpSession.respond_outcome (hopen ok) request response now) hsame.handled
      hsame.output (hopen ok) ?_ ?_
    all_goals rw [hstate]
    · exact h.notCreated (by rw [hpoint]; rintro ⟨⟩)
    · exact h.draining
  | @refusalWritten ok hpoint =>
    obtain ⟨hsame, -, -⟩ := HttpSession.writeEnded_same s.session ok
    exact inv_outcome ((HttpSession.leave_ends (hopen ok)).outcome hsame.handled hsame.output) rfl
      rfl h.notClosing (h.notCreated (by rw [hpoint]; rintro ⟨⟩)) h.draining
  | answered hpoint => exact inv_answered h hhandler hpoint
  | @deadlineExpired expiry reason =>
    obtain ⟨hsame, hpoint⟩ :=
      HttpSession.closeInExecutor_same { s.session with deadline := none } reason
    exact inv_same h hpoint hsame.handled hsame.output
      (.inr (.inr (HttpSession.closeInExecutor_state (by exact h.notClosing) reason)))
  | stopped =>
    obtain ⟨hsame, hpoint⟩ := HttpSession.closeInExecutor_same s.session .ServerShutdown
    exact inv_same h hpoint hsame.handled hsame.output
      (.inr (.inr (HttpSession.closeInExecutor_state h.notClosing _)))
  | drained =>
    obtain ⟨hsame, hpoint⟩ := HttpSession.beginDrainInExecutor_same s.session
    exact inv_same h hpoint hsame.handled hsame.output
      (.inr (HttpSession.beginDrainInExecutor_state h.notClosing))

/-- After a response the session closes, unless the loop goes on. -/
theorem left_respond {request : HttpRequest} {response : HttpResponse} {now : Int}
    (hopen : u.state ≠ .Closing) (hends : ¬u.GoesOn request response)
    (firstWrite : Option FirstWrite) :
    Left { session := u.respond request response now, firstWrite := firstWrite } := by
  obtain ⟨parser, heq⟩ := HttpSession.respond_leaves hends now
  have hleft := HttpSession.leave_ends
    (s := { u with records := (response.statusCode, u.responseBytes) :: u.records,
                   servedRequest := true, parser := parser }) hopen
  rw [heq]
  exact ⟨hleft.point, hleft.state⟩

/-- A session that goes on was not draining when it wrote. -/
theorem not_writtenDraining (h : s.Inv) (hrunning : s.session.state = .Running) :
    ¬s.WrittenDraining := by
  intro hdraining
  have hstate := h.draining hdraining
  rw [hrunning] at hstate
  simp at hstate

/-- The end of a serialized response. -/
theorem announced_responding {now : Int} {ok : Bool} {request : HttpRequest}
    {response : HttpResponse} (h : s.Inv) (hpoint : s.session.point = .responding request response)
    {s' : AnnouncingSession}
    (hs' : s'.session = (s.session.writeEnded ok).respond request response now) :
    s.Announced (now, .written ok) s' ↔ s.Foreseen (now, .written ok) := by
  obtain ⟨-, -, hstate⟩ := HttpSession.writeEnded_same s.session ok
  have htext := h.text
  rw [hpoint] at htext
  obtain ⟨write, hwrite, hsays⟩ := htext
  have hsaid : s.SaidClose ↔ response.closeConnection = true := by
    rw [← hsays]
    exact ⟨fun ⟨_, hwrite', hclose⟩ => by rwa [Option.mem_unique hwrite hwrite'],
      fun hclose => ⟨write, hwrite, hclose⟩⟩
  simp only [Announced, Foreseen, endsResponse, hpoint, Option.mem_def, Option.some.injEq,
    forall_eq', hsaid, Bool.or_eq_true, Bool.not_eq_true']
  by_cases hgoes : (s.session.writeEnded ok).GoesOn request response
  · -- nothing asked for the end
    obtain ⟨hclose, hkeep, hrunning⟩ := hgoes
    have hdraining := not_writtenDraining h (hstate.symm.trans hrunning)
    simp [hclose, hkeep, hdraining]
  · have hleft : s'.Left := by
      have hopen : (s.session.writeEnded ok).state ≠ .Closing := by
        rw [hstate]
        exact h.notClosing
      obtain ⟨hfinished, hclosed⟩ := left_respond hopen hgoes s'.firstWrite
      exact ⟨by rw [hs']; exact hfinished, by rw [hs']; exact hclosed⟩
    simp only [hleft, true_and, implies_true, and_true]
    cases request.keepAlive <;> cases response.closeConnection <;> simp

/-- The end of a streamed response. -/
theorem announced_streamed {now : Int} {request : HttpRequest} {response : HttpResponse}
    (h : s.Inv) (hpoint : s.session.point = .handling request) {s' : AnnouncingSession}
    (hs' : s'.session = s.session.answer request response now) :
    s.Announced (now, .answered response) s' ↔ s.Foreseen (now, .answered response) := by
  have htext := h.text
  rw [hpoint] at htext
  -- a streamed head never says close
  have hsaid : ¬s.SaidClose := by
    rintro ⟨write, hwrite, hclose⟩
    rw [htext write hwrite] at hclose
    cases hclose
  simp only [Announced, Foreseen, endsResponse, hpoint, Option.mem_def]
  by_cases hwritten : response.alreadyWritten = true
  · simp only [hwritten, if_true, Option.some.injEq, forall_eq', hsaid, forall_const, imp_false,
      IsEmpty.forall_iff, and_true, Bool.or_eq_true, Bool.not_eq_true']
    let cleared : HttpSession := { s.session with currentProxy := false }
    by_cases hgoes : cleared.GoesOn request response
    · obtain ⟨hclose, hkeep, hrunning⟩ := hgoes
      have hdraining := not_writtenDraining h hrunning
      simp [hclose, hkeep, hdraining]
    · have hleft : s'.Left := by
        obtain ⟨hfinished, hclosed⟩ :=
          left_respond (u := cleared) h.notClosing hgoes s'.firstWrite
        have heq : s.session.answer request response now = cleared.respond request response now :=
          if_pos hwritten
        exact ⟨by rw [hs', heq]; exact hfinished, by rw [hs', heq]; exact hclosed⟩
      simp only [hleft, true_and]
      cases request.keepAlive <;> cases response.closeConnection <;> simp
  · simp [hwritten]

theorem announced_iff_foreseen {now : Int} {e : SessionEvent} (h : s.Inv)
    (hstep : s.session.step (now, e) = some t) {s' : AnnouncingSession} (hs' : s'.session = t) :
    s.Announced (now, e) s' ↔ s.Foreseen (now, e) := by
  cases HttpSession.moves_of_step hstep with
  | chunkWritten hpoint => simp [Announced, Foreseen, endsResponse, hpoint]
  | responseWritten hpoint => exact announced_responding h hpoint hs'
  | @refusalWritten ok hpoint =>
    -- the error response said that the session closes, and it does
    have htext := h.text
    rw [hpoint] at htext
    obtain ⟨-, -, hstate⟩ := HttpSession.writeEnded_same s.session ok
    have hopen : (s.session.writeEnded ok).state ≠ .Closing := by
      rw [hstate]
      exact h.notClosing
    have hends := HttpSession.leave_ends hopen
    have hleft : s'.Left := ⟨by rw [hs']; exact hends.point, by rw [hs']; exact hends.state⟩
    have hsaid : s.SaidClose := htext
    simp [Announced, Foreseen, endsResponse, hpoint, hleft, hsaid]
  | answered hpoint => exact announced_streamed h hpoint hs'
  | _ => simp [Announced, Foreseen, endsResponse]

/-! ### Every run -/

theorem create_inv {limits : SessionLimits} {session : HttpSession}
    (h : HttpSession.create limits = .ok session) : Inv { session := session } := by
  obtain ⟨input, -, -, -, rfl⟩ := HttpSession.create_eq_ok h
  refine ⟨rfl, ?_, fun _ => rfl, ?_⟩
  · rintro ⟨⟩
  · rintro ⟨_, ⟨⟩, _⟩

/-- **Announced ends.** In the run of a session whose handlers keep to their part, every response
after which the connection is closed because of the request, of the response or of a drain has
said so, and every response that has said so is the last, exactly if all the responses are
written as is foreseen. -/
theorem announced_iff {limits : SessionLimits} {session : HttpSession}
    (hcreate : HttpSession.create limits = .ok session) (es : List (Int × SessionEvent))
    (hhandler : Machine.EachStep step (fun s e _ => s.Handler e) { session := session } es) :
    Machine.EachStep step Announced { session := session } es ↔
      Machine.EachStep step (fun s e _ => s.Foreseen e) { session := session } es := by
  refine Machine.eachStep_congr_of_eachStep Inv ?_ (create_inv hcreate) hhandler
  rintro s ⟨now, e⟩ s' h hok hstep
  obtain ⟨t, ht, rfl⟩ := Option.map_eq_some_iff.mp hstep
  exact ⟨step_inv h hok ht, announced_iff_foreseen h ht rfl⟩

/-- A handler that does not stream. -/
def Answers (e : Int × SessionEvent) : Prop :=
  match e.2 with
  | .answered response => response.headers.Lower
  | .streamed _ => False
  | _ => True

instance : ∀ e : Int × SessionEvent, Decidable (Answers e)
  | (_, .answered response) => inferInstanceAs (Decidable response.headers.Lower)
  | (_, .streamed _) => isFalse id
  | (_, .started) | (_, .received _) | (_, .readFailed) | (_, .proxySet _) | (_, .written _)
  | (_, .deadlineExpired) | (_, .stopped) | (_, .drained) => isTrue trivial

theorem handler_of_answers {es : List (Int × SessionEvent)}
    (h : Machine.EachStep step (fun _ e _ => Answers e) s es) :
    Machine.EachStep step (fun s e _ => s.Handler e) s es := by
  refine Machine.eachStep_of_eachStep (fun _ => True) ?_ trivial h
  rintro s ⟨now, e⟩ s' - hanswers -
  refine ⟨?_, trivial⟩
  cases e with
  | answered response => exact hanswers
  | streamed text => exact absurd hanswers id
  | _ => trivial

/-- A client that asks for the connection to be closed, and is told that it is kept. -/
def askedToClose : List (Int × SessionEvent) :=
  [(0, .started),
    (1, .received (bytes "GET / HTTP/1.1\r\nHost: a\r\nConnection: close\r\n\r\n")),
    (2, .answered {}), (3, .written true)]

theorem announced_iff_askedToClose :
    ∃ session, HttpSession.create smallReads = .ok session ∧
      (Machine.EachStep step Announced { session := session } askedToClose ↔
        Machine.EachStep step (fun s e _ => s.Foreseen e) { session := session } askedToClose) := by
  obtain ⟨session, hcreate, hanswers⟩ : ∃ session, HttpSession.create smallReads = .ok session ∧
      Machine.EachStep step (fun _ e _ => Answers e) { session := session } askedToClose :=
    ⟨_, rfl, by decide +kernel⟩
  exact ⟨session, hcreate, announced_iff hcreate askedToClose (handler_of_answers hanswers)⟩

theorem not_announced :
    ∃ session, HttpSession.create smallReads = .ok session ∧
      Machine.EachStep step (fun _ e _ => Answers e) { session := session } askedToClose ∧
      ¬Machine.EachStep step Announced { session := session } askedToClose :=
  ⟨_, rfl, by decide +kernel, by decide +kernel⟩

end AnnouncingSession
end PulseGate
