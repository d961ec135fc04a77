import PulseGate.Http.SessionPersistence
import PulseGate.Http.SessionReading
import PulseGate.Http.StreamRoundTrip
import PulseGate.Http.TransactionReads

namespace PulseGate

/-!
# Buffered and streamed responses

The two paths of a proxied response, from the bytes that are read from the upstream to those
that the client gets and the status that `HttpSession::run` records: `execute`, whose response
the session writes, and `forward`, which has written when it returns.

* `HttpSession.Serves` — what a session writes and records for a handler;
* `Delivers` — the bytes are a message with this status, these headers of the upstream, and this
  body;
* `Exchange.routerHeaders` — the headers that the router sets in a buffered response;
* `paths_agree_iff` — for the same pieces the paths agree, and both record what the client gets,
  exactly if the upstream's status is 200 and the router replaces none of its headers.
-/

namespace HttpSession

variable {s t : HttpSession} {now : Int} {request : HttpRequest} {response : HttpResponse}
  {writes : List Bytes} {e last : SessionEvent}

/-! ### Serving a request -/

/-- The events of the handler and of the writes. -/
def busy : SessionEvent → Bool
  | .streamed _ | .written _ | .answered _ => true
  | _ => false

/-- The events of a handler that writes, and answers; all writes succeed. -/
def handlerEvents (writes : List Bytes) (response : HttpResponse) : List SessionEvent :=
  writes.flatMap (fun write => [.streamed write, .written true]) ++
    .answered response :: if response.alreadyWritten then [] else [.written true]

/-- What the session has written when the last of the events comes, for a session that had
    written `pieces` when the handler was done. -/
def Written (request : HttpRequest) (response : HttpResponse) (pieces output : List Bytes) :
    Prop :=
  if response.alreadyWritten then output = pieces
  else ∃ text, response.serialize (decide (request.method = .Head)) = .ok text ∧
    output = text :: pieces

/-- A session that has passed the request to the router writes `text` to the client, and records
    `status`.  Between the events of the handler there may be others. -/
def Serves (request : HttpRequest) (writes : List Bytes) (response : HttpResponse) (text : Bytes)
    (status : Int) : Prop :=
  ∃ (h h₁ h₂ : HttpSession) (events : List (Int × SessionEvent)) (now : Int)
    (last : SessionEvent) (pieces : List Bytes) (size : Nat),
    h.point = .handling request ∧
      (events.map Prod.snd).filter busy ++ [last] = handlerEvents writes response ∧
        Machine.run step h events = some h₁ ∧ h₁.step (now, last) = some h₂ ∧
          h₁.output = pieces ++ h.output ∧ text = pieces.reverse.flatten ∧
            h₂.records = (status, size) :: h.records

/-- Where the session is while it serves the request, with the events that are to come. -/
inductive ServesAt (request : HttpRequest) (response : HttpResponse) (pieces : List Bytes)
    (s : HttpSession) : List SessionEvent → Prop
  | handling (writes : List Bytes) (point : s.point = .handling request)
      (output : pieces = writes.reverse ++ s.output) :
      ServesAt request response pieces s (handlerEvents writes response)
  | streaming (writes : List Bytes) (point : s.point = .streaming request)
      (output : pieces = writes.reverse ++ s.output) :
      ServesAt request response pieces s (.written true :: handlerEvents writes response)
  | responding (point : s.point = .responding request response)
      (buffered : response.alreadyWritten = false)
      (output : Written request response pieces s.output) :
      ServesAt request response pieces s [.written true]
  | failed (point : s.point = .finished) : ServesAt request response pieces s [.written true]

/-- The other events do not touch the work on the request. -/
theorem step_quiet (hquiet : busy e = false)
    (hpoint : s.point ≠ .spawned ∧ s.point ≠ .reading) (hstep : s.step (now, e) = some t) :
    s.SameWork t ∧ t.point = s.point := by
  cases moves_of_step hstep with
  | started hspawned => exact absurd hspawned hpoint.1
  | peerClosed hreading | received hreading | readFailed hreading =>
    exact absurd hreading hpoint.2
  | proxySet => exact ⟨⟨rfl, rfl, rfl, rfl, rfl, rfl, rfl, rfl⟩, rfl⟩
  | @deadlineExpired expiry reason =>
    obtain ⟨hsame, hpoint⟩ := closeInExecutor_same { s with deadline := none } reason
    have hdisarmed : s.SameWork { s with deadline := none } :=
      ⟨rfl, rfl, rfl, rfl, rfl, rfl, rfl, rfl⟩
    exact ⟨hdisarmed.trans hsame, hpoint⟩
  | stopped => exact closeInExecutor_same s .ServerShutdown
  | drained => exact beginDrainInExecutor_same s
  | streamed | chunkWritten | responseWritten | refusalWritten | answered => cases hquiet

variable {pieces : List Bytes} {remaining : List SessionEvent}

theorem ServesAt.quiet (h : s.ServesAt request response pieces remaining) (hsame : s.SameWork t)
    (hpoint : t.point = s.point) : t.ServesAt request response pieces remaining := by
  cases h with
  | handling writes point output =>
    exact .handling writes (hpoint.trans point) (by rw [hsame.output]; exact output)
  | streaming writes point output =>
    exact .streaming writes (hpoint.trans point) (by rw [hsame.output]; exact output)
  | responding point buffered output =>
    exact .responding (hpoint.trans point) buffered (by rw [hsame.output]; exact output)
  | failed point => exact .failed (hpoint.trans point)

/-- The session neither waits for its first event nor reads. -/
theorem ServesAt.point (h : s.ServesAt request response pieces remaining) :
    s.point ≠ .spawned ∧ s.point ≠ .reading := by
  cases h with
  | handling writes point => rw [point]; exact ⟨nofun, nofun⟩
  | streaming writes point => rw [point]; exact ⟨nofun, nofun⟩
  | responding point => rw [point]; exact ⟨nofun, nofun⟩
  | failed point => rw [point]; exact ⟨nofun, nofun⟩

/-- An event of the handler is the next one, and is not the last. -/
theorem ServesAt.next (h : s.ServesAt request response pieces (e :: remaining))
    (hmore : remaining ≠ []) (hstep : s.step (now, e) = some t) :
    t.ServesAt request response pieces remaining ∧ t.records = s.records := by
  generalize hevents : e :: remaining = events at h
  cases h with
  | handling writes point output =>
    cases writes with
    | nil =>
      -- the handler answers
      obtain ⟨rfl, hrest⟩ := List.cons.inj hevents
      cases hwritten : response.alreadyWritten with
      | true =>
        rw [hwritten] at hrest
        exact absurd hrest hmore
      | false =>
        rw [hwritten] at hrest
        obtain rfl : remaining = [.written true] := hrest
        simp only [step, point, Option.some.injEq] at hstep
        subst hstep
        unfold answer
        dsimp only
        rw [hwritten, if_neg Bool.false_ne_true]
        split
        · have hends := closeInExecutor_same
            { ({ s with currentProxy := false } : HttpSession) with point := .finished }
            .InternalError
          exact ⟨.failed hends.2, hends.1.records⟩
        · next text hserialize =>
          refine ⟨.responding rfl hwritten ?_, rfl⟩
          unfold Written
          rw [hwritten, if_neg Bool.false_ne_true]
          exact ⟨text, hserialize, by rw [output]; rfl⟩
    | cons write writes =>
      obtain ⟨rfl, rfl⟩ := List.cons.inj hevents
      simp only [step, point, Option.some.injEq] at hstep
      subst hstep
      refine ⟨.streaming writes rfl ?_, rfl⟩
      rw [output]
      simp [startWrite]
  | streaming writes point output =>
    obtain ⟨rfl, rfl⟩ := List.cons.inj hevents
    simp only [step, point, Option.some.injEq] at hstep
    subst hstep
    exact ⟨.handling writes rfl output, rfl⟩
  | responding point buffered output =>
    exact absurd (List.cons.inj hevents).2 hmore
  | failed point =>
    exact absurd (List.cons.inj hevents).2 hmore

/-- **The run of a handler**, up to its last event. -/
theorem ServesAt.run {events : List (Int × SessionEvent)} (h : s.ServesAt request response pieces
    ((events.map Prod.snd).filter busy ++ [last])) (hrun : Machine.run step s events = some t) :
    t.ServesAt request response pieces [last] ∧ t.records = s.records := by
  induction events generalizing s with
  | nil =>
    obtain rfl := Option.some.inj hrun
    exact ⟨h, rfl⟩
  | cons e events ih =>
    obtain ⟨u, hu, hrest⟩ := Option.bind_eq_some_iff.mp hrun
    obtain ⟨now, e⟩ := e
    by_cases hbusy : busy e = true
    · rw [List.map_cons, List.filter_cons_of_pos hbusy, List.cons_append] at h
      obtain ⟨hnext, hrecords⟩ := h.next (by simp) hu
      obtain ⟨hlast, hsame⟩ := ih hnext hrest
      exact ⟨hlast, hsame.trans hrecords⟩
    · rw [List.map_cons, List.filter_cons_of_neg hbusy] at h
      obtain ⟨hsame, hpoint⟩ := step_quiet (by simpa using hbusy) h.point hu
      obtain ⟨hlast, hrecords⟩ := ih (h.quiet hsame hpoint) hrest
      exact ⟨hlast, hrecords.trans hsame.records⟩

theorem leave_records (s : HttpSession) : s.leave.records = s.records := by
  unfold leave
  dsimp only
  split
  · exact (closeInExecutor_same _ _).1.records
  · rfl

theorem readRequest_records (s : HttpSession) (now : Int) :
    (s.readRequest now).records = s.records := by
  have hraised (u : HttpSession) : u.raised.records = u.records :=
    (closeInExecutor_same _ _).1.records
  unfold readRequest
  dsimp only
  split
  · unfold startReading
    split
    · exact hraised _
    · rfl
  · split
    · exact hraised _
    · unfold handle
      split
      · exact leave_records _
      · rfl
  · unfold refuse
    dsimp only
    split
    · exact hraised _
    · split
      · exact hraised _
      · rfl

theorem respond_records (s : HttpSession) (request : HttpRequest) (response : HttpResponse)
    (now : Int) :
    (s.respond request response now).records =
      (response.statusCode, s.responseBytes) :: s.records := by
  by_cases hgoes : s.GoesOn request response
  · rw [respond_goesOn hgoes, readRequest_records]
  · obtain ⟨parser, heq⟩ := respond_leaves hgoes now
    rw [heq, leave_records]

/-- **The last event** is recorded with the status of the answer. -/
theorem ServesAt.ends (h : s.ServesAt request response pieces [last])
    (hstep : s.step (now, last) = some t) :
    Written request response pieces s.output ∧
      ∃ size, t.records = (response.statusCode, size) :: s.records := by
  generalize hevents : [last] = events at h
  cases h with
  | handling writes point output =>
    cases writes with
    | nil =>
      obtain ⟨rfl, hrest⟩ := List.cons.inj hevents
      cases hwritten : response.alreadyWritten with
      | false =>
        rw [hwritten] at hrest
        cases hrest
      | true =>
        simp only [step, point, Option.some.injEq] at hstep
        subst hstep
        unfold answer Written
        dsimp only
        rw [hwritten, if_pos rfl, if_pos rfl, respond_records]
        exact ⟨output.symm, _, rfl⟩
    | cons write writes => cases hevents
  -- a chunk that is being written is not the last event
  | streaming writes point output =>
    cases writes with
    | nil => cases hevents
    | cons write writes => cases hevents
  | responding point buffered output =>
    obtain rfl := (List.cons.inj hevents).1
    simp only [step, point, Option.some.injEq] at hstep
    subst hstep
    exact ⟨output, _, respond_records _ _ _ _⟩
  | failed point =>
    obtain rfl := (List.cons.inj hevents).1
    simp only [step, point] at hstep
    cases hstep

/-- **What a session serves**: the writes of the handler, and the answer if that is not written
    yet. -/
theorem Serves.eq {text : Bytes} {status : Int}
    (h : Serves request writes response text status) :
    status = response.statusCode ∧
      if response.alreadyWritten then text = writes.flatten
      else ∃ answer, response.serialize (decide (request.method = .Head)) = .ok answer ∧
        text = writes.flatten ++ answer := by
  obtain ⟨h, h₁, h₂, events, now, last, pieces, size, hpoint, hevents, hrun, hlast, houtput, rfl,
    hrecords⟩ := h
  have hstart : h.ServesAt request response (writes.reverse ++ h.output)
      ((events.map Prod.snd).filter busy ++ [last]) := by
    rw [hevents]
    exact .handling writes hpoint rfl
  obtain ⟨hserves, hsame⟩ := hstart.run hrun
  obtain ⟨hwritten, size', hrecorded⟩ := hserves.ends hlast
  rw [hrecorded, hsame] at hrecords
  refine ⟨((Prod.mk.inj (List.cons.inj hrecords).1).1).symm, ?_⟩
  rw [houtput] at hwritten
  unfold Written at hwritten
  split at hwritten
  · next hdone =>
    rw [if_pos hdone, List.append_cancel_right hwritten, List.reverse_reverse]
  · next hdone =>
    rw [if_neg hdone]
    obtain ⟨answer, hserialize, hpieces⟩ := hwritten
    rw [← List.cons_append] at hpieces
    refine ⟨answer, hserialize, ?_⟩
    rw [List.append_cancel_right hpieces]
    simp

/-- The writes of a handler. -/
theorem run_writes (writes : List Bytes) {h : HttpSession} (hpoint : h.point = .handling request) :
    ∃ t, Machine.run step h (writes.flatMap fun write =>
        [((0 : Int), SessionEvent.streamed write), (0, .written true)]) = some t ∧
      t.point = .handling request ∧ t.output = writes.reverse ++ h.output ∧
        t.records = h.records := by
  induction writes generalizing h with
  | nil => exact ⟨h, rfl, hpoint, rfl, rfl⟩
  | cons write writes ih =>
    let written : HttpSession :=
      { h.startWrite write (.streaming request) with point := .handling request }
    have hstreamed : h.step (0, .streamed write) =
        some (h.startWrite write (.streaming request)) := by
      simp only [step, hpoint]
    have hwritten : (h.startWrite write (.streaming request)).step (0, .written true) =
        some written := rfl
    obtain ⟨t, hrun, htpoint, houtput, hrecords⟩ := ih (h := written) rfl
    refine ⟨t, ?_, htpoint, ?_, hrecords⟩
    · show (h.step (0, .streamed write)).bind _ = _
      rw [hstreamed]
      exact hrun
    · rw [houtput]
      simp [written, startWrite]

/-- An answer that is written already, or can be written, is served. -/
theorem exists_serves (request : HttpRequest) (writes : List Bytes) {response : HttpResponse}
    (hresponse : response.alreadyWritten = true ∨
      ∃ answer, response.serialize (decide (request.method = .Head)) = .ok answer) :
    ∃ text status, Serves request writes response text status := by
  -- a session that is about to handle the request
  let h : HttpSession :=
    { limits := {}, input := .holding [] (Nat.zero_le _), parser := { limits := {} },
      point := .handling request }
  obtain ⟨t, hrun, hpoint, houtput, hrecords⟩ := run_writes (h := h) writes rfl
  have hevents : ((writes.flatMap fun write =>
      [((0 : Int), SessionEvent.streamed write), (0, .written true)]).map Prod.snd).filter busy =
        writes.flatMap fun write => [.streamed write, .written true] := by
    rw [List.map_flatMap, List.filter_flatMap]
    rfl
  have hanswered : t.step (0, .answered response) = some (t.answer request response 0) := by
    simp only [step, hpoint]
  cases hwritten : response.alreadyWritten with
  | true =>
    refine ⟨_, response.statusCode, h, t, _, _, 0, .answered response, writes.reverse,
      t.responseBytes, rfl, ?_, hrun, hanswered, houtput, rfl, ?_⟩
    · rw [hevents, handlerEvents, hwritten]
      rfl
    · unfold answer
      rw [hwritten, if_pos rfl, respond_records]
      exact congrArg _ hrecords
  | false =>
    obtain ⟨answer, hanswer⟩ := hresponse.resolve_left (by rw [hwritten]; exact Bool.false_ne_true)
    -- the response is written whole, in one write
    let writing : HttpSession :=
      HttpSession.startWrite { t with currentProxy := false } answer (.responding request response)
    have hwriting : t.answer request response 0 = writing := by
      unfold HttpSession.answer
      dsimp only
      rw [hwritten, if_neg Bool.false_ne_true, hanswer]
    rw [hwriting] at hanswered
    have hlast : writing.step (0, .written true) = some (writing.respond request response 0) := rfl
    refine ⟨_, response.statusCode, h, writing, _, _, 0, .written true, answer :: writes.reverse,
      writing.responseBytes, rfl, ?_, (?_ : Machine.run step h ((writes.flatMap fun write =>
        [((0 : Int), SessionEvent.streamed write), (0, .written true)]) ++
          [((0 : Int), SessionEvent.answered response)]) = some writing), hlast, ?_, rfl, ?_⟩
    · rw [List.map_append, List.filter_append, hevents, handlerEvents, hwritten, List.append_assoc]
      rfl
    · rw [Machine.run_append, hrun, Option.bind_some]
      show (t.step (0, .answered response)).bind _ = _
      rw [hanswered]
      rfl
    · show answer :: t.output = _
      rw [houtput]
      rfl
    · rw [respond_records]
      exact congrArg _ hrecords

end HttpSession

/-! ### What the client gets -/

/-- A response of the upstream as the client gets it. -/
structure Delivered where
  status : Int
  reason : Bytes
  /-- The headers of the upstream that are passed on. -/
  headers : List Header
  body : Bytes

/-- The head of a message with this response, and these headers in all. -/
structure HeadOf (d : Delivered) (headers : List Header) (head : Bytes) : Prop where
  text : head = HttpResponseParser.statusText d.status d.reason ++ crlf ++
    headers.flatMap Header.line ++ crlf
  reason : isValidHeaderValue d.reason = true
  valid : ∀ h ∈ headers, h.Valid

/-- The headers that frame a message with a length. -/
def lengthFraming (length : Nat) (connection : Bytes) : List Header :=
  [{ name := bytes "Content-Length", value := toChars 10 length },
   { name := bytes "Connection", value := connection }]

/-- The headers that frame a message in chunks. -/
def chunkedFraming (connection : Bytes) : List Header :=
  [{ name := bytes "Transfer-Encoding", value := bytes "chunked" },
   { name := bytes "Connection", value := connection }]

/-- The text is a message that delivers the response, with its length or in chunks.  Behind the
    headers of the upstream come those of the gateway, and the two of the framing. -/
inductive Delivers (gateway : List Header) (d : Delivered) : Bytes → Prop
  | whole (connection head : Bytes)
      (h : HeadOf d (d.headers ++ gateway ++ lengthFraming d.body.length connection) head) :
      Delivers gateway d (head ++ d.body)
  | chunked (connection head : Bytes) (payloads : List Bytes)
      (h : HeadOf d (d.headers ++ gateway ++ chunkedFraming connection) head)
      (nonempty : ∀ payload ∈ payloads, payload ≠ []) (body : payloads.flatten = d.body) :
      Delivers gateway d (head ++ payloads.flatMap chunkFrame ++ lastChunkFrame)

/-- The status and what follows it are told apart by the space between them. -/
theorem statusText_injective {status status' : Int} {reason reason' : Bytes}
    (h : HttpResponseParser.statusText status reason =
      HttpResponseParser.statusText status' reason') : status = status' := by
  have hblank (n : Int) : 32 ∉ intToString n := by
    intro hmem
    have hread := intFromChars_intToString n
    rw [intFromChars_of_blank hmem] at hread
    cases hread
  have hdrop := congrArg (List.drop 9) h
  rw [HttpResponseParser.statusText_drop, HttpResponseParser.statusText_drop] at hdrop
  have hdigits := congrArg (List.takeWhile (· ≠ 32)) hdrop
  rw [(takeWhile_separator (hblank status) reason).1,
    (takeWhile_separator (hblank status') reason').1] at hdigits
  have hread := congrArg intFromChars hdigits
  rw [intFromChars_intToString, intFromChars_intToString] at hread
  exact Option.some.inj hread

/-- The name and the value are told apart by the colon between them. -/
theorem Header.text_injective {h h' : Header} (hvalid : h.Valid) (hvalid' : h'.Valid)
    (heq : h.text = h'.text) : h = h' := by
  have hcolon {g : Header} (hg : g.Valid) : 58 ∉ g.name :=
    fun hmem => (mem_isValidHeaderName hg.1 58 hmem).1 rfl
  have htext (g : Header) : g.text = g.name ++ 58 :: 32 :: g.value := by simp [text, bytes]
  rw [htext, htext] at heq
  have hname := congrArg (List.takeWhile (· ≠ 58)) heq
  have hvalue := congrArg (List.dropWhile (· ≠ 58)) heq
  rw [(takeWhile_separator (hcolon hvalid) _).1, (takeWhile_separator (hcolon hvalid') _).1]
    at hname
  rw [(takeWhile_separator (hcolon hvalid) _).2, (takeWhile_separator (hcolon hvalid') _).2]
    at hvalue
  cases h
  cases h'
  simp_all

/-- The headers can be told from the text, up to the empty line. -/
theorem headerLines_injective {headers headers' : List Header} {rest rest' : Bytes}
    (hvalid : ∀ h ∈ headers, h.Valid) (hvalid' : ∀ h ∈ headers', h.Valid)
    (heq : headers.flatMap Header.line ++ crlf ++ rest =
      headers'.flatMap Header.line ++ crlf ++ rest') : headers = headers' := by
  have hempty (left : Bytes) : splitLine (crlf ++ left) = some ([], left) :=
    splitLine_append List.not_mem_nil left
  have hfirst {h : Header} (hh : h.Valid) (hs : List Header) (left : Bytes) :
      splitLine ((h :: hs).flatMap Header.line ++ crlf ++ left) =
        some (h.text, hs.flatMap Header.line ++ crlf ++ left) := by
    have hline := splitLine_append (Header.not_mem_text hh)
      (hs.flatMap Header.line ++ crlf ++ left)
    rw [← hline]
    simp [Header.line, Header.text]
  have hne (h : Header) : h.text ≠ [] := by simp [Header.text, bytes]
  induction headers generalizing headers' with
  | nil =>
    cases headers' with
    | nil => rfl
    | cons h' hs' =>
      have hsplit := hempty rest
      rw [← List.nil_append crlf] at hsplit
      rw [show ([] : Bytes) ++ crlf ++ rest = _ from heq,
        hfirst (hvalid' h' List.mem_cons_self)] at hsplit
      exact absurd (Prod.mk.inj (Option.some.inj hsplit)).1 (hne h')
  | cons h hs ih =>
    -- the first lines of the two texts are the same line
    have hsplit := hfirst (hvalid h List.mem_cons_self) hs rest
    rw [heq] at hsplit
    cases headers' with
    | nil =>
      rw [List.flatMap_nil, List.nil_append, hempty] at hsplit
      exact absurd (Prod.mk.inj (Option.some.inj hsplit)).1.symm (hne h)
    | cons h' hs' =>
      rw [hfirst (hvalid' h' List.mem_cons_self)] at hsplit
      obtain ⟨htext, hrest⟩ := Prod.mk.inj (Option.some.inj hsplit)
      rw [Header.text_injective (hvalid h List.mem_cons_self) (hvalid' h' List.mem_cons_self)
        htext.symm]
      rw [ih (fun g hg => hvalid g (List.mem_cons_of_mem _ hg))
        (fun g hg => hvalid' g (List.mem_cons_of_mem _ hg)) hrest.symm]

/-- The status and the headers of the upstream can be told from the text. -/
theorem Delivers.told {gateway framing headers : List Header} {d : Delivered}
    {text rest reason : Bytes} {status : Int} (h : Delivers gateway d text)
    (htext : text = HttpResponseParser.statusText status reason ++ crlf ++
      (headers ++ gateway ++ framing).flatMap Header.line ++ crlf ++ rest)
    (hreason : isValidHeaderValue reason = true)
    (hvalid : ∀ g ∈ headers ++ gateway ++ framing, g.Valid) (hframing : framing.length = 2) :
    d.status = status ∧ d.headers = headers := by
  -- what is told of a head, whatever comes behind it
  have htold {framing' : List Header} {head left : Bytes}
      (hhead : HeadOf d (d.headers ++ gateway ++ framing') head) (hlength : framing'.length = 2)
      (heq : text = head ++ left) : d.status = status ∧ d.headers = headers := by
    have hline (status : Int) {reason : Bytes} (hreason : isValidHeaderValue reason = true)
        (rest : Bytes) : splitLine (HttpResponseParser.statusText status reason ++ crlf ++ rest) =
          some (HttpResponseParser.statusText status reason, rest) :=
      splitLine_append (HttpResponseParser.not_mem_statusText hreason) rest
    have hsplit := hline d.status hhead.reason
      ((d.headers ++ gateway ++ framing').flatMap Header.line ++ crlf ++ left)
    have hsame : HttpResponseParser.statusText d.status d.reason ++ crlf ++
        ((d.headers ++ gateway ++ framing').flatMap Header.line ++ crlf ++ left) =
          HttpResponseParser.statusText status reason ++ crlf ++
            ((headers ++ gateway ++ framing).flatMap Header.line ++ crlf ++ rest) := by
      rw [hhead.text, htext] at heq
      simpa [List.append_assoc] using heq.symm
    rw [hsame, hline status hreason] at hsplit
    obtain ⟨hstatus, hrest⟩ := Prod.mk.inj (Option.some.inj hsplit)
    have hheaders := headerLines_injective hvalid hhead.valid hrest
    rw [List.append_assoc, List.append_assoc] at hheaders
    refine ⟨(statusText_injective hstatus).symm, (List.append_inj_left' hheaders ?_).symm⟩
    rw [List.length_append, List.length_append, hframing, hlength]
  cases h with
  | whole connection head hhead => exact htold hhead rfl rfl
  | chunked connection head payloads hhead nonempty body =>
    exact htold hhead rfl (List.append_assoc head _ _)

/-! ### The headers of the gateway -/

namespace Exchange

variable {e : Exchange} {response : HttpResponse} {stored : Bool}

/-- The headers that the router sets in a response. -/
def routerHeaders (e : Exchange) (stored : Bool) : List Header :=
  (if e.cache.cacheableRequest then
    [{ name := bytes "x-cache", value := if stored then bytes "MISS" else bytes "BYPASS" }]
  else if e.cache.configured then [{ name := bytes "x-cache", value := bytes "BYPASS" }]
  else []) ++ [{ name := bytes "x-request-id", value := e.context.requestId }]

/-- The router replaces the header. -/
def replaced (e : Exchange) (stored : Bool) (h : Header) : Bool :=
  (e.routerHeaders stored).any fun set => decide (h.name = set.name)

/-- The headers behind the router. -/
theorem routed_entries (e : Exchange) (response : HttpResponse) (stored : Bool) :
    (e.routed response stored).headers.entries =
      response.headers.entries.filter (fun h => !e.replaced stored h) ++
        e.routerHeaders stored := by
  have hnames : normalizeHeaderName (bytes "X-Request-Id") = bytes "x-request-id" ∧
      normalizeHeaderName (bytes "X-Cache") = bytes "x-cache" := by decide
  have hdiffer : bytes "x-cache" ≠ bytes "x-request-id" := by decide
  unfold routed replaced routerHeaders
  dsimp only
  split
  · simp [Headers.set, Headers.erase, Headers.add, hnames, hdiffer, List.filter_filter,
      Bool.and_comm]
  split
  · simp [Headers.set, Headers.erase, Headers.add, hnames, hdiffer, List.filter_filter,
      Bool.and_comm]
  · simp [Headers.set, Headers.erase, Headers.add, hnames]

theorem valid_routerHeaders (hid : isValidHeaderValue e.context.requestId = true) :
    ∀ h ∈ e.routerHeaders stored, h.Valid := by
  have hvalid : isValidHeaderName (bytes "x-cache") = true ∧
      isValidHeaderName (bytes "x-request-id") = true ∧
        isValidHeaderValue (bytes "MISS") = true ∧ isValidHeaderValue (bytes "BYPASS") = true := by
    decide
  intro h hmem
  rcases List.mem_append.mp hmem with hmem | hmem
  · split at hmem
    · obtain rfl := List.mem_singleton.mp hmem
      refine ⟨hvalid.1, ?_⟩
      dsimp only
      split
      · exact hvalid.2.2.1
      · exact hvalid.2.2.2
    split at hmem
    · obtain rfl := List.mem_singleton.mp hmem
      exact ⟨hvalid.1, hvalid.2.2.2⟩
    · cases hmem
  · obtain rfl := List.mem_singleton.mp hmem
    exact ⟨hvalid.2.1, hid⟩

/-- None of the headers that the router sets frames the message. -/
theorem routerHeaders_names :
    ∀ h ∈ e.routerHeaders stored,
      h.name ≠ bytes "content-length" ∧ h.name ≠ bytes "connection" := by
  have hdiffer : bytes "x-cache" ≠ bytes "content-length" ∧ bytes "x-cache" ≠ bytes "connection" ∧
      bytes "x-request-id" ≠ bytes "content-length" ∧
        bytes "x-request-id" ≠ bytes "connection" := by
    decide
  intro h hmem
  rcases List.mem_append.mp hmem with hmem | hmem
  · split at hmem
    · obtain rfl := List.mem_singleton.mp hmem
      exact ⟨hdiffer.1, hdiffer.2.1⟩
    split at hmem
    · obtain rfl := List.mem_singleton.mp hmem
      exact ⟨hdiffer.1, hdiffer.2.1⟩
    · cases hmem
  · obtain rfl := List.mem_singleton.mp hmem
    exact hdiffer.2.2

end Exchange

/-! ### The two paths -/

/-- A transaction for a request, with what the router adds to its response. -/
structure Transaction where
  requestId : Nat
  peer : Option Bytes
  cache : RouteCache
  /-- The answer of the cache. -/
  stored : Bool
  connectionOpen : Bool
  events : List ProxyEvent

namespace Transaction

def exchange (t : Transaction) (proxy : ReverseProxy) (request : HttpRequest) : Exchange :=
  .init proxy t.requestId t.peer request t.cache

/-- The session after the events, for `execute` or `forward`. -/
def run (t : Transaction) (proxy : ReverseProxy) (upstream : UpstreamEndpoint)
    (request : HttpRequest) (forwarding : Bool) : Option ProxySession :=
  (ProxySession.create upstream proxy.limits t.connectionOpen (t.exchange proxy request).context
    request forwarding).toOption.bind fun s => Machine.run ProxySession.step s t.events

/-- What was read from the upstream. -/
def reads (t : Transaction) : UpstreamReads := .ofEvents t.events

/-- The response as the router hands it to the client's session. -/
def answer (t : Transaction) (proxy : ReverseProxy) (request : HttpRequest) (result : ProxyResult) :
    HttpResponse := (t.exchange proxy request).routed result.response t.stored

/-- The header of the gateway in a stream, but for those of the framing. -/
def streamHeaders (t : Transaction) : List Header :=
  [{ name := bytes "X-Request-Id", value := toChars 10 t.requestId }]

end Transaction

/-- The coroutine has returned the result for a complete response, and all its writes
    succeeded. -/
structure ProxySession.Completes (s : ProxySession) (result : ProxyResult) : Prop where
  returned : s.point = .returned result
  complete : s.parser.messageComplete = true
  sent : ∀ o ∈ s.output, o.progress = .sent

/-- What the session has written downstream, the first write first. -/
def ProxySession.writes (s : ProxySession) : List Bytes := s.output.reverse.map (·.write.bytes)

/-- The upstream's response. -/
def UpstreamReads.response (limits : HttpResponseParserLimits) (reads : UpstreamReads) :
    Option HttpResponse :=
  match reads.outcome limits false with
  | .finished _ p _ => some p.response
  | .outOfBounds => none

/-- The paths agree: the client gets the same response from both, and both record its status. -/
structure PathsAgree (proxy : ReverseProxy) (request : HttpRequest) (tb ts : Transaction)
    (b s : ProxySession) (rb rs : ProxyResult) : Prop where
  served : ∃ text status,
    HttpSession.Serves request b.writes (tb.answer proxy request rb) text status
  streamed : ∃ text status,
    HttpSession.Serves request s.writes (ts.answer proxy request rs) text status
  delivered : ∀ textB statusB textS statusS,
    HttpSession.Serves request b.writes (tb.answer proxy request rb) textB statusB →
    HttpSession.Serves request s.writes (ts.answer proxy request rs) textS statusS →
      ∃ d : Delivered, Delivers ((tb.exchange proxy request).routerHeaders tb.stored) d textB ∧
        Delivers ts.streamHeaders d textS ∧ statusB = d.status ∧ statusS = d.status
  reusable : rb.reusable = rs.reusable
  upstreamStatus : rb.upstreamStatus = rs.upstreamStatus

/-- The upstream's response is delivered with the default status, and the router replaces none of
    its headers. -/
def HttpResponse.SameOnBothPaths (r : HttpResponse) (e : Exchange) (stored : Bool) : Prop :=
  r.statusCode = 200 ∧ ∀ h ∈ r.headers.passedOn, e.replaced stored h = false

section Paths

variable {proxy : ReverseProxy} {upstream : UpstreamEndpoint} {request : HttpRequest}
  {forwarding : Bool} {t : Transaction} {s : ProxySession} {result : ProxyResult}

theorem Transaction.run_eq_some (hrun : t.run proxy upstream request forwarding = some s) :
    ∃ s₀, ProxySession.create upstream proxy.limits t.connectionOpen
        (t.exchange proxy request).context request forwarding = .ok s₀ ∧
      Machine.run ProxySession.step s₀ t.events = some s := by
  unfold run at hrun
  cases hcreate : ProxySession.create upstream proxy.limits t.connectionOpen
      (t.exchange proxy request).context request forwarding with
  | error e =>
    rw [hcreate] at hrun
    cases hrun
  | ok s₀ =>
    rw [hcreate] at hrun
    exact ⟨s₀, rfl, hrun⟩

/-- The result of a transaction is that of its reads. -/
theorem Transaction.completed (hmethod : request.method ≠ .Head)
    (hrun : t.run proxy upstream request forwarding = some s) (h : s.Completes result) :
    ∃ rest, t.reads.outcome proxy.limits.responseParser false = .finished .Complete s.parser rest ∧
      result = PulseGate.completed forwarding s.upstream s.parser rest := by
  obtain ⟨s₀, hok, hrun⟩ := run_eq_some hrun
  have hinv := ProxySession.readsInv_run hok hrun
  rw [decide_eq_false hmethod, Bool.and_false] at hinv
  have hforwarding : s.forwarding = forwarding := by
    obtain ⟨-, -, -, -, -, -, -, hforwarding, -⟩ := ProxySession.create_eq_ok hok
    refine (Machine.always_of_invariant (fun s => s.forwarding = forwarding) (fun _ h => h) ?_ _
      hforwarding).last s hrun
    intro s e s' h hs
    exact (congrArg ProxySession.Config.forwarding (ProxySession.step_config hs)).trans h
  rw [← hforwarding]
  exact hinv.completed h.returned h.complete h.sent

/-- `execute` writes nothing itself. -/
theorem Transaction.writes_buffered (hrun : t.run proxy upstream request false = some s) :
    s.writes = [] := by
  obtain ⟨s₀, hok, hrun⟩ := run_eq_some hrun
  have hbuffers := (Machine.always_of_invariant ProxySession.Buffers (fun _ h => h)
    (fun _ _ _ => ProxySession.buffers_step) _
      (ProxySession.buffers_create hok)).last s hrun
  rw [ProxySession.writes, hbuffers.output]
  rfl

/-- What `forward` writes is a stream of the response. -/
theorem Transaction.writes_streamed (hrun : t.run proxy upstream request true = some s)
    (h : s.Completes result) :
    (sanitizeUpstreamResponse s.parser.response).Streamable ∧
      (∀ h ∈ s.parser.response.headers.entries, h.WellFormed) ∧
        ∃ payloads : List Bytes, (∀ payload ∈ payloads, payload ≠ []) ∧
          payloads.flatten = s.parser.response.body ∧
          s.writes.flatten = streamBytes (sanitizeUpstreamResponse s.parser.response)
            (toChars 10 t.requestId) payloads := by
  obtain ⟨s₀, hok, hrun⟩ := run_eq_some hrun
  have hstart : ProxySession.RoundTripInv (toChars 10 t.requestId) s₀ := by
    obtain ⟨-, -, -, -, -, hcontext, -⟩ := ProxySession.create_eq_ok hok
    refine ⟨ProxySession.streamInv_create hok, ProxySession.headInv_create hok, ?_⟩
    rw [hcontext]
    rfl
  have hinv := (Machine.always_of_invariant _ (fun _ h => h)
    (fun _ _ _ => ProxySession.roundTripInv_step) _ hstart).last s hrun
  have hdone : s.FullyStreamed := ⟨by rw [h.returned]; rfl, h.complete, h.sent⟩
  obtain ⟨hstreamable, payloads, hnonempty, hbody, hbytes⟩ := hinv.written hdone
  refine ⟨hstreamable, hinv.head.head.headers, payloads, hnonempty, hbody, ?_⟩
  rw [← hbytes, ProxySession.writes, writtenBytes, List.flatMap_def]

/-- The buffered text is the response behind the router. -/
theorem Exchange.ownHeaders_routed {r : HttpResponse} (hr : r.Streamable) (e : Exchange)
    (stored : Bool) :
    (e.routed r stored).ownHeaders =
      r.headers.entries.filter (fun h => !e.replaced stored h) ++ e.routerHeaders stored := by
  rw [← e.routed_entries r stored]
  unfold HttpResponse.ownHeaders
  rw [List.filter_eq_self]
  intro h hmem
  rw [e.routed_entries r stored] at hmem
  have hnames : h.name ≠ bytes "content-length" ∧ h.name ≠ bytes "connection" := by
    rcases List.mem_append.mp hmem with hmem | hmem
    · exact (hr.passed h (List.mem_filter.mp hmem).1).2
    · exact e.routerHeaders_names h hmem
  simp [hnames]

theorem Exchange.serializable_routed {r : HttpResponse} (hr : r.Streamable) (e : Exchange)
    (stored : Bool) (hstatus : 100 ≤ r.statusCode)
    (hid : isValidHeaderValue e.context.requestId = true) : (e.routed r stored).Serializable where
  status := ⟨hstatus, hr.status.2.2⟩
  reason := hr.reason
  headers := by
    rw [e.ownHeaders_routed hr]
    intro h hmem
    rcases List.mem_append.mp hmem with hmem | hmem
    · have hwell := hr.headers h (List.mem_filter.mp hmem).1
      exact ⟨hwell.name, hwell.value⟩
    · exact e.valid_routerHeaders hid h hmem

/-- The text of a response behind the router. -/
theorem serves_routed {r : HttpResponse} (hr : r.Streamable) (hbuffered : r.alreadyWritten = false)
    {e : Exchange} {stored : Bool} (hmethod : request.method ≠ .Head) {text : Bytes}
    {status : Int}
    (h : HttpSession.Serves request [] (e.routed r stored) text status) :
    status = r.statusCode ∧ (e.routed r stored).Serializable ∧
      text = HttpResponseParser.statusText r.statusCode r.reason ++ crlf ++
        (r.headers.entries.filter (fun h => !e.replaced stored h) ++ e.routerHeaders stored ++
          serializedHeaders (e.routed r stored)).flatMap Header.line ++ crlf ++ r.body := by
  obtain ⟨hstatus, htext⟩ := h.eq
  have hwritten : (e.routed r stored).alreadyWritten = false := hbuffered
  rw [hwritten, if_neg Bool.false_ne_true] at htext
  obtain ⟨answer, hserialize, rfl⟩ := htext
  obtain ⟨hserializable, hanswer⟩ := HttpResponse.serialize_eq_ok.mp hserialize
  refine ⟨hstatus, hserializable, ?_⟩
  rw [decide_eq_false hmethod, if_neg Bool.false_ne_true, e.ownHeaders_routed hr] at hanswer
  exact hanswer

/-- The text of a stream. -/
theorem streamBytes_eq {r : HttpResponse} (hr : r.Streamable) (t : Transaction)
    (payloads : List Bytes) :
    streamBytes r (toChars 10 t.requestId) payloads =
      HttpResponseParser.statusText r.statusCode r.reason ++ crlf ++
        (r.headers.entries ++ t.streamHeaders ++
          chunkedFraming (bytes "keep-alive")).flatMap Header.line ++ crlf ++
            payloads.flatMap chunkFrame ++ lastChunkFrame := by
  rw [streamBytes, HttpResponseParser.serializeStreamingHead_eq hr, List.append_assoc
    r.headers.entries]
  rfl

theorem valid_streamHeaders {r : HttpResponse} (hr : r.Streamable) (t : Transaction) :
    ∀ h ∈ r.headers.entries ++ t.streamHeaders ++ chunkedFraming (bytes "keep-alive"), h.Valid := by
  intro h hmem
  rw [List.append_assoc] at hmem
  have hwritable := HttpResponseParser.writable_streamed hr
    (isValidHeaderValue_toChars t.requestId) (trim_toChars t.requestId) h hmem
  exact ⟨hwritable.name, hwritable.value⟩

end Paths

/-- Both paths end with a complete response, for the same pieces from the upstream. -/
structure BothComplete (proxy : ReverseProxy) (upstream : UpstreamEndpoint) (request : HttpRequest)
    (tb ts : Transaction) (b s : ProxySession) (rb rs : ProxyResult) : Prop where
  method : request.method ≠ .Head
  reads : tb.reads = ts.reads
  executed : tb.run proxy upstream request false = some b
  forwarded : ts.run proxy upstream request true = some s
  buffered : b.Completes rb
  streamed : s.Completes rs

namespace BothComplete

variable {proxy : ReverseProxy} {upstream : UpstreamEndpoint} {request : HttpRequest}
  {tb ts : Transaction} {b s : ProxySession} {rb rs : ProxyResult}

/-- Both have parsed the same response. -/
theorem parsed (h : BothComplete proxy upstream request tb ts b s rb rs) :
    tb.reads.response proxy.limits.responseParser = some s.parser.response ∧
      ∃ rest, rb = completed false b.upstream s.parser rest ∧
        rs = completed true s.upstream s.parser rest := by
  obtain ⟨rest, houtcome, rfl⟩ := Transaction.completed h.method h.executed h.buffered
  obtain ⟨rest', houtcome', rfl⟩ := Transaction.completed h.method h.forwarded h.streamed
  rw [h.reads, houtcome'] at houtcome
  obtain ⟨-, hparser, rfl⟩ := ParseOutcome.finished.inj houtcome
  refine ⟨?_, rest', by rw [hparser], rfl⟩
  unfold UpstreamReads.response
  rw [h.reads, houtcome']

/-- If the paths agree, the client is told the default status by both, and all headers. -/
theorem same_of_agree (h : BothComplete proxy upstream request tb ts b s rb rs)
    (hagree : PathsAgree proxy request tb ts b s rb rs) :
    s.parser.response.SameOnBothPaths (tb.exchange proxy request) tb.stored := by
  obtain ⟨-, rest, rfl, rfl⟩ := h.parsed
  obtain ⟨hr, hwell, payloads, -, -, hstream⟩ :=
    Transaction.writes_streamed h.forwarded h.streamed
  obtain ⟨⟨textB, statusB, hB⟩, ⟨textS, statusS, hS⟩, hdelivered, -, -⟩ := hagree
  obtain ⟨d, hdB, hdS, -, hstatus⟩ := hdelivered _ _ _ _ hB hS
  rw [Transaction.writes_buffered h.executed] at hB
  obtain ⟨-, hserializable, htextB⟩ := serves_routed hr rfl h.method hB
  obtain ⟨hrecorded, htextS⟩ := hS.eq
  rw [if_pos (by rfl), hstream, streamBytes_eq hr ts payloads, List.append_assoc] at htextS
  -- what is told of the stream, and of the buffered text
  obtain ⟨htoldStatus, htoldHeaders⟩ := hdS.told htextS hr.reason.2 (valid_streamHeaders hr ts) rfl
  have hvalid := hserializable.valid
  rw [Exchange.ownHeaders_routed hr] at hvalid
  obtain ⟨-, hrouted⟩ := hdB.told htextB hr.reason.2 hvalid rfl
  constructor
  · have hdefault : statusS = 200 := hrecorded
    rw [← hdefault, hstatus, htoldStatus]
    rfl
  · rw [htoldHeaders, sanitizeUpstreamResponse_entries hwell] at hrouted
    intro header hmem
    simpa using List.filter_eq_self.mp hrouted.symm header hmem

/-- If the status is the default, and no header is replaced, the paths agree. -/
theorem agree_of_same (h : BothComplete proxy upstream request tb ts b s rb rs)
    (hsame : s.parser.response.SameOnBothPaths (tb.exchange proxy request) tb.stored) :
    PathsAgree proxy request tb ts b s rb rs := by
  obtain ⟨-, rest, rfl, rfl⟩ := h.parsed
  obtain ⟨hr, hwell, payloads, hnonempty, hbody, hstream⟩ :=
    Transaction.writes_streamed h.forwarded h.streamed
  obtain ⟨hstatus, hkept⟩ := hsame
  -- the exchange replaces no header that the upstream may send
  have hfilter : (sanitizeUpstreamResponse s.parser.response).headers.entries.filter
      (fun header => !(tb.exchange proxy request).replaced tb.stored header) =
        (sanitizeUpstreamResponse s.parser.response).headers.entries := by
    rw [sanitizeUpstreamResponse_entries hwell, List.filter_eq_self]
    intro header hmem
    rw [hkept header hmem]
    rfl
  have hserializable := Exchange.serializable_routed hr (tb.exchange proxy request) tb.stored
    (by show 100 ≤ s.parser.response.statusCode; omega) (isValidHeaderValue_toChars tb.requestId)
  refine ⟨?_, ?_, ?_, rfl, rfl⟩
  · exact HttpSession.exists_serves _ _
      (.inr ⟨_, HttpResponse.serialize_eq_ok.mpr ⟨hserializable, rfl⟩⟩)
  · exact HttpSession.exists_serves _ _ (.inl rfl)
  · intro textB statusB textS statusS hB hS
    rw [Transaction.writes_buffered h.executed] at hB
    obtain ⟨hrecordedB, -, htextB⟩ := serves_routed hr rfl h.method hB
    obtain ⟨hrecordedS, htextS⟩ := hS.eq
    rw [if_pos (by rfl), hstream, streamBytes_eq hr ts payloads] at htextS
    rw [hfilter] at htextB
    -- both texts say this message: one whole, one in chunks
    refine ⟨{ status := s.parser.response.statusCode, reason := s.parser.response.reason,
              headers := (sanitizeUpstreamResponse s.parser.response).headers.entries,
              body := s.parser.response.body }, ?_, ?_, hrecordedB, ?_⟩
    · rw [htextB]
      refine .whole _ _ ⟨rfl, hr.reason.2, ?_⟩
      have hvalid := hserializable.valid
      rw [Exchange.ownHeaders_routed hr, hfilter] at hvalid
      exact hvalid
    · rw [htextS]
      exact .chunked (bytes "keep-alive") _ payloads
        ⟨rfl, hr.reason.2, valid_streamHeaders hr ts⟩ hnonempty hbody
    · -- the log of a streamed response has the default status
      have hdefault : statusS = 200 := hrecordedS
      rw [hdefault]
      exact hstatus.symm

end BothComplete

/-- **The paths agree exactly if the upstream's status is 200** and the router replaces none of
    its headers. -/
theorem paths_agree_iff (proxy : ReverseProxy) (upstream : UpstreamEndpoint) (request : HttpRequest)
    (tb ts : Transaction) (b s : ProxySession) (rb rs : ProxyResult)
    (h : BothComplete proxy upstream request tb ts b s rb rs) :
    PathsAgree proxy request tb ts b s rb rs ↔
      ∃ r, tb.reads.response proxy.limits.responseParser = some r ∧
        r.SameOnBothPaths (tb.exchange proxy request) tb.stored := by
  constructor
  · intro hagree
    exact ⟨_, h.parsed.1, h.same_of_agree hagree⟩
  · rintro ⟨r, hresponse, hsame⟩
    obtain rfl := Option.some.inj (h.parsed.1.symm.trans hresponse)
    exact h.agree_of_same hsame

/-! ### A response on both paths -/

def smallUpstream : UpstreamEndpoint := { host := bytes "u", service := bytes "80" }

/-- A transaction in which the response comes in one piece. -/
def onePiece (text : Bytes) (forwarding : Bool) : Transaction where
  requestId := 1
  peer := none
  cache := {}
  stored := false
  connectionOpen := true
  events :=
    if forwarding then
      [.run, .sent true, .run, .run, .run, .run, .run, .received text, .run, .run, .written .sent,
       .run, .written .sent, .run, .written .sent]
    else [.run, .sent true, .run, .run, .run, .received text, .run, .run]

/-- What is read from the session of a transaction that is over. -/
def endOf (s : ProxySession) : Option ProxyResult × Bool × HttpResponse :=
  (match s.point with
    | .returned result => some result
    | _ => none,
   s.parser.messageComplete && s.output.all fun o => decide (o.progress = .sent),
   s.parser.response)

/-- Transactions that end so are complete. -/
theorem bothComplete_of_endOf (text : Bytes) (r : HttpResponse) (rb rs : ProxyResult)
    (hb : ((onePiece text false).run Exchange.smallProxy smallUpstream { method := .Get }
      false).map endOf = some (some rb, true, r))
    (hs : ((onePiece text true).run Exchange.smallProxy smallUpstream { method := .Get }
      true).map endOf = some (some rs, true, r)) :
    ∃ b s, BothComplete Exchange.smallProxy smallUpstream { method := .Get } (onePiece text false)
      (onePiece text true) b s rb rs ∧ s.parser.response = r := by
  have hends {t : Transaction} {forwarding : Bool} {result : ProxyResult}
      (h : (t.run Exchange.smallProxy smallUpstream { method := .Get } forwarding).map endOf =
        some (some result, true, r)) :
      ∃ s, t.run Exchange.smallProxy smallUpstream { method := .Get } forwarding = some s ∧
        s.Completes result ∧ s.parser.response = r := by
    obtain ⟨s, hrun, hend⟩ := Option.map_eq_some_iff.mp h
    unfold endOf at hend
    obtain ⟨hpoint, hend⟩ := Prod.mk.inj hend
    obtain ⟨hdone, hresponse⟩ := Prod.mk.inj hend
    rw [Bool.and_eq_true, List.all_eq_true] at hdone
    refine ⟨s, hrun, ⟨?_, hdone.1, fun o ho => of_decide_eq_true (hdone.2 o ho)⟩, hresponse⟩
    split at hpoint
    · next result' hreturned => rw [hreturned, Option.some.inj hpoint]
    · cases hpoint
  obtain ⟨b, hexecuted, hbuffered, -⟩ := hends hb
  obtain ⟨s, hforwarded, hstreamed, hresponse⟩ := hends hs
  exact ⟨b, s, ⟨nofun, rfl, hexecuted, hforwarded, hbuffered, hstreamed⟩, hresponse⟩

/-- A result that offers the connection again. -/
def smallResult (response : HttpResponse) (status : Int) : ProxyResult where
  response := response
  upstream := smallUpstream
  reusable := true
  upstreamStatus := status

/-- A response with a body of one byte. -/
def oneByteText (status : Int) (reason : Bytes) : Bytes :=
  HttpResponseParser.statusText status reason ++ bytes "\r\nContent-Length: 1\r\n\r\na"

/-- The response as it is parsed. -/
def oneByteResponse (status : Int) (reason : Bytes) : HttpResponse where
  statusCode := status
  reason := reason
  headers := { entries := [{ name := bytes "content-length", value := bytes "1" }] }
  body := bytes "a"

/-- The theorem at a response with status 200. -/
theorem paths_agree_iff_ok :
    ∃ b s rb rs, BothComplete Exchange.smallProxy smallUpstream { method := .Get }
        (onePiece (oneByteText 200 (bytes "OK")) false)
        (onePiece (oneByteText 200 (bytes "OK")) true) b s rb rs ∧
      PathsAgree Exchange.smallProxy { method := .Get }
        (onePiece (oneByteText 200 (bytes "OK")) false)
        (onePiece (oneByteText 200 (bytes "OK")) true) b s rb rs := by
  obtain ⟨b, s, hboth, hresponse⟩ := bothComplete_of_endOf (oneByteText 200 (bytes "OK"))
    (oneByteResponse 200 (bytes "OK")) (smallResult { body := bytes "a" } 200)
    (smallResult { alreadyWritten := true } 200) (by decide +kernel) (by decide +kernel)
  refine ⟨b, s, _, _, hboth, ?_⟩
  apply (paths_agree_iff _ _ _ _ _ _ _ _ _ hboth).mpr
  refine ⟨_, hboth.parsed.1, ?_, ?_⟩
  · rw [hresponse]
    rfl
  · rw [hresponse]
    decide

/-- A response with status 404 that is streamed is recorded with status 200. -/
theorem notFound_recorded_as_ok :
    ∃ b s rb rs, BothComplete Exchange.smallProxy smallUpstream { method := .Get }
        (onePiece (oneByteText 404 (bytes "Not Found")) false)
        (onePiece (oneByteText 404 (bytes "Not Found")) true) b s rb rs ∧
      (∀ text status, HttpSession.Serves { method := .Get } s.writes
          ((onePiece (oneByteText 404 (bytes "Not Found")) true).answer Exchange.smallProxy
            { method := .Get } rs) text status →
        status = 200 ∧ ∃ rest, text = bytes "HTTP/1.1 404 Not Found\r\n" ++ rest) ∧
      ¬ PathsAgree Exchange.smallProxy { method := .Get }
        (onePiece (oneByteText 404 (bytes "Not Found")) false)
        (onePiece (oneByteText 404 (bytes "Not Found")) true) b s rb rs := by
  obtain ⟨b, s, hboth, hresponse⟩ := bothComplete_of_endOf (oneByteText 404 (bytes "Not Found"))
    (oneByteResponse 404 (bytes "Not Found"))
    (smallResult { statusCode := 404, reason := bytes "Not Found", body := bytes "a" } 404)
    (smallResult { alreadyWritten := true } 404) (by decide +kernel) (by decide +kernel)
  refine ⟨b, s, _, _, hboth, ?_, ?_⟩
  · intro text status hserves
    obtain ⟨hstatus, htext⟩ := hserves.eq
    obtain ⟨hr, -, payloads, -, -, hstream⟩ :=
      Transaction.writes_streamed hboth.forwarded hboth.streamed
    have hline : HttpResponseParser.statusText 404 (bytes "Not Found") ++ crlf =
        bytes "HTTP/1.1 404 Not Found\r\n" := by decide
    rw [if_pos (by rfl), hstream, streamBytes_eq hr, hresponse] at htext
    simp only [List.append_assoc] at htext
    refine ⟨hstatus, ?_⟩
    rw [← hline]
    exact ⟨_, htext.trans (List.append_assoc _ _ _).symm⟩
  · intro hagree
    have hsame := (hboth.same_of_agree hagree).1
    rw [hresponse] at hsame
    cases hsame

end PulseGate
