import PulseGate.Http.SessionBuffer

namespace PulseGate

/-!
# What a session makes of the bytes of a message

A call of `readRequest` comes after the bytes of one message that the session has read, those
that the parser has taken and those in the buffer.

* `Parses` — what the call does, by what a new parser makes of all these bytes;
* `ReadyToParse.parses` — it does nothing else.
-/

/-- The bytes that the session receives. -/
def SessionEvent.data : SessionEvent → Bytes
  | .received data => data
  | _ => []

namespace HttpSession

open HttpParser

variable {s t u : HttpSession} {now : Int} {l : SessionLimits} {x text : Bytes}

/-- What `readRequest` leaves behind beside the buffer and the parser. -/
structure SameLogs (s t : HttpSession) : Prop where
  handled : t.handled = s.handled
  output : t.output = s.output
  state : t.state = s.state

/-- The bytes `text` of a message are parsed: the session waits for more of them, or passes the
    request to the router, or refuses it, or it ends because it is closed or has no room. -/
inductive Parses (l : SessionLimits) (text : Bytes) (now : Int) (s t : HttpSession) : Prop
  | waits (y : Bytes) (waiting : Waiting l.parser y t.parser)
      (split : text = y ++ t.input.readableView)
      (more : (({ limits := l.parser } : HttpParser).parse text).1 = .NeedMore)
      (point : t.point = .reading) (logs : s.SameLogs t)
      (deadline : t.deadline = some (now + milliseconds t.readDeadline.2, t.readDeadline.1))
  | handles (m : RequestMessage) (wellFormed : m.WellFormed l.parser)
      (split : text = m.text ++ t.input.readableView) (point : t.point = .handling m.request)
      (handled : t.handled = m.request :: s.handled) (output : t.output = s.output)
      (state : t.state = s.state)
  | refuses (result : ParseResult)
      (refused : (({ limits := l.parser } : HttpParser).parse text).1 = result)
      (response : HttpResponse) (error : makeErrorResponse result = .ok response)
      (written : Bytes) (serialized : response.serialize false = .ok written)
      (point : t.point = .refusing) (handled : t.handled = s.handled)
      (output : t.output = written :: s.output) (state : t.state = s.state)
  | ends (cause : s.state = .Closed ∨ ¬LeavesRoom l ∨ vectorMaxSize < l.maxBufferBytes)
      (point : t.point = .finished) (state : t.state = .Closed) (handled : t.handled = s.handled)
      (output : t.output = s.output)

/-- The response to a request that is refused can be written. -/
theorem makeErrorResponse_serialize {result : ParseResult} (hmore : result ≠ .NeedMore)
    (hcomplete : result ≠ .Complete) :
    ∃ response written, makeErrorResponse result = .ok response ∧
      response.serialize false = .ok written := by
  cases result with
  | NeedMore => exact absurd rfl hmore
  | Complete => exact absurd rfl hcomplete
  | _ => exact ⟨_, _, rfl, rfl⟩

theorem refuse_parses {result : ParseResult} {input : Buffer} {parser : HttpParser}
    (hparse : (({ limits := l.parser } : HttpParser).parse text).1 = result)
    (hmore : result ≠ .NeedMore) (hcomplete : result ≠ .Complete) :
    Parses l text now s
      (({ s with parser := parser, input := input } : HttpSession).refuse result) := by
  obtain ⟨response, written, herror, hwritten⟩ := makeErrorResponse_serialize hmore hcomplete
  unfold refuse
  dsimp only
  rw [herror]
  dsimp only
  rw [hwritten]
  exact .refuses result hparse response herror written hwritten rfl rfl rfl rfl

/-- There is room for the next read where the limits leave it. -/
theorem ReadyToParse.prepare_isOk {parser : HttpParser} {rest : Bytes} (hl : l.parser.Accepted)
    (h : t.ReadyToParse l x) (hroom : LeavesRoom l) (hvector : l.maxBufferBytes ≤ vectorMaxSize)
    (hparse : t.parser.parse t.input.readableView = (.NeedMore, parser, rest)) :
    ∃ input, (t.inputAfter rest).prepare l.readChunkBytes = .ok input := by
  obtain ⟨y, hwaiting, -, hstuck⟩ := parse_needMore hl h.waiting hparse
  have hpending := hroom.pending (hwaiting.pending hstuck)
  have hbytes : (t.inputAfter rest).readableBytes = rest.length := by
    rw [← Buffer.readableView_length, inputAfter_readableView (parse_suffix hparse)]
  have hmaximum : (t.inputAfter rest).maximumSize = l.maxBufferBytes :=
    (inputAfter_maximumSize t rest).trans h.maximum
  have hfits : (t.inputAfter rest).readableBytes + l.readChunkBytes ≤
      (t.inputAfter rest).maximumSize := by
    rw [hbytes, hmaximum]
    exact hpending
  apply (Buffer.prepare_isOk_iff (inputAfter_preparedBytes h.prepared rest) hfits).mpr
  exact Buffer.growsWithin_of_maximumSize hfits (hmaximum.symm ▸ hvector)

/-- **A call of `readRequest`.** -/
theorem ReadyToParse.parses (hl : l.parser.Accepted) (h : t.ReadyToParse l x)
    (hstate : t.state ≠ .Closing) :
    Parses l (x ++ t.input.readableView) now t (t.readRequest now) := by
  rcases hparse : t.parser.parse t.input.readableView with ⟨result, parser, rest⟩
  have hview := inputAfter_readableView (parse_suffix hparse)
  have hfresh := hparse
  rw [parse_waiting h.waiting] at hfresh
  have hresult : (({ limits := l.parser } : HttpParser).parse
      (x ++ t.input.readableView)).1 = result := by rw [hfresh]
  unfold readRequest
  rw [hparse]
  dsimp only
  cases result with
  | NeedMore =>
    obtain ⟨y, hwaiting, hsplit, -⟩ := parse_needMore hl h.waiting hparse
    dsimp only
    unfold startReading
    split
    · next e hprepare =>
      -- the buffer cannot take another read
      have hcause : t.state = .Closed ∨ ¬LeavesRoom l ∨ vectorMaxSize < l.maxBufferBytes := by
        right
        by_contra hroom
        rw [not_or, not_not, not_lt] at hroom
        obtain ⟨input, hok⟩ := h.prepare_isOk hl hroom.1 hroom.2 hparse
        rw [← h.limits] at hok
        cases hprepare.symm.trans hok
      have hends :=
        raised_ends (s := { t with parser := parser, input := t.inputAfter rest }) hstate
      exact .ends hcause hends.point hends.state hends.same.handled hends.same.output
    · next input hprepare =>
      refine .waits y hwaiting ?_ hresult rfl ⟨rfl, rfl, rfl⟩ rfl
      show x ++ t.input.readableView = y ++ input.readableView
      rw [Buffer.prepare_readableView hprepare, hview]
      exact hsplit
  | Complete =>
    obtain ⟨m, hm, hsplit, rfl⟩ := parse_whole h.waiting hparse
    have htake : (completed l.parser m).takeRequest = .ok (m.request,
        { completed l.parser m with
          request := { m.request with target := [], headers := {}, body := [] } }) := rfl
    dsimp only
    rw [htake]
    dsimp only
    unfold handle
    split
    · next hclosed =>
      have hends := leave_ends (s := { t with
        parser := { completed l.parser m with
          request := { m.request with target := [], headers := {}, body := [] } }
        input := t.inputAfter rest }) hstate
      exact .ends (.inl (hclosed.resolve_left hstate)) hends.point hends.state hends.same.handled
        hends.same.output
    · refine .handles m hm ?_ rfl rfl rfl rfl
      show x ++ t.input.readableView = m.text ++ (t.inputAfter rest).readableView
      rw [hview]
      exact hsplit
  | _ => exact refuse_parses hresult nofun nofun

end HttpSession
end PulseGate
