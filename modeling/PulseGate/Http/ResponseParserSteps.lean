import PulseGate.Http.ResponseParser
import Mathlib.Tactic.ByContra

namespace PulseGate

/-!
# What a call of the response parser does

`Bounded` is what the loop of `parse` keeps: the body is within its limits, empty before the
end of the headers, and the header counters are sizes of buffers.  `Advances p input r p' rest`
says what an iteration from `p` on `input` can lead to, and, because it is transitive, what a
call of `parse` can lead to:

* `step_advances` — one iteration;
* `parse_ends` — the loop ends on every input a buffer can hold;
* `parse_advances` — one call.
-/

/-! ### Sizes -/

/-- Two sizes of buffers add up without wrapping around. -/
theorem sizeAdd_of_sizes {a b : Nat} (ha : a ≤ vectorMaxSize) (hb : b ≤ vectorMaxSize) :
    sizeAdd a b = a + b := by
  unfold sizeAdd sizeModulus
  unfold vectorMaxSize at ha hb
  rw [if_pos (by omega)]

theorem sizeAdd_of_le {a b : Nat} (h : a + b ≤ vectorMaxSize) : sizeAdd a b = a + b :=
  sizeAdd_of_sizes (by omega) (by omega)

/-! ### Properties of an iteration -/

namespace Iteration

/-- The result of the iteration (`none` if it continues), the parser and the unread bytes
    after it satisfy `P`; an access out of bounds leaves nothing to say. -/
def Keeps (it : Iteration) (P : Option ResponseParseResult → HttpResponseParser → Bytes → Prop) :
    Prop :=
  match it.next with
  | .inl (.finished r p rest) => P (some r) p rest
  | .inl .outOfBounds => True
  | .inr (p, rest) => P none p rest

variable {it : Iteration} {P : Option ResponseParseResult → HttpResponseParser → Bytes → Prop}

@[simp] theorem after_next (operations : List Operation) :
    (it.after operations).next = it.next := rfl

@[simp] theorem after_keeps (operations : List Operation) :
    (it.after operations).Keeps P ↔ it.Keeps P := Iff.rfl

theorem Keeps.mono {Q : Option ResponseParseResult → HttpResponseParser → Bytes → Prop}
    (h : it.Keeps P) (himp : ∀ r p rest, P r p rest → Q r p rest) : it.Keeps Q := by
  unfold Keeps at *
  split
  · next hnext => rw [hnext] at h; exact himp _ _ _ h
  · trivial
  · next hnext => rw [hnext] at h; exact himp _ _ _ h

theorem Keeps.finished {r : ResponseParseResult} {p : HttpResponseParser} {rest : Bytes}
    (h : it.Keeps P) (hnext : it.next = .inl (.finished r p rest)) : P (some r) p rest := by
  simpa only [Keeps, hnext] using h

theorem Keeps.continued {p : HttpResponseParser} {rest : Bytes}
    (h : it.Keeps P) (hnext : it.next = .inr (p, rest)) : P none p rest := by
  simpa only [Keeps, hnext] using h

end Iteration

namespace HttpResponseParser

section Endings

variable {p : HttpResponseParser} {r : ResponseParseResult} {rest : Bytes}
  {P : Option ResponseParseResult → HttpResponseParser → Bytes → Prop}

@[simp] theorem failing_keeps : (p.failing r rest).Keeps P ↔ P (some r) (p.fail r) rest := Iff.rfl

@[simp] theorem returning_keeps : (p.returning r rest).Keeps P ↔ P (some r) p rest := Iff.rfl

@[simp] theorem continuing_keeps : (p.continuing rest).Keeps P ↔ P none p rest := Iff.rfl

end Endings

/-! ### The invariant -/

/-- The parser is before the end of the headers. -/
def InHeaders (p : HttpResponseParser) : Prop := p.state = .StatusLine ∨ p.state = .Headers

/-- The parser is past the headers and has not failed. -/
def InBody (p : HttpResponseParser) : Prop := ¬ p.InHeaders ∧ p.state ≠ .Error

/-- The loop of `parse` goes on. -/
def Running (p : HttpResponseParser) : Prop := p.state ≠ .Complete ∧ p.state ≠ .Error

instance : DecidablePred InHeaders := fun _ => inferInstanceAs (Decidable (_ ∨ _))

instance : DecidablePred InBody := fun _ => inferInstanceAs (Decidable (_ ∧ _))

instance : DecidablePred Running := fun _ => inferInstanceAs (Decidable (_ ∧ _))

/-- What holds of a parser between two iterations. -/
structure Bounded (p : HttpResponseParser) : Prop where
  accepted : p.limits.Accepted
  body : p.response.body.length ≤ p.limits.maxBodyBytes
  early : p.InHeaders → p.response.body = []
  fixed : p.state = .FixedBody →
    p.response.body.length ≤ p.expectedBodyBytes ∧ p.expectedBodyBytes ≤ p.limits.maxBodyBytes
  header : p.state ≠ .Error → p.headerBytes ≤ vectorMaxSize
  count : p.state ≠ .Error → p.headerCount ≤ p.headerBytes
  start : p.state = .StatusLine → p.headerCount = 0
  error : p.state = .Error → p.errorResult ≠ .NeedMore ∧ p.errorResult ≠ .Complete

theorem bounded_reset {p : HttpResponseParser} (h : p.limits.Accepted) (headRequest : Bool) :
    Bounded (p.reset headRequest) where
  accepted := h
  body := Nat.zero_le _
  early := fun _ => rfl
  fixed := by simp [reset]
  header := fun _ => Nat.zero_le _
  count := fun _ => Nat.zero_le _
  start := fun _ => rfl
  error := by simp [reset]

/-- From `p` on `input`, with the result `r` or `none` when the loop goes on, the parser gets
    to `p'` and leaves `rest` unread. -/
structure Advances (p : HttpResponseParser) (input : Bytes) (r : Option ResponseParseResult)
    (p' : HttpResponseParser) (rest : Bytes) : Prop where
  bounded : Bounded p'
  limits : p'.limits = p.limits
  headRequest : p'.headRequest = p.headRequest
  suffix : rest <:+ input
  /-- What the result says about the state. -/
  running : r = none ∨ r = some .NeedMore → p'.Running
  complete : r = some .Complete → p'.state = .Complete
  failed : ∀ e, r = some e → e ≠ .NeedMore → e ≠ .Complete →
    p'.state = .Error ∧ p'.errorResult = e
  /-- Past the headers, only the body of the response grows. -/
  grows : p.InBody → (p'.InBody ∨ p'.state = .Error) ∧
    p'.eofDelimited = p.eofDelimited ∧
    ∃ data, p'.response = { p.response with body := p.response.body ++ data }

variable {p q p' p₁ : HttpResponseParser} {input line rest r₁ : Bytes}
  {r : Option ResponseParseResult} {e : ResponseParseResult}

theorem Advances.trans (h₁ : Advances p input none p₁ r₁) (h₂ : Advances p₁ r₁ r p' rest) :
    Advances p input r p' rest where
  bounded := h₂.bounded
  limits := h₂.limits.trans h₁.limits
  headRequest := h₂.headRequest.trans h₁.headRequest
  suffix := h₂.suffix.trans h₁.suffix
  running := h₂.running
  complete := h₂.complete
  failed := h₂.failed
  grows := by
    intro hp
    obtain ⟨hin, heof, data₁, hdata₁⟩ := h₁.grows hp
    -- a loop that goes on has not failed
    have hin₁ : p₁.InBody := hin.resolve_right (h₁.running (.inl rfl)).2
    obtain ⟨hin', heof', data, hdata⟩ := h₂.grows hin₁
    exact ⟨hin', heof'.trans heof, data₁ ++ data, by simp [hdata, hdata₁]⟩

/-! ### How an iteration ends -/

/-- The iteration fails in the state `q`, which may have a new status line or header count if
    the headers were being read. -/
theorem advances_fail (h : Bounded p) (hlimits : q.limits = p.limits)
    (hhead : q.headRequest = p.headRequest)
    (hbody : q.response.body.length ≤ p.limits.maxBodyBytes)
    (hgrows : p.InBody → q.eofDelimited = p.eofDelimited ∧ q.response = p.response)
    (he : e ≠ .NeedMore ∧ e ≠ .Complete) (hrest : rest <:+ input) :
    Advances p input (some e) (q.fail e) rest where
  bounded := {
    accepted := by simpa [fail, hlimits] using h.accepted
    body := by simpa [fail, hlimits] using hbody
    early := by simp [fail, InHeaders]
    fixed := by simp [fail]
    header := by simp [fail]
    count := by simp [fail]
    start := by simp [fail]
    error := fun _ => he }
  limits := hlimits
  headRequest := hhead
  suffix := hrest
  running := by simp [he]
  complete := by simp [he]
  failed := by
    rintro _ ⟨⟩ _ _
    exact ⟨rfl, rfl⟩
  grows := by
    intro hp
    obtain ⟨heof, hresponse⟩ := hgrows hp
    exact ⟨.inr rfl, heof, [], by simp [fail, hresponse]⟩

/-- The same when the parser is only moved to `Error`. -/
theorem advances_fail_self (h : Bounded p) (he : e ≠ .NeedMore ∧ e ≠ .Complete)
    (hrest : rest <:+ input) : Advances p input (some e) (p.fail e) rest :=
  advances_fail h rfl rfl h.body (fun _ => ⟨rfl, rfl⟩) he hrest

/-- The iteration waits for more input. -/
theorem advances_wait (h : Bounded p) (hp : p.Running) (hrest : rest <:+ input) :
    Advances p input (some .NeedMore) p rest where
  bounded := h
  limits := rfl
  headRequest := rfl
  suffix := hrest
  running := fun _ => hp
  complete := by simp
  failed := by rintro _ ⟨⟩ hne; exact absurd rfl hne
  grows := fun hp => ⟨.inl hp, rfl, [], by simp⟩

/-- The message is complete. -/
theorem advances_complete (hq : Bounded q) (hlimits : q.limits = p.limits)
    (hhead : q.headRequest = p.headRequest) (hstate : q.state = .Complete)
    (hgrows : p.InBody → q.eofDelimited = p.eofDelimited ∧
      ∃ data, q.response = { p.response with body := p.response.body ++ data })
    (hrest : rest <:+ input) : Advances p input (some .Complete) q rest where
  bounded := hq
  limits := hlimits
  headRequest := hhead
  suffix := hrest
  running := by simp
  complete := fun _ => hstate
  failed := by rintro _ ⟨⟩ _ hne; exact absurd rfl hne
  grows := fun hp => ⟨.inl (by simp [InBody, InHeaders, hstate]), hgrows hp⟩

/-- The iteration continues. -/
theorem advances_continue (hq : Bounded q) (hlimits : q.limits = p.limits)
    (hhead : q.headRequest = p.headRequest) (hrun : q.Running)
    (hgrows : p.InBody → q.InBody ∧ q.eofDelimited = p.eofDelimited ∧
      ∃ data, q.response = { p.response with body := p.response.body ++ data })
    (hrest : rest <:+ input) : Advances p input none q rest where
  bounded := hq
  limits := hlimits
  headRequest := hhead
  suffix := hrest
  running := fun _ => hrun
  complete := by simp
  failed := by simp
  grows := fun hp => ⟨.inl (hgrows hp).1, (hgrows hp).2⟩

/-! ### The branches of the loop -/

theorem appendBody_eq_some {bytes : Bytes} (h : Bounded p)
    (happend : p.appendBody bytes = some p') :
    p.response.body.length + bytes.length ≤ p.limits.maxBodyBytes ∧
      p' = { p with response := { p.response with body := p.response.body ++ bytes } } := by
  have hbody := h.body
  unfold appendBody at happend
  split at happend
  · cases happend
  · next hle =>
    rw [sizeSub, if_pos hbody] at hle
    exact ⟨by omega, (Option.some.inj happend).symm⟩

/-- A parser past the headers takes more body bytes and changes its state. -/
theorem Bounded.append {b : Bytes} (h : Bounded p) (state : ResponseParseState)
    (hp : p.InBody) (hroom : p.response.body.length + b.length ≤ p.limits.maxBodyBytes)
    (hfixed : state = .FixedBody → p.state = .FixedBody ∧
      p.response.body.length + b.length ≤ p.expectedBodyBytes)
    (hstate : state ≠ .StatusLine ∧ state ≠ .Headers ∧ state ≠ .Error) :
    Bounded { p with state := state,
                     response := { p.response with body := p.response.body ++ b } } where
  accepted := h.accepted
  body := by simpa only [List.length_append] using hroom
  early := by rintro (hs | hs) <;> simp_all
  fixed := by
    intro hs
    obtain ⟨hfixed, hle⟩ := hfixed hs
    exact ⟨by simpa only [List.length_append] using hle, (h.fixed hfixed).2⟩
  header := fun _ => h.header hp.2
  count := fun _ => h.count hp.2
  start := fun hs => absurd hs hstate.1
  error := fun hs => absurd hs hstate.2.2

/-- The same without new bytes. -/
theorem Bounded.enter (h : Bounded p) (state : ResponseParseState) (hp : p.InBody)
    (hfixed : state ≠ .FixedBody)
    (hstate : state ≠ .StatusLine ∧ state ≠ .Headers ∧ state ≠ .Error) :
    Bounded { p with state := state } := by
  have happend := h.append (b := []) state hp h.body (fun hs => absurd hs hfixed) hstate
  rw [List.append_nil] at happend
  exact happend

theorem fixedBodyDone_advances (h : Bounded p) (hs : p.state = .FixedBody) :
    (p.fixedBodyDone input).Keeps (Advances p input) := by
  have hp : p.InBody := by simp [InBody, InHeaders, hs]
  unfold fixedBodyDone
  split
  · exact advances_complete (h.enter .Complete hp (by simp) (by simp)) rfl rfl rfl
      (fun _ => ⟨rfl, [], by simp⟩) (List.suffix_refl _)
  · exact advances_wait h (by simp [Running, hs]) (List.suffix_refl _)

/-- The unread bytes may be fewer than the iteration started with. -/
theorem Advances.of_suffix {input' : Bytes} (h : Advances p input r p' rest)
    (hsuffix : input <:+ input') : Advances p input' r p' rest :=
  { h with suffix := h.suffix.trans hsuffix }

/-- An iteration that appends `bytes` first. -/
theorem Advances.of_append {bytes input' : Bytes} (hsuffix : input' <:+ input)
    (h : Advances { p with response := { p.response with body := p.response.body ++ bytes } }
      input' r p' rest) : Advances p input r p' rest :=
  { h with
    suffix := h.suffix.trans hsuffix
    grows := fun hp => by
      obtain ⟨hin, heof, data, hdata⟩ := h.grows hp
      exact ⟨hin, heof, bytes ++ data, by simp [hdata]⟩ }

theorem fixedBodyStep_advances (h : Bounded p) (hs : p.state = .FixedBody) :
    (p.fixedBodyStep input).Keeps (Advances p input) := by
  obtain ⟨hle, hmax⟩ := h.fixed hs
  have hp : p.InBody := by simp [InBody, InHeaders, hs]
  unfold fixedBodyStep
  simp only [sizeSub, hle, if_true, Iteration.after_keeps]
  -- there are bytes to take, and the body has room for them
  split
  · split
    · exact advances_fail_self h (by simp) (List.suffix_refl _)
    · next p' happend =>
      obtain ⟨hroom, rfl⟩ := appendBody_eq_some h happend
      have h' := h.append p.state hp hroom
        (fun _ => ⟨hs, by rw [List.length_take]; omega⟩) (by simp [hs])
      exact (fixedBodyDone_advances h' hs).mono fun _ _ _ hadv =>
        Advances.of_append (List.drop_suffix _ _) hadv
  · exact fixedBodyDone_advances h hs

theorem eofBodyStep_advances (h : Bounded p) (hs : p.state = .EofBody) :
    (p.eofBodyStep input).Keeps (Advances p input) := by
  have hp : p.InBody := by simp [InBody, InHeaders, hs]
  unfold eofBodyStep
  split
  · rw [Iteration.after_keeps]
    split
    · exact advances_fail_self h (by simp) (List.suffix_refl _)
    · next p' happend =>
      obtain ⟨hroom, rfl⟩ := appendBody_eq_some h happend
      have h' := h.append p.state hp hroom (by simp [hs]) (by simp [hs])
      exact Advances.of_append (List.suffix_refl _)
        (advances_wait h' (by simp [Running, hs]) (List.nil_suffix))
  · exact advances_wait h (by simp [Running, hs]) (List.suffix_refl _)

theorem chunkBodyStep_advances (h : Bounded p) (hs : p.state = .ChunkBody) :
    (p.chunkBodyStep input).Keeps (Advances p input) := by
  have hp : p.InBody := by simp [InBody, InHeaders, hs]
  unfold chunkBodyStep
  rw [Iteration.after_keeps]
  -- the chunk is not there yet
  split
  · exact advances_wait h (by simp [Running, hs]) (List.suffix_refl _)
  · rw [Iteration.after_keeps]
    split
    · split
      · exact advances_fail_self h (by simp) (List.suffix_refl _)
      · rw [Iteration.after_keeps]
        split
        · exact advances_fail_self h (by simp) (List.suffix_refl _)
        · next p' happend =>
          obtain ⟨hroom, rfl⟩ := appendBody_eq_some h happend
          have h' := h.append .ChunkSize hp hroom (by simp) (by simp)
          exact advances_continue h' rfl rfl (by simp [Running])
            (fun _ => ⟨by simp [InBody, InHeaders], rfl, _, rfl⟩) (List.drop_suffix _ _)
    -- an access out of bounds
    · trivial

/-! ### Lines -/

/-- A status line is accepted or is a bad response; it sets the status and the reason. -/
theorem parseStatusLine_cases (p : HttpResponseParser) (line : Bytes) :
    ∃ status reason,
      (p.parseStatusLine line = (.Complete,
          { p with response := { p.response with statusCode := status, reason := reason } }) ∧
        reason ≠ [] ∧ isValidHeaderValue reason = true ∧
        intFromChars ((line.drop (line.findIdx (· == 32) + 1)).take 3) = some status) ∨
      p.parseStatusLine line = (.BadResponse,
        { p with response := { p.response with statusCode := status, reason := reason } }) := by
  unfold parseStatusLine
  dsimp only
  split
  · exact ⟨_, _, .inr rfl⟩
  · split
    · exact ⟨_, _, .inr rfl⟩
    · split
      · exact ⟨_, _, .inr rfl⟩
      · next status hstatus =>
        split
        · exact ⟨_, _, .inr rfl⟩
        · split
          · exact ⟨_, _, .inr rfl⟩
          · next hvalid =>
            simp only [not_or, List.isEmpty_iff, Bool.not_eq_true', Bool.not_eq_false] at hvalid
            exact ⟨_, _, .inl ⟨rfl, hvalid.1, hvalid.2, hstatus⟩⟩

theorem statusLineStep_advances (h : Bounded p) (hs : p.state = .StatusLine)
    (hline : line.length + 2 ≤ vectorMaxSize) :
    (p.statusLineStep line rest).Keeps (Advances p rest) := by
  have hp : p.InHeaders := .inl hs
  have hbody : p.response.body = [] := h.early hp
  have hnot : ¬ p.InBody := fun hin => hin.1 hp
  unfold statusLineStep
  split
  · exact advances_fail_self h (by simp) (List.suffix_refl _)
  · rw [Iteration.after_keeps]
    obtain ⟨status, reason, ⟨hparse, _⟩ | hparse⟩ := p.parseStatusLine_cases line
    · rw [hparse]
      refine advances_continue ?_ rfl rfl (by simp [Running]) (fun hin => absurd hin hnot)
        (List.suffix_refl _)
      exact {
        accepted := h.accepted
        body := h.body
        early := fun _ => hbody
        fixed := by simp
        header := fun _ => hline
        count := fun _ => by simp [h.start hs]
        start := by simp
        error := by simp }
    · rw [hparse]
      exact advances_fail h rfl rfl h.body (fun hin => absurd hin hnot) (by simp)
        (List.suffix_refl _)

theorem chunkSizeStep_advances (h : Bounded p) (hs : p.state = .ChunkSize) :
    (p.chunkSizeStep line rest).Keeps (Advances p rest) := by
  have hp : p.InBody := by simp [InBody, InHeaders, hs]
  unfold chunkSizeStep
  dsimp only
  split
  · exact advances_fail_self h (by simp) (List.suffix_refl _)
  · split
    · exact advances_fail_self h (by simp) (List.suffix_refl _)
    · next parsed _ =>
      have h' : Bounded { p with chunkBytes := parsed } := { h with }
      split
      · exact advances_continue (h'.enter .Trailers hp (by simp) (by simp)) rfl rfl
          (by simp [Running]) (fun _ => ⟨by simp [InBody, InHeaders], rfl, [], by simp⟩)
          (List.suffix_refl _)
      · exact advances_continue (h'.enter .ChunkBody hp (by simp) (by simp)) rfl rfl
          (by simp [Running]) (fun _ => ⟨by simp [InBody, InHeaders], rfl, [], by simp⟩)
          (List.suffix_refl _)

theorem trailerStep_advances (h : Bounded p) (hs : p.state = .Trailers) :
    (p.trailerStep line rest).Keeps (Advances p rest) := by
  have hp : p.InBody := by simp [InBody, InHeaders, hs]
  unfold trailerStep
  split
  · exact advances_complete (h.enter .Complete hp (by simp) (by simp)) rfl rfl rfl
      (fun _ => ⟨rfl, [], by simp⟩) (List.suffix_refl _)
  · split
    · exact advances_fail_self h (by simp) (List.suffix_refl _)
    · exact advances_continue h rfl rfl (by simp [Running, hs])
        (fun hin => ⟨hin, rfl, [], by simp⟩) (List.suffix_refl _)

/-- A header is added, or the parser fails with a new header count. -/
theorem parseHeader_cases (p : HttpResponseParser) (line : Bytes) :
    (∃ name value, p.parseHeader line = (.Complete,
        { p with headerCount := sizeAdd p.headerCount 1,
                 response := { p.response with headers := p.response.headers.add name value } }) ∧
      isValidHeaderName name = true ∧ isValidHeaderValue value = true ∧ trim value = value ∧
      line ≠ []) ∨
    ∃ e, (e = .HeaderTooLarge ∨ e = .BadResponse) ∧
      p.parseHeader line = (e, { p with headerCount := sizeAdd p.headerCount 1 }) := by
  unfold parseHeader
  dsimp only
  split
  · exact .inr ⟨_, .inl rfl, rfl⟩
  · split
    · exact .inr ⟨_, .inr rfl, rfl⟩
    · next hdrop =>
      split
      · exact .inr ⟨_, .inr rfl, rfl⟩
      · next hvalid =>
        simp only [not_or, Bool.not_eq_true', Bool.not_eq_false] at hvalid
        refine .inl ⟨_, _, rfl, hvalid.1, hvalid.2, trim_trim _, ?_⟩
        rintro rfl
        simp at hdrop

theorem headerStep_advances (h : Bounded p) (hs : p.state = .Headers)
    (hcount : p.headerCount < p.headerBytes) :
    (p.headerStep line rest).Keeps (Advances p rest) := by
  have hnot : ¬ p.InBody := fun hin => hin.1 (.inr hs)
  have hheader := h.header (by simp [hs])
  have hadd : sizeAdd p.headerCount 1 = p.headerCount + 1 := sizeAdd_of_le (by omega)
  unfold headerStep
  rw [Iteration.after_keeps]
  rcases p.parseHeader_cases line with ⟨name, value, hparse, _⟩ | ⟨e, he, hparse⟩
  · rw [hparse]
    refine advances_continue ?_ rfl rfl (by simp [Running, hs]) (fun hin => absurd hin hnot)
      (List.suffix_refl _)
    exact {
      accepted := h.accepted
      body := h.body
      early := h.early
      fixed := h.fixed
      header := h.header
      count := fun _ => by rw [hadd]; exact hcount
      start := by simp [hs]
      error := by simp [hs] }
  · rw [hparse]
    rcases he with rfl | rfl
    · exact advances_fail h rfl rfl h.body (fun hin => absurd hin hnot) (by simp)
        (List.suffix_refl _)
    · exact advances_fail h rfl rfl h.body (fun hin => absurd hin hnot) (by simp)
        (List.suffix_refl _)

/-! ### The end of the headers -/

/-- How the headers can end, beside an error: with an informational response that is
    dropped, a response without a body, or one of the three framings of a body. -/
inductive Framing (p : HttpResponseParser) : HttpResponseParser → Prop
  | informational (h : p.response.statusCode.tdiv 100 = 1) :
    Framing p { p with response := {}, expectedBodyBytes := 0, headerCount := 0,
                       headerBytes := 0, state := .StatusLine }
  | bodiless (h : p.headRequest = true ∨ noBodyStatus p.response.statusCode = true) :
    Framing p { p with state := .Complete }
  | chunked (h : p.headRequest = false) (hstatus : noBodyStatus p.response.statusCode = false) :
    Framing p { p with chunked := true, state := .ChunkSize }
  | untilEof (h : p.headRequest = false)
      (hstatus : noBodyStatus p.response.statusCode = false) :
    Framing p { p with eofDelimited := true, state := .EofBody,
                       response := { p.response with closeConnection := true } }
  | fixed (h : p.headRequest = false) (hstatus : noBodyStatus p.response.statusCode = false)
      (length : Nat) (hlength : length ≤ p.limits.maxBodyBytes) :
    Framing p { p with expectedBodyBytes := length,
                       state := if length = 0 then .Complete else .FixedBody }

theorem finishHeaders_cases (p : HttpResponseParser) :
    (∃ p', p.finishHeaders = (.Complete, p') ∧ p.Framing p' ∧
      (p.response.statusCode.tdiv 100 = 1 → p'.state = .StatusLine)) ∨
    ∃ e, (e = .BadResponse ∨ e = .UnsupportedTransferEncoding ∨ e = .BodyTooLarge) ∧
      p.finishHeaders = (e, p) := by
  unfold finishHeaders
  dsimp only
  split
  · exact .inr ⟨_, .inl rfl, rfl⟩
  split
  · exact .inr ⟨_, .inr (.inl rfl), rfl⟩
  split
  · next h => exact .inl ⟨_, rfl, .informational h.1, fun _ => rfl⟩
  next hinformational =>
  split
  · exact .inr ⟨_, .inr (.inl rfl), rfl⟩
  next h101 =>
  -- from here on the response is final
  have hfinal : p.response.statusCode.tdiv 100 ≠ 1 := fun h => hinformational ⟨h, h101⟩
  split
  · next h => exact .inl ⟨_, rfl, .bodiless h, fun h => absurd h hfinal⟩
  next hbody =>
  simp only [not_or, Bool.not_eq_true] at hbody
  split
  · exact .inl ⟨_, rfl, .chunked hbody.1 hbody.2, fun h => absurd h hfinal⟩
  split
  · exact .inl ⟨_, rfl, .untilEof hbody.1 hbody.2, fun h => absurd h hfinal⟩
  · split
    · exact .inr ⟨_, .inl rfl, rfl⟩
    · split
      · exact .inr ⟨_, .inr (.inr rfl), rfl⟩
      · next length _ hlength =>
        exact .inl ⟨_, rfl, .fixed hbody.1 hbody.2 length (by omega), fun h => absurd h hfinal⟩
  · exact .inr ⟨_, .inl rfl, rfl⟩

theorem Framing.bounded (h : Bounded p) (hs : p.state = .Headers) (hf : p.Framing p') :
    Bounded p' ∧ p'.limits = p.limits ∧ p'.headRequest = p.headRequest ∧ p'.state ≠ .Error := by
  have hbody : p.response.body = [] := h.early (.inr hs)
  have hheader := h.header (by simp [hs])
  have hcount := h.count (by simp [hs])
  cases hf with
  | informational =>
    exact ⟨⟨h.accepted, Nat.zero_le _, fun _ => rfl, by simp, fun _ => Nat.zero_le _,
      fun _ => Nat.le_refl _, fun _ => rfl, by simp⟩, rfl, rfl, by simp⟩
  | bodiless =>
    exact ⟨⟨h.accepted, h.body, fun _ => hbody, by simp, fun _ => hheader, fun _ => hcount,
      by simp, by simp⟩, rfl, rfl, by simp⟩
  | chunked =>
    exact ⟨⟨h.accepted, h.body, fun _ => hbody, by simp, fun _ => hheader, fun _ => hcount,
      by simp, by simp⟩, rfl, rfl, by simp⟩
  | untilEof =>
    exact ⟨⟨h.accepted, h.body, fun _ => hbody, by simp, fun _ => hheader, fun _ => hcount,
      by simp, by simp⟩, rfl, rfl, by simp⟩
  | fixed _ _ length hlength =>
    refine ⟨⟨h.accepted, h.body, fun _ => hbody, fun _ => ⟨by simp [hbody], hlength⟩,
      fun _ => hheader, fun _ => hcount, ?_, ?_⟩, rfl, rfl, ?_⟩ <;> simp only <;> split <;> simp

theorem finishHeadersStep_advances (h : Bounded p) (hs : p.state = .Headers) :
    (p.finishHeadersStep rest).Keeps (Advances p rest) := by
  have hnot : ¬ p.InBody := fun hin => hin.1 (.inr hs)
  unfold finishHeadersStep
  rcases p.finishHeaders_cases with ⟨p', hfinish, hframing, _⟩ | ⟨e, he, hfinish⟩
  · rw [hfinish]
    obtain ⟨hbounded, hlimits, hhead, herror⟩ := hframing.bounded h hs
    simp only
    split
    · next hcomplete =>
      exact advances_complete hbounded hlimits hhead hcomplete (fun hin => absurd hin hnot)
        (List.suffix_refl _)
    · next hrun =>
      exact advances_continue hbounded hlimits hhead ⟨hrun, herror⟩ (fun hin => absurd hin hnot)
        (List.suffix_refl _)
  · rw [hfinish]
    rcases he with rfl | rfl | rfl <;>
      exact advances_fail_self h (by simp) (List.suffix_refl _)

/-! ### Any iteration -/

/-- The parser counts the bytes of a line before it looks at the line. -/
theorem Advances.of_read {n : Nat} (h : Advances { p with headerBytes := n } input r p' rest) :
    Advances p input r p' rest :=
  { h with }

theorem lineStep_advances (h : Bounded p) (hp : p.Running)
    (hstate : p.state ≠ .FixedBody ∧ p.state ≠ .ChunkBody ∧ p.state ≠ .EofBody)
    (hline : line.length + 2 ≤ vectorMaxSize) : (p.lineStep line rest).Keeps (Advances p rest) := by
  have hheader := h.header hp.2
  have hcount := h.count hp.2
  unfold lineStep
  split
  · next hs => exact statusLineStep_advances h hs hline
  next hs =>
  split
  · next hs' => exact chunkSizeStep_advances h hs'
  next hs' =>
  have hadd : sizeAdd p.headerBytes (line.length + 2) = p.headerBytes + (line.length + 2) :=
    sizeAdd_of_sizes hheader hline
  dsimp only
  rw [Iteration.after_keeps, hadd]
  split
  · exact advances_fail h rfl rfl h.body (fun _ => ⟨rfl, rfl⟩) (by simp) (List.suffix_refl _)
  · next hle =>
    -- the header limit is far below the sizes of buffers
    have hmax : p.limits.maxHeaderBytes ≤ vectorMaxSize := by
      have := h.accepted.2.2.2.2.1
      unfold kAbsoluteHeaderLimit at this
      unfold vectorMaxSize
      omega
    have h' : Bounded { p with headerBytes := p.headerBytes + (line.length + 2) } :=
      { h with header := fun _ => by simp only at hle ⊢; omega
               count := fun _ => by simp only; omega }
    refine Iteration.Keeps.mono (P := Advances
      { p with headerBytes := p.headerBytes + (line.length + 2) } rest) ?_
      fun _ _ _ hadv => hadv.of_read
    split
    · next ht => exact trailerStep_advances h' ht
    · next ht =>
      have hheaders : p.state = .Headers := by
        cases hstate' : p.state <;> simp_all [Running]
      split
      · exact finishHeadersStep_advances h' hheaders
      · exact headerStep_advances h' hheaders (by simp only; omega)

theorem partialLineStep_advances (h : Bounded p) (hp : p.Running) :
    (p.partialLineStep input).Keeps (Advances p input) := by
  unfold partialLineStep
  split
  · split
    · exact advances_fail_self h (by simp) (List.suffix_refl _)
    · exact advances_wait h hp (List.suffix_refl _)
  · split
    · rw [Iteration.after_keeps]
      split
      · exact advances_fail_self h (by simp) (List.suffix_refl _)
      · exact advances_wait h hp (List.suffix_refl _)
    · exact advances_wait h hp (List.suffix_refl _)

/-- **One iteration.** -/
theorem step_advances (h : Bounded p) (hp : p.Running) (hinput : input.length ≤ vectorMaxSize) :
    (p.step input).Keeps (Advances p input) := by
  unfold step
  split
  · next hs => exact fixedBodyStep_advances h hs
  · next hs => exact chunkBodyStep_advances h hs
  · next hs => exact eofBodyStep_advances h hs
  · next hfixed hchunk heof =>
    split
    · exact partialLineStep_advances h hp
    · next line rest hsplit =>
      rw [Iteration.after_keeps]
      have hlength := splitLine_length hsplit
      have hadv : (p.lineStep line rest).Keeps (Advances p rest) :=
        lineStep_advances h hp ⟨hfixed, hchunk, heof⟩ (by omega)
      refine hadv.mono fun _ _ _ hadv => hadv.of_suffix ?_
      rw [splitLine_eq_some hsplit]
      exact List.suffix_append _ _

/-! ### The loop ends -/

/-- A line's iteration leaves what follows the line. -/
theorem lineStep_rest (p : HttpResponseParser) (line rest : Bytes) :
    (p.lineStep line rest).Keeps fun _ _ left => left = rest := by
  unfold lineStep
  split
  · unfold statusLineStep
    split
    · rfl
    · rw [Iteration.after_keeps]
      split <;> rfl
  split
  · unfold chunkSizeStep
    dsimp only
    split
    · rfl
    · split <;> rfl
  dsimp only
  rw [Iteration.after_keeps]
  split
  · rfl
  split
  · unfold trailerStep
    split
    · rfl
    · split <;> rfl
  split
  · unfold finishHeadersStep
    split
    · split <;> rfl
    · rfl
  · unfold headerStep
    rw [Iteration.after_keeps]
    split <;> rfl

theorem lineStep_continues (h : (p.lineStep line rest).next = .inr (p', r₁)) : r₁ = rest :=
  (p.lineStep_rest line rest).continued h

theorem fixedBodyStep_ends (h : (p.fixedBodyStep input).next = .inr (p', rest)) : False := by
  have hdone : ∀ q input, (fixedBodyDone q input).next ≠ .inr (p', rest) := by
    intro q input
    unfold fixedBodyDone
    split <;> simp [returning]
  unfold fixedBodyStep at h
  dsimp only [Iteration.after_next] at h
  split at h
  · dsimp only [Iteration.after_next] at h
    split at h
    · cases h
    · exact hdone _ _ h
  · exact hdone _ _ h

theorem eofBodyStep_ends (h : (p.eofBodyStep input).next = .inr (p', rest)) : False := by
  unfold eofBodyStep at h
  split at h
  · dsimp only [Iteration.after_next] at h
    split at h <;> cases h
  · cases h

/-- A chunk that is consumed is followed by a CRLF, and is all there. -/
theorem chunkBodyStep_continues (h : (p.chunkBodyStep input).next = .inr (p', rest)) :
    ∃ q, p.appendBody (input.take p.chunkBytes) = some q ∧ p' = { q with state := .ChunkSize } ∧
      rest = input.drop (sizeAdd p.chunkBytes 2) ∧ input[p.chunkBytes]? = some 13 ∧
      input[sizeAdd p.chunkBytes 1]? = some 10 ∧ sizeAdd p.chunkBytes 2 ≤ input.length := by
  unfold chunkBodyStep at h
  dsimp only [Iteration.after_next] at h
  split at h
  · cases h
  next hlength =>
  dsimp only [Iteration.after_next] at h
  split at h
  · next a b ha hb =>
    split at h
    · cases h
    next hcrlf =>
    dsimp only [Iteration.after_next] at h
    split at h
    · cases h
    · next q happend =>
      obtain ⟨rfl, rfl⟩ := Prod.mk.inj (Sum.inr.inj h)
      simp only [ne_eq, not_or, Decidable.not_not] at hcrlf
      exact ⟨q, happend, rfl, rfl, hcrlf.1 ▸ ha, hcrlf.2 ▸ hb, by omega⟩
  · cases h

/-- Chunk sizes that are pending in an input a buffer can hold do not wrap. -/
theorem sizeAdd_of_index {n : Nat} (hinput : input.length ≤ vectorMaxSize)
    (hn : input[p.chunkBytes]?.isSome = true) (hsmall : n ≤ 2) :
    sizeAdd p.chunkBytes n = p.chunkBytes + n := by
  have hlt : p.chunkBytes < input.length := by
    by_contra hge
    rw [List.getElem?_eq_none (by omega)] at hn
    cases hn
  exact sizeAdd_of_sizes (by omega) (by unfold vectorMaxSize; omega)

/-- An iteration that continues has consumed something. -/
theorem step_shorter (hinput : input.length ≤ vectorMaxSize)
    (hnext : (p.step input).next = .inr (p', rest)) : rest.length < input.length := by
  unfold step at hnext
  split at hnext
  · exact (fixedBodyStep_ends hnext).elim
  · obtain ⟨_, _, _, rfl, hcr, _, hle⟩ := chunkBodyStep_continues hnext
    have hadd := sizeAdd_of_index (p := p) (n := 2) hinput (by simp [hcr]) (by omega)
    rw [List.length_drop, hadd]
    rw [hadd] at hle
    omega
  · exact (eofBodyStep_ends hnext).elim
  · split at hnext
    -- without a whole line the loop does not go on
    · exfalso
      unfold partialLineStep at hnext
      split at hnext
      · split at hnext <;> cases hnext
      · split at hnext
        · dsimp only [Iteration.after_next] at hnext
          split at hnext <;> cases hnext
        · cases hnext
    · next line rest' hsplit =>
      obtain rfl := lineStep_continues hnext
      have := splitLine_length hsplit
      omega

/-- The inputs a buffer can hold. -/
def Fits (s : HttpResponseParser × Bytes) : Prop := s.2.length ≤ vectorMaxSize

theorem loop_decreases : Loop.Decreases loopBody Fits fun s => s.2.length where
  inv := by
    rintro ⟨p, input⟩ ⟨p', rest⟩ hs hnext
    exact Nat.le_trans (Nat.le_of_lt (step_shorter hs hnext)) hs
  lt := by
    rintro ⟨p, input⟩ ⟨p', rest⟩ hs hnext
    exact step_shorter hs hnext

/-- **The loop ends**, and the bound on its iterations is no bound. -/
theorem parse_ends (p : HttpResponseParser) (hinput : input.length ≤ vectorMaxSize) :
    Loop.Ends loopBody (p, input) (p.parseLoop input) := by
  obtain ⟨outcome, hrun⟩ := loop_decreases.exists_run (s := (p, input)) hinput (Nat.lt_succ_self _)
  have : p.parseLoop input = outcome := by simp [parseLoop, hrun]
  rw [this]
  exact Loop.Ends.of_run hrun

theorem parseLoop_eq (hinput : input.length ≤ vectorMaxSize) {outcome : ParseOutcome}
    (h : Loop.Ends loopBody (p, input) outcome) : p.parseLoop input = outcome :=
  (parse_ends p hinput).unique h

/-! ### One call -/

theorem parseLoop_advances (h : Bounded p) (hp : p.Running)
    (hinput : input.length ≤ vectorMaxSize) {e : ResponseParseResult}
    (hparse : p.parseLoop input = .finished e p' rest) : Advances p input (some e) p' rest := by
  have hends := parse_ends p hinput
  rw [hparse] at hends
  -- what the iterations so far have led to
  let Inv : HttpResponseParser × Bytes → Prop := fun s =>
    s = (p, input) ∨ Advances p input none s.1 s.2
  have hspec : ∀ s, Inv s → s.1.Bounded ∧ s.1.Running ∧ s.2.length ≤ vectorMaxSize := by
    rintro ⟨q, left⟩ (hq | hq)
    · obtain ⟨rfl, rfl⟩ := Prod.mk.inj hq
      exact ⟨h, hp, hinput⟩
    · exact ⟨hq.bounded, hq.running (.inl rfl), Nat.le_trans hq.suffix.length_le hinput⟩
  -- an iteration from there adds to them
  have hcompose : ∀ s, Inv s → ∀ r q left, Advances s.1 s.2 r q left →
      Advances p input r q left := by
    rintro ⟨q, left⟩ (hq | hq) _ _ _ hadv
    · obtain ⟨rfl, rfl⟩ := Prod.mk.inj hq
      exact hadv
    · exact hq.trans hadv
  refine Loop.Ends.result Inv (P := fun outcome => ∀ e p' rest, outcome = .finished e p' rest →
    Advances p input (some e) p' rest) ?_ ?_ hends (.inl rfl) e p' rest rfl
  · rintro s ⟨q, left⟩ hs hnext
    obtain ⟨hbounded, hrun, hfits⟩ := hspec s hs
    exact .inr (hcompose s hs _ _ _ ((step_advances hbounded hrun hfits).continued hnext))
  · rintro s _ hs hnext e p' rest rfl
    obtain ⟨hbounded, hrun, hfits⟩ := hspec s hs
    exact hcompose s hs _ _ _ ((step_advances hbounded hrun hfits).finished hnext)

/-- **One call of `parse`.** -/
theorem parse_advances (h : Bounded p) (hinput : input.length ≤ vectorMaxSize)
    {e : ResponseParseResult} (hparse : p.parse input = .finished e p' rest) :
    Advances p input (some e) p' rest := by
  unfold parse at hparse
  split at hparse
  · next hs =>
    obtain ⟨rfl, rfl, rfl⟩ := ParseOutcome.finished.inj hparse
    exact advances_complete h rfl rfl hs (fun _ => ⟨rfl, [], by simp⟩) (List.suffix_refl _)
  split at hparse
  · next hs =>
    obtain ⟨rfl, rfl, rfl⟩ := ParseOutcome.finished.inj hparse
    -- a parser that has failed before is as its failure left it
    have hfail : p.fail p.errorResult = p := by
      cases p
      simp_all [fail]
    have hadv : Advances p input (some p.errorResult) (p.fail p.errorResult) input :=
      advances_fail_self h (h.error hs) (List.suffix_refl _)
    rwa [hfail] at hadv
  · next hcomplete herror => exact parseLoop_advances h ⟨hcomplete, herror⟩ hinput hparse

end HttpResponseParser
end PulseGate
