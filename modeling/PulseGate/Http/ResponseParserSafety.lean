import PulseGate.Http.ResponseParserSteps
import PulseGate.Net.Buffer

namespace PulseGate

/-!
# Memory and arithmetic safety of the response parser

Between two iterations a bounded parser is safe to run, unless it waits for a chunk whose
size leaves no room for the CRLF after it: to `FFFFFFFFFFFFFFFE` and `FFFFFFFFFFFFFFFF`, 2
cannot be added on 64 bits.

* `step_safe_iff` — one iteration;
* `parse_safe_iff` — a call of `parse`, on every parser and buffer that can be built.
-/

/-- All operations of the iteration are safe. -/
def Iteration.Safe (it : Iteration) : Prop := ∀ o ∈ it.operations, o.Safe

instance : DecidablePred Iteration.Safe := fun it =>
  inferInstanceAs (Decidable (∀ _ ∈ it.operations, _))

@[simp] theorem Iteration.after_safe (it : Iteration) (operations : List Operation) :
    (it.after operations).Safe ↔ (∀ o ∈ operations, o.Safe) ∧ it.Safe := by
  simp [Safe, after, or_imp, forall_and]

namespace HttpResponseParser

variable {p : HttpResponseParser} {input line rest : Bytes} {r : ResponseParseResult}

@[simp] theorem failing_safe : (p.failing r rest).Safe := by simp [failing, Iteration.Safe]

@[simp] theorem returning_safe : (p.returning r rest).Safe := by simp [returning, Iteration.Safe]

@[simp] theorem continuing_safe : (p.continuing rest).Safe := by simp [continuing, Iteration.Safe]

/-! ### The branches of the loop -/

theorem fixedBodyDone_safe : (p.fixedBodyDone input).Safe := by
  unfold fixedBodyDone
  split <;> simp

theorem fixedBodyStep_safe (h : Bounded p) (hs : p.state = .FixedBody) :
    (p.fixedBodyStep input).Safe := by
  obtain ⟨hle, _⟩ := h.fixed hs
  have hbody := h.body
  unfold fixedBodyStep
  dsimp only
  rw [Iteration.after_safe]
  refine ⟨by simpa [Operation.Safe] using hle, ?_⟩
  split
  · rw [Iteration.after_safe]
    refine ⟨by simpa [Operation.Safe] using hbody, ?_⟩
    split
    · simp
    · rw [Iteration.after_safe]
      exact ⟨by simp [Operation.Safe], fixedBodyDone_safe⟩
  · exact fixedBodyDone_safe

theorem eofBodyStep_safe (h : Bounded p) : (p.eofBodyStep input).Safe := by
  have hbody := h.body
  unfold eofBodyStep
  split
  · rw [Iteration.after_safe]
    refine ⟨by simpa [Operation.Safe] using hbody, ?_⟩
    split <;> simp [Operation.Safe]
  · simp

/-- A chunk is safe to wait for exactly when 2 can be added to its size. -/
theorem chunkBodyStep_safe_iff (h : Bounded p) :
    (p.chunkBodyStep input).Safe ↔ p.chunkBytes + 2 < sizeModulus := by
  have hbody := h.body
  unfold chunkBodyStep
  dsimp only
  rw [Iteration.after_safe]
  constructor
  -- the first operation of the branch is the addition
  · rintro ⟨hadd, _⟩
    simpa [Operation.Safe] using hadd
  · intro hsmall
    have hadd : sizeAdd p.chunkBytes 2 = p.chunkBytes + 2 := if_pos hsmall
    have hadd₁ : sizeAdd p.chunkBytes 1 = p.chunkBytes + 1 := if_pos (by omega)
    refine ⟨by simp [Operation.Safe, hsmall], ?_⟩
    rw [hadd, hadd₁]
    split
    · simp
    · next hlength =>
      -- the chunk and its CRLF are there, so that both accesses are inside the input
      rw [Iteration.after_safe]
      refine ⟨?_, ?_⟩
      · simp only [List.mem_cons, List.not_mem_nil, or_false, forall_eq_or_imp, forall_eq,
          Operation.Safe]
        omega
      · split
        · split
          · simp
          · rw [Iteration.after_safe]
            refine ⟨by simpa [Operation.Safe] using hbody, ?_⟩
            split
            · simp
            · rw [Iteration.after_safe]
              refine ⟨?_, by simp⟩
              simp only [List.mem_singleton, forall_eq, Operation.Safe]
              omega
        · simp [Iteration.Safe]

theorem statusLineStep_safe : (p.statusLineStep line rest).Safe := by
  unfold statusLineStep
  split
  · simp
  · rw [Iteration.after_safe]
    constructor
    · unfold statusLineAccess
      dsimp only
      split
      · simp
      · simp only [List.mem_singleton, forall_eq, Operation.Safe]
        omega
    · split <;> simp

theorem chunkSizeStep_safe : (p.chunkSizeStep line rest).Safe := by
  unfold chunkSizeStep
  dsimp only
  split
  · simp
  · split <;> simp

theorem lineStep_safe (h : Bounded p) (hp : p.state ≠ .Error)
    (hline : line.length + 2 ≤ vectorMaxSize) : (p.lineStep line rest).Safe := by
  have hheader := h.header hp
  have hcount := h.count hp
  unfold vectorMaxSize at hheader hline
  unfold lineStep
  split
  · exact statusLineStep_safe
  split
  · exact chunkSizeStep_safe
  dsimp only
  rw [Iteration.after_safe]
  constructor
  · simp only [List.mem_singleton, forall_eq, Operation.Safe, sizeModulus]
    omega
  -- the line is read: a header too large, a trailer, the end of the headers or a header
  split
  · simp
  split
  · unfold trailerStep
    split
    · simp
    · split <;> simp
  split
  · unfold finishHeadersStep
    split
    · split <;> simp
    · simp
  · unfold headerStep
    rw [Iteration.after_safe]
    constructor
    · simp only [List.mem_singleton, forall_eq, Operation.Safe, sizeModulus]
      omega
    · split <;> simp

theorem partialLineStep_safe (h : Bounded p) (hp : p.state ≠ .Error)
    (hinput : input.length ≤ vectorMaxSize) : (p.partialLineStep input).Safe := by
  have hheader := h.header hp
  unfold vectorMaxSize at hheader hinput
  unfold partialLineStep
  split
  · split <;> simp
  · split
    · rw [Iteration.after_safe]
      constructor
      · simp only [List.mem_singleton, forall_eq, Operation.Safe, sizeModulus]
        omega
      · split <;> simp
    · simp

/-- **One iteration.** -/
theorem step_safe_iff (h : Bounded p) (hp : p.Running) (hinput : input.length ≤ vectorMaxSize) :
    (p.step input).Safe ↔ (p.state = .ChunkBody → p.chunkBytes + 2 < sizeModulus) := by
  unfold step
  split
  · next hs => simpa [hs] using fixedBodyStep_safe h hs
  · next hs => simpa [hs] using chunkBodyStep_safe_iff h
  · next hs => simpa [hs] using eofBodyStep_safe h
  · next hchunk _ =>
    -- only the branch for chunks has a condition
    have hvacuous : ∀ P : Prop, p.state = .ChunkBody → P := fun _ hs => absurd hs hchunk
    split
    · exact iff_of_true (partialLineStep_safe h hp.2 hinput) (hvacuous _)
    · next hsplit =>
      have hlength := splitLine_length hsplit
      rw [Iteration.after_safe]
      refine iff_of_true ⟨?_, lineStep_safe h hp.2 (by omega)⟩ (hvacuous _)
      unfold vectorMaxSize at hinput
      simp only [List.mem_cons, List.not_mem_nil, or_false, forall_eq_or_imp, forall_eq,
        Operation.Safe, sizeModulus]
      omega

/-! ### Every parser that can be built -/

/-- The parsers that a run of the class's operations can lead to. -/
inductive Reachable (l : HttpResponseParserLimits) : HttpResponseParser → Prop
  | create (headRequest : Bool) : Reachable l { limits := l, headRequest := headRequest }
  | parse {p p' : HttpResponseParser} {r : ResponseParseResult} {rest : Bytes} (b : Buffer)
      (h : Reachable l p) (hparse : p.parse b.readableView = .finished r p' rest) : Reachable l p'
  | finishOnEof {p : HttpResponseParser} (h : Reachable l p) : Reachable l p.finishOnEof.2
  | takeResponse {p p' : HttpResponseParser} {r : HttpResponse} (h : Reachable l p)
      (htake : p.takeResponse = .ok (r, p')) : Reachable l p'
  | reset {p : HttpResponseParser} (h : Reachable l p) (headRequest : Bool) :
      Reachable l (p.reset headRequest)

/-- The end of the stream completes a body that ends with it, and nothing else. -/
theorem finishOnEof_cases (p : HttpResponseParser) :
    (p.state = .EofBody ∧ p.finishOnEof = (.Complete, { p with state := .Complete })) ∨
      (p.state = .Complete ∧ p.finishOnEof = (.Complete, p)) ∨
      p.finishOnEof = (.PrematureEof, p.fail .PrematureEof) := by
  unfold finishOnEof
  split
  · next hs => exact .inl ⟨hs, rfl⟩
  split
  · next hs => exact .inr (.inl ⟨hs, rfl⟩)
  · exact .inr (.inr rfl)

theorem finishOnEof_complete (h : p.finishOnEof.1 = .Complete) :
    p.finishOnEof.2.state = .Complete := by
  rcases p.finishOnEof_cases with ⟨-, heq⟩ | ⟨hs, heq⟩ | heq <;> rw [heq] at h ⊢
  · exact hs
  · cases h

theorem finishOnEof_error (h : p.finishOnEof.1 ≠ .Complete) : p.finishOnEof.2.state = .Error := by
  rcases p.finishOnEof_cases with ⟨-, heq⟩ | ⟨-, heq⟩ | heq <;> rw [heq] at h ⊢
  · exact absurd rfl h
  · exact absurd rfl h
  · rfl

theorem Bounded.finishOnEof (h : Bounded p) : Bounded p.finishOnEof.2 := by
  rcases p.finishOnEof_cases with ⟨hs, heq⟩ | ⟨-, heq⟩ | heq <;> rw [heq]
  · exact h.enter .Complete (by simp [InBody, InHeaders, hs]) (by simp) (by simp)
  · exact h
  · exact (advances_fail_self h (by simp) (List.suffix_refl [])).bounded

theorem Bounded.takeResponse {p' : HttpResponseParser} {r : HttpResponse} (h : Bounded p)
    (htake : p.takeResponse = .ok (r, p')) : Bounded p' := by
  unfold HttpResponseParser.takeResponse at htake
  split at htake
  · cases htake
  · cases htake
    exact { h with
      body := Nat.zero_le _
      early := fun _ => rfl
      fixed := fun hs => ⟨Nat.zero_le _, (h.fixed hs).2⟩ }

theorem Reachable.bounded {l : HttpResponseParserLimits} (hl : l.Accepted) (h : Reachable l p) :
    Bounded p := by
  induction h with
  | create headRequest => exact bounded_reset (p := { limits := l }) hl headRequest
  | parse b _ hparse ih =>
    exact (parse_advances ih (by rw [b.readableView_length]; exact b.readableBytes_le)
      hparse).bounded
  | finishOnEof _ ih => exact ih.finishOnEof
  | takeResponse _ htake ih => exact ih.takeResponse htake
  | reset _ headRequest ih => exact bounded_reset ih.accepted headRequest

/-- The parsers, with their unread bytes, from which the iterations of a call start. -/
def visited (p : HttpResponseParser) (input : Bytes) : List (HttpResponseParser × Bytes) :=
  if p.Running then Loop.visited loopBody (input.length + 1) (p, input) else []

/-- **Safety of a call.** For accepted limits, every parser that can be built and every
    content of a buffer, all byte accesses and consumptions of a call of `parse` stay inside
    the unread bytes, and no size wraps around, exactly when no iteration starts while the
    parser waits for a chunk of `FFFFFFFFFFFFFFFE` or `FFFFFFFFFFFFFFFF` bytes. -/
theorem parse_safe_iff {l : HttpResponseParserLimits} (hl : l.Accepted) {p : HttpResponseParser}
    (hp : Reachable l p) (b : Buffer) :
    (∀ s ∈ p.visited b.readableView, (s.1.step s.2).Safe) ↔
      ∀ s ∈ p.visited b.readableView,
        s.1.state = .ChunkBody → s.1.chunkBytes + 2 < sizeModulus := by
  have hfits : b.readableView.length ≤ vectorMaxSize := by
    rw [b.readableView_length]
    exact b.readableBytes_le
  unfold visited
  split
  · next hrun =>
    -- every iteration starts from a bounded parser
    have hinv := Loop.visited_inv
      (fun s : HttpResponseParser × Bytes =>
        s.1.Bounded ∧ s.1.Running ∧ s.2.length ≤ vectorMaxSize) (by
        rintro s ⟨q, left⟩ ⟨hbounded, hrun, hfits⟩ hnext
        have hadv := (step_advances hbounded hrun hfits).continued hnext
        exact ⟨hadv.bounded, hadv.running (.inl rfl),
          Nat.le_trans hadv.suffix.length_le hfits⟩)
      (n := b.readableView.length + 1) (s := (p, b.readableView))
      ⟨hp.bounded hl, hrun, hfits⟩
    exact forall₂_congr fun s hs =>
      step_safe_iff (hinv s hs).1 (hinv s hs).2.1 (hinv s hs).2.2
  · simp

/-- The theorem at a response with one chunk. -/
theorem parse_safe_one_chunk :
    let p : HttpResponseParser := { limits := {} }
    let b := Buffer.holding
      (bytes "HTTP/1.1 200 OK\r\nTransfer-Encoding: chunked\r\n\r\n1\r\na\r\n0\r\n\r\n")
      (by decide)
    ∀ s ∈ p.visited b.readableView, (s.1.step s.2).Safe := by
  refine (parse_safe_iff (l := {}) (by decide) (.create false) _).mpr ?_
  decide +kernel

/-- A chunk of `FFFFFFFFFFFFFFFF` bytes: `chunk_bytes_ + 2` wraps around to 1, one unread
    byte passes for the whole chunk, and `parse` reads outside the buffer. -/
theorem chunk_size_wraps :
    let p : HttpResponseParser := { limits := {} }
    let b := Buffer.holding
      (bytes "HTTP/1.1 200 OK\r\nTransfer-Encoding: chunked\r\n\r\nFFFFFFFFFFFFFFFF\r\na")
      (by decide)
    (¬ ∀ s ∈ p.visited b.readableView, (s.1.step s.2).Safe) ∧
      p.parse b.readableView = .outOfBounds := by
  decide +kernel

end HttpResponseParser
end PulseGate
