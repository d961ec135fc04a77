import PulseGate.Http.SessionReading

namespace PulseGate

/-!
# The input buffer of a session

Between two reads the buffer of a session holds a line or a body that is not complete.  Each has
a largest size that the parser lets pass (`Waiting.pending_le`), and the next read asks for
`readChunkBytes` more.  The constructor of the session compares the size of the buffer with the
limits of a message, and not with these sums.

* `hasRoom_iff` — every read of every run has room exactly if the limits leave it.
-/

namespace HttpSession

open HttpParser

/-! ### The property -/

/-- When `parse` needs more there is room for the next read, so that the session goes on
    reading. -/
def HasRoom (s : HttpSession) (e : Int × SessionEvent) (s' : HttpSession) : Prop :=
  ∀ u ∈ s.readingAgain e.2, ∀ parser rest,
    u.parser.parse u.input.readableView = (.NeedMore, parser, rest) →
      (u.inputAfter rest).readableBytes + s.limits.readChunkBytes ≤ s.limits.maxBufferBytes ∧
        ((u.inputAfter rest).GrowsWithin s.limits.readChunkBytes → s'.point = .reading)

/-! ### Its condition -/

/-- The shortest request line that is valid, and the shortest head with it. -/
def shortestRequestLine : Nat := 12

def shortestHead : Nat := shortestRequestLine + 2

/-- The digits of a `content-length` that the limits of a header line and of the head let
    pass. -/
def lengthDigits (limits : HttpParserLimits) : Nat :=
  min (limits.maxHeaderLineBytes - 15) (limits.maxHeaderBytes - (shortestHead + 19))

/-- The largest body that a request can announce. -/
def largestBody (limits : HttpParserLimits) : Nat :=
  min limits.maxBodyBytes (10 ^ lengthDigits limits - 1)

/-- Room for a read after a request line, a head and a body that are almost complete. -/
structure LeavesRoom (l : SessionLimits) : Prop where
  requestLine : l.parser.maxRequestLineBytes + l.readChunkBytes ≤ l.maxBufferBytes
  headers : shortestRequestLine ≤ l.parser.maxRequestLineBytes →
    l.parser.maxHeaderBytes - shortestHead + l.readChunkBytes ≤ l.maxBufferBytes
  body : shortestRequestLine ≤ l.parser.maxRequestLineBytes →
    largestBody l.parser - 1 + l.readChunkBytes ≤ l.maxBufferBytes

end HttpSession

/-! ### The sizes of what is read -/

namespace RequestHead

variable {limits : HttpParserLimits} {h : RequestHead} {n : Nat}

theorem Admitted.requestLine_le (ha : h.Admitted limits) :
    HttpSession.shortestRequestLine ≤ h.requestLine.length := by
  have hmethod : 0 < h.method.length := by
    have hname := ha.method
    simp only [isValidHeaderName, Bool.and_eq_true, Bool.not_eq_true'] at hname
    exact List.length_pos_of_ne_nil (List.isEmpty_eq_false_iff.mp hname.1)
  have htarget := List.length_pos_of_ne_nil ha.target.1
  have hversion : h.version.text.length = 8 := by cases h.version <;> rfl
  simp only [requestLine, List.length_append, List.length_cons, hversion]
  unfold HttpSession.shortestRequestLine
  omega

theorem Admitted.text_le (ha : h.Admitted limits) :
    HttpSession.shortestHead + (linesText h.lines).length ≤ h.text.length := by
  have hline := ha.requestLine_le
  rw [text_length]
  unfold HttpSession.shortestHead
  omega

theorem length_le_linesText {l : HeaderLine} {lines : List HeaderLine} (hl : l ∈ lines) :
    l.text.length + 2 ≤ (linesText lines).length := by
  obtain ⟨before, after, rfl⟩ := List.append_of_mem hl
  simp only [linesText, List.flatMap_append, List.flatMap_cons, List.length_append, crlf,
    List.length_cons, List.length_nil]
  omega

/-- A body that is announced has a length that the head has room for. -/
theorem Announces.le_largestBody (ha : h.Admitted limits) (hn : h.Announces limits n)
    (hpos : n ≠ 0) : n ≤ HttpSession.largestBody limits := by
  obtain ⟨value, hvalues, hread⟩ :=
    hn.declared.contentLength.resolve_left fun hnone => hpos hnone.2
  -- the line of the header
  have hmem : value ∈ h.values (bytes "content-length") := by
    rw [hvalues]
    exact List.mem_singleton_self value
  obtain ⟨l, hl, rfl⟩ := List.mem_map.mp hmem
  obtain ⟨hl, hname⟩ := List.mem_filter.mp hl
  have hlength : l.name.length = 14 := by
    have hsame : (normalizeHeaderName l.name).length = l.name.length := List.length_map ..
    rw [← hsame, of_decide_eq_true hname]
    rfl
  have hdigits : n < 10 ^ l.value.length := Numeral.read_lt (fun _ => digitValue_lt) hread
  have htext : l.text.length = 15 + (l.before.length + l.value.length + l.after.length) := by
    simp only [HeaderLine.text, List.length_append, List.length_cons, hlength]
    omega
  have hline := ha.headerLineBytes l hl
  have hhead := ha.text_le
  have hlines := length_le_linesText hl
  have hbytes := hn.headerBytes
  rw [List.length_append, show crlf.length = 2 from rfl] at hbytes
  have hle : l.value.length ≤ HttpSession.lengthDigits limits := by
    unfold HttpSession.lengthDigits
    omega
  have hpow : 10 ^ l.value.length ≤ 10 ^ HttpSession.lengthDigits limits :=
    Nat.pow_le_pow_right (by decide) hle
  have hbody := hn.bodyBytes
  unfold HttpSession.largestBody
  omega

end RequestHead

namespace HttpParser

variable {limits : HttpParserLimits} {p q : HttpParser} {x rest : Bytes}

/-- What a parser that waits leaves in the buffer. -/
inductive Pending (limits : HttpParserLimits) (size : Nat) : Prop
  | requestLine (h : size ≤ limits.maxRequestLineBytes)
  | headers (line : HttpSession.shortestRequestLine ≤ limits.maxRequestLineBytes)
      (h : size ≤ limits.maxHeaderBytes - HttpSession.shortestHead)
  | body (line : HttpSession.shortestRequestLine ≤ limits.maxRequestLineBytes)
      (h : size ≤ HttpSession.largestBody limits - 1)

theorem Waiting.pending (h : Waiting limits x p)
    (hstuck : loopBody (p, rest) = .inl (.NeedMore, p, rest)) : Pending limits rest.length := by
  cases h with
  | start =>
    cases loopBody_ends (by exact nofun) hstuck with
    | waiting _ hroom =>
      unfold partialLineStep failing at hroom
      split at hroom
      · cases hroom
      · next hfits => exact .requestLine (by simpa using hfits)
    | read _ _ hmore => exact absurd rfl hmore
  -- the head is within its limit together with the line that is pending
  | @head h ha =>
    have hline := ha.requestLine_le.trans ha.requestLineBytes
    have hhead := ha.text_le
    cases loopBody_ends (by exact nofun) hstuck with
    | waiting _ hroom =>
      unfold partialLineStep failing at hroom
      split at hroom
      · cases hroom
      split at hroom
      · cases hroom
      · next hfits =>
        have hbytes : h.text.length + rest.length ≤ limits.maxHeaderBytes := by
          simpa [RequestHead.parser] using hfits
        exact .headers hline (by omega)
    | read _ _ hmore => exact absurd rfl hmore
  | @body h n ha hn hpos hsize =>
    have hline := ha.requestLine_le.trans ha.requestLineBytes
    have hlargest := hn.le_largestBody ha hpos
    by_cases hshort : rest.length < n
    · exact .body hline (by omega)
    · rw [bodyStep_enough (Nat.not_lt.mp hshort)] at hstuck
      cases hstuck

end HttpParser

namespace HttpSession

open HttpParser

variable {s t u : HttpSession} {now : Int} {l : SessionLimits} {x : Bytes}

theorem LeavesRoom.pending {size : Nat} (h : LeavesRoom l)
    (hpending : HttpParser.Pending l.parser size) :
    size + l.readChunkBytes ≤ l.maxBufferBytes := by
  cases hpending with
  | requestLine hsize =>
    have hroom := h.requestLine
    omega
  | headers hline hsize =>
    have hroom := h.headers hline
    omega
  | body hline hsize =>
    have hroom := h.body hline
    omega

/-- Limits that leave room do so in every step. -/
theorem hasRoom_step {e : SessionEvent} (hl : l.parser.Accepted) (hroom : LeavesRoom l)
    (h : s.ReadInv l) (hstep : s.step (now, e) = some t) : s.HasRoom (now, e) t := by
  intro u hagain parser rest hparse
  obtain ⟨x, hready⟩ := h.ready hagain
  obtain ⟨y, hwaiting, -, hstuck⟩ := parse_needMore hl hready.waiting hparse
  have hpending := hroom.pending (hwaiting.pending hstuck)
  have hview := inputAfter_readableView (parse_suffix hparse)
  have hbytes : (u.inputAfter rest).readableBytes = rest.length := by
    rw [← Buffer.readableView_length, hview]
  rw [h.limits, hbytes]
  refine ⟨hpending, fun hgrows => ?_⟩
  have hprepared := inputAfter_preparedBytes hready.prepared rest
  have hfits : (u.inputAfter rest).readableBytes + l.readChunkBytes ≤
      (u.inputAfter rest).maximumSize := by
    rw [hbytes, inputAfter_maximumSize, hready.maximum]
    exact hpending
  obtain ⟨input, hprepare⟩ := (Buffer.prepare_isOk_iff hprepared hfits).mpr hgrows
  rw [← hready.limits] at hprepare
  rw [step_readingAgain hagain hstep, readRequest_needMore hparse hprepare]

/-! ### Filling the buffer -/

/-- Bytes that end no line. -/
def filler (size : Nat) : Bytes := List.replicate size 65

theorem length_filler (size : Nat) : (filler size).length = size := List.length_replicate

theorem splitLine_filler (size : Nat) : splitLine (filler size) = none := by
  cases hsplit : splitLine (filler size) with
  | none => rfl
  | some split =>
    obtain ⟨line, rest⟩ := split
    have hmem : (13 : UInt8) ∈ filler size := by
      rw [splitLine_eq_some hsplit]
      simp [crlf]
    exact absurd (List.eq_of_mem_replicate hmem) (by decide)

/-- A parser that needs more as long as it has at most `size` such bytes. -/
def Fills (p : HttpParser) (size : Nat) : Prop :=
  ∀ i ≤ size, p.parse (filler i) = (.NeedMore, p, filler i)

theorem fills_of_loopBody {p : HttpParser} {size : Nat} (hp : p.Reading)
    (h : ∀ i ≤ size, loopBody (p, filler i) = .inl (.NeedMore, p, filler i)) : Fills p size := by
  intro i hi
  rw [parse_running hp]
  exact (parseLoop_ends p (filler i)).unique (.done (h i hi))

theorem fills_start (limits : HttpParserLimits) :
    Fills { limits := limits } limits.maxRequestLineBytes := by
  apply fills_of_loopBody (by exact ⟨nofun, nofun⟩)
  intro i hi
  rw [loopBody_unfinished (by exact nofun) (splitLine_filler i)]
  unfold partialLineStep
  rw [length_filler, if_neg (by rintro ⟨-, hlong⟩; exact absurd hlong (Nat.not_lt.mpr hi)),
    if_neg (by rintro ⟨hstate, -⟩; cases hstate)]

theorem fills_head {limits : HttpParserLimits} {h : RequestHead}
    (hbytes : h.text.length ≤ limits.maxHeaderBytes) :
    Fills (h.parser limits) (limits.maxHeaderBytes - h.text.length) := by
  apply fills_of_loopBody (by exact ⟨nofun, nofun⟩)
  intro i hi
  rw [loopBody_unfinished (by exact nofun) (splitLine_filler i)]
  unfold partialLineStep
  rw [length_filler, if_neg (by rintro ⟨hstate, -⟩; cases hstate), if_neg]
  rintro ⟨-, hlong⟩
  have hsum : limits.maxHeaderBytes < h.text.length + i := hlong
  omega

theorem fills_body {limits : HttpParserLimits} {h : RequestHead} {n : Nat} (hn : n ≠ 0) :
    Fills (h.bodyParser limits n) (n - 1) := by
  apply fills_of_loopBody (by exact ⟨nofun, nofun⟩)
  intro i hi
  exact bodyStep_short (by rw [length_filler]; omega)

/-- A session that reads, with `size` bytes in the buffer. -/
structure Filled (l : SessionLimits) (p : HttpParser) (size : Nat) (t : HttpSession) : Prop where
  point : t.point = .reading
  limits : t.limits = l
  maximum : t.input.maximumSize = l.maxBufferBytes
  view : t.input.readableView = filler size
  parser : t.parser = p
  prepared : l.readChunkBytes ≤ t.input.preparedBytes

/-- The session at the call of `parse` that follows the bytes. -/
structure Reads (l : SessionLimits) (u : HttpSession) (p : HttpParser) (input : Bytes) : Prop where
  limits : u.limits = l
  maximum : u.input.maximumSize = l.maxBufferBytes
  view : u.input.readableView = input
  parser : u.parser = p
  prepared : u.input.preparedBytes = 0
  storage : l.readChunkBytes ≤ u.input.storage.length

theorem Filled.reads {p : HttpParser} {size : Nat} {data : Bytes} (h : Filled l p size t)
    (now : Int) (hdata : data ≠ []) (hlength : data.length ≤ l.readChunkBytes) :
    ∃ u, t.readingAgain (.received data) = some u ∧ Reads l u p (filler size ++ data) ∧
      t.step (now, .received data) = some (u.readRequest now) := by
  have hread : t.point = .reading ∧ data.length ≤ t.input.preparedBytes :=
    ⟨h.point, hlength.trans h.prepared⟩
  refine ⟨({ t with input := t.input.received data hread.2 } : HttpSession).readEnded, ?_, ?_, ?_⟩
  · simp only [readingAgain]
    rw [dif_pos hread, if_neg hdata]
  · refine ⟨h.limits, h.maximum, ?_, h.parser, rfl, ?_⟩
    · show (t.input.received data hread.2).readableView = _
      rw [Buffer.received_readableView, h.view]
    · show _ ≤ (t.input.received data hread.2).storage.length
      rw [Buffer.received_storage_length]
      have hstored := t.input.prepared_le
      have hprepared := h.prepared
      omega
  · simp only [step]
    rw [dif_pos hread, if_neg hdata]

/-- The next read, if the buffer has room for it. -/
theorem Reads.filled {p q : HttpParser} {input : Bytes} {size : Nat} (h : Reads l u p input)
    (now : Int)
    (hparse : p.parse input = (.NeedMore, q, filler size))
    (hroom : size + l.readChunkBytes ≤ l.maxBufferBytes)
    (hgrows : size = 0 ∨ l.maxBufferBytes ≤ vectorMaxSize) :
    Filled l q size (u.readRequest now) := by
  rw [← h.parser, ← h.view] at hparse
  have hview := inputAfter_readableView (parse_suffix hparse)
  have hbytes : (u.inputAfter (filler size)).readableBytes = size := by
    rw [← Buffer.readableView_length, hview, length_filler]
  have hmaximum : (u.inputAfter (filler size)).maximumSize = l.maxBufferBytes :=
    (inputAfter_maximumSize u _).trans h.maximum
  have hfits : (u.inputAfter (filler size)).readableBytes + l.readChunkBytes ≤
      (u.inputAfter (filler size)).maximumSize := by
    rw [hbytes, hmaximum]
    exact hroom
  have hgrowsWithin : (u.inputAfter (filler size)).GrowsWithin l.readChunkBytes := by
    rcases hgrows with hzero | hvector
    · intro hshort
      have hstorage : (u.inputAfter (filler size)).storage = u.input.storage := by
        unfold inputAfter
        split
        · rfl
        · exact Buffer.consumed_storage _ _
      rw [hstorage, hbytes, hzero] at hshort
      have hle := h.storage
      omega
    · exact Buffer.growsWithin_of_maximumSize hfits (hmaximum.trans_le hvector)
  obtain ⟨input', hprepare⟩ := (Buffer.prepare_isOk_iff
    (inputAfter_preparedBytes h.prepared (filler size)) hfits).mpr hgrowsWithin
  have hreads : u.readRequest now = _ := readRequest_needMore hparse (h.limits ▸ hprepare)
  rw [hreads]
  refine ⟨rfl, h.limits, ?_, ?_, rfl, Buffer.prepare_le hprepare⟩
  · exact (Buffer.prepare_maximumSize hprepare).trans hmaximum
  · show input'.readableView = filler size
    rw [Buffer.prepare_readableView hprepare, hview]

/-- **A buffer that is too small is filled up.** -/
theorem exists_noRoom {p : HttpParser} {size most : Nat} (hfills : Fills p most)
    (hmost : most ≤ 2 ^ 32) (hchunk : l.readChunkBytes ≠ 0)
    (hsmall : l.maxBufferBytes < most + l.readChunkBytes)
    (hsize : size + l.readChunkBytes ≤ l.maxBufferBytes) (h : Filled l p size t) :
    ∃ es, ¬Machine.EachStep step HasRoom t es := by
  -- the number of bytes that leave no room
  obtain ⟨full, hfull⟩ : ∃ full, full + l.readChunkBytes = l.maxBufferBytes + 1 :=
    ⟨l.maxBufferBytes + 1 - l.readChunkBytes, by omega⟩
  have hfiller (i j : Nat) : filler i ++ filler j = filler (i + j) :=
    List.replicate_append_replicate
  induction hleft : full - size using Nat.strong_induction_on generalizing size t with
  | _ left ih =>
    by_cases hlast : full ≤ size + l.readChunkBytes
    · -- one read is enough
      have hsum : size + (full - size) = full := by omega
      have hdata : filler (full - size) ≠ [] := by
        apply List.ne_nil_of_length_pos
        rw [length_filler]
        omega
      obtain ⟨u, hagain, hreads, hstep⟩ := h.reads 0 hdata (by rw [length_filler]; omega)
      refine ⟨[(0, .received (filler (full - size)))], fun heach => ?_⟩
      have hroom := (heach _ hstep).1 u hagain p (filler full)
      rw [hreads.parser, hreads.view, hfiller, hsum] at hroom
      obtain ⟨hle, -⟩ := hroom (hfills full (by omega))
      have hinput : u.input.readableView = filler full := by rw [hreads.view, hfiller, hsum]
      have hview : (u.inputAfter (filler full)).readableView = filler full :=
        inputAfter_readableView (hinput ▸ List.suffix_refl _)
      rw [← Buffer.readableView_length, hview, length_filler, h.limits] at hle
      omega
    · obtain ⟨u, hagain, hreads, hstep⟩ := h.reads 0
        (show filler 1 ≠ [] from List.cons_ne_nil _ _) (by rw [length_filler]; omega)
      have hparse : p.parse (filler size ++ filler 1) = (.NeedMore, p, filler (size + 1)) := by
        rw [hfiller]
        exact hfills _ (by omega)
      have hfilled := hreads.filled 0 hparse (by omega) (.inr (by
        unfold vectorMaxSize
        omega))
      obtain ⟨es, hes⟩ := ih (full - (size + 1)) (by omega) (by omega) hfilled rfl
      exact ⟨(0, .received (filler 1)) :: es, fun heach => hes (heach _ hstep).2⟩

theorem start_filled (hcreate : create l = .ok s) :
    ∃ t, s.step (0, .started) = some t ∧ Filled l { limits := l.parser } 0 t := by
  obtain ⟨input, hinput, -, hl, rfl⟩ := create_eq_ok hcreate
  obtain ⟨hmaximum, hprepared⟩ := Buffer.create_eq_ok hinput
  have hstorage : input.storage.length = l.readChunkBytes ∧ input.readableView = [] := by
    unfold Buffer.create at hinput
    split at hinput
    · cases hinput
    split at hinput
    · cases hinput
    · cases hinput
      exact ⟨List.length_replicate, rfl⟩
  have hreads : Reads l
      { limits := l, input := input, parser := { limits := l.parser }, state := .Running }
      { limits := l.parser } [] :=
    ⟨rfl, hmaximum, hstorage.2, rfl, hprepared, hstorage.1.ge⟩
  refine ⟨_, rfl, hreads.filled 0 (parse_nil l.parser) ?_ (.inl rfl)⟩
  rw [Nat.zero_add]
  exact hl.2.1

/-- A session that has read whole lines, and nothing after them. -/
theorem Filled.after {p : HttpParser} (ht : Filled l { limits := l.parser } 0 t)
    (hwaiting : Waiting l.parser x p) (hx : x ≠ []) (hlength : x.length ≤ l.readChunkBytes)
    (hchunk : l.readChunkBytes ≤ l.maxBufferBytes) (hfills : Fills p 0) :
    ∃ t', t.step (0, .received x) = some t' ∧ Filled l p 0 t' := by
  obtain ⟨u, -, hreads, hstep⟩ := ht.reads 0 hx hlength
  refine ⟨_, hstep, hreads.filled 0 ?_ (by rwa [Nat.zero_add]) (.inl rfl)⟩
  have hparse := parse_waiting hwaiting []
  rw [List.append_nil] at hparse
  show ({ limits := l.parser } : HttpParser).parse x = _
  rw [← hparse]
  exact hfills 0 le_rfl

theorem noRoom_of_waiting {p : HttpParser} {most : Nat} (hcreate : create l = .ok s)
    (hwaiting : Waiting l.parser x p) (hlength : x.length ≤ l.readChunkBytes)
    (hfills : Fills p most) (hmost : most ≤ 2 ^ 32)
    (hsmall : l.maxBufferBytes < most + l.readChunkBytes) :
    ∃ es, ¬Machine.EachStep step HasRoom s es := by
  obtain ⟨-, -, -, hl, -⟩ := create_eq_ok hcreate
  obtain ⟨t, hstart, ht⟩ := start_filled hcreate
  have hroom : 0 + l.readChunkBytes ≤ l.maxBufferBytes := by
    rw [Nat.zero_add]
    exact hl.2.1
  by_cases hx : x = []
  · -- no line is read
    have hparser : p = { limits := l.parser } := by
      cases hwaiting with
      | start => rfl
      | head =>
        have hlength := congrArg List.length hx
        simp [RequestHead.text, crlf] at hlength
      | body => simp [crlf] at hx
    obtain ⟨es, hes⟩ := exists_noRoom hfills hmost hl.1 hsmall hroom (hparser ▸ ht)
    exact ⟨(0, .started) :: es, fun heach => hes (heach t hstart).2⟩
  · obtain ⟨t', hstep, ht'⟩ := ht.after hwaiting hx hlength hl.2.1
      fun i hi => hfills i (hi.trans (Nat.zero_le _))
    obtain ⟨es, hes⟩ := exists_noRoom hfills hmost hl.1 hsmall hroom ht'
    exact ⟨(0, .started) :: (0, .received x) :: es,
      fun heach => hes ((heach t hstart).2 t' hstep).2⟩

/-! ### The shortest heads -/

def shortHead : RequestHead :=
  { method := bytes "A", target := bytes "/", version := .Http10, lines := [] }

def lengthHead (n : Nat) : RequestHead :=
  { shortHead with lines := [{ name := bytes "content-length", value := toChars 10 n }] }

theorem shortHead_admitted {limits : HttpParserLimits}
    (hline : shortestRequestLine ≤ limits.maxRequestLineBytes)
    (hhead : shortestHead ≤ limits.maxHeaderBytes) : shortHead.Admitted limits where
  method := by decide +kernel
  target := by decide +kernel
  lines := fun l hl => absurd hl List.not_mem_nil
  requestLineBytes := hline
  headerLineBytes := fun l hl => absurd hl List.not_mem_nil
  headerBytes := hhead
  headerCount := Nat.zero_le _

theorem lengthHead_text_length (n : Nat) :
    (lengthHead n).text.length = shortestHead + 17 + (toChars 10 n).length := by
  have htext : (lengthHead n).text =
      bytes "A / HTTP/1.0\r\ncontent-length:" ++ toChars 10 n ++ crlf := by
    simp [lengthHead, shortHead, RequestHead.text, RequestHead.requestLine, linesText,
      HeaderLine.text, HttpVersion.text, crlf, bytes]
  rw [htext, List.length_append, List.length_append]
  show 29 + _ + 2 = 14 + 17 + _
  omega

/-- A head that announces a body of `n` bytes. -/
theorem lengthHead_announces {limits : HttpParserLimits} {n : Nat} (hl : limits.Accepted)
    (hline : shortestRequestLine ≤ limits.maxRequestLineBytes) (hpos : n ≠ 0)
    (hn : n ≤ largestBody limits) :
    (lengthHead n).Admitted limits ∧ (lengthHead n).Announces limits n := by
  -- a body within the limit has few digits
  have hdigits : (toChars 10 n).length ≤ lengthDigits limits := by
    have hbody : n ≤ 10 ^ lengthDigits limits - 1 := hn.trans (Nat.min_le_right _ _)
    have hzero : lengthDigits limits ≠ 0 := by
      intro hzero
      rw [hzero] at hbody
      omega
    have hpow := Nat.pow_pos (n := lengthDigits limits) (show 0 < 10 by decide)
    exact (Numeral.write_length_le_iff (by decide) hzero).mpr (by omega)
  have hwritten : toChars 10 n ≠ [] := Numeral.write_ne_nil n
  have hchars := List.length_pos_of_ne_nil hwritten
  have hlength := lengthHead_text_length n
  have hline' : (toChars 10 n).length ≤ limits.maxHeaderLineBytes - 15 :=
    hdigits.trans (Nat.min_le_left _ _)
  have hhead : (toChars 10 n).length ≤ limits.maxHeaderBytes - (shortestHead + 19) :=
    hdigits.trans (Nat.min_le_right _ _)
  have hsome : 0 < (toChars 10 n).length := hchars
  obtain ⟨-, -, hcount, -⟩ := hl
  -- the method, the target, the one field, and the limits of the head
  refine ⟨⟨?_, ?_, ?_, hline, ?_, ?_, ?_⟩, ?_, ⟨nofun, ?_, .inr ?_⟩, ?_⟩
  · show isValidHeaderName (bytes "A") = true
    decide
  · exact ⟨List.cons_ne_nil _ _, by show ∀ c ∈ bytes "/", 32 < c ∧ c ≠ 127; decide +kernel⟩
  · intro line hmem
    rw [List.mem_singleton.mp hmem]
    have hname : isValidHeaderName (bytes "content-length") = true := by decide
    exact ⟨hname, isValidHeaderValue_toChars n, trim_toChars n,
      fun _ h => absurd h List.not_mem_nil, fun _ h => absurd h List.not_mem_nil⟩
  · intro line hmem
    rw [List.mem_singleton.mp hmem]
    have htext :
        (HeaderLine.text { name := bytes "content-length", value := toChars 10 n }).length =
        15 + (toChars 10 n).length := by
      simp only [HeaderLine.text, List.length_append, List.length_cons, List.nil_append,
        List.append_nil]
      show 14 + (_ + 1) = 15 + _
      omega
    rw [htext]
    omega
  · omega
  · exact Nat.one_le_iff_ne_zero.mpr hcount
  · rw [List.length_append]
    show _ + 2 ≤ _
    omega
  · rfl
  · refine ⟨toChars 10 n, rfl, ?_⟩
    exact Numeral.read_write (by decide) (fun _ hd => digitValue_digitChar (by decide) hd) n
  · exact hn.trans (Nat.min_le_left _ _)

/-! ### Every run -/

/-- **A session has room for its reads exactly if its limits leave it.**  Whatever the client
    sends in whatever pieces, there is room for the next read whenever a request is not complete,
    if and only if an almost complete request line, head or body leaves room in the buffer. -/
theorem hasRoom_iff {limits : SessionLimits} (hcreate : create limits = .ok s) :
    (∀ es, Machine.EachStep step HasRoom s es) ↔ LeavesRoom limits := by
  obtain ⟨-, -, hparser, hl, -⟩ := create_eq_ok hcreate
  have hchunk := hl.2.1
  have hsum :
      limits.parser.maxBodyBytes + limits.parser.maxHeaderBytes ≤ limits.maxBufferBytes := by
    have hheader := hl.2.2.1
    have hbody := hl.2.2.2.1
    omega
  have hbounds := hparser
  obtain ⟨-, -, -, -, hbody, hlineLimit, hheadLimit, -, hbodyLimit⟩ := hbounds
  unfold HttpParserLimits.kAbsoluteRequestLineLimit at hlineLimit
  unfold HttpParserLimits.kAbsoluteHeaderLimit at hheadLimit
  unfold HttpParserLimits.kAbsoluteBodyLimit at hbodyLimit
  constructor
  · intro hall
    have hnone : ¬∃ es, ¬Machine.EachStep step HasRoom s es := by
      rintro ⟨es, hes⟩
      exact hes (hall es)
    by_contra hbad
    apply hnone
    by_cases hrequestLine : limits.parser.maxRequestLineBytes + limits.readChunkBytes ≤
        limits.maxBufferBytes
    · by_cases hline : shortestRequestLine ≤ limits.parser.maxRequestLineBytes
      · by_cases hheaders : limits.parser.maxHeaderBytes - shortestHead + limits.readChunkBytes ≤
            limits.maxBufferBytes
        · have hlarge : ¬largestBody limits.parser - 1 + limits.readChunkBytes ≤
              limits.maxBufferBytes :=
            fun hfits => hbad ⟨hrequestLine, fun _ => hheaders, fun _ => hfits⟩
          -- a body that is almost complete
          have hle : largestBody limits.parser ≤ limits.parser.maxBodyBytes := Nat.min_le_left _ _
          obtain ⟨hadmitted, hannounces⟩ := lengthHead_announces hparser hline (by omega)
            (Nat.le_refl (largestBody limits.parser))
          have hhead := hannounces.headerBytes
          refine noRoom_of_waiting hcreate (.body hadmitted hannounces (by omega) ?_) ?_
            (fills_body (by omega)) ?_ (Nat.not_le.mp hlarge)
          · unfold sizeModulus
            omega
          · omega
          · omega
        · -- a head that is almost complete
          have hhead : shortHead.text.length ≤ limits.parser.maxHeaderBytes := by
            show shortestHead ≤ _
            omega
          refine noRoom_of_waiting hcreate (.head (shortHead_admitted hline hhead)) ?_
            (fills_head hhead) ?_ (Nat.not_le.mp hheaders)
          · show shortestHead ≤ _
            unfold shortestHead shortestRequestLine at hheaders ⊢
            omega
          · omega
      · exact absurd ⟨hrequestLine, fun h => absurd h hline, fun h => absurd h hline⟩ hbad
    · exact noRoom_of_waiting hcreate .start (Nat.zero_le _) (fills_start limits.parser)
        (by omega) (Nat.not_le.mp hrequestLine)
  · intro hroom es
    apply Machine.eachStep_of_invariant (fun s => s.ReadInv limits ∧ s.CloseInv 0)
    · rintro s ⟨now, e⟩ s' h hstep
      exact ⟨hasRoom_step hparser hroom h.1 hstep, readInv_step hparser h hstep⟩
    · exact ⟨create_readInv hcreate, create_closeInv hcreate⟩

theorem hasRoom_iff_smallReads :
    ∃ s, create smallReads = .ok s ∧
      ((∀ es, Machine.EachStep step HasRoom s es) ↔ LeavesRoom smallReads) := by
  obtain ⟨s, hcreate⟩ : ∃ s, create smallReads = .ok s := ⟨_, rfl⟩
  exact ⟨s, hcreate, hasRoom_iff hcreate⟩

/-- A buffer for the largest message, and no more. -/
def tightLimits : SessionLimits :=
  { parser := { maxHeaderBytes := 32, maxBodyBytes := 32 }, readChunkBytes := 64,
    maxBufferBytes := 64 }

/-- The first byte of a request, read alone, closes the session with an internal error. -/
theorem noRoom_tightLimits :
    ∃ s, create tightLimits = .ok s ∧ (∃ es, ¬Machine.EachStep step HasRoom s es) ∧
      (Machine.run step s [(0, .started), (1, .received (bytes "G"))]).map (·.stopReason) =
        some .InternalError := by
  obtain ⟨s, hcreate, hclosed⟩ : ∃ s, create tightLimits = .ok s ∧
      (Machine.run step s [(0, .started), (1, .received (bytes "G"))]).map (·.stopReason) =
        some .InternalError := ⟨_, rfl, by decide +kernel⟩
  refine ⟨s, hcreate, ?_, hclosed⟩
  exact noRoom_of_waiting hcreate .start (Nat.zero_le _) (fills_start _) (by decide) (by decide)

end HttpSession

end PulseGate
