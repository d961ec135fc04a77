import PulseGate.Net.Buffer
import PulseGate.Lib.Loop
import PulseGate.Lib.Machine

namespace PulseGate.Buffer

/-!
# The byte buffer is a queue of bytes

The calls on a buffer, each with the buffer that it leaves when it throws.  `append` is the
loop of `buffer.cpp`, which prepares, writes and commits until its bytes are used up.

* `append_spec` — what `append` does, whether it throws or not;
* `Represents.step` — every call that does not throw does to the unread bytes what it does to
  a queue;
* `refines_queue` — so in every run the unread bytes are those that were committed and
  appended, without those that were consumed.
-/

/-- What a call gives back. -/
inductive Answer
  | nothing
  /-- `size` bytes of the storage from `start` on. -/
  | span (start size : Nat)
  /-- The span of no bytes that `prepare(0)` gives back. -/
  | emptySpan
  | text (bytes : Bytes)
  deriving DecidableEq, Repr

/-- The answer of a call or its exception, and the buffer after it. -/
abbrev Outcome := Except Exception Answer × Buffer

/-- The outcome of a function that throws, if it does, before its first assignment. -/
def outcome (b : Buffer) (answer : Buffer → Answer) : Except Exception Buffer → Outcome
  | .ok c => (.ok (answer c), c)
  | .error e => (.error e, b)

/-- Bytes written into the prepared span, from its `offset` on. -/
def written (b : Buffer) (offset : Nat) (bytes : Bytes)
    (h : offset + bytes.length ≤ b.preparedBytes) : Buffer :=
  have hlength : (storeAt b.storage (b.writeIndex + offset) bytes).length = b.storage.length := by
    have := b.prepared_le
    exact storeAt_length (by omega)
  { b with
    storage := storeAt b.storage (b.writeIndex + offset) bytes
    prepared_le := by rw [hlength]; exact b.prepared_le
    storage_le := by rw [hlength]; exact b.storage_le
    vector_le := by rw [hlength]; exact b.vector_le }

/-- An iteration of the loop of `append`. -/
def appendBody : Buffer × Bytes → Outcome ⊕ (Buffer × Bytes)
  | (b, bytes) =>
    if bytes.isEmpty then .inl (.ok .nothing, b)
    else
      match b.prepare 1 with
      | .error e => .inl (.error e, b)
      | .ok c =>
        let count := min c.preparedBytes bytes.length
        let c := c.filled (bytes.take count)
        match c.commit count with
        | .error e => .inl (.error e, c)
        | .ok d => .inr (d, bytes.drop count)

/-- `Buffer::append`; its loop ends within one iteration more than there are bytes. -/
def append (b : Buffer) (bytes : Bytes) : Option Outcome :=
  Loop.run appendBody (bytes.length + 1) (b, bytes)

/-- `Buffer::takeString`. -/
def takeString (b : Buffer) (count : Nat) : Outcome :=
  if b.readableBytes < count then (.error .OutOfRange, b)
  else
    let result := b.readableView.take count
    b.outcome (fun _ => .text result) (b.consume count)

/-- The calls on a buffer, and the writes into the span that was prepared. -/
inductive Call
  | prepare (minimum : Nat)
  | write (offset : Nat) (bytes : Bytes)
  | commit (count : Nat)
  | append (bytes : Bytes)
  | consume (count : Nat)
  | takeString (count : Nat)
  | clear
  deriving DecidableEq, Repr

/-- A call; there is no write outside of the prepared span. -/
def perform (b : Buffer) : Call → Option Outcome
  | .prepare minimum =>
    some (b.outcome
      (fun c => if minimum = 0 then .emptySpan else .span c.writeIndex c.preparedBytes)
      (b.prepare minimum))
  | .write offset bytes =>
    if h : offset + bytes.length ≤ b.preparedBytes then
      some (.ok .nothing, b.written offset bytes h)
    else none
  | .commit count => some (b.outcome (fun _ => .nothing) (b.commit count))
  | .append bytes => b.append bytes
  | .consume count => some (b.outcome (fun _ => .nothing) (b.consume count))
  | .takeString count => some (b.takeString count)
  | .clear => some (.ok .nothing, b.clear)

/-- A buffer in use, with the answer to the last call. -/
structure Used where
  buffer : Buffer
  answer : Option Answer := none

/-- The calls that do not throw. -/
def step (u : Used) (call : Call) : Option Used :=
  (u.buffer.perform call).bind fun
    | (.ok answer, b) => some ⟨b, some answer⟩
    | (.error _, _) => none

/-! ### A queue of bytes -/

/-- All bytes that ever entered, how many of them have left, and the bytes of the span that is
    prepared. -/
structure Queue where
  entered : Bytes := []
  left : Nat := 0
  span : Bytes := []
  deriving DecidableEq, Repr

namespace Queue

def contents (q : Queue) : Bytes := q.entered.drop q.left

/-- What a call does to the queue.  The span that `prepare` hands out has any bytes. -/
def Does (q : Queue) (answer : Answer) : Call → Queue → Prop
  | .prepare minimum, q' => minimum ≤ q'.span.length ∧ q' = { q with span := q'.span }
  | .write offset bytes, q' =>
    offset + bytes.length ≤ q.span.length ∧ q' = { q with span := storeAt q.span offset bytes }
  | .commit count, q' =>
    count ≤ q.span.length ∧ q' = { q with entered := q.entered ++ q.span.take count, span := [] }
  | .append bytes, q' => q' = { q with entered := q.entered ++ bytes }
  | .consume count, q' => count ≤ q.contents.length ∧ q' = { q with left := q.left + count }
  | .takeString count, q' =>
    count ≤ q.contents.length ∧ answer = .text (q.contents.take count) ∧
      q' = { q with left := q.left + count }
  | .clear, q' => q' = { q with left := q.entered.length, span := [] }

/-- What a run of calls makes of the empty queue. -/
inductive Runs : List Call → Queue → Prop
  | nil : Runs [] {}
  | snoc {calls : List Call} {q q' : Queue} (answer : Answer) (call : Call)
      (h : Runs calls q) (hdoes : q.Does answer call q') : Runs (calls ++ [call]) q'

end Queue

/-- The prepared span. -/
def span (b : Buffer) : Bytes := (b.storage.drop b.writeIndex).take b.preparedBytes

/-- A buffer stands for a queue. -/
structure Represents (b : Buffer) (q : Queue) : Prop where
  view : b.readableView = q.contents
  left_le : q.left ≤ q.entered.length
  span : b.span = q.span

section

variable {b c : Buffer} {q : Queue} {bytes : Bytes}

/-! ### The prepared span -/

theorem span_length (b : Buffer) : b.span.length = b.preparedBytes := by
  have := b.prepared_le
  rw [span, List.length_take, List.length_drop]
  omega

theorem span_eq_nil (h : b.preparedBytes = 0) : b.span = [] := by
  rw [← List.length_eq_zero_iff, span_length, h]

/-- The unread bytes are before the prepared span. -/
theorem readableView_eq (b : Buffer) :
    b.readableView = (b.storage.take b.writeIndex).drop b.readIndex := by
  rw [readableView, readableBytes, List.drop_take]

/-- A write into the span leaves the unread bytes. -/
theorem written_readableView (b : Buffer) {offset : Nat}
    (h : offset + bytes.length ≤ b.preparedBytes) :
    (b.written offset bytes h).readableView = b.readableView := by
  have := b.prepared_le
  rw [readableView_eq, readableView_eq]
  show ((storeAt b.storage (b.writeIndex + offset) bytes).take b.writeIndex).drop b.readIndex = _
  rw [storeAt, List.append_assoc, List.take_append_of_le_length, List.take_take,
    Nat.min_eq_left (Nat.le_add_right _ _)]
  rw [List.length_take]
  omega

/-- A write behind the first `start` bytes leaves them. -/
theorem storeAt_add (storage bytes : Bytes) (start offset : Nat) :
    storeAt storage (start + offset) bytes =
      storage.take start ++ storeAt (storage.drop start) offset bytes := by
  simp only [storeAt, List.take_add, List.drop_drop, List.append_assoc, Nat.add_assoc]

/-- A write among the first `n` bytes. -/
theorem take_storeAt {storage bytes : Bytes} {offset n : Nat} (h : offset + bytes.length ≤ n)
    (hn : n ≤ storage.length) :
    (storeAt storage offset bytes).take n = storeAt (storage.take n) offset bytes := by
  have hlength : (storage.take offset ++ bytes).length = offset + bytes.length := by
    rw [List.length_append, List.length_take]
    omega
  rw [storeAt, storeAt, List.take_append, List.take_of_length_le (by omega), hlength,
    List.take_take, Nat.min_eq_left (by omega), List.drop_take]

theorem written_span (b : Buffer) {offset : Nat} (h : offset + bytes.length ≤ b.preparedBytes) :
    (b.written offset bytes h).span = storeAt b.span offset bytes := by
  have hstored := b.prepared_le
  show ((storeAt b.storage (b.writeIndex + offset) bytes).drop b.writeIndex).take
    b.preparedBytes = _
  have hwrite : (b.storage.take b.writeIndex).length = b.writeIndex := by
    rw [List.length_take]
    omega
  rw [storeAt_add, List.drop_append_of_le_length hwrite.ge, List.drop_eq_nil_of_le hwrite.le,
    List.nil_append, take_storeAt h (by rw [List.length_drop]; omega), span]

/-- A commit appends the bytes at the start of the span. -/
theorem committed_readableView (b : Buffer) {count : Nat} (h : count ≤ b.preparedBytes) :
    (b.committed count h).readableView = b.readableView ++ b.span.take count := by
  have hread := b.read_le
  have hstored := b.prepared_le
  rw [readableView_eq, readableView_eq]
  show (b.storage.take (b.writeIndex + count)).drop b.readIndex = _
  rw [List.take_add, List.drop_append_of_le_length (by rw [List.length_take]; omega), span,
    List.take_take, Nat.min_eq_left h]

/-- A span that was handed out starts at the write index and reaches to the end of the
    storage. -/
theorem prepare_span {minimum : Nat} (h : b.prepare minimum = .ok c) (hne : minimum ≠ 0) :
    c.writeIndex + c.preparedBytes = c.storage.length := by
  unfold prepare at h
  split at h
  · cases h
  · obtain ⟨d, -, rfl⟩ := Loop.map_eq_ok.mp h
    have := d.prepared_le
    show d.writeIndex + (d.storage.length - d.writeIndex) = d.storage.length
    omega

theorem prepare_preparedBytes {minimum : Nat} (h : b.prepare minimum = .ok c) :
    b.preparedBytes = 0 := by
  by_contra hne
  simp [prepare, hne] at h

/-! ### The loop of `append` -/

/-- An iteration that finds room takes over some of the bytes. -/
theorem appendBody_of_prepare (hne : bytes ≠ []) (hprepare : b.prepare 1 = .ok c) :
    ∃ d taken rest, taken ≠ [] ∧ bytes = taken ++ rest ∧
      appendBody (b, bytes) = .inr (d, rest) ∧ d.readableView = b.readableView ++ taken ∧
      d.preparedBytes = 0 ∧ d.maximumSize = b.maximumSize ∧
      d.storage.length = c.storage.length := by
  have hroom := prepare_le hprepare
  have hpositive := List.length_pos_of_ne_nil hne
  obtain ⟨count, hcount⟩ : ∃ count, min c.preparedBytes bytes.length = count := ⟨_, rfl⟩
  have hle : count ≤ c.preparedBytes := by omega
  have htaken : (bytes.take count).length = count := by
    rw [List.length_take]
    omega
  have hfits : (bytes.take count).length ≤ c.preparedBytes := by omega
  have hcommit : (c.filled (bytes.take count)).commit count =
      .ok (c.received (bytes.take count) hfits) := by
    have hprepared : (c.filled (bytes.take count)).preparedBytes = c.preparedBytes := rfl
    rw [commit, dif_neg (by omega)]
    simp only [received, htaken]
  refine ⟨c.received (bytes.take count) hfits, bytes.take count, bytes.drop count, ?_,
    (List.take_append_drop count bytes).symm, ?_, ?_, rfl, ?_, ?_⟩
  · rw [← List.length_pos_iff_ne_nil, htaken]
    omega
  · have hempty : bytes.isEmpty = false := by simpa using hne
    simp only [appendBody, hempty, Bool.false_eq_true, if_false, hprepare, hcount, hcommit]
  · rw [received_readableView, prepare_readableView hprepare]
  · rw [received_maximumSize, prepare_maximumSize hprepare]
  · exact c.received_storage_length hfits

/-- An iteration that goes on has found room, and has taken over some of the bytes. -/
theorem appendBody_eq_inr {d : Buffer} {rest : Bytes} (h : appendBody (b, bytes) = .inr (d, rest)) :
    ∃ c taken, b.prepare 1 = .ok c ∧ taken ≠ [] ∧ bytes = taken ++ rest ∧
      d.readableView = b.readableView ++ taken ∧ d.preparedBytes = 0 ∧
      d.maximumSize = b.maximumSize ∧ d.storage.length = c.storage.length := by
  by_cases hnil : bytes = []
  · simp [appendBody, hnil] at h
  · cases hprepare : b.prepare 1 with
    | error e => simp [appendBody, hnil, hprepare] at h
    | ok c =>
      obtain ⟨d', taken, rest', htaken, hbytes, hbody, hd⟩ := appendBody_of_prepare hnil hprepare
      obtain ⟨rfl, rfl⟩ := Prod.mk.inj (Sum.inr.inj (hbody.symm.trans h))
      exact ⟨c, taken, rfl, htaken, hbytes, hd⟩

/-- The last iteration has no byte left, or finds no room for one. -/
theorem appendBody_eq_inl {o : Outcome} (h : appendBody (b, bytes) = .inl o) :
    (bytes = [] ∧ o = (.ok .nothing, b)) ∨
      bytes ≠ [] ∧ ∃ e, b.prepare 1 = .error e ∧ o = (.error e, b) := by
  by_cases hnil : bytes = []
  · exact .inl ⟨hnil, by simpa [appendBody, hnil] using h.symm⟩
  · cases hprepare : b.prepare 1 with
    | error e => exact .inr ⟨hnil, e, rfl, by simpa [appendBody, hnil, hprepare] using h.symm⟩
    | ok c =>
      obtain ⟨_, _, _, -, -, hbody, -⟩ := appendBody_of_prepare hnil hprepare
      rw [hbody] at h
      cases h

/-- The loop ends, as each iteration takes over bytes. -/
theorem append_isSome (b : Buffer) (bytes : Bytes) : ∃ o, b.append bytes = some o := by
  have hdecreases : Loop.Decreases appendBody (fun _ => True) fun s => s.2.length := by
    refine ⟨fun _ _ _ _ => trivial, ?_⟩
    rintro ⟨b, bytes⟩ ⟨d, rest⟩ - hbody
    obtain ⟨c, taken, -, htaken, rfl, -⟩ := appendBody_eq_inr hbody
    have hpositive := List.length_pos_of_ne_nil htaken
    show rest.length < (taken ++ rest).length
    rw [List.length_append]
    omega
  exact hdecreases.exists_run trivial (Nat.lt_succ_self _)

/-- What the loop of `append` has done. -/
structure Appended (b : Buffer) (bytes taken : Bytes) (d : Buffer) : Prop where
  taken_le : taken <+: bytes
  view : d.readableView = b.readableView ++ taken
  nothing : taken = [] → d = b
  something : taken ≠ [] → b.preparedBytes = 0 ∧ d.preparedBytes = 0

/-- What `append` does: it takes over all bytes, or throws when it has taken over the first
    of them. -/
theorem append_spec {o : Outcome} (h : b.append bytes = some o) :
    (o.1 = .ok .nothing ∧ Appended b bytes bytes o.2) ∨
      ∃ e taken, o.1 = .error e ∧ taken ≠ bytes ∧ Appended b bytes taken o.2 := by
  refine (Loop.Ends.of_run h).result (P := fun o : Outcome =>
      (o.1 = .ok .nothing ∧ Appended b bytes bytes o.2) ∨
        ∃ e taken, o.1 = .error e ∧ taken ≠ bytes ∧ Appended b bytes taken o.2)
    (fun s : Buffer × Bytes => ∃ taken, bytes = taken ++ s.2 ∧ Appended b bytes taken s.1)
    ?_ ?_ ⟨[], rfl, List.nil_prefix, (List.append_nil _).symm, fun _ => rfl, fun h => absurd rfl h⟩
  · -- one iteration: more bytes are behind those taken over before it
    rintro ⟨d, rest⟩ ⟨d', rest'⟩ ⟨taken, hbytes, hdone⟩ hbody
    obtain ⟨c, more, hprepare, hmore, rfl, hview, hprepared, -⟩ := appendBody_eq_inr hbody
    have hne : taken ++ more ≠ [] := by simp [hmore]
    refine ⟨taken ++ more, by rw [hbytes, List.append_assoc], ?_, ?_, ?_, ?_⟩
    · rw [hbytes, ← List.append_assoc]
      exact List.prefix_append _ _
    · rw [hview, hdone.view, List.append_assoc]
    · exact fun h => absurd h hne
    · refine fun _ => ⟨?_, hprepared⟩
      by_cases htaken : taken = []
      · exact hdone.nothing htaken ▸ prepare_preparedBytes hprepare
      · exact (hdone.something htaken).1
  · -- the last one: an exception leaves the bytes that were taken over in the buffer
    rintro ⟨d, rest⟩ o ⟨taken, hbytes, hdone⟩ hbody
    rcases appendBody_eq_inl hbody with ⟨rfl, rfl⟩ | ⟨hnil, e, -, rfl⟩
    · rw [List.append_nil] at hbytes
      exact .inl ⟨rfl, by rw [hbytes] at hdone ⊢; exact hdone⟩
    · refine .inr ⟨e, taken, rfl, ?_, hdone⟩
      rintro rfl
      exact hnil (List.append_cancel_left (hbytes.symm.trans (List.append_nil _).symm))

/-! ### The calls that do not throw -/

theorem outcome_eq_ok {answer : Buffer → Answer} {x : Except Exception Buffer} {a : Answer} :
    b.outcome answer x = (.ok a, c) ↔ x = .ok c ∧ answer c = a := by
  cases x with
  | error e => simp [outcome]
  | ok d =>
    simp only [outcome, Prod.mk.injEq, Except.ok.injEq]
    constructor
    · rintro ⟨hanswer, rfl⟩
      exact ⟨rfl, hanswer⟩
    · rintro ⟨rfl, hanswer⟩
      exact ⟨hanswer, rfl⟩

theorem commit_eq_ok {count : Nat} (h : b.commit count = .ok c) :
    ∃ hcount : count ≤ b.preparedBytes, c = b.committed count hcount := by
  unfold commit at h
  split at h
  · cases h
  · exact ⟨by omega, (Except.ok.inj h).symm⟩

theorem consume_eq_ok {count : Nat} (h : b.consume count = .ok c) :
    b.preparedBytes = 0 ∧ count ≤ b.readableBytes ∧ c = b.consumed count := by
  unfold consume at h
  split at h
  · cases h
  split at h
  · cases h
  · next hprepared hcount =>
    exact ⟨by simpa using hprepared, by omega, (Except.ok.inj h).symm⟩

/-- What a call that does not throw does, and what it answers. -/
inductive Moves (b : Buffer) : Call → Answer → Buffer → Prop
  | prepared {minimum : Nat} {c : Buffer} (hprepare : b.prepare minimum = .ok c) :
    Moves b (.prepare minimum)
      (if minimum = 0 then .emptySpan else .span c.writeIndex c.preparedBytes) c
  | wrote {offset : Nat} {bytes : Bytes} (hfits : offset + bytes.length ≤ b.preparedBytes) :
    Moves b (.write offset bytes) .nothing (b.written offset bytes hfits)
  | committed {count : Nat} (hcount : count ≤ b.preparedBytes) :
    Moves b (.commit count) .nothing (b.committed count hcount)
  | appended {bytes : Bytes} {c : Buffer} (happend : b.append bytes = some (.ok .nothing, c)) :
    Moves b (.append bytes) .nothing c
  | consumed {count : Nat} (hprepared : b.preparedBytes = 0) (hcount : count ≤ b.readableBytes) :
    Moves b (.consume count) .nothing (b.consumed count)
  | took {count : Nat} (hprepared : b.preparedBytes = 0) (hcount : count ≤ b.readableBytes) :
    Moves b (.takeString count) (.text (b.readableView.take count)) (b.consumed count)
  | cleared : Moves b .clear .nothing b.clear

theorem moves_of_perform {call : Call} {answer : Answer}
    (hperform : b.perform call = some (.ok answer, c)) : Moves b call answer c := by
  cases call with
  | prepare minimum =>
    obtain ⟨hprepare, rfl⟩ := outcome_eq_ok.mp (Option.some.inj hperform)
    exact .prepared hprepare
  | write offset bytes =>
    simp only [perform] at hperform
    split at hperform
    · obtain ⟨hok, rfl⟩ := Prod.mk.inj (Option.some.inj hperform)
      obtain rfl := Except.ok.inj hok
      exact .wrote _
    · cases hperform
  | commit count =>
    obtain ⟨hcommit, rfl⟩ := outcome_eq_ok.mp (Option.some.inj hperform)
    obtain ⟨hcount, rfl⟩ := commit_eq_ok hcommit
    exact .committed hcount
  -- an append may stop on its way: here it went to the end
  | append bytes =>
    rcases append_spec hperform with ⟨hok, -⟩ | ⟨e, taken, herror, -⟩
    · obtain rfl := Except.ok.inj hok
      exact .appended hperform
    · cases herror
  | consume count =>
    obtain ⟨hconsume, rfl⟩ := outcome_eq_ok.mp (Option.some.inj hperform)
    obtain ⟨hprepared, hcount, rfl⟩ := consume_eq_ok hconsume
    exact .consumed hprepared hcount
  | takeString count =>
    have htake := Option.some.inj hperform
    unfold takeString at htake
    split at htake
    · cases htake
    · obtain ⟨hconsume, rfl⟩ := outcome_eq_ok.mp htake
      obtain ⟨hprepared, hcount, rfl⟩ := consume_eq_ok hconsume
      exact .took hprepared hcount
  | clear =>
    obtain ⟨hok, rfl⟩ := Prod.mk.inj (Option.some.inj hperform)
    obtain rfl := Except.ok.inj hok
    exact .cleared

theorem moves_of_step {u u' : Used} {call : Call} (h : step u call = some u') :
    ∃ answer, u'.answer = some answer ∧ Moves u.buffer call answer u'.buffer := by
  obtain ⟨o, ho, hnext⟩ := Option.bind_eq_some_iff.mp h
  rcases o with ⟨e | answer, d⟩
  · cases hnext
  · obtain rfl := Option.some.inj hnext
    exact ⟨answer, rfl, moves_of_perform ho⟩

theorem Represents.contents_length (h : Represents b q) : q.contents.length = b.readableBytes := by
  rw [← h.view, readableView_length]

theorem Represents.span_length (h : Represents b q) : q.span.length = b.preparedBytes := by
  rw [← h.span, Buffer.span_length]

/-- The bytes at the front leave. -/
theorem Represents.consumed (h : Represents b q) {count : Nat} (hcount : count ≤ b.readableBytes)
    (hprepared : b.preparedBytes = 0) :
    Represents (b.consumed count) { q with left := q.left + count } where
  view := by
    rw [consumed_readableView, h.view, Queue.contents, List.drop_drop]
    rfl
  left_le := by
    have hlength := h.contents_length
    have hle := h.left_le
    rw [Queue.contents, List.length_drop] at hlength
    show q.left + count ≤ q.entered.length
    omega
  span := by
    rw [span_eq_nil (consumed_preparedBytes hprepared count), ← h.span, span_eq_nil hprepared]

/-- Bytes enter at the back. -/
theorem Represents.enters (h : Represents b q) (hview : c.readableView = b.readableView ++ bytes) :
    c.readableView = (q.entered ++ bytes).drop q.left ∧
      q.left ≤ (q.entered ++ bytes).length := by
  constructor
  · rw [hview, h.view, List.drop_append_of_le_length h.left_le]
    rfl
  · exact h.left_le.trans (by simp)

/-- **Step lemma.** A call that does not throw does to the unread bytes what it does to the
    queue. -/
theorem Represents.step (h : Represents b q) {call : Call} {answer : Answer}
    (hmoves : Moves b call answer c) : ∃ q', q.Does answer call q' ∧ Represents c q' := by
  cases hmoves with
  | prepared hprepare =>
    -- the span of the queue is the one that was handed out
    have hlength := prepare_le hprepare
    rw [← Buffer.span_length] at hlength
    refine ⟨{ q with span := c.span }, ⟨hlength, rfl⟩, ?_, h.left_le, rfl⟩
    exact (prepare_readableView hprepare).trans h.view
  | @wrote offset bytes hfits =>
    refine ⟨{ q with span := storeAt q.span offset bytes }, ⟨h.span_length ▸ hfits, rfl⟩, ?_,
      h.left_le, ?_⟩
    · exact (b.written_readableView hfits).trans h.view
    · rw [written_span, h.span]
  | @committed count hcount =>
    have hview := b.committed_readableView hcount
    rw [h.span] at hview
    obtain ⟨hview', hleft⟩ := h.enters hview
    exact ⟨{ q with entered := q.entered ++ q.span.take count, span := [] },
      ⟨h.span_length ▸ hcount, rfl⟩, hview', hleft, span_eq_nil rfl⟩
  | @appended bytes _ happend =>
    rcases append_spec happend with ⟨-, hdone⟩ | ⟨e, taken, herror, -⟩
    · obtain ⟨hview, hleft⟩ := h.enters hdone.view
      refine ⟨{ q with entered := q.entered ++ bytes }, rfl, hview, hleft, ?_⟩
      -- without bytes the span stays, and else there was none
      by_cases hnil : bytes = []
      · exact (congrArg Buffer.span (hdone.nothing hnil)).trans h.span
      · obtain ⟨hbefore, hafter⟩ := hdone.something hnil
        exact (span_eq_nil hafter).trans ((span_eq_nil hbefore).symm.trans h.span)
    · cases herror
  | @consumed count hprepared hcount =>
    exact ⟨{ q with left := q.left + count }, ⟨h.contents_length ▸ hcount, rfl⟩,
      h.consumed hcount hprepared⟩
  | @took count hprepared hcount =>
    refine ⟨{ q with left := q.left + count }, ⟨h.contents_length ▸ hcount, ?_, rfl⟩,
      h.consumed hcount hprepared⟩
    rw [h.view]
  | cleared =>
    refine ⟨{ q with left := q.entered.length, span := [] }, rfl, ?_, le_refl _, span_eq_nil rfl⟩
    rw [clear_readableView, Queue.contents, List.drop_length]

/-! ### Whole runs -/

/-- The indices are in order, within a storage within the maximum. -/
structure InBounds (maximumSize : Nat) (b : Buffer) : Prop where
  read_le : b.readIndex ≤ b.writeIndex
  write_le : b.writeIndex ≤ b.storage.length
  storage_le : b.storage.length ≤ maximumSize

/-- The span lies in the storage from the write index on, and is as long as was asked for. -/
def SpanFits (minimum : Nat) (b : Buffer) : Answer → Prop
  | .span start size =>
    start = b.writeIndex ∧ start + size ≤ b.storage.length ∧ minimum ≤ size
  | .emptySpan => minimum = 0
  | _ => False

/-- What a call gives back when it prepares. -/
def Prepares (_ : Used) (call : Call) (u' : Used) : Prop :=
  ∀ minimum, call = .prepare minimum → ∃ answer, u'.answer = some answer ∧
    SpanFits minimum u'.buffer answer

theorem prepares_of_step {u u' : Used} {call : Call} (hstep : step u call = some u') :
    Prepares u call u' := by
  rintro minimum rfl
  obtain ⟨answer, hanswer, hmoves⟩ := moves_of_step hstep
  obtain ⟨hprepare⟩ := hmoves
  refine ⟨_, hanswer, ?_⟩
  by_cases hzero : minimum = 0
  · rw [if_pos hzero]
    exact hzero
  · rw [if_neg hzero]
    exact ⟨rfl, (prepare_span hprepare hzero).le, prepare_le hprepare⟩

theorem committed_maximumSize (b : Buffer) {count : Nat} (h : count ≤ b.preparedBytes) :
    (b.committed count h).maximumSize = b.maximumSize := rfl

theorem append_maximumSize {o : Outcome} (h : b.append bytes = some o) :
    o.2.maximumSize = b.maximumSize := by
  refine (Loop.Ends.of_run h).result (P := fun o : Outcome => o.2.maximumSize = b.maximumSize)
    (fun s : Buffer × Bytes => s.1.maximumSize = b.maximumSize) ?_ ?_ rfl
  · rintro ⟨d, rest⟩ ⟨d', rest'⟩ hmax hbody
    obtain ⟨c, more, -, -, -, -, -, hmax', -⟩ := appendBody_eq_inr hbody
    exact hmax'.trans hmax
  · rintro ⟨d, rest⟩ o hmax hbody
    rcases appendBody_eq_inl hbody with ⟨-, rfl⟩ | ⟨-, e, -, rfl⟩
    · exact hmax
    · exact hmax

/-- No call changes the maximum. -/
theorem Moves.maximumSize {call : Call} {answer : Answer} (h : Moves b call answer c) :
    c.maximumSize = b.maximumSize := by
  cases h with
  | prepared hprepare => exact prepare_maximumSize hprepare
  | wrote => rfl
  | committed hcount => exact committed_maximumSize b hcount
  | appended happend => exact append_maximumSize happend
  | consumed => exact consumed_maximumSize b _
  | took => exact consumed_maximumSize b _
  | cleared => rfl

/-- `prepare` throws `std::length_error` when the maximum is too small, or the storage would
    have to be larger than a vector can be. -/
theorem prepare_lengthError {minimum : Nat} (h : b.prepare minimum = .error .LengthError) :
    b.maximumSize < b.readableBytes + minimum ∨ ¬ b.GrowsWithin minimum := by
  by_cases hroom : b.readableBytes + minimum ≤ b.maximumSize
  · right
    intro hgrows
    by_cases hprepared : b.preparedBytes = 0
    · obtain ⟨c, hc⟩ := (prepare_isOk_iff hprepared hroom).mpr hgrows
      rw [hc] at h
      cases h
    · simp [prepare, hprepared] at h
  · exact .inl (by omega)

/-- **The buffer is a queue of bytes.** After every sequence of calls none of which throws, the
    unread bytes are those that entered without those that left, the indices are in bounds and
    every span that was prepared was in the storage; and `prepare` then throws
    `std::length_error` only when the maximum, or the size of a vector, is too small. -/
theorem refines_queue {initialSize maximumSize : Nat}
    (hcreate : create initialSize maximumSize = .ok b) (calls : List Call) {u : Used}
    (hrun : Machine.run step ⟨b, none⟩ calls = some u) :
    (∃ q, Queue.Runs calls q ∧ u.buffer.readableView = q.entered.drop q.left ∧
      q.left ≤ q.entered.length) ∧
      InBounds maximumSize u.buffer ∧
      Machine.EachStep step Prepares ⟨b, none⟩ calls ∧
      ∀ minimum, u.buffer.prepare minimum = .error .LengthError →
        maximumSize < u.buffer.readableBytes + minimum ∨ ¬ u.buffer.GrowsWithin minimum := by
  obtain ⟨hmax, hprepared⟩ := create_eq_ok hcreate
  have hmaximum : u.buffer.maximumSize = maximumSize := by
    apply (Machine.always_of_invariant (fun u : Used => u.buffer.maximumSize = maximumSize)
      (fun _ h => h) ?_ calls hmax).last u hrun
    intro u call u' hu hstep
    obtain ⟨answer, -, hmoves⟩ := moves_of_step hstep
    exact hmoves.maximumSize.trans hu
  have hbegins : Represents b {} :=
    ⟨create_readableView hcreate, le_refl 0, span_eq_nil hprepared⟩
  -- the simulation: one call, one step of the queue
  have hstays : ∀ (before : List Call) (u : Used) (call : Call) (u' : Used),
      (∃ q, Queue.Runs before q ∧ Represents u.buffer q) → step u call = some u' →
      ∃ q, Queue.Runs (before ++ [call]) q ∧ Represents u'.buffer q := by
    rintro before u call u' ⟨q, hruns, hq⟩ hstep
    obtain ⟨answer, -, hmoves⟩ := moves_of_step hstep
    obtain ⟨q', hdoes, hq'⟩ := hq.step hmoves
    exact ⟨q', .snoc answer call hruns hdoes, hq'⟩
  obtain ⟨q, hruns, hq⟩ := Machine.run_of_history hstays ⟨{}, .nil, hbegins⟩ hrun
  refine ⟨⟨q, hruns, hq.view, hq.left_le⟩, ⟨u.buffer.read_le, ?_, ?_⟩, ?_, ?_⟩
  · exact (Nat.le_add_right _ _).trans u.buffer.prepared_le
  · exact hmaximum ▸ u.buffer.storage_le
  · apply Machine.eachStep_of_invariant (R := Prepares) (fun _ : Used => True) ?_ calls trivial
    exact fun u call u' _ hstep => ⟨prepares_of_step hstep, trivial⟩
  · exact fun minimum h => hmaximum ▸ prepare_lengthError h

end

/-- The bytes are moved to the front of the storage, and then into a larger one. -/
def someCalls : List Call :=
  [.append (bytes "abc"), .takeString 2, .prepare 2, .write 0 (bytes "de"), .commit 2,
    .append (bytes "fgh"), .consume 1]

theorem refines_queue_someCalls :
    ∃ b u, create 4 8 = .ok b ∧ Machine.run step ⟨b, none⟩ someCalls = some u ∧
      InBounds 8 u.buffer ∧ u.buffer.readableView = bytes "defgh" := by
  refine ⟨_, _, rfl, rfl, ?_, by decide +kernel⟩
  have hcreate : create 4 8 = .ok _ := rfl
  exact (refines_queue hcreate someCalls rfl).2.1

/-- With the largest maximum, a vector cannot be as large as the buffer may be. -/
theorem lengthError_within_maximum :
    ¬ ∀ (initialSize maximumSize minimum : Nat) (b : Buffer), maximumSize < sizeModulus →
      create initialSize maximumSize = .ok b → b.prepare minimum = .error .LengthError →
      maximumSize < b.readableBytes + minimum := by
  intro h
  have hlarge := h 1 (2 ^ 64 - 1) (2 ^ 63) _ (by decide) rfl rfl
  exact absurd hlarge (by decide)

end PulseGate.Buffer
