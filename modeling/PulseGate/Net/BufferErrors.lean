import PulseGate.Net.BufferCalls
import Mathlib.Data.Nat.Log

namespace PulseGate.Buffer

/-!
# What a call leaves when it throws

`append` commits what it has written so far before it asks for more room, so that it can throw
when some of its bytes are already in the buffer.

* `prepare_one_isOk_iff` — there is room for a byte below `limit`, which no `append` changes;
* `append_stops` — where the loop of `append` throws, there is no room left;
* `atomic_iff` — a call that throws leaves the buffer as it was, but for an `append` some of
  whose bytes have room.
-/

/-- How large the storage can become a byte at a time: the maximum, or what doubling it leads
    to within the size of a vector. -/
def limit (b : Buffer) : Nat :=
  if b.maximumSize ≤ vectorMaxSize then b.maximumSize
  else max b.storage.length 1 * 2 ^ Nat.log 2 (vectorMaxSize / max b.storage.length 1)

/-- A call that throws leaves the unread bytes, and every later call does what it would have
    done. -/
def Atomic (b : Buffer) (call : Call) : Prop :=
  ∀ e c, b.perform call = some (.error e, c) →
    c.readableView = b.readableView ∧ ∀ next, c.perform next = b.perform next

/-- A call that is not stopped halfway: it does not append, or it appends all of its bytes or
    none. -/
def WholeOrNothing (b : Buffer) : Call → Prop
  | .append bytes =>
    b.preparedBytes ≠ 0 ∨ b.limit ≤ b.readableBytes ∨ b.readableBytes + bytes.length ≤ b.limit
  | _ => True

/-! ### Room for one byte -/

section

variable {b c : Buffer} {bytes : Bytes}

theorem readableBytes_le_storage (b : Buffer) : b.readableBytes ≤ b.storage.length := by
  have := b.prepared_le
  unfold readableBytes
  omega

theorem storage_le_limit (b : Buffer) : b.storage.length ≤ b.limit := by
  unfold limit
  split
  · exact b.storage_le
  · calc b.storage.length ≤ max b.storage.length 1 := Nat.le_max_left _ _
      _ = max b.storage.length 1 * 1 := (Nat.mul_one _).symm
      _ ≤ _ := Nat.mul_le_mul_left _ (Nat.one_le_two_pow)

/-- Doubling leads on from a size exactly when its double is the size of a vector. -/
theorem lt_doubled_iff {n : Nat} (hn : 0 < n) :
    n < n * 2 ^ Nat.log 2 (vectorMaxSize / n) ↔ 2 * n ≤ vectorMaxSize := by
  rw [← Nat.le_div_iff_mul_le hn, Nat.lt_mul_iff_one_lt_right hn]
  constructor
  · intro h
    by_contra hlt
    rw [Nat.log_of_lt (by omega)] at h
    exact absurd h (by decide)
  · intro h
    apply Nat.one_lt_two_pow
    have hpositive := Nat.log_pos (by decide : 1 < 2) h
    omega

/-- From twice the size it leads to the same. -/
theorem doubled_limit {n : Nat} (hn : 2 * n ≤ vectorMaxSize) :
    2 * n * 2 ^ Nat.log 2 (vectorMaxSize / (2 * n)) = n * 2 ^ Nat.log 2 (vectorMaxSize / n) := by
  by_cases hzero : n = 0
  · simp [hzero]
  have htwo : 2 ≤ vectorMaxSize / n :=
    (Nat.le_div_iff_mul_le (Nat.pos_of_ne_zero hzero)).mpr hn
  have hlog : Nat.log 2 (vectorMaxSize / n) = Nat.log 2 (vectorMaxSize / (2 * n)) + 1 := by
    rw [Nat.log_of_one_lt_of_le (by decide) htwo, Nat.div_div_eq_div_mul, Nat.mul_comm n 2]
  rw [hlog, Nat.pow_succ]
  ring

/-- What a full storage grows to for one byte more, when the maximum is more than a vector
    can hold. -/
theorem newSize_one (hlarge : vectorMaxSize < b.maximumSize)
    (hfull : b.readableBytes = b.storage.length) (hsize : b.newSize 1 ≤ vectorMaxSize) :
    b.newSize 1 = max 1 (2 * b.storage.length) := by
  unfold newSize at hsize ⊢
  split
  · next hhalf =>
    rw [if_pos hhalf] at hsize
    omega
  · omega

/-- A full storage can grow for one byte more exactly when the limit is not reached. -/
theorem growsWithin_one_iff (hlarge : vectorMaxSize < b.maximumSize)
    (hfull : b.readableBytes = b.storage.length) :
    b.GrowsWithin 1 ↔ b.storage.length < b.limit := by
  have hlimit : b.limit = max b.storage.length 1 *
      2 ^ Nat.log 2 (vectorMaxSize / max b.storage.length 1) := if_neg (by omega)
  have hgrows : b.GrowsWithin 1 ↔ b.newSize 1 ≤ vectorMaxSize :=
    ⟨fun h => h (by omega), fun h _ => h⟩
  rw [hgrows, hlimit]
  by_cases hzero : b.storage.length = 0
  · have hnew : b.newSize 1 = 1 := by
      unfold newSize
      rw [hfull, hzero, if_neg (by omega)]
      rfl
    rw [hnew, hzero]
    exact iff_of_true (by decide) (Nat.mul_pos (by decide) (Nat.two_pow_pos _))
  · have hone : max b.storage.length 1 = b.storage.length := by omega
    -- the limit is the last doubling that a vector can hold
    rw [hone, lt_doubled_iff (Nat.pos_of_ne_zero hzero)]
    constructor
    · intro h
      have hnew := newSize_one hlarge hfull h
      omega
    · intro h
      have hhalf : ¬ b.maximumSize / 2 < b.storage.length := by
        simp only [vectorMaxSize] at h hlarge
        omega
      unfold newSize
      rw [hfull, if_neg hhalf]
      omega

/-- There is room for a byte up to the limit. -/
theorem prepare_one_isOk_iff (hprepared : b.preparedBytes = 0) :
    (∃ c, b.prepare 1 = .ok c) ↔ b.readableBytes < b.limit := by
  have hstorage := b.readableBytes_le_storage
  have hlimit := b.storage_le_limit
  have hmax := b.storage_le
  have hvector := b.vector_le
  by_cases hsmall : b.maximumSize ≤ vectorMaxSize
  · have heq : b.limit = b.maximumSize := if_pos hsmall
    by_cases hroom : b.readableBytes + 1 ≤ b.maximumSize
    · rw [prepare_isOk_iff hprepared hroom]
      exact iff_of_true (growsWithin_of_maximumSize hroom hsmall) (by omega)
    · refine iff_of_false ?_ (by omega)
      -- a larger storage would be above the maximum
      rintro ⟨c, hc⟩
      have hbounds := prepare_le hc
      have hview := congrArg List.length (prepare_readableView hc)
      have hstored := c.prepared_le
      have hread := c.read_le
      have hcmax := c.storage_le
      rw [prepare_maximumSize hc] at hcmax
      rw [readableView_length, readableView_length] at hview
      unfold readableBytes at hview hroom
      omega
  · rw [prepare_isOk_iff hprepared (by omega)]
    by_cases hfull : b.readableBytes = b.storage.length
    · rw [growsWithin_one_iff (by omega) hfull, hfull]
    · refine iff_of_true ?_ (by omega)
      intro hshort
      omega

theorem compacted_storage_length (b : Buffer) :
    b.compacted.storage.length = b.storage.length := by
  have hview := b.readableView_length
  have hread := b.readableBytes_le_storage
  exact storeAt_length (by omega)

/-- `prepare` leaves the size of the storage, or a storage that is too short grows. -/
theorem prepare_storage_length {minimum : Nat} (h : b.prepare minimum = .ok c) :
    c.storage.length = b.storage.length ∨
      (b.storage.length - b.readableBytes < minimum ∧ b.newSize minimum ≤ vectorMaxSize ∧
        c.storage.length = b.newSize minimum) := by
  unfold prepare at h
  split at h
  · cases h
  split at h
  · exact .inl (Except.ok.inj h ▸ rfl)
  obtain ⟨d, hgrow, rfl⟩ := Loop.map_eq_ok.mp h
  show d.storage.length = _ ∨ _ ∧ _ ∧ d.storage.length = _
  unfold compactOrGrow at hgrow
  split at hgrow
  · cases hgrow
  split at hgrow
  · exact .inl (Except.ok.inj hgrow ▸ rfl)
  split at hgrow
  · exact .inl (Except.ok.inj hgrow ▸ b.compacted_storage_length)
  split at hgrow
  · cases hgrow
  split at hgrow
  · cases hgrow
  · next hshort hroom hvector =>
    have hmax := b.storage_le
    have hle : b.storage.length ≤ b.newSize minimum := by
      unfold newSize
      split <;> omega
    have hgrown : (b.storage ++ List.replicate (b.newSize minimum - b.storage.length) 0).length =
        b.newSize minimum := by
      rw [List.length_append, List.length_replicate]
      omega
    refine .inr ⟨by omega, by omega, ?_⟩
    rw [← Except.ok.inj hgrow]
    split
    · exact (compacted_storage_length _).trans hgrown
    · exact hgrown

/-- A byte more leaves the limit. -/
theorem limit_of_prepare_one {d : Buffer} (hprepare : b.prepare 1 = .ok c)
    (hmax : d.maximumSize = b.maximumSize) (hlength : d.storage.length = c.storage.length) :
    d.limit = b.limit := by
  by_cases hsmall : b.maximumSize ≤ vectorMaxSize
  · have hb : b.limit = b.maximumSize := if_pos hsmall
    have hd : d.limit = d.maximumSize := if_pos (hmax ▸ hsmall)
    rw [hd, hb, hmax]
  · have hb : b.limit = max b.storage.length 1 *
        2 ^ Nat.log 2 (vectorMaxSize / max b.storage.length 1) := if_neg hsmall
    have hd : d.limit = max d.storage.length 1 *
        2 ^ Nat.log 2 (vectorMaxSize / max d.storage.length 1) := if_neg (hmax ▸ hsmall)
    rw [hd, hb, hlength]
    rcases prepare_storage_length hprepare with hsame | ⟨hshort, hsize, hgrown⟩
    · rw [hsame]
    · have hread := b.readableBytes_le_storage
      have hnew := newSize_one (by omega) (by omega) hsize
      rw [hgrown, hnew]
      by_cases hzero : b.storage.length = 0
      · have hone : max (max 1 (2 * 0)) 1 = max 0 1 := rfl
        rw [hzero, hone]
      · have hdouble : max (max 1 (2 * b.storage.length)) 1 = 2 * b.storage.length := by omega
        have hone : max b.storage.length 1 = b.storage.length := by omega
        rw [hdouble, hone]
        exact doubled_limit (by omega)

/-! ### Where `append` stops -/

/-- The loop ends when its bytes are used up, or there is no room for another one. -/
theorem append_stops (hprepared : b.preparedBytes = 0) {o : Outcome}
    (h : b.append bytes = some o) :
    o.2.readableBytes ≤ b.limit ∧ ∀ e, o.1 = .error e → b.limit ≤ o.2.readableBytes := by
  refine (Loop.Ends.of_run h).result (P := fun o : Outcome =>
      o.2.readableBytes ≤ b.limit ∧ ∀ e, o.1 = .error e → b.limit ≤ o.2.readableBytes)
    (fun s : Buffer × Bytes => s.1.preparedBytes = 0 ∧ s.1.limit = b.limit) ?_ ?_
    ⟨hprepared, rfl⟩
  · rintro ⟨d, rest⟩ ⟨d', rest'⟩ ⟨hd, hlimit⟩ hbody
    obtain ⟨c, more, hprepare, -, -, -, hd', hmax, hlength⟩ := appendBody_eq_inr hbody
    exact ⟨hd', (limit_of_prepare_one hprepare hmax hlength).trans hlimit⟩
  · rintro ⟨d, rest⟩ o ⟨hd, hlimit⟩ hbody
    have hwithin : d.readableBytes ≤ b.limit := by
      rw [← hlimit]
      exact d.readableBytes_le_storage.trans d.storage_le_limit
    rcases appendBody_eq_inl hbody with ⟨-, rfl⟩ | ⟨-, e, hprepare, rfl⟩
    · exact ⟨hwithin, fun e he => by cases he⟩
    · refine ⟨hwithin, fun e' _ => ?_⟩
      by_contra hlt
      -- below the limit there would have been room for a byte
      have hroom : d.readableBytes < d.limit := hlimit ▸ not_le.mp hlt
      obtain ⟨c, hc⟩ := (prepare_one_isOk_iff hd).mpr hroom
      rw [hc] at hprepare
      cases hprepare

/-! ### The exact condition -/

/-- A function that throws before its first assignment leaves the buffer. -/
theorem outcome_eq_error {answer : Buffer → Answer} {x : Except Exception Buffer} {e : Exception}
    (h : b.outcome answer x = (.error e, c)) : c = b := by
  cases x with
  | error e' => exact (congrArg Prod.snd h).symm
  | ok d => cases h

theorem atomic_of_eq {call : Call} (h : ∀ e c, b.perform call = some (.error e, c) → c = b) :
    Atomic b call := by
  intro e c hperform
  obtain rfl := h e c hperform
  exact ⟨rfl, fun _ => rfl⟩

theorem append_readableBytes {taken : Bytes} (h : Appended b bytes taken c) :
    c.readableBytes = b.readableBytes + taken.length := by
  rw [← readableView_length, ← readableView_length, h.view, List.length_append]

/-- An `append` that throws has taken over nothing exactly when it had no room for a byte, or
    room for all. -/
theorem atomic_append_iff (b : Buffer) (bytes : Bytes) :
    Atomic b (.append bytes) ↔ WholeOrNothing b (.append bytes) := by
  constructor
  · intro h
    by_contra hbroken
    simp only [WholeOrNothing, not_or, not_not, not_le] at hbroken
    obtain ⟨hprepared, hroom, hshort⟩ := hbroken
    obtain ⟨o, ho⟩ := b.append_isSome bytes
    obtain ⟨hwithin, hstops⟩ := append_stops hprepared ho
    rcases append_spec ho with ⟨-, hdone⟩ | ⟨e, taken, herror, -, hdone⟩
    · -- all bytes were taken over, and there was no room for them
      have hall := append_readableBytes hdone
      omega
    · have hview := (h e o.2 (ho.trans (by rw [← herror]))).1
      have hpart := append_readableBytes hdone
      have hfull := hstops e herror
      rw [hdone.view, List.append_right_eq_self] at hview
      rw [hview, List.length_nil] at hpart
      omega
  · intro h
    apply atomic_of_eq
    intro e c hperform
    rcases append_spec hperform with ⟨hok, -⟩ | ⟨e', taken, -, hne, hdone⟩
    · cases hok
    · apply hdone.nothing
      by_contra htaken
      obtain ⟨hprepared, -⟩ := hdone.something htaken
      obtain ⟨hwithin, hstops⟩ := append_stops hprepared hperform
      have hpart := append_readableBytes hdone
      have hfull := hstops e rfl
      have hpositive := List.length_pos_of_ne_nil htaken
      -- a proper part was taken over, which only a full buffer explains
      have hless : taken.length < bytes.length := by
        apply lt_of_le_of_ne hdone.taken_le.length_le
        exact fun heq => hne (hdone.taken_le.eq_of_length heq)
      rcases h with hspan | hnone | hall
      · exact hspan hprepared
      · omega
      · omega

/-- **Which calls are atomic.** From any state of the buffer, a call that throws leaves the
    unread bytes and all later calls as they were exactly when it is not an `append` that has
    room for some of its bytes and not for all. -/
theorem atomic_iff (b : Buffer) (call : Call) : Atomic b call ↔ WholeOrNothing b call := by
  cases call with
  | append bytes => exact atomic_append_iff b bytes
  | prepare minimum =>
    refine iff_of_true (atomic_of_eq fun e c h => ?_) trivial
    exact outcome_eq_error (Option.some.inj h)
  | write offset bytes =>
    refine iff_of_true (atomic_of_eq fun e c h => ?_) trivial
    simp only [perform] at h
    split at h <;> cases h
  | commit count =>
    refine iff_of_true (atomic_of_eq fun e c h => ?_) trivial
    exact outcome_eq_error (Option.some.inj h)
  | consume count =>
    refine iff_of_true (atomic_of_eq fun e c h => ?_) trivial
    exact outcome_eq_error (Option.some.inj h)
  | takeString count =>
    refine iff_of_true (atomic_of_eq fun e c h => ?_) trivial
    have htake := Option.some.inj h
    unfold takeString at htake
    split at htake
    · exact (congrArg Prod.snd htake).symm
    · exact outcome_eq_error htake
  | clear =>
    refine iff_of_true (atomic_of_eq fun e c h => ?_) trivial
    cases h

end

/-- Eight of nine bytes are in the buffer when `append` throws. -/
theorem append_halfway :
    ∃ b c, create 4 8 = .ok b ∧
      b.perform (.append (bytes "123456789")) = some (.error .LengthError, c) ∧
      b.readableView = [] ∧ c.readableView = bytes "12345678" ∧
      ¬ Atomic b (.append (bytes "123456789")) := by
  refine ⟨_, _, rfl, rfl, by decide, by decide +kernel, ?_⟩
  intro hatomic
  exact absurd (hatomic _ _ rfl).1 (by decide +kernel)

end PulseGate.Buffer
