import PulseGate.Cpp

namespace PulseGate

/-!
# The byte buffer of a stream connection

The class of `buffer.cpp`: a vector with a read and a write index, whose writable tail is
handed out by `prepare` and taken over by `commit`.  `Buffer` carries the order of the
indices and the limits of the storage, so that its unread bytes always are a part of it.

What the operations do to the unread bytes: `prepare` keeps them, `received` appends to them
and `consumed` drops from their front.  `prepare_isOk_iff` says when `prepare` does not throw.
-/

/-- `bytes` written over those of `storage` from `start` on. -/
def storeAt (storage : Bytes) (start : Nat) (bytes : Bytes) : Bytes :=
  storage.take start ++ bytes ++ storage.drop (start + bytes.length)

theorem storeAt_length {storage bytes : Bytes} {start : Nat}
    (h : start + bytes.length ≤ storage.length) :
    (storeAt storage start bytes).length = storage.length := by
  simp only [storeAt, List.length_append, List.length_take, List.length_drop]
  omega

structure Buffer where
  storage : Bytes
  readIndex : Nat
  writeIndex : Nat
  preparedBytes : Nat
  maximumSize : Nat
  read_le : readIndex ≤ writeIndex
  prepared_le : writeIndex + preparedBytes ≤ storage.length
  storage_le : storage.length ≤ maximumSize
  vector_le : storage.length ≤ vectorMaxSize

namespace Buffer

/-- The constructor. -/
def create (initialSize maximumSize : Nat) : Except Exception Buffer :=
  if hsizes : initialSize = 0 ∨ maximumSize = 0 ∨ maximumSize < initialSize then
    .error .InvalidArgument
  -- the vector cannot be made
  else if hvector : vectorMaxSize < initialSize then .error .LengthError
  else
    .ok {
      storage := List.replicate initialSize 0
      readIndex := 0
      writeIndex := 0
      preparedBytes := 0
      maximumSize := maximumSize
      read_le := Nat.le_refl _
      prepared_le := Nat.zero_le _
      storage_le := by rw [List.length_replicate]; omega
      vector_le := by rw [List.length_replicate]; omega }

def readableBytes (b : Buffer) : Nat := b.writeIndex - b.readIndex

/-- `Buffer::readableView`: the unread bytes. -/
def readableView (b : Buffer) : Bytes := (b.storage.drop b.readIndex).take b.readableBytes

theorem readableView_length (b : Buffer) : b.readableView.length = b.readableBytes := by
  have := b.read_le
  have := b.prepared_le
  simp only [readableView, readableBytes, List.length_take, List.length_drop]
  omega

theorem readableBytes_le (b : Buffer) : b.readableBytes ≤ vectorMaxSize := by
  have := b.prepared_le
  have := b.vector_le
  unfold readableBytes
  omega

/-- The unread bytes moved to the front of the storage. -/
def compacted (b : Buffer) : Buffer where
  storage := storeAt b.storage 0 b.readableView
  readIndex := 0
  writeIndex := b.readableBytes
  preparedBytes := b.preparedBytes
  maximumSize := b.maximumSize
  read_le := Nat.zero_le _
  prepared_le := by
    have hview := b.readableView_length
    have := b.prepared_le
    rw [storeAt_length (by rw [hview]; unfold readableBytes; omega)]
    unfold readableBytes
    omega
  storage_le := by
    have hview := b.readableView_length
    have := b.prepared_le
    rw [storeAt_length (by rw [hview]; unfold readableBytes; omega)]
    exact b.storage_le
  vector_le := by
    have hview := b.readableView_length
    have := b.prepared_le
    rw [storeAt_length (by rw [hview]; unfold readableBytes; omega)]
    exact b.vector_le

/-- `storage_.resize(size)` to a larger size. -/
def grown (b : Buffer) (size : Nat) (hsize : b.storage.length ≤ size)
    (hmax : size ≤ b.maximumSize) (hvector : size ≤ vectorMaxSize) : Buffer :=
  { b with
    storage := b.storage ++ List.replicate (size - b.storage.length) 0
    prepared_le := by
      have := b.prepared_le
      rw [List.length_append]
      omega
    storage_le := by rw [List.length_append, List.length_replicate]; omega
    vector_le := by rw [List.length_append, List.length_replicate]; omega }

/-- The size `compactOrGrow` grows the storage to. -/
def newSize (b : Buffer) (minimum : Nat) : Nat :=
  max (b.readableBytes + minimum)
    (if b.maximumSize / 2 < b.storage.length then b.maximumSize else b.storage.length * 2)

/-- `Buffer::compactOrGrow`. -/
def compactOrGrow (b : Buffer) (minimum : Nat) : Except Exception Buffer :=
  if hmin : b.maximumSize < minimum then .error .LengthError
  -- the tail is long enough, or is once the unread bytes are moved to the front
  else if minimum ≤ b.storage.length - b.writeIndex then .ok b
  else if minimum ≤ b.storage.length - b.readableBytes then .ok b.compacted
  else if hroom : b.maximumSize - minimum < b.readableBytes then .error .LengthError
  else if hvector : vectorMaxSize < b.newSize minimum then .error .LengthError
  else
    let larger := b.grown (b.newSize minimum)
      (by
        have := b.storage_le
        unfold newSize
        split <;> omega)
      (by
        have := b.storage_le
        unfold newSize
        split <;> omega)
      (by omega)
    .ok (if b.readIndex ≠ 0 then larger.compacted else larger)

/-- `Buffer::prepare`; the prepared span is the part of the storage from `writeIndex` on. -/
def prepare (b : Buffer) (minimum : Nat) : Except Exception Buffer :=
  if b.preparedBytes ≠ 0 then .error .LogicError
  else if minimum = 0 then .ok b
  else
    (b.compactOrGrow minimum).map fun c =>
      { c with
        preparedBytes := c.storage.length - c.writeIndex
        prepared_le := by
          have := c.prepared_le
          omega }

/-- Bytes written at the start of the prepared span, as far as it reaches. -/
def filled (b : Buffer) (bytes : Bytes) : Buffer :=
  have hlength : (storeAt b.storage b.writeIndex (bytes.take b.preparedBytes)).length =
      b.storage.length := by
    have := b.prepared_le
    refine storeAt_length ?_
    rw [List.length_take]
    omega
  { b with
    storage := storeAt b.storage b.writeIndex (bytes.take b.preparedBytes)
    prepared_le := by rw [hlength]; exact b.prepared_le
    storage_le := by rw [hlength]; exact b.storage_le
    vector_le := by rw [hlength]; exact b.vector_le }

/-- `count` bytes of the prepared span taken over. -/
def committed (b : Buffer) (count : Nat) (hcount : count ≤ b.preparedBytes) : Buffer :=
  { b with
    writeIndex := b.writeIndex + count
    preparedBytes := 0
    read_le := Nat.le_trans b.read_le (Nat.le_add_right _ _)
    prepared_le := by
      have := b.prepared_le
      omega }

/-- `Buffer::commit`. -/
def commit (b : Buffer) (count : Nat) : Except Exception Buffer :=
  if hcount : b.preparedBytes < count then .error .OutOfRange
  else .ok (b.committed count (by omega))

/-- What a socket read does: its bytes are written into the prepared span and committed. -/
def received (b : Buffer) (bytes : Bytes) (hbytes : bytes.length ≤ b.preparedBytes) : Buffer :=
  (b.filled bytes).committed bytes.length hbytes

def clear (b : Buffer) : Buffer :=
  { b with
    readIndex := 0
    writeIndex := 0
    preparedBytes := 0
    read_le := Nat.le_refl _
    prepared_le := Nat.zero_le _ }

/-- The read index moved over `count` unread bytes, and cleared when none is left. -/
def consumed (b : Buffer) (count : Nat) : Buffer :=
  if hcount : count < b.readableBytes then
    { b with
      readIndex := b.readIndex + count
      read_le := by
        unfold readableBytes at hcount
        omega }
  else b.clear

/-- `Buffer::consume`. -/
def consume (b : Buffer) (count : Nat) : Except Exception Buffer :=
  if b.preparedBytes ≠ 0 then .error .LogicError
  else if b.readableBytes < count then .error .OutOfRange
  else .ok (b.consumed count)

/-- A buffer filled with `content`. -/
def holding (content : Bytes) (h : content.length ≤ vectorMaxSize) : Buffer where
  storage := content
  readIndex := 0
  writeIndex := content.length
  preparedBytes := 0
  maximumSize := content.length
  read_le := Nat.zero_le _
  prepared_le := Nat.le_refl _
  storage_le := Nat.le_refl _
  vector_le := h

/-! ### The unread bytes -/

theorem holding_readableView {content : Bytes} (h : content.length ≤ vectorMaxSize) :
    (holding content h).readableView = content := by
  simp [holding, readableView, readableBytes]

theorem clear_readableView (b : Buffer) : b.clear.readableView = [] := by
  simp [clear, readableView, readableBytes]

theorem consumed_readableView (b : Buffer) (count : Nat) :
    (b.consumed count).readableView = b.readableView.drop count := by
  unfold consumed
  split
  · next hcount =>
    simp only [readableView, readableBytes, List.drop_take, List.drop_drop]
    congr 1
    omega
  · next hcount =>
    rw [clear_readableView, List.drop_eq_nil_of_le]
    rw [readableView_length]
    omega

theorem compacted_readableView (b : Buffer) : b.compacted.readableView = b.readableView := by
  have hview := b.readableView_length
  unfold readableView
  simp only [compacted, readableBytes, storeAt, List.take_zero, List.nil_append, List.drop_zero,
    Nat.sub_zero]
  rw [List.take_append_of_le_length (by rw [hview]; exact Nat.le_refl _),
    List.take_of_length_le (by rw [hview]; exact Nat.le_refl _)]
  rfl

theorem grown_readableView (b : Buffer) {size : Nat} (hsize : b.storage.length ≤ size)
    (hmax : size ≤ b.maximumSize) (hvector : size ≤ vectorMaxSize) :
    (b.grown size hsize hmax hvector).readableView = b.readableView := by
  have := b.read_le
  have := b.prepared_le
  simp only [readableView, grown, readableBytes]
  rw [List.drop_append_of_le_length (by omega), List.take_append_of_le_length]
  rw [List.length_drop]
  omega

theorem compactOrGrow_readableView {b c : Buffer} {minimum : Nat}
    (h : b.compactOrGrow minimum = .ok c) : c.readableView = b.readableView := by
  unfold compactOrGrow at h
  split at h
  · cases h
  split at h
  · cases h
    rfl
  -- compacted
  split at h
  · cases h
    exact b.compacted_readableView
  split at h
  · cases h
  split at h
  · cases h
  -- grown, and compacted unless the unread bytes start the storage
  · cases h
    split
    · exact (compacted_readableView _).trans (by apply grown_readableView)
    · apply grown_readableView

/-- `prepare` keeps the unread bytes. -/
theorem prepare_readableView {b c : Buffer} {minimum : Nat} (h : b.prepare minimum = .ok c) :
    c.readableView = b.readableView := by
  unfold prepare at h
  split at h
  · cases h
  split at h
  · cases h
    rfl
  · cases hgrow : b.compactOrGrow minimum with
    | error e => simp [hgrow, Except.map] at h
    | ok d =>
      simp only [hgrow, Except.map, Except.ok.injEq] at h
      subst h
      exact compactOrGrow_readableView (c := d) hgrow

/-- A read appends to the unread bytes. -/
theorem received_readableView (b : Buffer) {bytes : Bytes}
    (hbytes : bytes.length ≤ b.preparedBytes) :
    (b.received bytes hbytes).readableView = b.readableView ++ bytes := by
  have hread := b.read_le
  have hprepared := b.prepared_le
  -- the read writes behind the unread bytes, and leaves what is before the write index
  have htake : (b.storage.take b.writeIndex).length = b.writeIndex := by
    rw [List.length_take]
    omega
  have hlength : b.writeIndex + bytes.length - b.readIndex = b.readableBytes + bytes.length := by
    unfold readableBytes
    omega
  have hview : (b.storage.take b.writeIndex).drop b.readIndex = b.readableView := by
    unfold readableView readableBytes
    rw [List.drop_take]
  show ((storeAt b.storage b.writeIndex (bytes.take b.preparedBytes)).drop b.readIndex).take
    (b.writeIndex + bytes.length - b.readIndex) = _
  rw [List.take_of_length_le hbytes, hlength, storeAt, List.append_assoc,
    List.drop_append_of_le_length (by omega), hview, ← List.append_assoc,
    List.take_append_of_le_length (by rw [List.length_append, readableView_length]),
    List.take_of_length_le (by rw [List.length_append, readableView_length])]

/-! ### When there is room -/

/-- The storage is not made larger than a vector can be. -/
def GrowsWithin (b : Buffer) (minimum : Nat) : Prop :=
  b.storage.length - b.readableBytes < minimum → b.newSize minimum ≤ vectorMaxSize

instance (b : Buffer) (minimum : Nat) : Decidable (b.GrowsWithin minimum) :=
  inferInstanceAs (Decidable (_ → _))

/-- With room below the maximum, only the size of a vector can forbid to grow. -/
theorem compactOrGrow_isOk_iff {b : Buffer} {minimum : Nat}
    (hroom : b.readableBytes + minimum ≤ b.maximumSize) :
    (∃ c, b.compactOrGrow minimum = .ok c) ↔ b.GrowsWithin minimum := by
  have hread := b.read_le
  have hwrite := b.prepared_le
  unfold compactOrGrow GrowsWithin
  rw [dif_neg (by omega)]
  by_cases htail : minimum ≤ b.storage.length - b.writeIndex
  · have hfits : ¬b.storage.length - b.readableBytes < minimum := by
      unfold readableBytes
      omega
    simp [htail, hfits]
  rw [if_neg htail]
  by_cases hcompact : minimum ≤ b.storage.length - b.readableBytes
  · simp [hcompact]
  rw [if_neg hcompact, dif_neg (by omega)]
  by_cases hvector : vectorMaxSize < b.newSize minimum
  · rw [dif_pos hvector]
    have hlarge : ¬b.newSize minimum ≤ vectorMaxSize := by omega
    simp [Nat.not_le.mp hcompact, hlarge]
  · rw [dif_neg hvector]
    have hsmall : b.newSize minimum ≤ vectorMaxSize := by omega
    simp [hsmall]

theorem prepare_isOk_iff {b : Buffer} {minimum : Nat} (hprepared : b.preparedBytes = 0)
    (hroom : b.readableBytes + minimum ≤ b.maximumSize) :
    (∃ c, b.prepare minimum = .ok c) ↔ b.GrowsWithin minimum := by
  rw [← compactOrGrow_isOk_iff hroom]
  unfold prepare
  rw [if_neg (by simpa using hprepared)]
  by_cases hzero : minimum = 0
  · have hgrow : b.compactOrGrow 0 = .ok b := by simp [compactOrGrow]
    simp [hzero, hgrow]
  · rw [if_neg hzero]
    cases b.compactOrGrow minimum <;> simp [Except.map]

/-- A buffer that is no larger than a vector can be grows within it. -/
theorem growsWithin_of_maximumSize {b : Buffer} {minimum : Nat}
    (hroom : b.readableBytes + minimum ≤ b.maximumSize) (hvector : b.maximumSize ≤ vectorMaxSize) :
    b.GrowsWithin minimum := by
  intro _
  refine Nat.le_trans ?_ hvector
  unfold newSize
  split <;> omega

/-- What is prepared is as long as was asked for. -/
theorem prepare_le {b c : Buffer} {minimum : Nat} (h : b.prepare minimum = .ok c) :
    minimum ≤ c.preparedBytes := by
  -- by the three ways to make room: the tail, moving to the front, larger storage
  have hgrown {d : Buffer} (hgrow : b.compactOrGrow minimum = .ok d) :
      minimum ≤ d.storage.length - d.writeIndex := by
    have hread := b.read_le
    have hlength := b.readableView_length
    unfold compactOrGrow at hgrow
    split at hgrow
    · cases hgrow
    split at hgrow
    · next htail =>
      cases hgrow
      exact htail
    split at hgrow
    · next hcompact =>
      cases hgrow
      have hstored := b.prepared_le
      show minimum ≤ (storeAt b.storage 0 b.readableView).length - b.readableBytes
      rw [storeAt_length (by rw [hlength]; unfold readableBytes; omega)]
      exact hcompact
    split at hgrow
    · cases hgrow
    split at hgrow
    · cases hgrow
    · cases hgrow
      -- the new size covers what is readable and what is asked for
      have hsize : b.readableBytes + minimum ≤ b.newSize minimum := Nat.le_max_left _ _
      have hlarger : b.storage.length ≤ b.newSize minimum := by
        have hstorage := b.storage_le
        unfold newSize
        split <;> omega
      split
      · -- the bytes are at the front of the larger storage
        have hview (d : Buffer) : d.compacted.storage.length = d.storage.length := by
          have hstored := d.prepared_le
          have hindex := d.read_le
          exact storeAt_length (by
            rw [readableView_length]
            unfold readableBytes
            omega)
        rw [hview]
        show minimum ≤ (b.storage ++ List.replicate _ 0).length - b.readableBytes
        rw [List.length_append, List.length_replicate]
        omega
      · next hfront =>
        show minimum ≤ (b.storage ++ List.replicate _ 0).length - b.writeIndex
        rw [List.length_append, List.length_replicate]
        unfold readableBytes at hsize
        omega
  unfold prepare at h
  split at h
  · cases h
  split at h
  · next hzero =>
    rw [hzero]
    exact Nat.zero_le _
  · cases hgrow : b.compactOrGrow minimum with
    | error e => simp [hgrow, Except.map] at h
    | ok d =>
      simp only [hgrow, Except.map, Except.ok.injEq] at h
      rw [← h]
      exact hgrown hgrow

/-! ### The maximum -/

theorem compactOrGrow_maximumSize {b c : Buffer} {minimum : Nat}
    (h : b.compactOrGrow minimum = .ok c) : c.maximumSize = b.maximumSize := by
  unfold compactOrGrow at h
  split at h
  · cases h
  split at h
  · cases h
    rfl
  split at h
  · cases h
    rfl
  split at h
  · cases h
  split at h
  · cases h
  · cases h
    split <;> rfl

theorem prepare_maximumSize {b c : Buffer} {minimum : Nat} (h : b.prepare minimum = .ok c) :
    c.maximumSize = b.maximumSize := by
  unfold prepare at h
  split at h
  · cases h
  split at h
  · cases h
    rfl
  · cases hgrow : b.compactOrGrow minimum with
    | error e => simp [hgrow, Except.map] at h
    | ok d =>
      simp only [hgrow, Except.map, Except.ok.injEq] at h
      subst h
      exact compactOrGrow_maximumSize (c := d) hgrow

@[simp] theorem received_maximumSize (b : Buffer) {bytes : Bytes}
    (hbytes : bytes.length ≤ b.preparedBytes) :
    (b.received bytes hbytes).maximumSize = b.maximumSize := rfl

@[simp] theorem received_preparedBytes (b : Buffer) {bytes : Bytes}
    (hbytes : bytes.length ≤ b.preparedBytes) : (b.received bytes hbytes).preparedBytes = 0 := rfl

@[simp] theorem consumed_maximumSize (b : Buffer) (count : Nat) :
    (b.consumed count).maximumSize = b.maximumSize := by
  unfold consumed
  split <;> rfl

theorem consumed_preparedBytes {b : Buffer} (hprepared : b.preparedBytes = 0) (count : Nat) :
    (b.consumed count).preparedBytes = 0 := by
  unfold consumed
  split
  · exact hprepared
  · rfl

theorem received_storage_length (b : Buffer) {bytes : Bytes}
    (hbytes : bytes.length ≤ b.preparedBytes) :
    (b.received bytes hbytes).storage.length = b.storage.length := by
  have hstored := b.prepared_le
  refine storeAt_length ?_
  rw [List.length_take]
  omega

theorem consumed_storage (b : Buffer) (count : Nat) : (b.consumed count).storage = b.storage := by
  unfold consumed
  split <;> rfl

theorem create_eq_ok {initialSize maximumSize : Nat} {b : Buffer}
    (h : create initialSize maximumSize = .ok b) :
    b.maximumSize = maximumSize ∧ b.preparedBytes = 0 := by
  unfold create at h
  split at h
  · cases h
  split at h
  · cases h
  · cases h
    exact ⟨rfl, rfl⟩

/-- A new buffer has nothing to read. -/
theorem create_readableView {initialSize maximumSize : Nat} {b : Buffer}
    (h : create initialSize maximumSize = .ok b) : b.readableView = [] := by
  have hempty : b.readableBytes = 0 := by
    unfold create at h
    split at h
    · cases h
    split at h
    · cases h
    · cases h
      rfl
  rw [← List.length_eq_zero_iff, b.readableView_length, hempty]

end Buffer
end PulseGate
