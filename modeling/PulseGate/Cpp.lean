import PulseGate.Lib.Numeral
import Mathlib.Data.List.DropRight

namespace PulseGate

/-!
# What the code uses of the C++ library

A `std::string` or `std::string_view` is the list of its bytes.  `std::size_t` values are
natural numbers; the operations on them that can leave the type say so where they are used.

* `fromChars_toChars` — `std::from_chars` reads what is printed, up to the 64-bit limit;
* `splitLine_of_unbroken` — a line without a CRLF ends at the CRLF after it.
-/

abbrev Bytes := List UInt8

instance : LawfulBEq Bytes := inferInstance

/-- The bytes of a string literal. -/
def bytes (s : String) : Bytes := s.toList.map fun c => UInt8.ofNat c.toNat

/-- The largest size of a `std::vector<char>`. -/
def vectorMaxSize : Nat := 2 ^ 63 - 1

/-- The largest size of a `std::vector` of pointers. -/
def pointerVectorMaxSize : Nat := 2 ^ 60 - 1

/-- The number of values of `std::size_t`. -/
def sizeModulus : Nat := 2 ^ 64

/-- The exceptions the code throws or lets through. -/
inductive Exception
  | InvalidArgument
  | LengthError
  | LogicError
  | OutOfRange
  deriving DecidableEq, Repr

/-! ### Time -/

/-- A duration in milliseconds, in nanoseconds. -/
def milliseconds (ms : Int) : Int := 1000000 * ms

/-- The last time point: the nanoseconds of the steady clock are a signed 64-bit number, and
    sums of them wrap, `(now + milliseconds ms).bmod (2 ^ 64)`. -/
def timeMax : Int := 2 ^ 63 - 1

/-- Up to the last time point a sum can only wrap upwards. -/
theorem le_bmod_of_le_timeMax {t : Int} (h : t ≤ timeMax) : t ≤ t.bmod (2 ^ 64) := by
  have hmax : timeMax = 2 ^ 63 - 1 := rfl
  rw [Int.bmod_def]
  split <;> omega

/-- From the first time point on a sum can only wrap downwards. -/
theorem bmod_le_of_ge {t : Int} (h : -2 ^ 63 ≤ t) : t.bmod (2 ^ 64) ≤ t := by
  rw [Int.bmod_def]
  split <;> omega

/-! ### Characters -/

/-- `std::tolower` in the C locale. -/
def tolower (c : UInt8) : UInt8 := if 65 ≤ c ∧ c ≤ 90 then c + 32 else c

/-- `std::isalnum` in the C locale. -/
def isalnum (c : UInt8) : Bool :=
  (48 ≤ c ∧ c ≤ 57) ∨ (65 ≤ c ∧ c ≤ 90) ∨ (97 ≤ c ∧ c ≤ 122)

/-- A blank, as the code trims them. -/
def isBlank (c : UInt8) : Bool := c = 32 ∨ c = 9

/-- The two trimming loops: over the front, then over the back. -/
def trim (s : Bytes) : Bytes := (s.dropWhile isBlank).rdropWhile isBlank

/-! ### Numbers -/

/-- The digit `d < 16`, in lower case. -/
def digitChar (d : Nat) : UInt8 := UInt8.ofNat (if d < 10 then 48 + d else 87 + d)

/-- The value of a digit of the base, in either case. -/
def digitValue (base : Nat) (c : UInt8) : Option Nat :=
  let d := if 48 ≤ c ∧ c ≤ 57 then c.toNat - 48
    else if 65 ≤ c ∧ c ≤ 90 then c.toNat - 55
    else if 97 ≤ c ∧ c ≤ 122 then c.toNat - 87
    else base
  if d < base then some d else none

/-- `std::to_string` for an unsigned number, and `std::hex` output, by the base. -/
def toChars (base n : Nat) : Bytes := Numeral.write base digitChar n

/-- `std::to_string` for an `int`. -/
def intToString (n : Int) : Bytes :=
  if n < 0 then 45 :: toChars 10 n.natAbs else toChars 10 n.natAbs

/-- `std::from_chars` to a `std::size_t` when all of the string must be read. -/
def fromChars (base : Nat) (s : Bytes) : Option Nat :=
  (Numeral.read base (digitValue base) s).filter (· < sizeModulus)

/-- `std::from_chars` to an `int` when all of the string must be read, for strings too short
    to leave the type: a minus sign is read, a plus sign is not. -/
def intFromChars : Bytes → Option Int
  | 45 :: s => (Numeral.read 10 (digitValue 10) s).map fun n : Nat => -(n : Int)
  | s => (Numeral.read 10 (digitValue 10) s).map fun n : Nat => (n : Int)

theorem digitValue_digitChar {base d : Nat} (hbase : base ≤ 16) (hd : d < base) :
    digitValue base (digitChar d) = some d := by
  -- a finite table, checked whole
  have hall : ∀ b ≤ 16, ∀ e < b, digitValue b (digitChar e) = some e := by decide +kernel
  exact hall base hbase d hd

/-- **Printed numbers are read back.** -/
theorem fromChars_toChars {base n : Nat} (hbase : 1 < base) (hbase' : base ≤ 16)
    (hn : n < sizeModulus) : fromChars base (toChars base n) = some n := by
  have hread := Numeral.read_write hbase (fun d => digitValue_digitChar (d := d) hbase') n
  simp [fromChars, toChars, hread, hn]

theorem mem_toChars {base n : Nat} {c : UInt8} (hbase : 1 < base) (hbase' : base ≤ 16)
    (hc : c ∈ toChars base n) : 48 ≤ c ∧ c ≤ 102 ∧ c ≠ 59 := by
  obtain ⟨d, hd, rfl⟩ := Numeral.mem_write hbase hc
  have hall : ∀ e < 16, 48 ≤ digitChar e ∧ digitChar e ≤ 102 ∧ digitChar e ≠ 59 := by decide
  exact hall d (by omega)

theorem digitValue_lt {base : Nat} {c : UInt8} : ∀ d ∈ digitValue base c, d < base := by
  intro d hd
  unfold digitValue at hd
  -- the value before the test against the base does not matter
  generalize (if 48 ≤ c ∧ c ≤ 57 then c.toNat - 48
    else if 65 ≤ c ∧ c ≤ 90 then c.toNat - 55
    else if 97 ≤ c ∧ c ≤ 122 then c.toNat - 87
    else base) = e at hd
  simp only [Option.mem_def] at hd
  split at hd <;> simp_all

/-- A blank is no digit. -/
theorem digitValue_blank {base : Nat} : digitValue base 32 = none := by
  simp [digitValue]

/-! ### Integers -/

theorem intFromChars_of_ne {s : Bytes} (h : s.head? ≠ some 45) :
    intFromChars s = (Numeral.read 10 (digitValue 10) s).map fun n : Nat => (n : Int) := by
  unfold intFromChars
  split
  · simp at h
  · rfl

/-- **Printed integers are read back.** -/
theorem intFromChars_intToString (n : Int) : intFromChars (intToString n) = some n := by
  have hread : Numeral.read 10 (digitValue 10) (Numeral.write 10 digitChar n.natAbs) =
      some n.natAbs :=
    Numeral.read_write (by omega) (fun _ => digitValue_digitChar (by omega)) n.natAbs
  -- a number that is not negative does not start with a minus sign
  have hdigits : (toChars 10 n.natAbs).head? ≠ some 45 := by
    intro hhead
    have hmem := List.mem_of_mem_head? hhead
    exact absurd (mem_toChars (by omega) (by omega) hmem).1 (by decide)
  unfold intToString
  split
  · next hneg =>
    simp only [intFromChars, toChars, hread, Option.map_some]
    congr 1
    omega
  · next hpos =>
    rw [intFromChars_of_ne hdigits, toChars, hread, Option.map_some]
    congr 1
    omega

/-- A string with a blank is no integer. -/
theorem intFromChars_of_blank {s : Bytes} (h : 32 ∈ s) : intFromChars s = none := by
  have hread : ∀ t : Bytes, 32 ∈ t → Numeral.read 10 (digitValue 10) t = none := by
    intro t ht
    cases hread : Numeral.read 10 (digitValue 10) t with
    | none => rfl
    | some m =>
      have hdigit := Numeral.read_mem hread 32 ht
      rw [digitValue_blank] at hdigit
      cases hdigit
  unfold intFromChars
  split
  · next t =>
    have ht : (32 : UInt8) ∈ t := by simpa using h
    rw [hread t ht]
    rfl
  · rw [hread _ h]
    rfl

/-- Three characters are an integer from -99 to 999. -/
theorem intFromChars_bounds {s : Bytes} {n : Int} (h : intFromChars s = some n)
    (hs : s.length ≤ 3) : -99 ≤ n ∧ n ≤ 999 := by
  have hread : ∀ k, ∀ t : Bytes, t.length ≤ k → ∀ m, Numeral.read 10 (digitValue 10) t = some m →
      m < 10 ^ k := by
    intro k t ht m hm
    have hlt := Numeral.read_lt (fun c => digitValue_lt (c := c)) hm
    exact Nat.lt_of_lt_of_le hlt (Nat.pow_le_pow_right (by omega) ht)
  unfold intFromChars at h
  split at h
  · next t =>
    -- the minus sign leaves room for two digits
    obtain ⟨m, hm, rfl⟩ := Option.map_eq_some_iff.mp h
    rw [List.length_cons] at hs
    have hlt := hread 2 t (by omega) m hm
    omega
  · obtain ⟨m, hm, rfl⟩ := Option.map_eq_some_iff.mp h
    have hlt := hread 3 _ hs m hm
    omega

/-! ### Trimming -/

theorem trim_blank {c : UInt8} (hc : isBlank c = true) (s : Bytes) : trim (c :: s) = trim s := by
  simp [trim, hc]

theorem trim_eq_self {s : Bytes} (h : ∀ c ∈ s, isBlank c = false) : trim s = s := by
  have hfront : s.dropWhile isBlank = s := by
    rw [List.dropWhile_eq_self_iff]
    intro hlength hblank
    rw [h _ (List.getElem_mem hlength)] at hblank
    cases hblank
  unfold trim
  rw [hfront, List.rdropWhile_eq_self_iff]
  intro hne hblank
  rw [h _ (List.getLast_mem hne)] at hblank
  cases hblank

/-- A number has nothing to trim. -/
theorem trim_toChars (n : Nat) : trim (toChars 10 n) = toChars 10 n := by
  refine trim_eq_self fun c hc => ?_
  have hle := (mem_toChars (by omega) (by omega) hc).1
  have hne : c ≠ 32 ∧ c ≠ 9 := by
    constructor <;> rintro rfl <;> exact absurd hle (by decide)
  simp [isBlank, hne]

/-- What is trimmed has nothing left to trim. -/
theorem trim_trim (s : Bytes) : trim (trim s) = trim s := by
  -- the second loop removes from the back only, so the front stays as the first left it
  have hfront : (trim s).dropWhile isBlank = trim s := by
    rw [List.dropWhile_eq_self_iff]
    intro hlength hblank
    have hstart : trim s <+: s.dropWhile isBlank := List.rdropWhile_prefix ..
    have hlength' : 0 < (s.dropWhile isBlank).length :=
      Nat.lt_of_lt_of_le hlength hstart.length_le
    have hself : (s.dropWhile isBlank).dropWhile isBlank = s.dropWhile isBlank :=
      List.dropWhile_idempotent ..
    rw [hstart.getElem hlength] at hblank
    exact List.dropWhile_eq_self_iff.mp hself hlength' hblank
  unfold trim at hfront ⊢
  rw [hfront, List.rdropWhile_idempotent]

/-- What trimming removes. -/
theorem trim_split (s : Bytes) :
    ∃ before after, s = before ++ trim s ++ after ∧ (∀ c ∈ before, isBlank c = true) ∧
      ∀ c ∈ after, isBlank c = true := by
  refine ⟨s.takeWhile isBlank, (s.dropWhile isBlank).rtakeWhile isBlank, ?_, ?_, ?_⟩
  · have hback : (s.dropWhile isBlank).rdropWhile isBlank ++
        (s.dropWhile isBlank).rtakeWhile isBlank = s.dropWhile isBlank :=
      List.rdropWhile_append_rtakeWhile ..
    rw [List.append_assoc, trim, hback, List.takeWhile_append_dropWhile]
  · intro c hc
    exact List.mem_takeWhile_imp hc
  · intro c hc
    exact List.mem_rtakeWhile_imp hc

/-- A string with no blank at its ends has nothing to trim. -/
theorem trim_eq_self_iff {s : Bytes} : trim s = s ↔
    (∀ c ∈ s.head?, isBlank c = false) ∧ ∀ c ∈ s.getLast?, isBlank c = false := by
  have hfront : (∀ c ∈ s.head?, isBlank c = false) ↔ s.dropWhile isBlank = s := by
    cases s with
    | nil => simp
    | cons c s =>
      by_cases hc : isBlank c = true
      · have hlength := (List.dropWhile_suffix (l := s) isBlank).length_le
        rw [List.dropWhile_cons_of_pos hc]
        refine ⟨fun h => absurd (h c rfl) (by simp [hc]), fun h => ?_⟩
        rw [h, List.length_cons] at hlength
        omega
      · simp [hc]
  have hback : (∀ c ∈ s.getLast?, isBlank c = false) ↔ s.rdropWhile isBlank = s := by
    rw [List.rdropWhile_eq_self_iff]
    constructor
    · intro h hne
      simp [h _ (List.getLast_mem_getLast? hne)]
    · intro h c hc
      obtain ⟨hne, rfl⟩ := List.mem_getLast?_eq_getLast hc
      simpa using h hne
  rw [hfront, hback]
  refine ⟨fun h => ?_, fun h => by rw [trim, h.1, h.2]⟩
  -- neither loop has made the string shorter
  have hstart : trim s <+: s.dropWhile isBlank := List.rdropWhile_prefix ..
  have hend := List.dropWhile_suffix (l := s) isBlank
  have hle := hstart.length_le
  rw [h] at hle
  have hself : s.dropWhile isBlank = s := hend.eq_of_length_le hle
  exact ⟨hself, by rw [trim, hself] at h; exact h⟩

/-- Nothing else is removed. -/
theorem trim_surrounded {before s after : Bytes} (hbefore : ∀ c ∈ before, isBlank c = true)
    (hafter : ∀ c ∈ after, isBlank c = true) (hs : trim s = s) :
    trim (before ++ s ++ after) = s := by
  have hback : ∀ t : Bytes, (t ++ after).rdropWhile isBlank = t.rdropWhile isBlank := by
    intro t
    unfold List.rdropWhile
    rw [List.reverse_append, List.dropWhile_append_of_pos]
    intro c hc
    exact hafter c (List.mem_reverse.mp hc)
  have hfront : s.dropWhile isBlank = s := by
    -- no shorter than what is left when the back is trimmed too
    have hle : (trim s).length ≤ (s.dropWhile isBlank).length :=
      (List.rdropWhile_prefix ..).length_le
    rw [hs] at hle
    exact (List.dropWhile_suffix isBlank).eq_of_length_le hle
  rw [trim, List.append_assoc, List.dropWhile_append_of_pos hbefore]
  cases s with
  | nil =>
    rw [List.nil_append, List.dropWhile_eq_nil_iff.mpr hafter]
    rfl
  | cons c s =>
    have hc : isBlank c = false := by
      by_contra hblank
      have hsuffix := List.dropWhile_suffix (l := s) isBlank
      have hlength := hsuffix.length_le
      rw [List.dropWhile_cons_of_pos (by simpa using hblank)] at hfront
      rw [hfront, List.length_cons] at hlength
      omega
    rw [List.cons_append, List.dropWhile_cons_of_neg (by simp [hc]), ← List.cons_append, hback]
    rw [trim, hfront] at hs
    exact hs

/-! ### Separators -/

/-- The bytes before and after the first separator. -/
theorem eq_append_of_dropWhile {c d : UInt8} {s rest : Bytes}
    (h : s.dropWhile (· ≠ c) = d :: rest) : s = s.takeWhile (· ≠ c) ++ c :: rest := by
  have hd : d = c := by
    have hne : s.dropWhile (· ≠ c) ≠ [] := by
      rw [h]
      exact List.cons_ne_nil d rest
    have hhead := List.head_dropWhile_not (· ≠ c) hne
    simp only [h, List.head_cons] at hhead
    simpa using hhead
  calc s = s.takeWhile (· ≠ c) ++ s.dropWhile (· ≠ c) := List.takeWhile_append_dropWhile.symm
    _ = s.takeWhile (· ≠ c) ++ c :: rest := by rw [h, hd]

theorem takeWhile_separator {c : UInt8} {s : Bytes} (hs : c ∉ s) (rest : Bytes) :
    (s ++ c :: rest).takeWhile (· ≠ c) = s ∧ (s ++ c :: rest).dropWhile (· ≠ c) = c :: rest := by
  have hne : ∀ d ∈ s, decide (d ≠ c) = true := by
    intro d hd
    simpa using fun heq : d = c => hs (heq ▸ hd)
  rw [List.takeWhile_append_of_pos hne, List.dropWhile_append_of_pos hne]
  simp

/-! ### Lines -/

def crlf : Bytes := [13, 10]

/-- The bytes before the first CRLF and the bytes after it, as `Buffer::findCrlf` finds it. -/
def splitLine : Bytes → Option (Bytes × Bytes)
  | [] => none
  | [_] => none
  | a :: b :: s =>
    if a = 13 ∧ b = 10 then some ([], s)
    else (splitLine (b :: s)).map fun (line, rest) => (a :: line, rest)

theorem splitLine_eq_some {s line rest : Bytes} (h : splitLine s = some (line, rest)) :
    s = line ++ crlf ++ rest := by
  induction s generalizing line with
  | nil => simp [splitLine] at h
  | cons a s ih =>
    cases s with
    | nil => simp [splitLine] at h
    | cons b s =>
      -- the line ends here, or goes on with `a`
      by_cases hcrlf : a = 13 ∧ b = 10
      · simp only [splitLine, hcrlf, and_self, if_true, Option.some.injEq, Prod.mk.injEq] at h
        obtain ⟨rfl, rfl⟩ := h
        simp [crlf, hcrlf]
      · simp only [splitLine, hcrlf, if_false] at h
        obtain ⟨⟨line', rest'⟩, hsplit, heq⟩ := Option.map_eq_some_iff.mp h
        obtain ⟨rfl, rfl⟩ := Prod.mk.inj heq
        simp [ih hsplit]

/-- What a line takes from the input. -/
theorem splitLine_length {s line rest : Bytes} (h : splitLine s = some (line, rest)) :
    s.length = line.length + 2 + rest.length := by
  rw [splitLine_eq_some h]
  simp only [List.length_append, crlf, List.length_cons, List.length_nil]

theorem not_infix_tail {c : UInt8} {line : Bytes} (h : ¬crlf <:+: c :: line) : ¬crlf <:+: line :=
  fun hin => h (hin.trans (List.suffix_cons c line).isInfix)

/-- The line ends at the CRLF after it, when it holds none itself. -/
theorem splitLine_of_unbroken {line : Bytes} (hline : ¬crlf <:+: line) (rest : Bytes) :
    splitLine (line ++ crlf ++ rest) = some (line, rest) := by
  induction line with
  | nil => simp [splitLine, crlf]
  | cons a line ih =>
    have ih := ih (not_infix_tail hline)
    cases hcons : line ++ crlf ++ rest with
    | nil => simp [crlf] at hcons
    | cons b s =>
      rw [hcons] at ih
      -- a line feed after `a` would be in the line, since the CRLF after it starts otherwise
      have hcrlf : ¬(a = 13 ∧ b = 10) := by
        rintro ⟨rfl, rfl⟩
        cases line with
        | nil => simp [crlf] at hcons
        | cons d line =>
          obtain ⟨rfl, _⟩ := List.cons.inj hcons
          exact hline ⟨[], line, rfl⟩
      simp only [List.cons_append, hcons, splitLine, hcrlf, if_false, ih, Option.map_some]

theorem not_infix_of_not_mem {line : Bytes} (hline : 13 ∉ line) : ¬crlf <:+: line :=
  fun hin => hline (hin.subset List.mem_cons_self)

theorem splitLine_append {line : Bytes} (hline : 13 ∉ line) (rest : Bytes) :
    splitLine (line ++ crlf ++ rest) = some (line, rest) :=
  splitLine_of_unbroken (not_infix_of_not_mem hline) rest

/-- Where a line ends does not depend on the bytes after it. -/
theorem splitLine_replace {s line rest : Bytes} (h : splitLine s = some (line, rest)) (z : Bytes) :
    splitLine (line ++ crlf ++ z) = some (line, z) := by
  induction s generalizing line with
  | nil => simp [splitLine] at h
  | cons a s ih =>
    cases s with
    | nil => simp [splitLine] at h
    | cons b s =>
      by_cases hcrlf : a = 13 ∧ b = 10
      · simp only [splitLine, hcrlf, and_self, if_true, Option.some.injEq, Prod.mk.injEq] at h
        obtain ⟨rfl, rfl⟩ := h
        simp [splitLine, crlf]
      · simp only [splitLine, hcrlf, if_false] at h
        obtain ⟨⟨line', rest'⟩, hsplit, heq⟩ := Option.map_eq_some_iff.mp h
        obtain ⟨rfl, rfl⟩ := Prod.mk.inj heq
        -- the line goes on after `a` with the byte that follows it in `s`
        have hsame : ∃ t, line' ++ crlf ++ z = b :: t := by
          have hline := splitLine_eq_some hsplit
          cases line' with
          | nil =>
            have hb : b = 13 := by simpa [crlf] using congrArg List.head? hline
            exact ⟨10 :: z, by simp [crlf, hb]⟩
          | cons d line' =>
            have hb : b = d := by simpa using congrArg List.head? hline
            exact ⟨line' ++ crlf ++ z, by simp [hb]⟩
        obtain ⟨t, ht⟩ := hsame
        have hrest := ih hsplit
        rw [ht] at hrest
        show splitLine (a :: (line' ++ crlf ++ z)) = some (a :: line', z)
        rw [ht]
        simp [splitLine, hcrlf, hrest]

theorem splitLine_append_right {s line rest : Bytes} (h : splitLine s = some (line, rest))
    (z : Bytes) : splitLine (s ++ z) = some (line, rest ++ z) := by
  rw [splitLine_eq_some h, List.append_assoc (line ++ crlf)]
  exact splitLine_replace h (rest ++ z)

/-- Bytes without a line hold at most a line and its carriage return. -/
theorem splitLine_none_length {s z line rest : Bytes} (hs : splitLine s = none)
    (h : splitLine (s ++ z) = some (line, rest)) : s.length ≤ line.length + 1 := by
  by_contra hlong
  -- otherwise the line is all in `s`
  have hline := splitLine_eq_some h
  have htake : s = line ++ crlf ++ s.drop (line.length + 2) := by
    have hstart : line ++ crlf <+: s := by
      refine List.prefix_of_prefix_length_le ?_ (List.prefix_append s z) ?_
      · rw [hline]
        exact List.prefix_append _ _
      · simp only [List.length_append, crlf, List.length_cons, List.length_nil]
        omega
    obtain ⟨t, rfl⟩ := hstart
    have hlength : (line ++ crlf).length = line.length + 2 := by simp [crlf]
    rw [List.drop_left' hlength]
  rw [htake, splitLine_replace h] at hs
  cases hs

end PulseGate
