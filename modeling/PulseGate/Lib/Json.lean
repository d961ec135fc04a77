import Mathlib.Data.List.Basic
import PulseGate.Lib.Numeral

/-!
# Reading JSON

A reader of JSON texts, given as bytes.  A byte from 128 on stands for itself in a string, so
that nothing depends on the encoding; an escape `\uXXXX` stands for the bytes of its code unit.

* `parse` — the value of a text;
* `Spells` — how the characters of a string may be written; it composes over the parts of a
  string (`Spells.append`, `Spells.flatMap`);
* `Reads` — what a text is read as, before anything that does not go on with a number:
  `reads_string`, `reads_nat`, `reads_neg`;
* `parse_objectText` — an object is read as its members, in their order.
-/

inductive Json
  | null
  | bool (b : Bool)
  /-- `mantissa * 10 ^ exponent`. -/
  | number (mantissa exponent : Int)
  | string (s : List UInt8)
  | array (items : List Json)
  | object (members : List (List UInt8 × Json))
  deriving Repr

namespace Json

/-- A reader of the first part of a text; it leaves the rest. -/
abbrev Reader (α : Type*) := List UInt8 → Option (α × List UInt8)

/-- The characters that a string may not contain as they are. -/
def IsControl (c : UInt8) : Prop := c < 0x20

instance decidableIsControl (c : UInt8) : Decidable (IsControl c) :=
  inferInstanceAs (Decidable (_ < _))

def isSpace (c : UInt8) : Bool := c = 32 || c = 9 || c = 10 || c = 13

def skipSpace (text : List UInt8) : List UInt8 := text.dropWhile isSpace

/-! ### Strings -/

/-- The character of a short escape. -/
def escapeValue (c : UInt8) : Option UInt8 :=
  if c = 34 ∨ c = 92 ∨ c = 47 then some c
  else if c = 98 then some 8
  else if c = 102 then some 12
  else if c = 110 then some 10
  else if c = 114 then some 13
  else if c = 116 then some 9
  else none

def hexValue (c : UInt8) : Option Nat :=
  if 48 ≤ c ∧ c ≤ 57 then some (c.toNat - 48)
  else if 65 ≤ c ∧ c ≤ 70 then some (c.toNat - 55)
  else if 97 ≤ c ∧ c ≤ 102 then some (c.toNat - 87)
  else none

/-- The bytes of a code unit, as UTF-8 has them. -/
def unitBytes (n : Nat) : List UInt8 :=
  if n < 0x80 then [UInt8.ofNat n]
  else if n < 0x800 then [UInt8.ofNat (0xC0 + n / 64), UInt8.ofNat (0x80 + n % 64)]
  else
    [UInt8.ofNat (0xE0 + n / 4096), UInt8.ofNat (0x80 + n / 64 % 64), UInt8.ofNat (0x80 + n % 64)]

/-- The rest of a string, behind its opening quote or in it. -/
def stringFrom : Reader (List UInt8)
  | [] => none
  | c :: rest =>
    if c = 34 then some ([], rest)
    else if IsControl c then none
    else if c ≠ 92 then (stringFrom rest).map fun r => (c :: r.1, r.2)
    else
      match rest with
      | [] => none
      | e :: rest =>
        -- a code unit of four hexadecimal digits
        if e = 117 then
          match rest with
          | h₁ :: h₂ :: h₃ :: h₄ :: rest =>
            (Numeral.read 16 hexValue [h₁, h₂, h₃, h₄]).bind fun n =>
              (stringFrom rest).map fun r => (unitBytes n ++ r.1, r.2)
          | _ => none
        else
          (escapeValue e).bind fun c => (stringFrom rest).map fun r => (c :: r.1, r.2)

/-! ### Numbers -/

def isDigit (c : UInt8) : Bool := 48 ≤ c && c ≤ 57

def digitValue (c : UInt8) : Option Nat := if isDigit c then some (c.toNat - 48) else none

/-- One digit or more. -/
def digitsFrom : Reader (List UInt8) := fun text =>
  let digits := text.takeWhile isDigit
  if digits.isEmpty then none else some (digits, text.dropWhile isDigit)

/-- The digits after a point, if there is one. -/
def fractionFrom : Reader (List UInt8)
  | 46 :: text => digitsFrom text
  | text => some ([], text)

/-- The exponent, if there is one. -/
def exponentFrom : Reader Int
  | c :: text =>
    if c = 101 ∨ c = 69 then
      match text with
      | 45 :: text => (digitsFrom text).bind fun r =>
          (Numeral.read 10 digitValue r.1).map fun n => (-(n : Int), r.2)
      | 43 :: text => (digitsFrom text).bind fun r =>
          (Numeral.read 10 digitValue r.1).map fun n => ((n : Int), r.2)
      | text => (digitsFrom text).bind fun r =>
          (Numeral.read 10 digitValue r.1).map fun n => ((n : Int), r.2)
    else some (0, c :: text)
  | [] => some (0, [])

/-- A number without its sign. -/
def magnitudeFrom : Reader (Nat × Int) := fun text =>
  (digitsFrom text).bind fun (whole, text) =>
    -- no zero before another digit
    if whole.head? = some 48 ∧ 1 < whole.length then none
    else
      (fractionFrom text).bind fun (fraction, text) =>
        (exponentFrom text).bind fun (exponent, text) =>
          (Numeral.read 10 digitValue (whole ++ fraction)).map fun n =>
            ((n, exponent - fraction.length), text)

def numberFrom : Reader Json
  | 45 :: text => (magnitudeFrom text).map fun r => (.number (-(r.1.1 : Int)) r.1.2, r.2)
  | text => (magnitudeFrom text).map fun r => (.number r.1.1 r.1.2, r.2)

/-! ### Values -/

/-- Items with commas between them and a closing bracket after them. -/
def itemsFrom {α : Type} (item : Reader α) (close : UInt8) : Nat → Reader (List α)
  | 0, _ => none
  | n + 1, text =>
    (item text).bind fun (a, text) =>
      match skipSpace text with
      | [] => none
      | c :: text =>
        if c = close then some ([a], text)
        else if c = 44 then (itemsFrom item close n text).map fun r => (a :: r.1, r.2)
        else none

/-- Items, or the closing bracket alone. -/
def listFrom {α : Type} (item : Reader α) (close : UInt8) (n : Nat) : Reader (List α) := fun text =>
  match skipSpace text with
  | [] => none
  | c :: rest => if c = close then some ([], rest) else itemsFrom item close n (c :: rest)

/-- A member of an object. -/
def memberFrom (value : Reader Json) : Reader (List UInt8 × Json) := fun text =>
  match skipSpace text with
  | 34 :: text =>
    (stringFrom text).bind fun (key, text) =>
      match skipSpace text with
      | 58 :: text => (value text).map fun r => ((key, r.1), r.2)
      | _ => none
  | _ => none

/-- The word `word`, for the value `v`. -/
def wordFrom (word : List UInt8) (v : Json) : Reader Json := fun text =>
  if word.isPrefixOf text then some (v, text.drop word.length) else none

/-- A value that is nested at most `n` deep, with lists of at most `n` items. -/
def valueFrom : Nat → Reader Json
  | 0, _ => none
  | n + 1, text =>
    match skipSpace text with
    | [] => none
    | c :: rest =>
      if c = 34 then (stringFrom rest).map fun r => (.string r.1, r.2)
      else if c = 91 then (listFrom (valueFrom n) 93 n rest).map fun r => (.array r.1, r.2)
      else if c = 123 then
        (listFrom (memberFrom (valueFrom n)) 125 n rest).map fun r => (.object r.1, r.2)
      -- the three words, each for one value
      else if c = 116 then wordFrom [116, 114, 117, 101] (.bool true) (c :: rest)
      else if c = 102 then wordFrom [102, 97, 108, 115, 101] (.bool false) (c :: rest)
      else if c = 110 then wordFrom [110, 117, 108, 108] .null (c :: rest)
      else numberFrom (c :: rest)

/-- The value of a text that has nothing behind it. -/
def parse (text : List UInt8) : Option Json :=
  (valueFrom (text.length + 1) text).bind fun (v, rest) =>
    if (skipSpace rest).isEmpty then some v else none

/-! ### What a string is written as -/

/-- Inside a string `text` is read as `s`. -/
def Spells (text s : List UInt8) : Prop :=
  ∀ rest, stringFrom (text ++ rest) = (stringFrom rest).map fun r => (s ++ r.1, r.2)

/-- No character of it needs an escape. -/
def Plain (s : List UInt8) : Prop := ∀ c ∈ s, ¬IsControl c ∧ c ≠ 34 ∧ c ≠ 92

instance decidablePlain (s : List UInt8) : Decidable (Plain s) :=
  List.decidableBAll (fun c => ¬IsControl c ∧ c ≠ 34 ∧ c ≠ 92) s

theorem spells_nil : Spells [] [] := by
  intro rest
  cases h : stringFrom rest <;> simp [h]

theorem Spells.append {text text' s s' : List UInt8} (h : Spells text s) (h' : Spells text' s') :
    Spells (text ++ text') (s ++ s') := by
  intro rest
  rw [List.append_assoc, h, h', Option.map_map]
  simp only [Function.comp_def, List.append_assoc]

/-- The parts of a string are written one by one. -/
theorem Spells.flatMap {f g : UInt8 → List UInt8} (h : ∀ c, Spells (f c) (g c))
    (s : List UInt8) : Spells (s.flatMap f) (s.flatMap g) := by
  induction s with
  | nil => exact spells_nil
  | cons c s ih => exact (h c).append ih

theorem spells_self {c : UInt8} (h : ¬IsControl c ∧ c ≠ 34 ∧ c ≠ 92) : Spells [c] [c] := by
  intro rest
  show stringFrom (c :: rest) = _
  rw [stringFrom.eq_def]
  simp only [if_neg h.2.1, if_neg h.1, if_pos h.2.2]
  rfl

theorem spells_escape {e c : UInt8} (h : escapeValue e = some c) : Spells [92, e] [c] := by
  intro rest
  have he : e ≠ 117 := by
    rintro rfl
    cases h
  have hbackslash : ¬IsControl 92 := by decide
  show stringFrom (92 :: e :: rest) = _
  rw [stringFrom.eq_def]
  simp only [if_neg (by decide : ¬(92 : UInt8) = 34), if_neg hbackslash, ne_eq, not_true_eq_false,
    if_false, if_neg he, h, Option.bind_some]
  rfl

theorem spells_of_plain {s : List UInt8} (h : Plain s) : Spells s s := by
  induction s with
  | nil => exact spells_nil
  | cons c s ih =>
    obtain ⟨hc, hs⟩ := List.forall_mem_cons.mp h
    exact (spells_self hc).append (ih hs)

theorem Spells.closed {text s : List UInt8} (h : Spells text s) (rest : List UInt8) :
    stringFrom (text ++ 34 :: rest) = some (s, rest) := by
  rw [h, stringFrom.eq_def]
  simp

/-! ### What a value is written as -/

/-- A number does not go on with `rest`. -/
def Ends (rest : List UInt8) : Prop :=
  ∀ c ∈ rest.head?, isDigit c = false ∧ c ≠ 46 ∧ c ≠ 101 ∧ c ≠ 69

/-- `text` is read as `a`, where a number would end. -/
def Reads {α : Type} (reader : Reader α) (text : List UInt8) (a : α) : Prop :=
  ∀ rest, Ends rest → reader (text ++ rest) = some (a, rest)

theorem skipSpace_cons {c : UInt8} (hc : isSpace c = false) (rest : List UInt8) :
    skipSpace (c :: rest) = c :: rest := by
  rw [skipSpace, List.dropWhile_cons_of_neg (by simp [hc])]

theorem reads_string {text s : List UInt8} (h : Spells text s) (n : Nat) :
    Reads (valueFrom (n + 1)) (34 :: (text ++ [34])) (.string s) := by
  intro rest _
  rw [List.cons_append, List.append_assoc, List.singleton_append, valueFrom,
    skipSpace_cons (by decide)]
  simp only [if_pos, h.closed rest, Option.map_some]

variable {digit : Nat → UInt8}

/-- The characters of a numeral are digits. -/
theorem isDigit_of_mem_write (hdigit : ∀ d < 10, digitValue (digit d) = some d) {n : Nat}
    {c : UInt8} (hc : c ∈ Numeral.write 10 digit n) : isDigit c = true := by
  obtain ⟨d, hd, rfl⟩ := Numeral.mem_write (by decide) hc
  have hvalue := hdigit d hd
  unfold digitValue at hvalue
  split at hvalue
  · next h => exact h
  · cases hvalue

theorem digitsFrom_write (hdigit : ∀ d < 10, digitValue (digit d) = some d) (n : Nat)
    {rest : List UInt8} (hrest : Ends rest) :
    digitsFrom (Numeral.write 10 digit n ++ rest) = some (Numeral.write 10 digit n, rest) := by
  have hdigits : ∀ c ∈ Numeral.write 10 digit n, isDigit c = true :=
    fun c hc => isDigit_of_mem_write hdigit hc
  -- what comes after the numeral does not start with a digit
  have hstop : rest.takeWhile isDigit = [] ∧ rest.dropWhile isDigit = rest := by
    cases rest with
    | nil => exact ⟨rfl, rfl⟩
    | cons c rest =>
      have hc := (hrest c rfl).1
      exact ⟨List.takeWhile_cons_of_neg (by simp [hc]), List.dropWhile_cons_of_neg (by simp [hc])⟩
  rw [digitsFrom, List.takeWhile_append_of_pos hdigits, List.dropWhile_append_of_pos hdigits,
    hstop.1, hstop.2, List.append_nil]
  simp [Numeral.write_ne_nil]

theorem fractionFrom_of_ends {rest : List UInt8} (hrest : Ends rest) :
    fractionFrom rest = some ([], rest) := by
  unfold fractionFrom
  split
  · next rest => exact absurd rfl (hrest 46 rfl).2.1
  · rfl

theorem exponentFrom_of_ends {rest : List UInt8} (hrest : Ends rest) :
    exponentFrom rest = some (0, rest) := by
  cases rest with
  | nil => rfl
  | cons c rest =>
    obtain ⟨_, _, hlower, hupper⟩ := hrest c rfl
    unfold exponentFrom
    dsimp only
    rw [if_neg (by simp [hlower, hupper])]

/-- No numeral but that of zero starts with a zero. -/
theorem no_leading_zero (hdigit : ∀ d < 10, digitValue (digit d) = some d) (n : Nat) :
    ¬((Numeral.write 10 digit n).head? = some 48 ∧ 1 < (Numeral.write 10 digit n).length) := by
  rintro ⟨hhead, hlength⟩
  by_cases hn : n = 0
  · rw [hn, Numeral.write_of_lt (by decide)] at hlength
    exact absurd hlength (Nat.lt_irrefl 1)
  · obtain ⟨d, hd, hlt, hfirst⟩ : ∃ d, d ≠ 0 ∧ d < 10 ∧
        (Numeral.write 10 digit n).head? = some (digit d) := Numeral.head_write (by decide) hn
    have hzero : digit d = 48 := Option.some.inj (hfirst.symm.trans hhead)
    have hvalue := hdigit d hlt
    rw [hzero] at hvalue
    exact hd (Option.some.inj hvalue).symm

theorem magnitudeFrom_write (hdigit : ∀ d < 10, digitValue (digit d) = some d) (n : Nat) :
    Reads magnitudeFrom (Numeral.write 10 digit n) (n, 0) := by
  intro rest hrest
  rw [magnitudeFrom, digitsFrom_write hdigit n hrest]
  simp only [Option.bind_some, if_neg (no_leading_zero hdigit n), fractionFrom_of_ends hrest,
    exponentFrom_of_ends hrest, List.append_nil, Numeral.read_write (by decide) hdigit n,
    Option.map_some]
  rfl

/-- A value that starts with a digit or a minus sign is a number. -/
theorem valueFrom_number (n : Nat) {c : UInt8} (hc : isDigit c = true ∨ c = 45)
    (rest : List UInt8) : valueFrom (n + 1) (c :: rest) = numberFrom (c :: rest) := by
  -- a finite table, checked whole
  have hall : ∀ k : Fin 256, isDigit (.ofFin k) = true ∨ UInt8.ofFin k = 45 →
      isSpace (.ofFin k) = false ∧ ∀ d ∈ [34, 91, 123, 116, 102, 110], UInt8.ofFin k ≠ d := by
    decide +kernel
  obtain ⟨hspace, hother⟩ : isSpace c = false ∧ ∀ d ∈ [34, 91, 123, 116, 102, 110], c ≠ d :=
    hall c.toFin hc
  simp only [List.forall_mem_cons] at hother
  obtain ⟨h₁, h₂, h₃, h₄, h₅, h₆, _⟩ := hother
  rw [valueFrom, skipSpace_cons hspace]
  simp only [if_neg h₁, if_neg h₂, if_neg h₃, if_neg h₄, if_neg h₅, if_neg h₆]

theorem reads_nat (hdigit : ∀ d < 10, digitValue (digit d) = some d) (i n : Nat) :
    Reads (valueFrom (i + 1)) (Numeral.write 10 digit n) (.number n 0) := by
  intro rest hrest
  have hread := magnitudeFrom_write hdigit n rest hrest
  have hne : Numeral.write 10 digit n ≠ [] := Numeral.write_ne_nil n
  obtain ⟨c, ds, hds⟩ := List.exists_cons_of_ne_nil hne
  have hc : isDigit c = true := isDigit_of_mem_write hdigit (hds ▸ List.mem_cons_self)
  rw [hds] at hread ⊢
  rw [List.cons_append, valueFrom_number i (.inl hc)]
  unfold numberFrom
  split
  · next heq =>
    obtain ⟨rfl, _⟩ := List.cons.inj heq
    exact absurd hc (by decide)
  · rw [← List.cons_append, hread]
    rfl

theorem reads_neg (hdigit : ∀ d < 10, digitValue (digit d) = some d) (i n : Nat) :
    Reads (valueFrom (i + 1)) (45 :: Numeral.write 10 digit n) (.number (-(n : Int)) 0) := by
  intro rest hrest
  have hread := magnitudeFrom_write hdigit n rest hrest
  rw [List.cons_append, valueFrom_number i (.inr rfl), numberFrom, hread]
  rfl

/-! ### Objects -/

structure Member where
  key : List UInt8
  text : List UInt8
  value : Json

/-- Its key needs no escape, and its text is read as its value. -/
structure Member.Readable (m : Member) : Prop where
  key : Plain m.key
  text : ∀ n, Reads (valueFrom (n + 1)) m.text m.value
  clean : ∀ c ∈ m.text, ¬IsControl c

def memberText (m : Member) : List UInt8 := 34 :: (m.key ++ 34 :: 58 :: m.text)

def objectText (members : List Member) : List UInt8 :=
  123 :: (List.intercalate [44] (members.map memberText) ++ [125])

theorem reads_member {m : Member} {value : Reader Json} (hkey : Plain m.key)
    (h : Reads value m.text m.value) :
    Reads (memberFrom value) (memberText m) (m.key, m.value) := by
  intro rest hrest
  have htext : memberText m ++ rest = 34 :: (m.key ++ 34 :: 58 :: (m.text ++ rest)) := by
    simp [memberText]
  rw [htext, memberFrom, skipSpace_cons (by decide)]
  simp only [(spells_of_plain hkey).closed, Option.bind_some, skipSpace_cons (c := 58) (by decide),
    h rest hrest, Option.map_some]

theorem ends_comma (rest : List UInt8) : Ends (44 :: rest) := by
  rintro c ⟨⟩
  decide

theorem ends_brace (rest : List UInt8) : Ends (125 :: rest) := by
  rintro c ⟨⟩
  decide

/-- Members with commas between them are read one after the other. -/
theorem itemsFrom_members {value : Reader Json} (members : List Member) (hne : members ≠ [])
    (h : ∀ m ∈ members, Plain m.key ∧ Reads value m.text m.value) {n : Nat}
    (hn : members.length ≤ n) (rest : List UInt8) :
    itemsFrom (memberFrom value) 125 n
        (List.intercalate [44] (members.map memberText) ++ 125 :: rest) =
      some (members.map fun m => (m.key, m.value), rest) := by
  induction members generalizing n with
  | nil => exact absurd rfl hne
  | cons m members ih =>
    obtain ⟨n, rfl⟩ : ∃ k, n = k + 1 := Nat.exists_eq_add_one_of_ne_zero (by
      rw [List.length_cons] at hn
      omega)
    obtain ⟨⟨hkey, hvalue⟩, hrest⟩ := List.forall_mem_cons.mp h
    have hread := reads_member hkey hvalue
    cases members with
    | nil =>
      rw [List.map_singleton, List.intercalate_singleton, itemsFrom, hread _ (ends_brace rest)]
      rfl
    | cons m' members =>
      have hnext := ih (List.cons_ne_nil _ _) hrest (n := n) (Nat.le_of_succ_le_succ hn)
      rw [List.map_cons, List.map_cons, List.intercalate_cons_cons, List.append_assoc,
        List.append_assoc, List.singleton_append, itemsFrom, hread _ (ends_comma _)]
      simp only [Option.bind_some, skipSpace_cons (c := 44) (by decide)]
      rw [if_neg (by decide), if_pos trivial, ← List.map_cons, hnext]
      rfl

theorem length_le_intercalate (members : List Member) :
    members.length ≤ (List.intercalate [44] (members.map memberText)).length := by
  induction members with
  | nil => exact Nat.zero_le _
  | cons m members ih =>
    have hpos : 0 < (memberText m).length := Nat.succ_pos _
    cases members with
    | nil =>
      rw [List.map_singleton, List.intercalate_singleton]
      exact hpos
    | cons m' members =>
      rw [List.map_cons, List.map_cons, List.intercalate_cons_cons, ← List.map_cons]
      simp only [List.length_append, List.length_cons] at ih ⊢
      omega

/-- Nothing that an object adds to its keys and values is a control character. -/
theorem not_isControl_objectText {members : List Member} (h : ∀ m ∈ members, m.Readable) :
    ∀ c ∈ objectText members, ¬IsControl c := by
  -- the parts of a member are quoted or stand for themselves
  have hmember : ∀ m ∈ members, ∀ c ∈ memberText m, ¬IsControl c := by
    intro m hm c hc
    simp only [memberText, List.mem_cons, List.mem_append] at hc
    rcases hc with rfl | hc | rfl | rfl | hc
    · decide
    · exact ((h m hm).key c hc).1
    · decide
    · decide
    · exact (h m hm).clean c hc
  have hmembers : ∀ c ∈ List.intercalate [44] (members.map memberText), ¬IsControl c := by
    clear h
    induction members with
    | nil => exact fun c hc => absurd hc List.not_mem_nil
    | cons m members ih =>
      obtain ⟨hfirst, hrest⟩ := List.forall_mem_cons.mp hmember
      cases members with
      | nil => simpa using hfirst
      | cons m' members =>
        rw [List.map_cons, List.map_cons, List.intercalate_cons_cons, ← List.map_cons]
        intro c hc
        simp only [List.mem_append, List.mem_singleton] at hc
        rcases hc with (hc | rfl) | hc
        · exact hfirst c hc
        · decide
        · exact ih hrest c hc
  intro c hc
  simp only [objectText, List.mem_cons, List.mem_append, List.not_mem_nil, or_false] at hc
  rcases hc with rfl | hc | rfl
  · decide
  · exact hmembers c hc
  · decide

theorem exists_intercalate (m : Member) (members : List Member) :
    ∃ text, List.intercalate [44] ((m :: members).map memberText) = 34 :: text := by
  cases members with
  | nil => exact ⟨_, List.intercalate_singleton⟩
  | cons m' members =>
    rw [List.map_cons, List.map_cons, List.intercalate_cons_cons]
    exact ⟨_, rfl⟩

/-- Members with braces around them are read as an object. -/
theorem valueFrom_objectText (m : Member) (members : List Member) {n : Nat}
    (h : ∀ m' ∈ m :: members, Plain m'.key ∧ Reads (valueFrom n) m'.text m'.value)
    (hn : (m :: members).length ≤ n) :
    valueFrom (n + 1) (objectText (m :: members)) =
      some (.object ((m :: members).map fun m => (m.key, m.value)), []) := by
  have hitems := itemsFrom_members (m :: members) (List.cons_ne_nil _ _) h hn []
  obtain ⟨text, htext⟩ := exists_intercalate m members
  have hlist : listFrom (memberFrom (valueFrom n)) 125 n
      (List.intercalate [44] ((m :: members).map memberText) ++ [125]) =
        some ((m :: members).map fun m => (m.key, m.value), []) := by
    rw [htext] at hitems ⊢
    rw [listFrom, List.cons_append, skipSpace_cons (by decide)]
    exact hitems
  rw [objectText, valueFrom, skipSpace_cons (by decide)]
  simp only [if_neg (by decide : ¬(123 : UInt8) = 34), if_neg (by decide : ¬(123 : UInt8) = 91),
    if_pos, hlist, Option.map_some]

/-- **An object is read as its members.** -/
theorem parse_objectText (m : Member) (members : List Member)
    (h : ∀ m' ∈ m :: members, m'.Readable) :
    parse (objectText (m :: members)) =
      some (.object ((m :: members).map fun m => (m.key, m.value))) := by
  have hbound := length_le_intercalate (m :: members)
  have hread := valueFrom_objectText m members (n := (objectText (m :: members)).length)
    (fun m' hm' => ⟨(h m' hm').key, (h m' hm').text _⟩) (by
      apply hbound.trans
      simp only [objectText, List.length_cons, List.length_append]
      omega)
  rw [parse, hread]
  rfl

end Json
