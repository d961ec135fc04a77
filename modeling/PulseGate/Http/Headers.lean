import PulseGate.Cpp

namespace PulseGate

/-!
# Header fields

The functions of `headers.cpp`.  `Headers` keeps its entries in the order of their addition,
with names in lower case.
-/

/-- `equalsIgnoreCase`. -/
def equalsIgnoreCase (left right : Bytes) : Bool := left.map tolower == right.map tolower

/-- `isTokenCharacter`. -/
def isTokenCharacter (c : UInt8) : Bool := isalnum c || (bytes "!#$%&'*+-.^_`|~").contains c

def normalizeHeaderName (name : Bytes) : Bytes := name.map tolower

def isValidHeaderName (name : Bytes) : Bool := !name.isEmpty && name.all isTokenCharacter

def isValidHeaderValue (value : Bytes) : Bool :=
  value.all fun c => !(c == 13 || c == 10 || c == 0)

/-- The loop of `containsToken`, with the bytes of the current part that were read. -/
def containsTokenFrom (token : Bytes) (part : Bytes) : Bytes → Bool
  | [] => equalsIgnoreCase (trim part) token
  | c :: value =>
    if c = 44 then
      equalsIgnoreCase (trim part) token || (!value.isEmpty && containsTokenFrom token [] value)
    else containsTokenFrom token (part ++ [c]) value

def containsToken (value token : Bytes) : Bool :=
  !value.isEmpty && containsTokenFrom token [] value

structure Header where
  name : Bytes
  value : Bytes
  deriving DecidableEq, Repr

/-- `name: value` and the end of the line, as all serializers write a header. -/
def Header.line (h : Header) : Bytes := h.name ++ bytes ": " ++ h.value ++ crlf

structure Headers where
  entries : List Header := []
  deriving DecidableEq, Repr

namespace Headers

def add (h : Headers) (name value : Bytes) : Headers :=
  { entries := h.entries ++ [{ name := normalizeHeaderName name, value := value }] }

def erase (h : Headers) (name : Bytes) : Headers :=
  { entries := h.entries.filter (·.name ≠ normalizeHeaderName name) }

def set (h : Headers) (name value : Bytes) : Headers := (h.erase name).add name value

def get (h : Headers) (name : Bytes) : Option Bytes :=
  (h.entries.find? (·.name = normalizeHeaderName name)).map (·.value)

def contains (h : Headers) (name : Bytes) : Bool := (h.get name).isSome

def values (h : Headers) (name : Bytes) : List Bytes :=
  (h.entries.filter (·.name = normalizeHeaderName name)).map (·.value)

end Headers

/-! ### Printed numbers -/

theorem isValidHeaderValue_toChars (n : Nat) : isValidHeaderValue (toChars 10 n) = true := by
  rw [isValidHeaderValue, List.all_eq_true]
  intro c hc
  have hle := (mem_toChars (by omega) (by omega) hc).1
  have hne : c ≠ 13 ∧ c ≠ 10 ∧ c ≠ 0 := by
    refine ⟨?_, ?_, ?_⟩ <;> rintro rfl <;> exact absurd hle (by decide)
  simp [hne]

theorem isValidHeaderValue_intToString (n : Int) :
    isValidHeaderValue (intToString n) = true := by
  have hdigits := isValidHeaderValue_toChars n.natAbs
  unfold intToString
  split
  · simp only [isValidHeaderValue, List.all_cons] at hdigits ⊢
    rw [hdigits]
    decide
  · exact hdigits

/-! ### Names and values -/

/-- A header that is written and read again as it is. -/
structure Header.WellFormed (h : Header) : Prop where
  name : isValidHeaderName h.name = true
  lower : normalizeHeaderName h.name = h.name
  value : isValidHeaderValue h.value = true
  trimmed : trim h.value = h.value

theorem tolower_tolower (c : UInt8) : tolower (tolower c) = tolower c := by
  -- all 256 bytes
  have hall : ∀ n : Fin 256, tolower (tolower (UInt8.ofFin n)) = tolower (UInt8.ofFin n) := by
    decide +kernel
  exact hall c.toFin

theorem normalizeHeaderName_idem (name : Bytes) :
    normalizeHeaderName (normalizeHeaderName name) = normalizeHeaderName name := by
  simp [normalizeHeaderName, Function.comp_def, tolower_tolower]

theorem isTokenCharacter_tolower {c : UInt8} (h : isTokenCharacter c = true) :
    isTokenCharacter (tolower c) = true := by
  have hall : ∀ n : Fin 256, isTokenCharacter (UInt8.ofFin n) = true →
      isTokenCharacter (tolower (UInt8.ofFin n)) = true := by
    decide +kernel
  exact hall c.toFin h

/-- A valid name is valid in lower case. -/
theorem isValidHeaderName_normalize {name : Bytes} (h : isValidHeaderName name = true) :
    isValidHeaderName (normalizeHeaderName name) = true := by
  simp only [isValidHeaderName, normalizeHeaderName, Bool.and_eq_true, Bool.not_eq_true',
    List.isEmpty_eq_false_iff, List.all_eq_true] at h ⊢
  refine ⟨by simpa using h.1, ?_⟩
  intro c hc
  obtain ⟨d, hd, rfl⟩ := List.mem_map.mp hc
  exact isTokenCharacter_tolower (h.2 d hd)

/-- A name has no colon and no carriage return. -/
theorem ne_of_isTokenCharacter {c : UInt8} (h : isTokenCharacter c = true) : c ≠ 58 ∧ c ≠ 13 := by
  constructor <;> rintro rfl <;> exact absurd h (by decide)

theorem mem_isValidHeaderName {name : Bytes} (h : isValidHeaderName name = true) :
    ∀ c ∈ name, c ≠ 58 ∧ c ≠ 13 := by
  intro c hc
  simp only [isValidHeaderName, Bool.and_eq_true, List.all_eq_true] at h
  exact ne_of_isTokenCharacter (h.2 c hc)

/-- A value has no carriage return. -/
theorem mem_isValidHeaderValue {value : Bytes} (h : isValidHeaderValue value = true) :
    13 ∉ value := by
  intro hc
  have hvalid := List.all_eq_true.mp h 13 hc
  simp at hvalid

theorem Header.wellFormed_add {name value : Bytes} (hname : isValidHeaderName name = true)
    (hvalue : isValidHeaderValue value = true) (htrimmed : trim value = value) :
    Header.WellFormed { name := normalizeHeaderName name, value := value } :=
  ⟨isValidHeaderName_normalize hname, normalizeHeaderName_idem name, hvalue, htrimmed⟩

/-! ### Lists -/

/-- An empty member of a list is no token. -/
theorem equalsIgnoreCase_nil {token : Bytes} (htoken : token ≠ []) :
    equalsIgnoreCase (trim []) token = false := by
  have htrim : trim [] = [] := rfl
  rw [htrim]
  cases token with
  | nil => exact absurd rfl htoken
  | cons c token => rfl

theorem containsTokenFrom_iff {token : Bytes} (htoken : token ≠ []) {part : Bytes}
    (hpart : 44 ∉ part) (value : Bytes) :
    containsTokenFrom token part value = true ↔
      ∃ member ∈ (part ++ value).splitOn 44, equalsIgnoreCase (trim member) token = true := by
  induction value generalizing part with
  | nil =>
    rw [List.append_nil, List.splitOn_eq_singleton hpart]
    simp [containsTokenFrom]
  | cons c value ih =>
    by_cases hcomma : c = 44
    · -- the part ends here, and what follows the comma is read from its start
      subst hcomma
      have hsplit : (part ++ 44 :: value).splitOn 44 = part :: value.splitOn 44 := by
        rw [List.splitOn_append_cons_self, List.splitOn_eq_singleton hpart]
        rfl
      rw [hsplit, List.exists_mem_cons_iff, containsTokenFrom, if_pos rfl, Bool.or_eq_true,
        Bool.and_eq_true]
      by_cases hvalue : value = []
      · subst hvalue
        have hnil := equalsIgnoreCase_nil htoken
        simp [hnil]
      · rw [ih List.not_mem_nil, List.nil_append]
        simp [hvalue]
    · have hnext : 44 ∉ part ++ [c] := by
        simpa [hpart] using fun heq : 44 = c => hcomma heq.symm
      have hjoin : part ++ c :: value = part ++ [c] ++ value := by simp
      rw [containsTokenFrom, if_neg hcomma, ih hnext, hjoin]

/-- `containsToken` finds the tokens between the commas, whatever blanks are around them. -/
theorem containsToken_iff {token : Bytes} (htoken : token ≠ []) (value : Bytes) :
    containsToken value token = true ↔
      ∃ member ∈ value.splitOn 44, (trim member).map tolower = token.map tolower := by
  have hiff := containsTokenFrom_iff htoken List.not_mem_nil value
  rw [List.nil_append] at hiff
  simp only [equalsIgnoreCase, beq_iff_eq] at hiff
  rw [← hiff, containsToken, Bool.and_eq_true]
  refine ⟨fun h => h.2, fun h => ⟨?_, h⟩⟩
  cases value with
  | nil =>
    have hnil := equalsIgnoreCase_nil htoken
    exact absurd h (by simp [containsTokenFrom, hnil])
  | cons c value => rfl

end PulseGate
