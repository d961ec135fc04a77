import PulseGate.Path
import PulseGate.Http.HttpMessage

namespace PulseGate

/-!
# Static files

`percentDecodePath` and `mimeTypeForPath` of `file_service.cpp` and the handler of
`static_file_handler.cpp`, up to the call of `FileService::read` and from its result on.  What
the service makes of the path is not part of the model.

* `percentDecodePath_eq_some_iff` — the decoder reads exactly the encodings of strings without
  NUL and backslash;
* `exists_encodes_iff` — what has a decoding, by the places of the percent signs;
* `static_path_confined` — what the service is asked to read is below the document root.
-/

/-- `hexValue`. -/
def hexValue (value : UInt8) : Int :=
  if 48 ≤ value ∧ value ≤ 57 then value.toNat - 48
  else if 97 ≤ value ∧ value ≤ 102 then value.toNat - 97 + 10
  else if 65 ≤ value ∧ value ≤ 70 then value.toNat - 65 + 10
  else -1

/-- The character of two digits. -/
def hexCharacter (high low : UInt8) : UInt8 :=
  UInt8.ofNat ((hexValue high).toNat * 16 + (hexValue low).toNat)

/-- What the loop of `percentDecodePath` appends for a character. -/
def pushDecoded (decoded : Bytes) (character : UInt8) : Option Bytes :=
  if character = 0 ∨ character = 92 then none else some (decoded ++ [character])

/-- The loop of `percentDecodePath`, with what it decoded so far. -/
def percentDecodeFrom (decoded : Bytes) : Bytes → Option Bytes
  | [] => some decoded
  | 37 :: high :: low :: value =>
    if hexValue high < 0 ∨ hexValue low < 0 then none
    else (pushDecoded decoded (hexCharacter high low)).bind (percentDecodeFrom · value)
  | character :: value =>
    -- fewer than two characters follow a percent sign
    if character = 37 then none
    else (pushDecoded decoded character).bind (percentDecodeFrom · value)

def percentDecodePath (value : Bytes) : Option Bytes := percentDecodeFrom [] value

/-- `mimeTypeForPath`. -/
def mimeTypeForPath (path : Bytes) : Bytes :=
  let extension := (Path.extension path).map tolower
  if extension = bytes ".html" ∨ extension = bytes ".htm" then bytes "text/html; charset=utf-8"
  else if extension = bytes ".css" then bytes "text/css; charset=utf-8"
  else if extension = bytes ".js" then bytes "application/javascript"
  else if extension = bytes ".json" then bytes "application/json"
  else if extension = bytes ".txt" then bytes "text/plain; charset=utf-8"
  else if extension = bytes ".png" then bytes "image/png"
  else if extension = bytes ".jpg" ∨ extension = bytes ".jpeg" then bytes "image/jpeg"
  else bytes "application/octet-stream"

inductive FileStatus
  | Ok
  | NotFound
  | Forbidden
  | TooLarge
  | Busy
  | InternalError
  deriving DecidableEq, Repr

structure FileResult where
  status : FileStatus := .InternalError
  path : Bytes := []
  body : Bytes := []
  deriving DecidableEq, Repr

def makeStaticError (status : Int) (reason body : Bytes) : HttpResponse :=
  { statusCode := status, reason := reason, body := body,
    headers := ({} : Headers).add (bytes "Content-Type") (bytes "text/plain") }

structure StaticFileHandler where
  documentRoot : Bytes
  maximumBytes : Nat
  deriving DecidableEq, Repr

namespace StaticFileHandler

/-- The constructor, for a file service. -/
def create (documentRoot : Bytes) (maximumBytes : Nat) : Except Exception StaticFileHandler :=
  if maximumBytes = 0 then .error .InvalidArgument
  else .ok { documentRoot := documentRoot, maximumBytes := maximumBytes }

/-- What the handler does: it answers, or it reads a file and then answers. -/
inductive Action
  | respond (response : HttpResponse)
  | read (path : Bytes) (maximumBytes : Nat) (resume : FileResult → HttpResponse)

/-- What it answers to the result of the service. -/
def answer (result : FileResult) : HttpResponse :=
  match result.status with
  | .Ok =>
    { body := result.body,
      headers := ({} : Headers).add (bytes "Content-Type") (mimeTypeForPath result.path) }
  | .NotFound => makeStaticError 404 (bytes "Not Found") (bytes "not found\n")
  | .Forbidden => makeStaticError 403 (bytes "Forbidden") (bytes "forbidden\n")
  | .TooLarge =>
    makeStaticError 413 (bytes "Content Too Large") (bytes "static file too large\n")
  | .Busy => makeStaticError 503 (bytes "Service Unavailable") (bytes "file service busy\n")
  | .InternalError =>
    makeStaticError 500 (bytes "Internal Server Error") (bytes "static file error\n")

def kPrefix : Bytes := bytes "/static/"

/-- `operator()`. -/
def run (h : StaticFileHandler) (target : Bytes) : Action :=
  let path := target.takeWhile (· ≠ 63)
  if !kPrefix.isPrefixOf path then
    .respond (makeStaticError 404 (bytes "Not Found") (bytes "not found\n"))
  else
    match percentDecodePath (path.drop kPrefix.length) with
    | none => .respond (makeStaticError 403 (bytes "Forbidden") (bytes "forbidden\n"))
    | some decoded =>
      if decoded.isEmpty then
        .respond (makeStaticError 403 (bytes "Forbidden") (bytes "forbidden\n"))
      else if Path.isAbsolute decoded ∨ Path.dotDot ∈ Path.names decoded then
        .respond (makeStaticError 403 (bytes "Forbidden") (bytes "forbidden\n"))
      else
        .read (Path.join h.documentRoot (Path.lexicallyNormal decoded)) h.maximumBytes answer

end StaticFileHandler

/-! ### Percent-encodings -/

/-- Two digits of the base 16, in either case. -/
def HexDigits (high low : UInt8) : Prop := 0 ≤ hexValue high ∧ 0 ≤ hexValue low

instance (high low : UInt8) : Decidable (HexDigits high low) := inferInstanceAs (Decidable (_ ∧ _))

/-- The string is encoded by `value`: every character stands for itself, but for the percent
    sign, or is escaped. -/
inductive Encodes : Bytes → Bytes → Prop
  | nil : Encodes [] []
  | literal {character : UInt8} {value s : Bytes} (hcharacter : character ≠ 37)
      (h : Encodes value s) : Encodes (character :: value) (character :: s)
  | escaped {high low : UInt8} {value s : Bytes} (hdigits : HexDigits high low)
      (h : Encodes value s) :
      Encodes (37 :: high :: low :: value) (hexCharacter high low :: s)

/-- Every percent sign is followed by two digits. -/
def WellEscaped (value : Bytes) : Prop :=
  ∀ before after, value = before ++ 37 :: after →
    ∃ high low rest, after = high :: low :: rest ∧ HexDigits high low

/-- The value with its escapes decoded, whatever they stand for. -/
def unescape : Bytes → Bytes
  | [] => []
  | 37 :: high :: low :: value => hexCharacter high low :: unescape value
  | character :: value => character :: unescape value

variable {value s decoded : Bytes} {character high low : UInt8}

theorem unescape_of_ne (hcharacter : character ≠ 37) (value : Bytes) :
    unescape (character :: value) = character :: unescape value :=
  unescape.eq_3 character value fun _ _ _ h => absurd h hcharacter

/-- What is encoded is what the escapes are decoded to. -/
theorem Encodes.unescape_eq (h : Encodes value s) : unescape value = s := by
  induction h with
  | nil => rfl
  | literal hcharacter _ ih => rw [unescape_of_ne hcharacter, ih]
  | escaped _ _ ih => rw [unescape, ih]

/-! ### What has a decoding -/

theorem not_hexDigit_percent : ¬ 0 ≤ hexValue 37 := by decide

theorem WellEscaped.tail (h : WellEscaped (character :: value)) : WellEscaped value :=
  fun before after heq => h (character :: before) after (by rw [heq, List.cons_append])

/-- A percent sign has its two digits, and the rest is escaped well. -/
theorem wellEscaped_escape_iff :
    WellEscaped (37 :: high :: low :: value) ↔ HexDigits high low ∧ WellEscaped value := by
  constructor
  · intro h
    obtain ⟨high', low', rest, heq, hdigits⟩ := h [] (high :: low :: value) rfl
    obtain ⟨rfl, hrest⟩ := List.cons.inj heq
    obtain ⟨rfl, -⟩ := List.cons.inj hrest
    exact ⟨hdigits, h.tail.tail.tail⟩
  · rintro ⟨hdigits, h⟩ before after heq
    -- a digit is no percent sign
    have hhigh : high ≠ 37 := fun hh => not_hexDigit_percent (hh ▸ hdigits.1)
    have hlow : low ≠ 37 := fun hl => not_hexDigit_percent (hl ▸ hdigits.2)
    rcases before with _ | ⟨c, _ | ⟨c', _ | ⟨c'', before⟩⟩⟩
    · exact ⟨high, low, value, (List.cons.inj heq).2.symm, hdigits⟩
    · exact absurd (List.cons.inj (List.cons.inj heq).2).1 hhigh
    · exact absurd (List.cons.inj (List.cons.inj (List.cons.inj heq).2).2).1 hlow
    · exact h before after (List.cons.inj (List.cons.inj (List.cons.inj heq).2).2).2

theorem wellEscaped_literal_iff (hcharacter : character ≠ 37) :
    WellEscaped (character :: value) ↔ WellEscaped value := by
  refine ⟨WellEscaped.tail, fun h before after heq => ?_⟩
  rcases before with _ | ⟨c, before⟩
  · exact absurd (List.cons.inj heq).1 hcharacter
  · exact h before after (List.cons.inj heq).2

/-- **What has a decoding**: the values all of whose percent signs are followed by two
    digits. -/
theorem exists_encodes_iff (value : Bytes) : (∃ s, Encodes value s) ↔ WellEscaped value := by
  induction value using unescape.induct with
  | case1 =>
    refine iff_of_true ⟨[], .nil⟩ fun before after heq => ?_
    simp at heq
  | case2 high low value ih =>
    rw [wellEscaped_escape_iff, ← ih]
    constructor
    · rintro ⟨s, h⟩
      cases h with
      | literal hcharacter => exact absurd rfl hcharacter
      | escaped hdigits h => exact ⟨hdigits, _, h⟩
    · rintro ⟨hdigits, s, h⟩
      exact ⟨_, .escaped hdigits h⟩
  | case3 character value hshort ih =>
    by_cases hcharacter : character = 37
    · -- a percent sign too near the end has no two digits behind it
      subst hcharacter
      refine iff_of_false ?_ fun h => ?_
      · rintro ⟨s, h⟩
        cases h with
        | literal hcharacter => exact absurd rfl hcharacter
        | escaped => exact hshort _ _ _ rfl rfl
      · obtain ⟨high, low, rest, heq, -⟩ := h [] value rfl
        exact hshort high low rest rfl heq
    · -- any other character stands for itself
      rw [wellEscaped_literal_iff hcharacter, ← ih]
      constructor
      · rintro ⟨s, h⟩
        cases h with
        | literal _ h => exact ⟨_, h⟩
        | escaped => exact absurd rfl hcharacter
      · rintro ⟨s, h⟩
        exact ⟨_, .literal hcharacter h⟩

/-! ### The decoder -/

/-- A string without NUL and backslash. -/
def Plain (s : Bytes) : Prop := 0 ∉ s ∧ 92 ∉ s

theorem plain_cons_iff : Plain (character :: s) ↔ ¬ (character = 0 ∨ character = 92) ∧ Plain s := by
  simp only [Plain, List.mem_cons, not_or]
  constructor
  · rintro ⟨⟨h0, h0'⟩, h92, h92'⟩
    exact ⟨⟨Ne.symm h0, Ne.symm h92⟩, h0', h92'⟩
  · rintro ⟨⟨h0, h92⟩, h0', h92'⟩
    exact ⟨⟨Ne.symm h0, h0'⟩, Ne.symm h92, h92'⟩

theorem pushDecoded_bind_eq_some_iff {f : Bytes → Option Bytes} {r : Bytes} :
    (pushDecoded decoded character).bind f = some r ↔
      ¬ (character = 0 ∨ character = 92) ∧ f (decoded ++ [character]) = some r := by
  unfold pushDecoded
  split
  · next h => exact iff_of_false nofun fun hr => hr.1 h
  · next h => exact ⟨fun hr => ⟨h, hr⟩, fun hr => hr.2⟩

/-- The loop appends what the rest of the value encodes. -/
theorem percentDecodeFrom_eq_some_iff (decoded value r : Bytes) :
    percentDecodeFrom decoded value = some r ↔
      ∃ s, Encodes value s ∧ Plain s ∧ r = decoded ++ s := by
  induction value using unescape.induct generalizing decoded with
  | case1 =>
    rw [percentDecodeFrom, Option.some.injEq]
    constructor
    · rintro rfl
      exact ⟨[], .nil, ⟨List.not_mem_nil, List.not_mem_nil⟩, (List.append_nil _).symm⟩
    · rintro ⟨s, h, -, rfl⟩
      cases h
      exact (List.append_nil _).symm
  -- a percent sign with two characters behind it
  | case2 high low value ih =>
    rw [percentDecodeFrom]
    split
    · -- one of the two characters is no digit
      next hbad =>
      refine iff_of_false nofun ?_
      rintro ⟨s, h, -⟩
      cases h with
      | literal hcharacter => exact absurd rfl hcharacter
      | escaped hdigits =>
        obtain ⟨hhigh, hlow⟩ := hdigits
        omega
    · next hgood =>
      rw [pushDecoded_bind_eq_some_iff, ih]
      constructor
      · rintro ⟨hplain, s, h, hs, rfl⟩
        refine ⟨_, .escaped ⟨by omega, by omega⟩ h, plain_cons_iff.mpr ⟨hplain, hs⟩, ?_⟩
        rw [List.append_assoc, List.singleton_append]
      · rintro ⟨s, h, hs, rfl⟩
        cases h with
        | literal hcharacter => exact absurd rfl hcharacter
        | @escaped _ _ _ s _ h =>
          obtain ⟨hplain, hs⟩ := plain_cons_iff.mp hs
          exact ⟨hplain, s, h, hs, by rw [List.append_assoc, List.singleton_append]⟩
  -- any other character, or a percent sign at the end
  | case3 character value hshort ih =>
    rw [percentDecodeFrom.eq_3 decoded character value hshort]
    split
    · next hcharacter =>
      subst hcharacter
      refine iff_of_false nofun ?_
      rintro ⟨s, h, -⟩
      cases h with
      | literal hcharacter => exact absurd rfl hcharacter
      | escaped => exact hshort _ _ _ rfl rfl
    · next hcharacter =>
      rw [pushDecoded_bind_eq_some_iff, ih]
      constructor
      · rintro ⟨hplain, s, h, hs, rfl⟩
        refine ⟨_, .literal hcharacter h, plain_cons_iff.mpr ⟨hplain, hs⟩, ?_⟩
        rw [List.append_assoc, List.singleton_append]
      · rintro ⟨s, h, hs, rfl⟩
        cases h with
        | @literal _ _ s _ h =>
          obtain ⟨hplain, hs⟩ := plain_cons_iff.mp hs
          exact ⟨hplain, s, h, hs, by rw [List.append_assoc, List.singleton_append]⟩
        | escaped => exact absurd rfl hcharacter

/-- **The decoder** reads the encodings of strings without NUL and backslash. -/
theorem percentDecodePath_eq_some_iff :
    percentDecodePath value = some s ↔ Encodes value s ∧ Plain s := by
  rw [percentDecodePath, percentDecodeFrom_eq_some_iff]
  constructor
  · rintro ⟨s', h, hs, rfl⟩
    exact ⟨h, hs⟩
  · rintro ⟨h, hs⟩
    exact ⟨s, h, hs, rfl⟩

/-! ### What is read -/

theorem Plain.lexicallyNormal (hs : Plain s) (hne : s ≠ []) (h : Path.Confined s) :
    Plain (Path.lexicallyNormal s) := by
  obtain ⟨-, hmem⟩ := Path.lexicallyNormal_relative hne h
  -- the normalization adds dots and slashes only
  have hadded : ∀ c : UInt8, c ≠ 46 → c ≠ 47 → c ∉ s → c ∉ Path.lexicallyNormal s := by
    intro c hdot hslash hc hnormal
    rcases hmem c hnormal with h | h | h
    · exact hc h
    · exact hdot h
    · exact hslash h
  exact ⟨hadded 0 (by decide) (by decide) hs.1, hadded 92 (by decide) (by decide) hs.2⟩

namespace StaticFileHandler

variable {h : StaticFileHandler} {target path : Bytes} {maximumBytes : Nat}
  {resume : FileResult → HttpResponse}

/-- What the checks leave when a file is read. -/
theorem run_eq_read (hrun : h.run target = .read path maximumBytes resume) :
    ∃ value decoded, target.takeWhile (· ≠ 63) = kPrefix ++ value ∧
      percentDecodePath value = some decoded ∧ decoded ≠ [] ∧
      Path.isAbsolute decoded = false ∧ Path.dotDot ∉ Path.names decoded ∧
      path = Path.join h.documentRoot (Path.lexicallyNormal decoded) := by
  simp only [run] at hrun
  split at hrun
  · cases hrun
  next hstatic =>
  obtain ⟨value, hvalue⟩ : kPrefix <+: target.takeWhile (· ≠ 63) :=
    List.isPrefixOf_iff_prefix.mp (by simpa using hstatic)
  have hdrop : (target.takeWhile (· ≠ 63)).drop kPrefix.length = value := by
    rw [← hvalue]
    exact List.drop_left
  rw [hdrop] at hrun
  split at hrun
  · cases hrun
  next decoded hdecoded =>
  split at hrun
  · cases hrun
  next hempty =>
  split at hrun
  · cases hrun
  next hbelow =>
  obtain ⟨rfl, -, -⟩ := Action.read.inj hrun
  rw [not_or, Bool.not_eq_true] at hbelow
  exact ⟨value, decoded, hvalue.symm, hdecoded, by simpa using hempty, hbelow.1, hbelow.2, rfl⟩

end StaticFileHandler

/-- **Static paths are confined.** Whatever the target, the file service is asked for the
    document root joined with the lexical normalization of what stands encoded after `/static/`
    and before the first question mark, and this is a relative path without dot-dot, NUL and
    backslash.  The decoder has a value exactly where the percent signs are followed by two
    digits and neither NUL nor backslash is decoded, and it decodes every encoding. -/
theorem static_path_confined (h : StaticFileHandler) :
    (∀ target path maximumBytes resume,
      h.run target = .read path maximumBytes resume →
      ∃ value decoded, target.takeWhile (· ≠ 63) = bytes "/static/" ++ value ∧
        percentDecodePath value = some decoded ∧ unescape value = decoded ∧
        path = Path.join h.documentRoot (Path.lexicallyNormal decoded) ∧
        Path.Confined (Path.lexicallyNormal decoded) ∧ Plain (Path.lexicallyNormal decoded)) ∧
      (∀ value, (∃ s, percentDecodePath value = some s) ↔
        WellEscaped value ∧ Plain (unescape value)) ∧
      ∀ value s, Encodes value s → Plain s → percentDecodePath value = some s := by
  refine ⟨?_, ?_, ?_⟩
  · intro target path maximumBytes resume hrun
    obtain ⟨value, decoded, hvalue, hdecoded, hne, hrelative, hdots, rfl⟩ :=
      StaticFileHandler.run_eq_read hrun
    obtain ⟨hencodes, hplain⟩ := percentDecodePath_eq_some_iff.mp hdecoded
    have hconfined : Path.Confined decoded := ⟨hrelative, hdots⟩
    exact ⟨value, decoded, hvalue, hdecoded, hencodes.unescape_eq, rfl,
      (Path.lexicallyNormal_relative hne hconfined).1, hplain.lexicallyNormal hne hconfined⟩
  · intro value
    rw [← exists_encodes_iff]
    constructor
    · rintro ⟨s, hs⟩
      obtain ⟨hencodes, hplain⟩ := percentDecodePath_eq_some_iff.mp hs
      exact ⟨⟨s, hencodes⟩, hencodes.unescape_eq ▸ hplain⟩
    · rintro ⟨⟨s, hencodes⟩, hplain⟩
      exact ⟨s, percentDecodePath_eq_some_iff.mpr ⟨hencodes, hencodes.unescape_eq ▸ hplain⟩⟩
  · exact fun value s hencodes hplain => percentDecodePath_eq_some_iff.mpr ⟨hencodes, hplain⟩

/-- An escaped slash separates names like any other. -/
example : (StaticFileHandler.mk (bytes "/srv") 9).run (bytes "/static/a%2f%2E%2e/b") =
    .respond (makeStaticError 403 (bytes "Forbidden") (bytes "forbidden\n")) := by
  rfl

end PulseGate
