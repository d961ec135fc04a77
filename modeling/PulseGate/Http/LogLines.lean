import PulseGate.Http.AsyncLogger
import PulseGate.Http.RequestSegments
import PulseGate.Lib.Json

namespace PulseGate

/-!
# What a line of the access log says

`AsyncLogger::format` writes a line of JSON, where `jsonEscape` has seen every string, or a line
of fields with spaces between them, where nothing is escaped.

* `spells_jsonEscape` — an escaped string is read as the string, but for control characters that
  JSON has no short escape for here;
* `format_true`, `format_false` — the lines as an object and as a list of fields;
* `log_lines_say_the_record` — the line of an entry is read as the fields of that entry, and as
  nothing else;
* `delivered_lines` — so are the lines that the sink gets.
-/

/-- The character that is read for `c`. -/
def loggedChar (c : UInt8) : UInt8 := if c < 32 ∧ c ≠ 10 ∧ c ≠ 13 ∧ c ≠ 9 then 63 else c

/-- The string that is read for `value`. -/
def logged (value : Bytes) : Bytes := value.map loggedChar

theorem spells_escapeChar (c : UInt8) : Json.Spells (escapeChar c) [loggedChar c] := by
  unfold escapeChar
  by_cases hquote : c = 34
  · subst hquote
    exact Json.spells_escape rfl
  by_cases hbackslash : c = 92
  · subst hbackslash
    exact Json.spells_escape rfl
  by_cases hfeed : c = 10
  · subst hfeed
    exact Json.spells_escape rfl
  by_cases hreturn : c = 13
  · subst hreturn
    exact Json.spells_escape rfl
  by_cases htab : c = 9
  · subst htab
    exact Json.spells_escape rfl
  simp only [if_neg hquote, if_neg hbackslash, if_neg hfeed, if_neg hreturn, if_neg htab]
  by_cases hcontrol : c < 32
  · rw [if_pos hcontrol, loggedChar, if_pos ⟨hcontrol, hfeed, hreturn, htab⟩]
    exact Json.spells_self (by decide)
  · rw [if_neg hcontrol, loggedChar, if_neg (fun h => hcontrol h.1)]
    exact Json.spells_self ⟨hcontrol, hquote, hbackslash⟩

/-- **An escaped string is read as it was**, with a question mark for what is not escaped. -/
theorem spells_jsonEscape (value : Bytes) : Json.Spells (jsonEscape value) (logged value) := by
  rw [logged, List.map_eq_flatMap]
  exact Json.Spells.flatMap spells_escapeChar value

theorem not_isControl_jsonEscape {value : Bytes} {c : UInt8} (hc : c ∈ jsonEscape value) :
    ¬Json.IsControl c := by
  obtain ⟨d, _, hescape⟩ := List.mem_flatMap.mp hc
  -- a finite table, checked whole
  have hall : ∀ k : Fin 256, ∀ c ∈ escapeChar (.ofFin k), ¬Json.IsControl c := by decide +kernel
  exact hall d.toFin c hescape

/-! ### The numbers -/

theorem digitValue_decimal : ∀ d < 10, Json.digitValue (digitChar d) = some d := by decide

theorem reads_intToString (i : Nat) (n : Int) :
    Json.Reads (Json.valueFrom (i + 1)) (intToString n) (.number n 0) := by
  unfold intToString
  split
  · next hneg =>
    have hread := Json.reads_neg digitValue_decimal i n.natAbs
    rwa [show -(n.natAbs : Int) = n by omega] at hread
  · next hpos =>
    have hread := Json.reads_nat digitValue_decimal i n.natAbs
    rwa [show (n.natAbs : Int) = n by omega] at hread

theorem mem_intToString {n : Int} {c : UInt8} (hc : c ∈ intToString n) : 45 ≤ c := by
  have hdigit : c ∈ toChars 10 n.natAbs → 45 ≤ c := fun hc =>
    UInt8.le_trans (by decide) (mem_toChars (by decide) (by decide) hc).1
  unfold intToString at hc
  split at hc
  · rcases List.mem_cons.mp hc with rfl | hc
    · decide
    · exact hdigit hc
  · exact hdigit hc

/-! ### The members of the object -/

/-- A member with a string, as `format` writes it. -/
def stringMember (key value : Bytes) : Json.Member :=
  { key := key, text := 34 :: (jsonEscape value ++ [34]), value := .string (logged value) }

def intMember (key : Bytes) (n : Int) : Json.Member :=
  { key := key, text := intToString n, value := .number n 0 }

def sizeMember (key : Bytes) (n : Nat) : Json.Member :=
  { key := key, text := toChars 10 n, value := .number n 0 }

theorem readable_stringMember {key : Bytes} (hkey : Json.Plain key) (value : Bytes) :
    (stringMember key value).Readable where
  key := hkey
  text := Json.reads_string (spells_jsonEscape value)
  clean := by
    intro c hc
    simp only [stringMember, List.mem_cons, List.mem_append, List.not_mem_nil, or_false] at hc
    rcases hc with rfl | hc | rfl
    · decide
    · exact not_isControl_jsonEscape hc
    · decide

theorem readable_intMember {key : Bytes} (hkey : Json.Plain key) (n : Int) :
    (intMember key n).Readable where
  key := hkey
  text i := reads_intToString i n
  clean _ hc := UInt8.not_lt.mpr (UInt8.le_trans (by decide) (mem_intToString hc))

theorem readable_sizeMember {key : Bytes} (hkey : Json.Plain key) (n : Nat) :
    (sizeMember key n).Readable where
  key := hkey
  text i := Json.reads_nat digitValue_decimal i n
  clean _ hc :=
    UInt8.not_lt.mpr (UInt8.le_trans (by decide) (mem_toChars (by decide) (by decide) hc).1)

/-! ### The target -/

/-- The target of a request that the parser has accepted, in whatever fragments it came. -/
def TargetAccepted (target : Bytes) : Prop :=
  ∃ (limits : HttpParserLimits) (fragments : List Bytes) (p : HttpParser) (rest : Bytes),
    HttpParser.parseFragments limits fragments = (.Complete, p, rest) ∧ p.request.target = target

/-- Such a target has no space and no control character. -/
theorem isRequestTargetValid_of_accepted {target : Bytes} (h : TargetAccepted target) :
    isRequestTargetValid target = true := by
  obtain ⟨limits, fragments, p, rest, hparse, rfl⟩ := h
  have hcuts : ¬HttpParser.CutsLine limits fragments := by
    intro hcuts
    have hresult := HttpParser.parseFragments_cut hcuts
    rw [hparse] at hresult
    cases hresult
  rw [HttpParser.parseFragments_whole hcuts] at hparse
  obtain ⟨m, hm, _, rfl⟩ := HttpParser.parse_complete hparse
  exact isRequestTargetValid_iff.mpr hm.head.target

/-! ### The lines -/

namespace RequestLog

variable {entry : RequestLog}

/-- The members of the object after the level. -/
def members (entry : RequestLog) : List Json.Member :=
  [stringMember (bytes "request_id") entry.requestId, stringMember (bytes "method") entry.method,
    stringMember (bytes "target") entry.target, intMember (bytes "status") entry.status,
    intMember (bytes "duration_us") entry.duration, sizeMember (bytes "bytes_in") entry.bytesIn,
    sizeMember (bytes "bytes_out") entry.bytesOut,
    stringMember (bytes "upstream") entry.upstream,
    stringMember (bytes "cache") entry.cacheStatus]

/-- What a line of JSON is read as. -/
def json (entry : RequestLog) : Json :=
  .object
    [(bytes "level", .string (bytes "info")),
      (bytes "request_id", .string (logged entry.requestId)),
      (bytes "method", .string (logged entry.method)),
      (bytes "target", .string (logged entry.target)), (bytes "status", .number entry.status 0),
      (bytes "duration_us", .number entry.duration 0),
      (bytes "bytes_in", .number entry.bytesIn 0), (bytes "bytes_out", .number entry.bytesOut 0),
      (bytes "upstream", .string (logged entry.upstream)),
      (bytes "cache", .string (logged entry.cacheStatus))]

/-- The fields of a line of text. -/
def fields (entry : RequestLog) : List Bytes :=
  [bytes "level=info", bytes "request_id=" ++ entry.requestId, bytes "method=" ++ entry.method,
    bytes "target=" ++ entry.target, bytes "status=" ++ intToString entry.status,
    bytes "duration_us=" ++ intToString entry.duration,
    bytes "bytes_in=" ++ toChars 10 entry.bytesIn,
    bytes "bytes_out=" ++ toChars 10 entry.bytesOut, bytes "upstream=" ++ entry.upstream,
    bytes "cache=" ++ entry.cacheStatus]

/-- **A line of JSON is an object.** -/
theorem format_true (entry : RequestLog) : entry.format true =
    Json.objectText (stringMember (bytes "level") (bytes "info") :: entry.members) := by
  -- what stands between two values ends the first one and has the key of the second
  have hopen : bytes "\x7b\"level\":\"info\",\"request_id\":\"" =
      123 :: 34 :: (bytes "level" ++ 34 :: 58 :: 34 :: (bytes "info" ++
        34 :: 44 :: 34 :: (bytes "request_id" ++ [34, 58, 34]))) := by decide
  have hmethod : bytes "\",\"method\":\"" = 34 :: 44 :: 34 :: (bytes "method" ++ [34, 58, 34]) := by
    decide
  have htarget : bytes "\",\"target\":\"" = 34 :: 44 :: 34 :: (bytes "target" ++ [34, 58, 34]) := by
    decide
  have hstatus : bytes "\",\"status\":" = 34 :: 44 :: 34 :: (bytes "status" ++ [34, 58]) := by
    decide
  have hduration : bytes ",\"duration_us\":" = 44 :: 34 :: (bytes "duration_us" ++ [34, 58]) := by
    decide
  have hbytesIn : bytes ",\"bytes_in\":" = 44 :: 34 :: (bytes "bytes_in" ++ [34, 58]) := by
    decide
  have hbytesOut : bytes ",\"bytes_out\":" = 44 :: 34 :: (bytes "bytes_out" ++ [34, 58]) := by
    decide
  have hupstream : bytes ",\"upstream\":\"" = 44 :: 34 :: (bytes "upstream" ++ [34, 58, 34]) := by
    decide
  have hcache : bytes "\",\"cache\":\"" = 34 :: 44 :: 34 :: (bytes "cache" ++ [34, 58, 34]) := by
    decide
  have hclose : bytes "\"\x7d" = [34, 125] := by decide
  have hinfo : jsonEscape (bytes "info") = bytes "info" := by decide
  simp only [format, Bool.not_true, Bool.false_eq_true, if_false, hopen, hmethod, htarget, hstatus,
    hduration, hbytesIn, hbytesOut, hupstream, hcache, hclose, members, Json.objectText,
    Json.memberText, stringMember, hinfo, intMember, sizeMember, List.map_cons, List.map_nil,
    List.intercalate_cons_cons, List.intercalate_singleton, List.append_assoc, List.cons_append,
    List.nil_append]

/-- **A line of text is the fields with spaces between them.** -/
theorem format_false (entry : RequestLog) :
    entry.format false = List.intercalate [32] entry.fields := by
  have hrequestId : bytes "level=info request_id=" =
      bytes "level=info" ++ 32 :: bytes "request_id=" := by decide
  have hmethod : bytes " method=" = 32 :: bytes "method=" := by decide
  have htarget : bytes " target=" = 32 :: bytes "target=" := by decide
  have hstatus : bytes " status=" = 32 :: bytes "status=" := by decide
  have hduration : bytes " duration_us=" = 32 :: bytes "duration_us=" := by decide
  have hbytesIn : bytes " bytes_in=" = 32 :: bytes "bytes_in=" := by decide
  have hbytesOut : bytes " bytes_out=" = 32 :: bytes "bytes_out=" := by decide
  have hupstream : bytes " upstream=" = 32 :: bytes "upstream=" := by decide
  have hcache : bytes " cache=" = 32 :: bytes "cache=" := by decide
  simp only [format, Bool.not_false, if_true, hrequestId, hmethod, htarget, hstatus, hduration,
    hbytesIn, hbytesOut, hupstream, hcache, fields, List.intercalate_cons_cons,
    List.intercalate_singleton, List.append_assoc, List.cons_append, List.nil_append]

theorem members_readable (entry : RequestLog) :
    ∀ m ∈ stringMember (bytes "level") (bytes "info") :: entry.members, m.Readable := by
  simp only [members, List.forall_mem_cons]
  exact ⟨readable_stringMember (by decide) _, readable_stringMember (by decide) _,
    readable_stringMember (by decide) _, readable_stringMember (by decide) _,
    readable_intMember (by decide) _, readable_intMember (by decide) _,
    readable_sizeMember (by decide) _, readable_sizeMember (by decide) _,
    readable_stringMember (by decide) _, readable_stringMember (by decide) _,
    fun _ h => absurd h List.not_mem_nil⟩

theorem parse_format (entry : RequestLog) : Json.parse (entry.format true) = some entry.json := by
  rw [format_true, Json.parse_objectText _ _ entry.members_readable]
  rfl

/-- The strings other than the target have no space. -/
def Spaceless (entry : RequestLog) : Prop :=
  ∀ value ∈ [entry.requestId, entry.method, entry.upstream, entry.cacheStatus], 32 ∉ value

instance decidableSpaceless (entry : RequestLog) : Decidable entry.Spaceless :=
  inferInstanceAs (Decidable (∀ value ∈ _, _))

theorem not_mem_field {key value : Bytes} (hkey : 32 ∉ key) (hvalue : 32 ∉ value) :
    32 ∉ key ++ value :=
  fun hmem => (List.mem_append.mp hmem).elim hkey hvalue

/-- No field has a space. -/
theorem not_mem_fields (htarget : 32 ∉ entry.target) (hspaceless : entry.Spaceless) :
    ∀ field ∈ entry.fields, 32 ∉ field := by
  simp only [Spaceless, List.forall_mem_cons] at hspaceless
  obtain ⟨hrequestId, hmethod, hupstream, hcache, -⟩ := hspaceless
  have hint : ∀ n : Int, 32 ∉ intToString n := fun n hmem =>
    absurd (mem_intToString hmem) (by decide)
  have hsize : ∀ n : Nat, 32 ∉ toChars 10 n := fun n hmem =>
    absurd (mem_toChars (by decide) (by decide) hmem).1 (by decide)
  simp only [fields, List.forall_mem_cons]
  exact ⟨by decide, not_mem_field (by decide) hrequestId, not_mem_field (by decide) hmethod,
    not_mem_field (by decide) htarget, not_mem_field (by decide) (hint _),
    not_mem_field (by decide) (hint _), not_mem_field (by decide) (hsize _),
    not_mem_field (by decide) (hsize _), not_mem_field (by decide) hupstream,
    not_mem_field (by decide) hcache, fun _ h => absurd h List.not_mem_nil⟩

/-- **Log lines cannot be forged.** A line of JSON has no raw control character and is read as an
    object with the values of the entry; a line of text, when its target comes from the parser and
    its other strings have no space, is split into the fields of the entry. -/
theorem log_lines_say_the_record (entry : RequestLog) :
    (∀ c ∈ entry.format true, ¬Json.IsControl c) ∧
      Json.parse (entry.format true) = some entry.json ∧
      (TargetAccepted entry.target → entry.Spaceless →
        (entry.format false).splitOn 32 = entry.fields) := by
  refine ⟨?_, entry.parse_format, fun htarget hspaceless => ?_⟩
  · rw [format_true]
    exact Json.not_isControl_objectText entry.members_readable
  · have hvalid := isRequestTargetValid_iff.mp (isRequestTargetValid_of_accepted htarget)
    have hspace : 32 ∉ entry.target := not_mem_target hvalid.2 (by decide)
    rw [format_false]
    exact List.splitOn_intercalate 32 (not_mem_fields hspace hspaceless) (List.cons_ne_nil _ _)

/-- In every run of the logger the sink gets lines that are read as their entries. -/
theorem delivered_lines {config : LoggerConfig} {s : AsyncLogger}
    (hcreate : AsyncLogger.create config = .ok s) (events : List AsyncLogger.Event) :
    Machine.Always AsyncLogger.step (fun s => ∀ x ∈ s.delivered,
      Json.parse x.2 = some x.1.json ∨ x.2 = List.intercalate [32] x.1.fields) s events := by
  apply Machine.always_of_invariant (AsyncLogger.Inv config) ?_
    (fun s e s' h hstep => h.step (AsyncLogger.moves_of_step hstep)) events
    (AsyncLogger.inv_create hcreate)
  intro s h x hx
  obtain ⟨json, htext⟩ := h.lines x hx
  cases json with
  | true => exact .inl (htext ▸ parse_format x.1)
  | false => exact .inr (htext ▸ format_false x.1)

/-- A target that would end its string and add a member. -/
def forged : RequestLog :=
  { requestId := bytes "7", method := bytes "GET", status := 200, duration := 15,
    target := bytes "/\",\"status\":500,\"x\":\"\\" }

theorem log_lines_say_the_record_forged :
    (forged.format false).splitOn 32 = forged.fields := by
  have haccepted : TargetAccepted forged.target :=
    ⟨{}, [bytes "GET /\",\"status\":500,\"x\":\"\\ HTTP/1.0\r\n", bytes "\r\n"], _, _, rfl,
      by decide +kernel⟩
  exact (log_lines_say_the_record forged).2.2 haccepted (by decide)

end RequestLog
end PulseGate
