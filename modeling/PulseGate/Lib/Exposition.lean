import Mathlib
import PulseGate.Lib.Decimal

/-!
# The text format of metrics

A strict reader of the text exposition format: one sample, or one line about a metric, on each
line, without comments, empty lines and time stamps.

* `parse` — the document of a text: the samples of each metric, which stand together behind the
  line with its type, and those of metrics without a type, which stand first.  No metric comes
  twice, and no two samples have the same name and labels;
* `labelValueFrom_escape` — a value of a label is read as it was, whatever bytes it has;
* `parse_render` — **round trip** of a document.
-/

namespace Exposition

/-- A reader of the first part of a text; it leaves the rest. -/
abbrev Reader (α : Type*) := List UInt8 → Option (α × List UInt8)

structure Sample where
  name : List UInt8
  labels : List (List UInt8 × List UInt8) := []
  /-- The text of its value. -/
  value : List UInt8
  deriving DecidableEq, Repr

inductive Kind
  | counter
  | gauge
  | histogram
  | summary
  | untyped
  deriving DecidableEq, Repr

inductive Line
  | help (name text : List UInt8)
  | type (name : List UInt8) (kind : Kind)
  | sample (s : Sample)
  deriving DecidableEq, Repr

/-- A metric. -/
structure Family where
  name : List UInt8
  help : Option (List UInt8) := none
  kind : Kind
  samples : List Sample
  deriving DecidableEq, Repr

structure Document where
  /-- The samples of metrics without a type. -/
  untyped : List Sample
  families : List Family
  deriving DecidableEq, Repr

/-! ### Names -/

def isNameStart (c : UInt8) : Bool :=
  (65 ≤ c && c ≤ 90) || (97 ≤ c && c ≤ 122) || c = 95 || c = 58

def isNameChar (c : UInt8) : Bool := isNameStart c || (48 ≤ c && c ≤ 57)

/-- A name of a metric. -/
def IsName (name : List UInt8) : Prop :=
  name.head?.any isNameStart = true ∧ name.all isNameChar = true

/-- The names of labels have no colons. -/
def IsLabelName (name : List UInt8) : Prop := IsName name ∧ 58 ∉ name

instance decidableIsName (name : List UInt8) : Decidable (IsName name) :=
  inferInstanceAs (Decidable (_ ∧ _))

instance decidableIsLabelName (name : List UInt8) : Decidable (IsLabelName name) :=
  inferInstanceAs (Decidable (_ ∧ _))

def nameFrom : Reader (List UInt8) := fun text =>
  let name := text.takeWhile isNameChar
  if name.head?.any isNameStart then some (name, text.dropWhile isNameChar) else none

/-! ### Labels -/

/-- How a character of a value is written. -/
def escape (c : UInt8) : List UInt8 :=
  if c = 34 then [92, 34] else if c = 92 then [92, 92] else if c = 10 then [92, 110] else [c]

/-- The character of an escape. -/
def escapeValue (c : UInt8) : Option UInt8 :=
  if c = 34 ∨ c = 92 then some c else if c = 110 then some 10 else none

/-- The rest of a value, behind its opening quote or in it. -/
def labelValueFrom : Reader (List UInt8)
  | [] => none
  | c :: rest =>
    if c = 34 then some ([], rest)
    else if c ≠ 92 then (labelValueFrom rest).map fun r => (c :: r.1, r.2)
    else
      match rest with
      | [] => none
      | e :: rest =>
        (escapeValue e).bind fun c => (labelValueFrom rest).map fun r => (c :: r.1, r.2)

def labelFrom : Reader (List UInt8 × List UInt8) := fun text =>
  (nameFrom text).bind fun (name, text) =>
    match text with
    | 61 :: 34 :: text =>
      if 58 ∈ name then none else (labelValueFrom text).map fun r => ((name, r.1), r.2)
    | _ => none

/-- Labels with commas between them and a brace after them, at most `n`. -/
def labelsFrom : Nat → Reader (List (List UInt8 × List UInt8))
  | 0, _ => none
  | n + 1, text =>
    (labelFrom text).bind fun (label, text) =>
      match text with
      | 44 :: text => (labelsFrom n text).map fun r => (label :: r.1, r.2)
      | 125 :: text => some ([label], text)
      | _ => none

/-! ### Lines -/

def helpWord : List UInt8 := [35, 32, 72, 69, 76, 80, 32]
def typeWord : List UInt8 := [35, 32, 84, 89, 80, 69, 32]

def Kind.text : Kind → List UInt8
  | counter => [99, 111, 117, 110, 116, 101, 114]
  | gauge => [103, 97, 117, 103, 101]
  | histogram => [104, 105, 115, 116, 111, 103, 114, 97, 109]
  | summary => [115, 117, 109, 109, 97, 114, 121]
  | untyped => [117, 110, 116, 121, 112, 101, 100]

def kindFrom (text : List UInt8) : Option Kind :=
  [Kind.counter, .gauge, .histogram, .summary, .untyped].find? fun kind => kind.text = text

/-- How a character of a help text is written. -/
def escapeHelp (c : UInt8) : List UInt8 :=
  if c = 92 then [92, 92] else if c = 10 then [92, 110] else [c]

def helpFrom : List UInt8 → Option (List UInt8)
  | [] => some []
  | c :: rest =>
    if c ≠ 92 then (helpFrom rest).map fun text => c :: text
    else
      match rest with
      | [] => none
      | e :: rest =>
        if e = 92 then (helpFrom rest).map fun text => 92 :: text
        else if e = 110 then (helpFrom rest).map fun text => 10 :: text
        else none

/-- The value of a sample, at the end of its line. -/
def valueFrom : List UInt8 → Option (List UInt8)
  | 32 :: value => if value ≠ [] ∧ ∀ c ∈ value, Decimal.IsDecimal c then some value else none
  | _ => none

def sampleFrom (line : List UInt8) : Option Sample :=
  (nameFrom line).bind fun (name, rest) =>
    match rest with
    | 123 :: rest =>
      (labelsFrom rest.length rest).bind fun (labels, rest) =>
        if (labels.map (·.1)).Nodup then (valueFrom rest).map fun value => ⟨name, labels, value⟩
        else none
    | rest => (valueFrom rest).map fun value => ⟨name, [], value⟩

def lineFrom (line : List UInt8) : Option Line :=
  match helpWord.isPrefixOf? line with
  | some rest =>
    (nameFrom rest).bind fun (name, rest) =>
      match rest with
      | 32 :: text => (helpFrom text).map (.help name)
      | _ => none
  | none =>
    match typeWord.isPrefixOf? line with
    | some rest =>
      (nameFrom rest).bind fun (name, rest) =>
        match rest with
        | 32 :: text => (kindFrom text).map (.type name)
        | _ => none
    | none => (sampleFrom line).map .sample

/-- The lines of a text, of which `line` was read before.  A text ends with a line feed. -/
def linesFrom (line : List UInt8) : List UInt8 → Option (List Line)
  | [] => if line = [] then some [] else none
  | c :: text =>
    if c = 10 then (lineFrom line).bind fun l => (linesFrom [] text).map fun lines => l :: lines
    else linesFrom (line ++ [c]) text

/-! ### Documents -/

def bucketSuffix : List UInt8 := [95, 98, 117, 99, 107, 101, 116]
def sumSuffix : List UInt8 := [95, 115, 117, 109]
def countSuffix : List UInt8 := [95, 99, 111, 117, 110, 116]

/-- The names that samples of a metric may have. -/
def Kind.sampleNames (kind : Kind) (name : List UInt8) : List (List UInt8) :=
  match kind with
  | histogram => [name ++ bucketSuffix, name ++ sumSuffix, name ++ countSuffix]
  | summary => [name, name ++ sumSuffix, name ++ countSuffix]
  | _ => [name]

def Family.sampleNames (f : Family) : List (List UInt8) := f.kind.sampleNames f.name

/-- Whether a name is in a list: by the equality of names, whatever else is in scope. -/
local instance decidableMemNames (name : List UInt8) (names : List (List UInt8)) :
    Decidable (name ∈ names) :=
  decidable_of_iff (names.any fun other => decide (other = name)) (by simp)

/-- The document of the lines, from the last one on. -/
def group : List Line → Option Document
  | [] => some ⟨[], []⟩
  | .sample s :: lines => (group lines).map fun d => { d with untyped := s :: d.untyped }
  | .type name kind :: lines =>
    (group lines).bind fun d =>
      -- the samples up to the next metric are those of this one
      let f : Family := { name := name, kind := kind, samples := d.untyped }
      if ∀ s ∈ d.untyped, s.name ∈ f.sampleNames then some ⟨[], f :: d.families⟩ else none
  | .help name text :: lines =>
    (group lines).bind fun d =>
      match d with
      | ⟨[], f :: families⟩ =>
        if f.name = name ∧ f.help = none then
          some ⟨[], { f with help := some text } :: families⟩
        else none
      | _ => none

namespace Document

def samples (d : Document) : List Sample := d.untyped ++ d.families.flatMap (·.samples)

/-- No metric comes twice, and no sample. -/
structure Distinct (d : Document) : Prop where
  names : (d.families.map (·.name)).Nodup
  untyped : ∀ s ∈ d.untyped, ∀ f ∈ d.families, s.name ∉ f.sampleNames
  series : (d.samples.map fun s => (s.name, s.labels)).Nodup

instance decidableDistinct (d : Document) : Decidable d.Distinct :=
  decidable_of_iff
    ((d.families.map (·.name)).Nodup ∧ (∀ s ∈ d.untyped, ∀ f ∈ d.families, s.name ∉ f.sampleNames) ∧
      (d.samples.map fun s => (s.name, s.labels)).Nodup)
    ⟨fun h => ⟨h.1, h.2.1, h.2.2⟩, fun h => ⟨h.names, h.untyped, h.series⟩⟩

end Document

/-- The document of a text. -/
def parse (text : List UInt8) : Option Document :=
  (linesFrom [] text).bind fun lines => (group lines).filter fun d => d.Distinct

/-! ### What is written -/

def labelText (label : List UInt8 × List UInt8) : List UInt8 :=
  label.1 ++ 61 :: 34 :: (label.2.flatMap escape ++ [34])

def labelsText (labels : List (List UInt8 × List UInt8)) : List UInt8 :=
  List.intercalate [44] (labels.map labelText)

def Sample.text (s : Sample) : List UInt8 :=
  s.name ++ (if s.labels = [] then [] else 123 :: (labelsText s.labels ++ [125])) ++ 32 :: s.value

def Line.text : Line → List UInt8
  | help name text => helpWord ++ name ++ 32 :: text.flatMap escapeHelp
  | type name kind => typeWord ++ name ++ 32 :: kind.text
  | sample s => s.text

def Family.lines (f : Family) : List Line :=
  (f.help.map (.help f.name)).toList ++ .type f.name f.kind :: f.samples.map .sample

def Document.lines (d : Document) : List Line :=
  d.untyped.map .sample ++ d.families.flatMap (·.lines)

def textOfLines (lines : List Line) : List UInt8 := lines.flatMap fun line => line.text ++ [10]

def Document.render (d : Document) : List UInt8 := textOfLines d.lines

/-! ### What can be written -/

structure Sample.WellFormed (s : Sample) : Prop where
  name : IsName s.name
  labels : ∀ label ∈ s.labels, IsLabelName label.1
  distinct : (s.labels.map (·.1)).Nodup
  value : s.value ≠ [] ∧ ∀ c ∈ s.value, Decimal.IsDecimal c

structure Family.WellFormed (f : Family) : Prop where
  name : IsName f.name
  samples : ∀ s ∈ f.samples, s.WellFormed ∧ s.name ∈ f.sampleNames

structure Document.WellFormed (d : Document) : Prop where
  untyped : ∀ s ∈ d.untyped, s.WellFormed
  families : ∀ f ∈ d.families, f.WellFormed
  distinct : d.Distinct

/-! ### Names and values are read as they were written -/

variable {name : List UInt8} {rest : List UInt8}

theorem nameFrom_append (hname : IsName name) (hrest : rest.head?.any isNameChar = false) :
    nameFrom (name ++ rest) = some (name, rest) := by
  have htake : rest.takeWhile isNameChar = [] ∧ rest.dropWhile isNameChar = rest := by
    cases rest with
    | nil => exact ⟨rfl, rfl⟩
    | cons c rest =>
      have hc : isNameChar c = false := hrest
      simp [hc]
  have hall := List.all_eq_true.mp hname.2
  unfold nameFrom
  rw [List.takeWhile_append_of_pos hall, List.dropWhile_append_of_pos hall, htake.1, htake.2,
    List.append_nil]
  exact if_pos hname.1

/-- **A value of a label is read as it was.** -/
theorem labelValueFrom_escape (value rest : List UInt8) :
    labelValueFrom (value.flatMap escape ++ 34 :: rest) = some (value, rest) := by
  induction value with
  | nil =>
    rw [List.flatMap_nil, List.nil_append, labelValueFrom.eq_def]
    simp
  | cons c value ih =>
    rw [List.flatMap_cons, List.append_assoc, escape]
    split
    · next hquote =>
      rw [List.cons_append, labelValueFrom.eq_def]
      simp [escapeValue, ih, hquote]
    · split
      · next hbackslash =>
        rw [List.cons_append, labelValueFrom.eq_def]
        simp [escapeValue, ih, hbackslash]
      · split
        · next hfeed =>
          rw [List.cons_append, labelValueFrom.eq_def]
          simp [escapeValue, ih, hfeed]
        · next hquote hbackslash _ =>
          rw [List.cons_append, labelValueFrom.eq_def]
          simp [ih, hquote, hbackslash]

theorem helpFrom_escape (text : List UInt8) : helpFrom (text.flatMap escapeHelp) = some text := by
  induction text with
  | nil => rfl
  | cons c text ih =>
    rw [List.flatMap_cons, escapeHelp]
    split
    · next hbackslash =>
      rw [List.cons_append, helpFrom.eq_def]
      simp [ih, hbackslash]
    · split
      · next hfeed =>
        rw [List.cons_append, helpFrom.eq_def]
        simp [ih, hfeed]
      · next hbackslash _ =>
        rw [List.cons_append, helpFrom.eq_def]
        simp [ih, hbackslash]

theorem kindFrom_text (kind : Kind) : kindFrom kind.text = some kind := by
  cases kind <;> rfl

/-! ### Labels -/

theorem labelFrom_text {label : List UInt8 × List UInt8} (hname : IsLabelName label.1)
    (rest : List UInt8) : labelFrom (labelText label ++ rest) = some (label, rest) := by
  unfold labelFrom labelText
  rw [List.append_assoc, nameFrom_append hname.1 rfl]
  simp only [List.cons_append, Option.bind_some]
  rw [if_neg hname.2, List.append_assoc, List.singleton_append, labelValueFrom_escape]
  rfl

/-- Labels with commas between them are read one after the other. -/
theorem labelsFrom_text {labels : List (List UInt8 × List UInt8)} (hne : labels ≠ [])
    (hlabels : ∀ label ∈ labels, IsLabelName label.1) {n : Nat} (hn : labels.length ≤ n)
    (rest : List UInt8) :
    labelsFrom n (labelsText labels ++ 125 :: rest) = some (labels, rest) := by
  induction labels generalizing n with
  | nil => exact absurd rfl hne
  | cons label labels ih =>
    obtain ⟨n, rfl⟩ : ∃ k, n = k + 1 := Nat.exists_eq_add_one_of_ne_zero (by
      rw [List.length_cons] at hn
      omega)
    obtain ⟨hname, hrest⟩ := List.forall_mem_cons.mp hlabels
    cases labels with
    | nil =>
      rw [labelsText, List.map_singleton, List.intercalate_singleton, labelsFrom,
        labelFrom_text hname]
      rfl
    | cons label' labels =>
      have hnext := ih (List.cons_ne_nil _ _) hrest (n := n) (Nat.le_of_succ_le_succ hn)
      rw [labelsText, List.map_cons, List.map_cons, List.intercalate_cons_cons, List.append_assoc,
        List.append_assoc, List.singleton_append, labelsFrom, labelFrom_text hname]
      simp only [Option.bind_some]
      rw [← List.map_cons, ← labelsText, hnext]
      rfl

theorem length_le_labelsText (labels : List (List UInt8 × List UInt8)) :
    labels.length ≤ (labelsText labels).length := by
  induction labels with
  | nil => exact Nat.zero_le _
  | cons label labels ih =>
    have hlabel : 1 ≤ (labelText label).length := by
      simp only [labelText, List.length_append, List.length_cons]
      omega
    cases labels with
    | nil => simpa [labelsText] using hlabel
    | cons label' labels =>
      rw [labelsText, List.map_cons, List.map_cons, List.intercalate_cons_cons, List.length_append,
        List.length_append, ← List.map_cons, ← labelsText]
      simp only [List.length_cons] at ih ⊢
      omega

/-! ### Lines -/

theorem valueFrom_append {value : List UInt8}
    (h : value ≠ [] ∧ ∀ c ∈ value, Decimal.IsDecimal c) : valueFrom (32 :: value) = some value :=
  if_pos h

theorem sampleFrom_text {s : Sample} (h : s.WellFormed) : sampleFrom s.text = some s := by
  obtain ⟨name, labels, value⟩ := s
  obtain ⟨hname, hlabels, hdistinct, hvalue⟩ := h
  unfold sampleFrom Sample.text
  by_cases hnone : labels = []
  · subst hnone
    rw [List.append_assoc, nameFrom_append hname rfl]
    show (valueFrom (32 :: value)).map _ = _
    rw [valueFrom_append hvalue]
    rfl
  · have hlength := length_le_labelsText labels
    simp only [if_neg hnone]
    rw [List.append_assoc, nameFrom_append hname rfl]
    simp only [List.cons_append, List.append_assoc, List.nil_append, Option.bind_some]
    rw [labelsFrom_text hnone hlabels (by rw [List.length_append]; omega)]
    simp only [Option.bind_some]
    rw [if_pos hdistinct, valueFrom_append hvalue]
    rfl

theorem isPrefixOf?_append (word text : List UInt8) :
    word.isPrefixOf? (word ++ text) = some text := by
  induction word with
  | nil => rfl
  | cons c word ih => simp [List.isPrefixOf?, ih]

/-- A line that starts with a name is not about a metric. -/
theorem isPrefixOf?_name (hname : IsName name) (word text : List UInt8) :
    (35 :: word).isPrefixOf? (name ++ text) = none := by
  obtain ⟨hstart, _⟩ := hname
  cases name with
  | nil => cases hstart
  | cons c name =>
    have hc : ¬(35 : UInt8) = c := by
      rintro rfl
      have hnumber : isNameStart 35 = false := by decide
      exact Bool.noConfusion (hnumber.symm.trans hstart)
    simp [List.isPrefixOf?, hc]

/-- What a line needs to be read. -/
def Line.WellFormed : Line → Prop
  | help name _ => IsName name
  | type name _ => IsName name
  | sample s => s.WellFormed

theorem lineFrom_text {line : Line} (h : line.WellFormed) : lineFrom line.text = some line := by
  unfold lineFrom
  cases line with
  | help name text =>
    simp only [Line.text, List.append_assoc, isPrefixOf?_append]
    rw [nameFrom_append h rfl]
    simp only [Option.bind_some, helpFrom_escape, Option.map_some]
  | type name kind =>
    have hhelp : ∀ text, helpWord.isPrefixOf? (typeWord ++ text) = none := fun _ => rfl
    simp only [Line.text, List.append_assoc, hhelp, isPrefixOf?_append]
    rw [nameFrom_append h rfl]
    simp only [Option.bind_some, kindFrom_text, Option.map_some]
  | sample s =>
    have hword : ∀ word, (35 :: word).isPrefixOf? s.text = none := fun word => by
      rw [Sample.text, List.append_assoc]
      exact isPrefixOf?_name h.name _ _
    simp only [Line.text, helpWord, typeWord, hword, sampleFrom_text h, Option.map_some]

/-! ### Where a line ends -/

/-- No character of a name is a line feed. -/
theorem feed_notMem_name (hname : IsName name) : 10 ∉ name := by
  intro hmem
  exact absurd (List.all_eq_true.mp hname.2 10 hmem) (by decide)

theorem feed_notMem_flatMap {f : UInt8 → List UInt8} (hf : ∀ c, 10 ∉ f c) (text : List UInt8) :
    10 ∉ text.flatMap f := by
  intro hmem
  obtain ⟨c, _, hc⟩ := List.mem_flatMap.mp hmem
  exact hf c hc

theorem feed_notMem_escape (c : UInt8) : 10 ∉ escape c := by
  unfold escape
  split
  · decide
  · split
    · decide
    · split
      · decide
      · next hfeed => simpa [eq_comm] using hfeed

theorem feed_notMem_escapeHelp (c : UInt8) : 10 ∉ escapeHelp c := by
  unfold escapeHelp
  split
  · decide
  · split
    · decide
    · next hfeed => simpa [eq_comm] using hfeed

theorem feed_notMem_labelText {label : List UInt8 × List UInt8} (hname : IsLabelName label.1) :
    10 ∉ labelText label := by
  have hname := feed_notMem_name hname.1
  have hvalue := feed_notMem_flatMap feed_notMem_escape label.2
  intro hmem
  rcases List.mem_append.mp hmem with hmem | hmem
  · exact hname hmem
  · have hmem : 10 ∈ label.2.flatMap escape := by simpa using hmem
    exact hvalue hmem

theorem feed_notMem_labelsText {labels : List (List UInt8 × List UInt8)}
    (hlabels : ∀ label ∈ labels, IsLabelName label.1) : 10 ∉ labelsText labels := by
  induction labels with
  | nil => exact List.not_mem_nil
  | cons label labels ih =>
    obtain ⟨hlabel, hrest⟩ := List.forall_mem_cons.mp hlabels
    cases labels with
    | nil =>
      rw [labelsText, List.map_singleton, List.intercalate_singleton]
      exact feed_notMem_labelText hlabel
    | cons label' labels =>
      rw [labelsText, List.map_cons, List.map_cons, List.intercalate_cons_cons, ← List.map_cons,
        ← labelsText]
      intro hmem
      rcases List.mem_append.mp hmem with hmem | hmem
      · rcases List.mem_append.mp hmem with hmem | hmem
        · exact feed_notMem_labelText hlabel hmem
        · exact absurd hmem (by decide)
      · exact ih hrest hmem

theorem feed_notMem_text {line : Line} (h : line.WellFormed) : 10 ∉ line.text := by
  cases line with
  | help name text =>
    have hname : 10 ∉ name := feed_notMem_name h
    have htext := feed_notMem_flatMap feed_notMem_escapeHelp text
    simp [Line.text, helpWord, hname] at htext ⊢
    exact htext
  | type name kind =>
    have hname : 10 ∉ name := feed_notMem_name h
    have hkind : 10 ∉ kind.text := by cases kind <;> decide
    simp [Line.text, typeWord, hname, hkind]
  | sample s =>
    have hname := feed_notMem_name h.name
    have hlabels := feed_notMem_labelsText h.labels
    have hvalue : 10 ∉ s.value := fun hmem => absurd (h.value.2 10 hmem) (by decide)
    simp only [Line.text, Sample.text]
    split <;> simp [hname, hlabels, hvalue]

theorem linesFrom_append {line : List UInt8} (hline : 10 ∉ line) (before text : List UInt8) :
    linesFrom before (line ++ 10 :: text) =
      (lineFrom (before ++ line)).bind fun l =>
        (linesFrom [] text).map fun lines => l :: lines := by
  induction line generalizing before with
  | nil => rw [List.nil_append, linesFrom, if_pos rfl, List.append_nil]
  | cons c line ih =>
    obtain ⟨hc, hrest⟩ := not_or.mp fun h => hline (List.mem_cons.mpr h)
    rw [List.cons_append, linesFrom, if_neg fun h => hc h.symm, ih hrest, List.append_assoc]
    rfl

theorem linesFrom_text {lines : List Line} (h : ∀ line ∈ lines, line.WellFormed) :
    linesFrom [] (textOfLines lines) = some lines := by
  induction lines with
  | nil => rfl
  | cons line lines ih =>
    obtain ⟨hline, hlines⟩ := List.forall_mem_cons.mp h
    rw [textOfLines, List.flatMap_cons, List.append_assoc, List.singleton_append, ← textOfLines,
      linesFrom_append (feed_notMem_text hline), List.nil_append, lineFrom_text hline,
      Option.bind_some, ih hlines]
    rfl

/-! ### The document -/

theorem group_samples (samples : List Sample) (lines : List Line) :
    group (samples.map .sample ++ lines) =
      (group lines).map fun d => { d with untyped := samples ++ d.untyped } := by
  induction samples with
  | nil => simp
  | cons s samples ih =>
    rw [List.map_cons, List.cons_append, group, ih, Option.map_map]
    rfl

theorem group_family {f : Family} (hf : ∀ s ∈ f.samples, s.name ∈ f.sampleNames)
    {lines : List Line} {families : List Family} (h : group lines = some ⟨[], families⟩) :
    group (f.lines ++ lines) = some ⟨[], f :: families⟩ := by
  obtain ⟨name, help, kind, samples⟩ := f
  have htyped : group (.type name kind :: samples.map .sample ++ lines) =
      some ⟨[], { name := name, kind := kind, samples := samples } :: families⟩ := by
    rw [List.cons_append, group, group_samples, h, Option.map_some, Option.bind_some]
    simp only [List.append_nil]
    exact if_pos hf
  cases help with
  | none => exact htyped
  | some text =>
    show group (.help name text :: (.type name kind :: samples.map .sample ++ lines)) = _
    rw [group, htyped, Option.bind_some]
    exact if_pos ⟨rfl, rfl⟩

theorem group_families {families : List Family}
    (h : ∀ f ∈ families, ∀ s ∈ f.samples, s.name ∈ f.sampleNames) :
    group (families.flatMap (·.lines)) = some ⟨[], families⟩ := by
  induction families with
  | nil => rfl
  | cons f families ih =>
    obtain ⟨hf, hfamilies⟩ := List.forall_mem_cons.mp h
    rw [List.flatMap_cons]
    exact group_family hf (ih hfamilies)

theorem group_lines {d : Document} (h : d.WellFormed) : group d.lines = some d := by
  rw [Document.lines, group_samples,
    group_families fun f hf s hs => ((h.families f hf).samples s hs).2]
  simp

theorem wellFormed_of_mem_lines {d : Document} (h : d.WellFormed) :
    ∀ line ∈ d.lines, line.WellFormed := by
  intro line hline
  rcases List.mem_append.mp hline with hline | hline
  · obtain ⟨s, hs, rfl⟩ := List.mem_map.mp hline
    exact h.untyped s hs
  · obtain ⟨f, hf, hline⟩ := List.mem_flatMap.mp hline
    obtain ⟨hname, hsamples⟩ := h.families f hf
    rcases List.mem_append.mp hline with hline | hline
    · obtain ⟨text, _, rfl⟩ := Option.map_eq_some_iff.mp (Option.mem_toList.mp hline)
      exact hname
    · rcases List.mem_cons.mp hline with rfl | hline
      · exact hname
      · obtain ⟨s, hs, rfl⟩ := List.mem_map.mp hline
        exact (hsamples s hs).1

/-- **Round trip.** -/
theorem parse_render {d : Document} (h : d.WellFormed) : parse d.render = some d := by
  rw [parse, Document.render, linesFrom_text (wellFormed_of_mem_lines h), Option.bind_some,
    group_lines h]
  exact Option.filter_eq_some_iff.mpr ⟨rfl, decide_eq_true h.distinct⟩

/-! ### Texts in parts -/

theorem textOfLines_append (lines lines' : List Line) :
    textOfLines (lines ++ lines') = textOfLines lines ++ textOfLines lines' :=
  List.flatMap_append

/-- The lines about a metric. -/
def headerText (name : List UInt8) (help : Option (List UInt8)) (kind : Kind) : List UInt8 :=
  textOfLines ((help.map (.help name)).toList ++ [.type name kind])

def samplesText (samples : List Sample) : List UInt8 := textOfLines (samples.map .sample)

def Family.text (f : Family) : List UInt8 :=
  headerText f.name f.help f.kind ++ samplesText f.samples

theorem textOfLines_families (families : List Family) :
    textOfLines (families.flatMap (·.lines)) = families.flatMap (·.text) := by
  have hfamily : ∀ f : Family, textOfLines f.lines = f.text := fun f => by
    rw [Family.text, headerText, samplesText, ← textOfLines_append, List.append_assoc]
    rfl
  induction families with
  | nil => rfl
  | cons f families ih =>
    rw [List.flatMap_cons, List.flatMap_cons, textOfLines_append, hfamily, ih]

theorem samplesText_append (samples samples' : List Sample) :
    samplesText (samples ++ samples') = samplesText samples ++ samplesText samples' := by
  rw [samplesText, List.map_append, textOfLines_append]
  rfl

theorem samplesText_cons (s : Sample) (samples : List Sample) :
    samplesText (s :: samples) = s.text ++ [10] ++ samplesText samples := by
  rw [samplesText, List.map_cons, textOfLines, List.flatMap_cons]
  rfl

theorem samplesText_flatMap {α : Type*} (samples : α → List Sample) (xs : List α) :
    samplesText (xs.flatMap samples) = xs.flatMap fun x => samplesText (samples x) := by
  induction xs with
  | nil => rfl
  | cons x xs ih =>
    rw [List.flatMap_cons, List.flatMap_cons, samplesText_append, ih]

theorem samplesText_map {α : Type*} (sample : α → Sample) (xs : List α) :
    samplesText (xs.map sample) = xs.flatMap fun x => (sample x).text ++ [10] := by
  rw [samplesText, textOfLines, List.map_map, List.flatMap_map]
  rfl

/-- Labels before one more. -/
theorem labelsText_concat {labels : List (List UInt8 × List UInt8)} (hne : labels ≠ [])
    (label : List UInt8 × List UInt8) :
    labelsText (labels ++ [label]) = labelsText labels ++ 44 :: labelText label := by
  induction labels with
  | nil => exact absurd rfl hne
  | cons label' labels ih =>
    cases labels with
    | nil =>
      rw [labelsText, labelsText, List.singleton_append, List.map_cons, List.map_singleton,
        List.map_singleton, List.intercalate_cons_cons, List.intercalate_singleton,
        List.intercalate_singleton, List.append_assoc]
      rfl
    | cons label'' labels =>
      have hrest := ih (List.cons_ne_nil _ _)
      simp only [labelsText, List.cons_append, List.map_cons, List.intercalate_cons_cons,
        List.append_assoc] at hrest ⊢
      rw [hrest]

/-! ### Documents whose samples are distinct -/

/-- Metrics whose samples have different names have different samples. -/
theorem Document.distinct_of {d : Document} (hnames : (d.families.map (·.name)).Nodup)
    (hmembers : ∀ f ∈ d.families, ∀ s ∈ f.samples, s.name ∈ f.sampleNames)
    (hapart : (d.families.flatMap (·.sampleNames)).Nodup)
    (huntyped : ∀ s ∈ d.untyped, ∀ f ∈ d.families, s.name ∉ f.sampleNames)
    (hfirst : (d.untyped.map fun s => (s.name, s.labels)).Nodup)
    (heach : ∀ f ∈ d.families, (f.samples.map fun s => (s.name, s.labels)).Nodup) :
    d.Distinct := by
  refine ⟨hnames, huntyped, ?_⟩
  rw [Document.samples, List.map_append, List.nodup_append]
  refine ⟨hfirst, ?_, ?_⟩
  · rw [List.map_flatMap, List.nodup_flatMap]
    refine ⟨heach, (List.nodup_flatMap.mp hapart).2.imp_of_mem fun hf hg hfg => ?_⟩
    intro x hx hx'
    obtain ⟨s, hs, rfl⟩ := List.mem_map.mp hx
    obtain ⟨s', hs', heq⟩ := List.mem_map.mp hx'
    have hname : s'.name = s.name := congrArg Prod.fst heq
    exact hfg (hmembers _ hf s hs) (hname ▸ hmembers _ hg s' hs')
  · intro x hx x' hx' heq
    obtain ⟨s, hs, rfl⟩ := List.mem_map.mp hx
    obtain ⟨s', hs', rfl⟩ := List.mem_map.mp hx'
    obtain ⟨f, hf, hs'⟩ := List.mem_flatMap.mp hs'
    have hname : s.name = s'.name := congrArg Prod.fst heq
    exact huntyped s hs f hf (hname ▸ hmembers f hf s' hs')

end Exposition
