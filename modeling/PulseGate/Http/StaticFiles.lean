import PulseGate.Http.FileService

namespace PulseGate

/-!
# What is served from the document root

The handler of `static_file_handler.cpp` together with the worker of `file_service.cpp`: from the
target of a request to its response, for anything that the file system answers.

* `readInWorker_ok_iff` — when a worker has a file to give, and what it gives;
* `responds_of_answered` — in a run of the file service the handler responds as it does here;
* `static_file_served` — when a request is answered with a file: the target names it below the
  document root, and so does the file system.
-/

/-- The answers of the file system are about canonical paths. -/
def FileAnswers.Canonical (answers : FileAnswers) : Prop :=
  ∀ x ∈ answers.resolved, Path.Canonical x.1 ∧ Path.Canonical x.2

/-- The file system shows a regular file below the root, of a size that is allowed, and reads
it. -/
structure FileAnswers.Shows (answers : FileAnswers) (maximumBytes : Nat)
    (candidate : Bytes) (size : Nat) (content : Bytes) : Prop where
  resolves : answers.candidate = some candidate
  below : ∃ x ∈ answers.resolved, Path.elements x.2 <+: Path.elements x.1
  found : answers.found = true
  regular : answers.foundError = false ∧ answers.regular = true
  sized : answers.size = some size
  bounded : size ≤ maximumBytes
  opened : answers.opened = true
  reads : answers.content = some content

variable {answers : FileAnswers} {maximumBytes : Nat} {candidate content : Bytes} {size : Nat}

/-- On canonical paths `isBelow` compares their elements. -/
theorem isBelow_iff (hcanonical : answers.Canonical) :
    isBelow answers.resolved = true ↔
      ∃ x ∈ answers.resolved, Path.elements x.2 <+: Path.elements x.1 := by
  unfold isBelow
  cases hresolved : answers.resolved with
  | none => exact iff_of_false Bool.false_ne_true fun ⟨_, hx, _⟩ => nomatch hx
  | some x =>
    obtain ⟨candidate, root⟩ := x
    obtain ⟨hcandidate, hroot⟩ := hcanonical (candidate, root) (by rw [hresolved]; exact rfl)
    have hiff := Path.dotDot_notMem_lexicallyRelative hcandidate hroot
    have hslash : (Path.lexicallyRelative candidate root).head? ≠ some [47] := fun hhead =>
      Path.slash_notMem_lexicallyRelative hcandidate.absolute hroot.absolute
        (List.mem_of_head? hhead)
    simp only [Option.mem_some_iff, exists_eq_left', ← hiff, hslash, or_false, List.isEmpty_iff]
    generalize Path.lexicallyRelative candidate root = relative
    by_cases hempty : relative = []
    · simp [hempty]
    · simp only [hempty, if_false, not_false_eq_true, ne_eq, true_and, List.all_eq_true,
        decide_eq_true_eq]
      exact ⟨fun h hmem => h _ hmem rfl, fun h name hname hdots => h (hdots ▸ hname)⟩

/-- **When a worker has a file to give.** -/
theorem readInWorker_ok_iff (hcanonical : answers.Canonical) {result : FileResult} :
    (readInWorker maximumBytes answers = result ∧ result.status = .Ok) ↔
      ∃ candidate size content, answers.Shows maximumBytes candidate size content ∧
        result = { status := .Ok, path := candidate,
                   body := content.take size ++ List.replicate (size - content.length) 0 } := by
  constructor
  · rintro ⟨rfl, hstatus⟩
    unfold readInWorker at hstatus ⊢
    split at hstatus
    · cases hstatus
    next candidate hcandidate =>
    split at hstatus
    · cases hstatus
    next hbelow =>
    split at hstatus
    · cases hstatus
    next hfound =>
    split at hstatus
    · cases hstatus
    next hregular =>
    split at hstatus
    · cases hstatus
    next size hsize =>
    split at hstatus
    · cases hstatus
    next hbounded =>
    split at hstatus
    · cases hstatus
    next hopened =>
    split at hstatus
    · cases hstatus
    next content hcontent =>
    refine ⟨candidate, size, content, ⟨hcandidate, ?_, ?_, ?_, hsize, ?_, ?_, hcontent⟩, ?_⟩
    · exact (isBelow_iff hcanonical).mp (by simpa using hbelow)
    · simpa using hfound
    · simpa using hregular
    · exact Nat.not_lt.mp hbounded
    · simpa using hopened
    · simp only [hbelow, hfound, hregular, hbounded, hopened, if_false]
      rfl
  · rintro ⟨candidate, size, content, hshows, rfl⟩
    obtain ⟨hcandidate, hbelow, hfound, ⟨hnoerror, hregular⟩, hsize, hbounded, hopened,
      hcontent⟩ := hshows
    have hbelow : isBelow answers.resolved = true := (isBelow_iff hcanonical).mpr hbelow
    refine ⟨?_, rfl⟩
    unfold readInWorker
    simp [hcandidate, hbelow, hfound, hnoerror, hregular, hsize, Nat.not_lt.mpr hbounded, hopened,
      hcontent]

namespace StaticFileHandler

variable {h : StaticFileHandler} {target path : Bytes}

/-- `operator()`, with a file service that lets a call in and finds this, or is busy. -/
def respond (h : StaticFileHandler) (target : Bytes) (found : Bytes → Option FileAnswers) :
    HttpResponse :=
  match h.run target with
  | .respond response => response
  | .read path maximumBytes resume =>
    match found path with
    | some answers => resume (readInWorker maximumBytes answers)
    | none => resume (fileFailure .Busy)

/-- The target names `decoded` in the document root. -/
structure Names (target decoded : Bytes) : Prop where
  encoded : ∃ value, target.takeWhile (· ≠ 63) = bytes "/static/" ++ value ∧ Encodes value decoded
  plain : Plain decoded
  nonempty : decoded ≠ []
  confined : Path.Confined decoded

/-- The path that is asked for. -/
def pathOf (h : StaticFileHandler) (decoded : Bytes) : Bytes :=
  Path.join h.documentRoot (Path.lexicallyNormal decoded)

/-- A file is read exactly for the names in the document root. -/
theorem run_of_names {decoded : Bytes} (hnames : Names target decoded) :
    h.run target = .read (h.pathOf decoded) h.maximumBytes answer := by
  obtain ⟨⟨value, hvalue, hencodes⟩, hplain, hnonempty, hrelative, hdots⟩ := hnames
  have hdecoded := percentDecodePath_eq_some_iff.mpr ⟨hencodes, hplain⟩
  have hstatic : kPrefix.isPrefixOf (bytes "/static/" ++ value) = true :=
    List.isPrefixOf_iff_prefix.mpr (List.prefix_append _ _)
  have hdrop : (bytes "/static/" ++ value).drop kPrefix.length = value := List.drop_left
  have hallowed : ¬ (Path.isAbsolute decoded = true ∨ Path.dotDot ∈ Path.names decoded) := by
    rintro (habsolute | hmem)
    · rw [hrelative] at habsolute
      cases habsolute
    · exact hdots hmem
  have hempty : decoded.isEmpty = false := by simpa using hnonempty
  unfold run
  simp only [hvalue, hstatic, hdrop, hdecoded, hempty, Bool.not_true, Bool.false_eq_true,
    if_false, hallowed, pathOf]

/-- What the handler answers without a file, by itself or for the service. -/
theorem run_cases (h : StaticFileHandler) (target : Bytes) :
    (∃ decoded, Names target decoded) ∨
      ∃ status, status ≠ .Ok ∧ h.run target = .respond (answer (fileFailure status)) := by
  cases hrun : h.run target with
  | read path maximumBytes resume =>
    obtain ⟨value, decoded, hvalue, hdecoded, hne, hrelative, hdots, -⟩ := run_eq_read hrun
    obtain ⟨hencodes, hplain⟩ := percentDecodePath_eq_some_iff.mp hdecoded
    exact .inl ⟨decoded, ⟨value, hvalue, hencodes⟩, hplain, hne, hrelative, hdots⟩
  | respond response =>
    refine .inr ?_
    simp only [run] at hrun
    split at hrun
    · exact ⟨.NotFound, by decide, congrArg Action.respond (Action.respond.inj hrun).symm⟩
    split at hrun
    · exact ⟨.Forbidden, by decide, congrArg Action.respond (Action.respond.inj hrun).symm⟩
    split at hrun
    · exact ⟨.Forbidden, by decide, congrArg Action.respond (Action.respond.inj hrun).symm⟩
    split at hrun
    · exact ⟨.Forbidden, by decide, congrArg Action.respond (Action.respond.inj hrun).symm⟩
    · cases hrun

/-- A decoding is unique, so the target names one file at most. -/
theorem Names.unique {decoded decoded' : Bytes} (hnames : Names target decoded)
    (hnames' : Names target decoded') : decoded = decoded' := by
  obtain ⟨value, hvalue, hencodes⟩ := hnames.encoded
  obtain ⟨value', hvalue', hencodes'⟩ := hnames'.encoded
  obtain rfl := List.append_cancel_left (hvalue.symm.trans hvalue')
  exact hencodes.unescape_eq.symm.trans hencodes'.unescape_eq

theorem answer_ok {result : FileResult} :
    (answer result).statusCode = 200 ↔ result.status = .Ok := by
  unfold answer
  cases result.status <;> simp [makeStaticError]

/-- What is answered without a file depends on the status alone. -/
theorem answer_error {result : FileResult} (hstatus : result.status ≠ .Ok) :
    ∃ status, status ≠ .Ok ∧ answer result = answer (fileFailure status) := by
  refine ⟨result.status, hstatus, ?_⟩
  unfold answer fileFailure
  cases hcase : result.status with
  | Ok => exact absurd hcase hstatus
  | _ => rfl

/-- **A file that is served.** The response to a target has the status 200 exactly if the target
names a relative path, in the encoding of percent signs and without dot-dot, NUL and backslash; the
service lets the call for this path in; and the file system finds it to be a regular file whose
canonical path starts with the one of the root, of no more bytes than are allowed, and reads it.
The response is then the content, in the length that the file had, with the type of its extension.
Every other response is one of five error messages. -/
theorem static_file_served (h : StaticFileHandler) (target : Bytes)
    (found : Bytes → Option FileAnswers)
    (hcanonical : ∀ path answers, found path = some answers → answers.Canonical) :
    (∀ response, h.respond target found = response ∧ response.statusCode = 200 ↔
      ∃ decoded answers candidate size content, Names target decoded ∧
        found (h.pathOf decoded) = some answers ∧
        answers.Shows h.maximumBytes candidate size content ∧
        response =
          { body := content.take size ++ List.replicate (size - content.length) 0,
            headers := ({} : Headers).add (bytes "Content-Type") (mimeTypeForPath candidate) }) ∧
      ((h.respond target found).statusCode ≠ 200 →
        ∃ status, status ≠ .Ok ∧ h.respond target found = answer (fileFailure status)) := by
  constructor
  · intro response
    constructor
    · rintro ⟨rfl, hstatus⟩
      rcases h.run_cases target with ⟨decoded, hnames⟩ | ⟨status, hne, hrun⟩
      · -- the service has the path
        rw [respond, run_of_names hnames] at hstatus ⊢
        simp only at hstatus ⊢
        cases hfound : found (h.pathOf decoded) with
        | none =>
          rw [hfound] at hstatus
          exact absurd (answer_ok.mp hstatus) nofun
        | some answers =>
          rw [hfound] at hstatus
          obtain ⟨candidate, size, content, hshows, hresult⟩ :=
            (readInWorker_ok_iff (hcanonical _ _ hfound)).mp ⟨rfl, answer_ok.mp hstatus⟩
          exact ⟨decoded, answers, candidate, size, content, hnames, hfound, hshows,
            congrArg answer hresult⟩
      · rw [respond, hrun] at hstatus
        exact absurd (answer_ok.mp hstatus) hne
    · rintro ⟨decoded, answers, candidate, size, content, hnames, hfound, hshows, rfl⟩
      have hresult := ((readInWorker_ok_iff (hcanonical _ _ hfound)).mpr
        ⟨candidate, size, content, hshows, rfl⟩).1
      refine ⟨?_, rfl⟩
      rw [respond, run_of_names hnames]
      simp only [hfound, hresult]
      rfl
  · intro hstatus
    rcases h.run_cases target with ⟨decoded, hnames⟩ | ⟨status, hne, hrun⟩
    · rw [respond, run_of_names hnames] at hstatus ⊢
      simp only at hstatus ⊢
      cases hfound : found (h.pathOf decoded) with
      | none => exact ⟨.Busy, nofun, rfl⟩
      | some answers =>
        rw [hfound] at hstatus
        exact answer_error (fun hok => hstatus (answer_ok.mpr hok))
    · exact ⟨status, hne, by rw [respond, hrun]⟩

/-- A file of three bytes, with one of two bytes in its place when it is read. -/
theorem static_file_served_shorter :
    let found : Bytes → Option FileAnswers := fun _ =>
      some { candidate := some (bytes "/srv/a.txt"),
             resolved := some (bytes "/srv/a.txt", bytes "/srv"), found := true, regular := true,
             size := some 3, opened := true, content := some (bytes "ab") }
    let response :=
      (StaticFileHandler.mk (bytes "/srv") 9).respond (bytes "/static/%61.txt?v=1") found
    response =
        { body := bytes "ab" ++ [0],
          headers := ({} : Headers).add (bytes "Content-Type")
            (mimeTypeForPath (bytes "/srv/a.txt")) } ∧
      response.statusCode = 200 := by
  intro found
  refine ((static_file_served (StaticFileHandler.mk (bytes "/srv") 9)
    (bytes "/static/%61.txt?v=1") found ?_).1 _).mpr
    ⟨bytes "a.txt", _, bytes "/srv/a.txt", 3, bytes "ab", ⟨?_, ?_, ?_, ?_⟩, rfl, ?_, rfl⟩
  · rintro path answers ⟨⟩ x ⟨⟩
    exact ⟨⟨by decide, by decide⟩, ⟨by decide, by decide⟩⟩
  · exact ⟨bytes "%61.txt", by decide, (percentDecodePath_eq_some_iff.mp (by decide)).1⟩
  · exact ⟨by decide, by decide⟩
  · decide
  · exact ⟨by decide, by decide⟩
  · exact ⟨rfl, ⟨_, rfl, by decide⟩, rfl, ⟨rfl, rfl⟩, rfl, by decide, rfl, rfl⟩

/-- The response that a run of the file service leads to. -/
theorem responds_of_answered {s : BoundedFileService} (haccounted : s.Accounted) {i : Nat}
    {r : FileRead} {result : FileResult} {resume : FileResult → HttpResponse}
    (hr : s.reads[i]? = some r) (hrun : h.run target = .read r.path r.maximumBytes resume)
    (hanswered : (i, result) ∈ s.answered) :
    ∃ found : Option FileAnswers, (∀ answers ∈ found, (i, answers) ∈ s.found) ∧
      resume result = h.respond target fun _ => found := by
  obtain ⟨other, served, hother, hstage⟩ := haccounted.answers _ hanswered
  obtain rfl := Option.some.inj (hr.symm.trans hother)
  obtain ⟨hserved, hrefused⟩ := haccounted.explained i r hr
  rw [hstage] at hserved hrefused
  unfold respond
  rw [hrun]
  cases served with
  | true =>
    obtain ⟨answers, hmem, rfl⟩ := hserved result rfl
    exact ⟨some answers, fun _ heq => Option.some.inj heq ▸ hmem, rfl⟩
  | false =>
    obtain rfl := hrefused result rfl
    exact ⟨none, fun _ heq => (nomatch heq), rfl⟩

end StaticFileHandler
end PulseGate
