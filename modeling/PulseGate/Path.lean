import PulseGate.Cpp

namespace PulseGate.Path

/-!
# Paths of the file system

What the code uses of `std::filesystem::path`, on POSIX: a path is the string of its bytes, the
slash separates its names, and a slash at its start is the root directory.

* `mem_names` — a name has no slash, and is made of bytes of the path;
* `lexicallyNormal_relative` — a relative path without dot-dot becomes one of its own names;
* `dotDot_notMem_lexicallyRelative` — the way from one canonical path to another leads down exactly
  if the other starts with the one.
-/

def dot : Bytes := [46]

def dotDot : Bytes := [46, 46]

/-- The names between the slashes; the last one is empty when the path ends with a slash. -/
def names (path : Bytes) : List Bytes := path.splitOn 47

/-- `is_absolute` and `has_root_directory`. -/
def isAbsolute (path : Bytes) : Bool := path.head? = some 47

/-- `operator/`. -/
def join (left right : Bytes) : Bytes :=
  if isAbsolute right then right
  else if left.isEmpty ∨ left.getLast? = some 47 then left ++ right
  else left ++ 47 :: right

/-- What `lexically_normal` makes of one name more, after a root directory or not. -/
def normalStep (root : Bool) (kept : List Bytes) (name : Bytes) : List Bytes :=
  if name = [] ∨ name = dot then kept
  else if name = dotDot then
    if kept.isEmpty then (if root then [] else [dotDot])
    else if kept.getLast? = some dotDot then kept ++ [dotDot]
    else kept.dropLast
  else kept ++ [name]

/-- The path of the names that are kept.  A slash stays at the end, and one takes the place of
    a dot or of a dot-dot, but not after a dot-dot. -/
def normalNames (root : Bool) (names : List Bytes) : List Bytes :=
  let kept := names.foldl (normalStep root) []
  let last := names.getLast?.getD []
  if (last = [] ∨ last = dot ∨ last = dotDot) ∧ kept ≠ [] ∧ kept.getLast? ≠ some dotDot then
    kept ++ [[]]
  else kept

/-- `lexically_normal`. -/
def lexicallyNormal (path : Bytes) : Bytes :=
  if path.isEmpty then []
  else
    let normal := List.intercalate [47] (normalNames (isAbsolute path) (names path))
    let normal := if isAbsolute path then 47 :: normal else normal
    if normal.isEmpty then dot else normal

/-- `extension`: what follows the last dot of the last name, with the dot, unless the name
    starts with it. -/
def extension (path : Bytes) : Bytes :=
  let name := (names path).getLast?.getD []
  let tail := (name.reverse.takeWhile (· ≠ 46)).reverse
  if name = dot ∨ name = dotDot ∨ name.length ≤ tail.length + 1 then [] else 46 :: tail

example : lexicallyNormal (bytes "foo/.///bar/../") = bytes "foo/" := by decide +kernel

/-! ### Names -/

/-- A name has no slash, and its bytes are bytes of the path. -/
theorem mem_names {path name : Bytes} (hname : name ∈ names path) :
    47 ∉ name ∧ ∀ c ∈ name, c ∈ path := by
  unfold names at hname
  induction path generalizing name with
  | nil =>
    obtain rfl := List.mem_singleton.mp hname
    exact ⟨List.not_mem_nil, fun c hc => hc⟩
  | cons d path ih =>
    obtain ⟨first, rest, hrest⟩ := List.exists_cons_of_ne_nil (List.splitOn_ne_nil 47 path)
    rw [hrest] at ih
    have hlater : ∀ other ∈ first :: rest, 47 ∉ other ∧ ∀ c ∈ other, c ∈ d :: path :=
      fun other hother => ⟨(ih hother).1, fun c hc => List.mem_cons_of_mem d ((ih hother).2 c hc)⟩
    rw [List.splitOn_cons_eq_if_modifyHead, hrest] at hname
    split at hname
    · -- a slash ends an empty name
      rcases List.mem_cons.mp hname with rfl | hmem
      · exact ⟨List.not_mem_nil, fun c hc => absurd hc List.not_mem_nil⟩
      · exact hlater name hmem
    · next hd =>
      rcases List.mem_cons.mp hname with rfl | hmem
      · have hfirst := hlater first List.mem_cons_self
        constructor
        · simp only [List.mem_cons, not_or]
          exact ⟨fun h => hd (by simp [h]), hfirst.1⟩
        · exact List.forall_mem_cons.mpr ⟨List.mem_cons_self, hfirst.2⟩
      · exact hlater name (List.mem_cons_of_mem first hmem)

theorem mem_intercalate {ns : List Bytes} {c : UInt8} (hc : c ∈ List.intercalate [47] ns) :
    c = 47 ∨ ∃ name ∈ ns, c ∈ name := by
  induction ns with
  | nil => simp at hc
  | cons name ns ih =>
    cases ns with
    | nil =>
      refine .inr ⟨name, List.mem_cons_self, ?_⟩
      simpa using hc
    | cons next ns =>
      rw [List.intercalate_cons_cons] at hc
      rcases List.mem_append.mp hc with hc | hc
      · rcases List.mem_append.mp hc with hname | hslash
        · exact .inr ⟨name, List.mem_cons_self, hname⟩
        · exact .inl (List.mem_singleton.mp hslash)
      · refine (ih hc).imp_right ?_
        rintro ⟨other, hother, hmem⟩
        exact ⟨other, List.mem_cons_of_mem name hother, hmem⟩

/-- The path of names without slashes has these names. -/
theorem names_intercalate {ns : List Bytes} (hns : ns ≠ []) (hslash : ∀ name ∈ ns, 47 ∉ name) :
    names (List.intercalate [47] ns) = ns :=
  List.splitOn_intercalate 47 hslash hns

/-! ### Normal paths -/

/-- Without dot-dot the names that are kept are those that are not empty and no dot. -/
theorem foldl_normalStep (root : Bool) {ns : List Bytes} (hdots : dotDot ∉ ns)
    (kept : List Bytes) :
    ns.foldl (normalStep root) kept = kept ++ ns.filter fun name => name ≠ [] ∧ name ≠ dot := by
  induction ns generalizing kept with
  | nil => simp
  | cons name ns ih =>
    have hname : name ≠ dotDot := fun h => hdots (h ▸ List.mem_cons_self)
    rw [List.foldl_cons, ih fun h => hdots (List.mem_cons_of_mem name h)]
    by_cases hempty : name = [] ∨ name = dot
    · have hskip : ¬ (name ≠ [] ∧ name ≠ dot) := by
        rcases hempty with h | h <;> simp [h]
      rw [normalStep, if_pos hempty, List.filter_cons_of_neg (by simpa using hskip)]
    · rw [normalStep, if_neg hempty, if_neg hname, List.filter_cons_of_pos, List.append_assoc]
      · rfl
      · simpa [not_or] using hempty

/-- What a relative path that stays below its start looks like: its names are no dot-dot. -/
structure Confined (path : Bytes) : Prop where
  relative : isAbsolute path = false
  no_dotDot : dotDot ∉ names path

theorem confined_intercalate {first : Bytes} {ns : List Bytes} (hfirst : first ≠ [])
    (hslash : ∀ name ∈ first :: ns, 47 ∉ name) (hdots : dotDot ∉ first :: ns) :
    Confined (List.intercalate [47] (first :: ns)) where
  relative := by
    obtain ⟨c, rest, rfl⟩ := List.exists_cons_of_ne_nil hfirst
    have hc : c ≠ 47 := fun h => hslash _ List.mem_cons_self (h ▸ List.mem_cons_self)
    cases ns with
    | nil => simp [isAbsolute, hc]
    | cons next ns => simp [isAbsolute, List.intercalate_cons_cons, hc]
  no_dotDot := by
    rw [names_intercalate (List.cons_ne_nil first ns) hslash]
    exact hdots

/-- The normal path has names of the path and, at its end, an empty one for a slash. -/
theorem normalNames_of_no_dotDot (root : Bool) {ns : List Bytes} (hdots : dotDot ∉ ns) :
    normalNames root ns = [] ∨
      ∃ first rest, normalNames root ns = first :: rest ∧ first ≠ [] ∧
        ∀ name ∈ first :: rest, name ∈ ns ∨ name = [] := by
  have hkept := foldl_normalStep root hdots []
  rw [List.nil_append] at hkept
  rw [normalNames, hkept]
  rcases hfilter : ns.filter (fun name => name ≠ [] ∧ name ≠ dot) with _ | ⟨first, rest⟩
  · -- no name is kept, and a slash alone is not either
    exact .inl (by simp)
  · have hof : ∀ name ∈ first :: rest, name ∈ ns ∧ name ≠ [] := by
      intro name hname
      rw [← hfilter] at hname
      obtain ⟨hmem, hkeep⟩ := List.mem_filter.mp hname
      exact ⟨hmem, (of_decide_eq_true hkeep).1⟩
    have hfirst := (hof first List.mem_cons_self).2
    right
    split
    · refine ⟨first, rest ++ [[]], rfl, hfirst, ?_⟩
      intro name hname
      rw [← List.cons_append] at hname
      exact (List.mem_append.mp hname).imp (fun h => (hof name h).1) List.mem_singleton.mp
    · exact ⟨first, rest, rfl, hfirst, fun name hname => .inl (hof name hname).1⟩

/-- A relative path without dot-dot becomes one of its own names, or a dot. -/
theorem lexicallyNormal_relative {path : Bytes} (hne : path ≠ []) (h : Confined path) :
    Confined (lexicallyNormal path) ∧
      ∀ c ∈ lexicallyNormal path, c ∈ path ∨ c = 46 ∨ c = 47 := by
  have hempty : path.isEmpty = false := by simpa using hne
  have hnormal : lexicallyNormal path =
      if (List.intercalate [47] (normalNames false (names path))).isEmpty then dot
      else List.intercalate [47] (normalNames false (names path)) := by
    simp only [lexicallyNormal, hempty, h.relative, Bool.false_eq_true, if_false]
  have hdot : Confined dot ∧ ∀ c ∈ dot, c ∈ path ∨ c = 46 ∨ c = 47 :=
    ⟨⟨by decide, by decide⟩, fun c hc => .inr (.inl (List.mem_singleton.mp hc))⟩
  rcases normalNames_of_no_dotDot false h.no_dotDot with hnil | ⟨first, rest, hnames, hfirst, hall⟩
  · rw [hnormal, hnil]
    exact hdot
  · have hconfined : Confined (List.intercalate [47] (first :: rest)) := by
      apply confined_intercalate hfirst
      · intro name hname
        rcases hall name hname with hmem | rfl
        · exact (mem_names hmem).1
        · exact List.not_mem_nil
      · intro hdots
        rcases hall dotDot hdots with hmem | hnil
        · exact h.no_dotDot hmem
        · exact absurd hnil (by decide)
    rw [hnormal, hnames]
    split
    · exact hdot
    · refine ⟨hconfined, ?_⟩
      intro c hc
      -- a byte is a slash between the names, or a byte of one of them
      rcases mem_intercalate hc with rfl | ⟨name, hname, hmem⟩
      · exact .inr (.inr rfl)
      · rcases hall name hname with hmem' | rfl
        · exact .inl ((mem_names hmem').2 c hmem)
        · exact absurd hmem List.not_mem_nil

/-! ### Relative paths -/

/-- What an iterator over the path visits: the root directory, the names, and an empty one for a
slash at the end. -/
def elements (path : Bytes) : List Bytes :=
  let named := (names path).filter (· ≠ [])
  (if isAbsolute path then [[47]] else []) ++ named ++
    if named ≠ [] ∧ path.getLast? = some 47 then [[]] else []

/-- What follows the elements that two paths have in common. -/
def mismatch : List Bytes → List Bytes → List Bytes × List Bytes
  | a :: path, b :: base => if a = b then mismatch path base else (a :: path, b :: base)
  | path, base => (path, base)

/-- How many directories the elements go down, without those that dot-dots go up. -/
def depth (elements : List Bytes) : Int :=
  (elements.countP fun name => name ≠ [] ∧ name ≠ dot ∧ name ≠ dotDot : Nat) -
    (elements.count dotDot : Nat)

/-- The elements of `lexically_relative`, none where there is no such path. -/
def lexicallyRelative (path base : Bytes) : List Bytes :=
  if isAbsolute path ≠ isAbsolute base then []
  else
    match mismatch (elements path) (elements base) with
    | ([], []) => [dot]
    | (path, base) =>
      if depth base < 0 then []
      else if depth base = 0 ∧ (path.head?.getD []).isEmpty then [dot]
      else List.replicate (depth base).toNat dotDot ++ path

/-- A path as the file system has it: absolute, without dots and without a slash at its end. -/
structure Canonical (path : Bytes) : Prop where
  absolute : isAbsolute path = true
  named : ∀ name ∈ elements path, name ≠ [] ∧ name ≠ dot ∧ name ≠ dotDot

theorem mismatch_eq (path base : List Bytes) :
    ∃ shared, path = shared ++ (mismatch path base).1 ∧ base = shared ++ (mismatch path base).2 ∧
      ∀ a ∈ (mismatch path base).1.head?, ∀ b ∈ (mismatch path base).2.head?, a ≠ b := by
  induction path generalizing base with
  | nil => exact ⟨[], rfl, rfl, fun _ h => nomatch h⟩
  | cons a path ih =>
    cases base with
    | nil => exact ⟨[], rfl, rfl, fun _ _ _ h => nomatch h⟩
    | cons b base =>
      rw [mismatch]
      split
      · next hsame =>
        subst hsame
        obtain ⟨shared, hpath, hbase, hapart⟩ := ih base
        exact ⟨a :: shared, congrArg (a :: ·) hpath, congrArg (a :: ·) hbase, hapart⟩
      · next hne =>
        refine ⟨[], rfl, rfl, ?_⟩
        rintro _ ⟨⟩ _ ⟨⟩
        exact hne

/-- The names of a canonical path all go down. -/
theorem depth_of_named {named : List Bytes}
    (h : ∀ name ∈ named, name ≠ [] ∧ name ≠ dot ∧ name ≠ dotDot) : depth named = named.length := by
  have hcount : named.countP (fun name => name ≠ [] ∧ name ≠ dot ∧ name ≠ dotDot) = named.length :=
    List.countP_eq_length.mpr fun name hname => decide_eq_true (h name hname)
  have hdots : named.count dotDot = 0 :=
    List.count_eq_zero.mpr fun hmem => (h _ hmem).2.2 rfl
  rw [depth, hcount, hdots]
  omega

/-- **A canonical path leads down from another exactly if it starts with it.** -/
theorem dotDot_notMem_lexicallyRelative {path base : Bytes} (hpath : Canonical path)
    (hbase : Canonical base) :
    (lexicallyRelative path base ≠ [] ∧ dotDot ∉ lexicallyRelative path base) ↔
      elements base <+: elements path := by
  obtain ⟨shared, hp, hb, hapart⟩ := mismatch_eq (elements path) (elements base)
  have hnamed : ∀ name ∈ (mismatch (elements path) (elements base)).2,
      name ≠ [] ∧ name ≠ dot ∧ name ≠ dotDot := by
    intro name hname
    refine hbase.named name ?_
    rw [hb]
    exact List.mem_append_right _ hname
  have hkept : ∀ name ∈ (mismatch (elements path) (elements base)).1,
      name ≠ [] ∧ name ≠ dotDot := by
    intro name hname
    have h := hpath.named name (by rw [hp]; exact List.mem_append_right _ hname)
    exact ⟨h.1, h.2.2⟩
  have habsolute : ¬ isAbsolute path ≠ isAbsolute base := by
    rw [hpath.absolute, hbase.absolute]
    exact fun h => h rfl
  unfold lexicallyRelative
  rw [if_neg habsolute]
  generalize mismatch (elements path) (elements base) = rest at *
  obtain ⟨below, above⟩ := rest
  have hdepth := depth_of_named hnamed
  cases above with
  | nil =>
    -- nothing of the base is left
    have hprefix : elements base <+: elements path := by
      rw [hp, hb, List.append_nil]
      exact List.prefix_append _ _
    refine iff_of_true ?_ hprefix
    cases below with
    | nil => decide
    | cons a below =>
      have hne : ¬ ((a :: below).head?.getD []).isEmpty = true := by
        simpa using (hkept a List.mem_cons_self).1
      simp only [hdepth, List.length_nil, Nat.cast_zero, Int.lt_irrefl, if_false, hne,
        Bool.false_eq_true, and_false, Int.toNat_zero, List.replicate_zero, List.nil_append]
      exact ⟨List.cons_ne_nil _ _, fun hmem => (hkept _ hmem).2 rfl⟩
  | cons b above =>
    have hnot : ¬ elements base <+: elements path := by
      rintro ⟨rest, hrest⟩
      rw [hp, hb, List.append_assoc, List.append_cancel_left_eq, List.cons_append] at hrest
      rw [← hrest] at hapart
      exact hapart b rfl b rfl rfl
    -- the way down starts with a way up
    have hup : ∀ kept : List Bytes, dotDot ∈
        (if depth (b :: above) < 0 then []
          else if depth (b :: above) = 0 ∧ (kept.head?.getD []).isEmpty then [dot]
          else List.replicate (depth (b :: above)).toNat dotDot ++ kept) := by
      intro kept
      rw [hdepth, List.length_cons, if_neg (by omega), if_neg (by omega)]
      exact List.mem_append_left _ (List.mem_replicate.mpr ⟨by omega, rfl⟩)
    refine iff_of_false (fun h => h.2 ?_) hnot
    cases below with
    | nil => exact hup []
    | cons a below => exact hup (a :: below)

/-- The root directory is the first element of an absolute path, and of no other place. -/
theorem elements_of_absolute {path : Bytes} (h : isAbsolute path = true) :
    ∃ named, elements path = [47] :: named ∧ [47] ∉ named := by
  refine ⟨_, by rw [elements, if_pos h, List.append_assoc, List.singleton_append], fun hmem => ?_⟩
  rcases List.mem_append.mp hmem with hmem | hmem
  · exact (mem_names (List.mem_filter.mp hmem).1).1 List.mem_cons_self
  · split at hmem
    · exact absurd (List.mem_singleton.mp hmem) (by decide)
    · cases hmem

/-- A relative path that is found has no root directory. -/
theorem slash_notMem_lexicallyRelative {path base : Bytes} (hpath : isAbsolute path = true)
    (hbase : isAbsolute base = true) : [47] ∉ lexicallyRelative path base := by
  obtain ⟨below, helements, hslash⟩ := elements_of_absolute hpath
  obtain ⟨above, helements', -⟩ := elements_of_absolute hbase
  have hrest : ∀ name ∈ (mismatch (elements path) (elements base)).1, name ∈ below := by
    rw [helements, helements', mismatch, if_pos rfl]
    obtain ⟨shared, hshared, -⟩ := mismatch_eq below above
    exact fun name hname => hshared ▸ List.mem_append_right _ hname
  unfold lexicallyRelative
  rw [if_neg (fun h => h (hpath.trans hbase.symm))]
  generalize mismatch (elements path) (elements base) = rest at *
  intro hmem
  split at hmem
  · exact absurd (List.mem_singleton.mp hmem) (by decide)
  · split at hmem
    · cases hmem
    split at hmem
    · exact absurd (List.mem_singleton.mp hmem) (by decide)
    · rcases List.mem_append.mp hmem with hmem | hmem
      · exact absurd (List.mem_replicate.mp hmem).2 (by decide)
      · exact hslash (hrest _ hmem)

end PulseGate.Path
