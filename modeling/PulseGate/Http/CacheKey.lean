import PulseGate.Http.ResponseCacheLru
import PulseGate.Lib.UniqueDecoding

namespace PulseGate.ResponseCache

/-!
# Cache keys

* `collisionFree_iff` — the key of a request is the key of no request that a cache must tell
  apart from it exactly when, among the values of two consecutive vary headers, there is no
  empty one with the name of the second header as the next.

The fields of a key are a prefix code, so that a key stands for the list of its fields.  The
values of a vary header are groups of this list which end with an empty field, and an empty
field is a value as well.
-/

open UniqueDecoding

variable {config : ResponseCacheConfig} {c : ResponseCache} {r₁ r₂ : HttpRequest}

/-! ### The parts of a request that a key holds -/

/-- The first `Host`, in lower case. -/
def hostOf (request : HttpRequest) : Bytes :=
  lower ((request.headers.get (bytes "host")).getD [])

/-- What comes before the first question mark, `/` when nothing does. -/
def pathOf (request : HttpRequest) : Bytes :=
  let path := request.target.takeWhile (· ≠ 63)
  if path.isEmpty then bytes "/" else path

def queryOf (request : HttpRequest) : Bytes := (request.target.dropWhile (· ≠ 63)).drop 1

/-- The requests may be served the same response. -/
structure SameParts (config : ResponseCacheConfig) (r₁ r₂ : HttpRequest) : Prop where
  host : hostOf r₁ = hostOf r₂
  path : pathOf r₁ = pathOf r₂
  query : queryOf r₁ = queryOf r₂
  vary : ∀ name ∈ config.varyHeaders, r₁.headers.values name = r₂.headers.values name

/-- The fields of a key. -/
def keyFields (request : HttpRequest) (config : ResponseCacheConfig) : List Bytes :=
  bytes "http" :: hostOf request :: pathOf request :: queryOf request ::
    groups [] config.varyHeaders request.headers.values

theorem makeKey_eq (request : HttpRequest) (config : ResponseCacheConfig) :
    makeKey request config = (keyFields request config).flatMap field := by
  have hvary : (config.varyHeaders.flatMap fun header =>
      field header ++ (request.headers.values header).flatMap field ++ field []) =
      (groups [] config.varyHeaders request.headers.values).flatMap field := by
    simp [groups, List.flatMap_assoc]
  rw [makeKey, hvary]
  simp [keyFields, hostOf, pathOf, queryOf]

/-! ### Fields -/

theorem colon_notMem_toChars (n : Nat) : 58 ∉ toChars 10 n := by
  intro hmem
  obtain ⟨d, hd, heq⟩ := Numeral.mem_write (by omega) hmem
  have hall : ∀ d < 10, 58 ≠ digitChar d := by decide
  exact hall d hd heq

theorem toChars_injective {n m : Nat} (h : toChars 10 n = toChars 10 m) : n = m := by
  have hread : ∀ k, Numeral.read 10 (digitValue 10) (toChars 10 k) = some k :=
    Numeral.read_write (by omega) fun _ => digitValue_digitChar (by omega)
  exact Option.some.inj ((hread n).symm.trans (h ▸ hread m))

/-- The length in front of a value says where it ends. -/
theorem prefixCode_field : PrefixCode field where
  ne_nil value := by simp [field, bytes]
  inj a b s t h := by
    have hshape : ∀ value rest : Bytes,
        field value ++ rest = toChars 10 value.length ++ 58 :: (value ++ 124 :: rest) := by
      intro value rest
      simp [field, bytes]
    rw [hshape, hshape] at h
    have htake := congrArg (List.takeWhile (· ≠ 58)) h
    have hdrop := congrArg (List.dropWhile (· ≠ 58)) h
    rw [(takeWhile_separator (colon_notMem_toChars _) _).1,
      (takeWhile_separator (colon_notMem_toChars _) _).1] at htake
    rw [(takeWhile_separator (colon_notMem_toChars _) _).2,
      (takeWhile_separator (colon_notMem_toChars _) _).2] at hdrop
    obtain ⟨rfl, hrest⟩ := List.append_inj (List.cons.inj hdrop).2 (toChars_injective htake)
    exact ⟨rfl, (List.cons.inj hrest).2⟩

/-- Keys are the same when their fields are. -/
theorem makeKey_eq_iff :
    makeKey r₁ config = makeKey r₂ config ↔ keyFields r₁ config = keyFields r₂ config := by
  rw [makeKey_eq, makeKey_eq]
  exact ⟨prefixCode_field.flatMap_injective, fun h => by rw [h]⟩

theorem keyFields_eq_iff :
    keyFields r₁ config = keyFields r₂ config ↔
      hostOf r₁ = hostOf r₂ ∧ pathOf r₁ = pathOf r₂ ∧ queryOf r₁ = queryOf r₂ ∧
        groups [] config.varyHeaders r₁.headers.values =
          groups [] config.varyHeaders r₂.headers.values := by
  simp [keyFields]

/-! ### The vary headers of a cache -/

theorem sortUnique_eq_dedup (headers : List Bytes) :
    sortUnique headers = (headers.insertionSort (· ≤ ·)).dedup := by
  have hsorted : (headers.insertionSort (· ≤ ·)).Pairwise (· ≤ ·) :=
    List.pairwise_insertionSort _ _
  exact hsorted.destutter_eq_dedup

/-- Names in lower case, each once, and none of them empty. -/
structure NormalizedVary (names : List Bytes) : Prop where
  nodup : names.Nodup
  notMem_nil : [] ∉ names
  normalized : ∀ name ∈ names, normalizeHeaderName name = name

theorem normalizedVary_create {config : ResponseCacheConfig} (hcreate : create config = .ok c) :
    NormalizedVary c.config.varyHeaders := by
  obtain ⟨-, hvalid, rfl⟩ := create_eq_ok hcreate
  have hmem : ∀ name ∈ sortUnique (config.varyHeaders.map normalizeHeaderName),
      name ∈ config.varyHeaders.map normalizeHeaderName := by
    intro name hname
    rw [sortUnique_eq_dedup, List.mem_dedup, List.mem_insertionSort] at hname
    exact hname
  refine ⟨?_, ?_, ?_⟩
  · show (sortUnique _).Nodup
    rw [sortUnique_eq_dedup]
    exact List.nodup_dedup _
  · intro hnil
    have hname := List.all_eq_true.mp hvalid [] (hmem [] hnil)
    simp [isValidHeaderName] at hname
  · intro name hname
    obtain ⟨given, -, rfl⟩ := List.mem_map.mp (hmem name hname)
    exact normalizeHeaderName_idem given

/-! ### Requests with given values -/

/-- The request with the values of some headers replaced. -/
def withValues (request : HttpRequest) (names : List Bytes) (W : Bytes → List Bytes) :
    HttpRequest :=
  { request with
    headers.entries := request.headers.entries.filter (fun header => header.name ∉ names) ++
      names.flatMap fun name => (W name).map (Header.mk name) }

theorem filter_map_mk (name name' : Bytes) (values : List Bytes) :
    (values.map (Header.mk name')).filter (·.name = name) =
      if name' = name then values.map (Header.mk name') else [] := by
  by_cases hname : name' = name <;> simp [List.filter_map, Function.comp_def, hname]

/-- Of the headers that are added the values of a name are found. -/
theorem filter_flatMap_mk {names : List Bytes} (hnodup : names.Nodup) (W : Bytes → List Bytes)
    (name : Bytes) :
    (names.flatMap fun name => (W name).map (Header.mk name)).filter (·.name = name) =
      if name ∈ names then (W name).map (Header.mk name) else [] := by
  induction names with
  | nil => rfl
  | cons first names ih =>
    obtain ⟨hfirst, hrest⟩ := List.nodup_cons.mp hnodup
    rw [List.flatMap_cons, List.filter_append, filter_map_mk, ih hrest]
    by_cases hname : first = name
    · subst hname
      simp [hfirst]
    · simp [hname, Ne.symm hname]

theorem values_withValues {names : List Bytes} (hnames : NormalizedVary names)
    (request : HttpRequest) (W : Bytes → List Bytes) {name : Bytes}
    (hname : normalizeHeaderName name = name) :
    (withValues request names W).headers.values name =
      if name ∈ names then W name else request.headers.values name := by
  have hkept : (request.headers.entries.filter (fun header => header.name ∉ names)).filter
      (·.name = name) =
        if name ∈ names then [] else request.headers.entries.filter (·.name = name) := by
    rw [List.filter_filter]
    by_cases hmem : name ∈ names
    · rw [if_pos hmem]
      apply List.filter_eq_nil_iff.mpr
      intro header _ hheader
      simp only [Bool.and_eq_true, decide_eq_true_eq] at hheader
      exact hheader.2 (hheader.1 ▸ hmem)
    · rw [if_neg hmem]
      apply List.filter_congr
      intro header _
      by_cases heq : header.name = name <;> simp [heq, hmem]
  rw [withValues, Headers.values, Headers.values, hname]
  dsimp only
  rw [List.filter_append, filter_flatMap_mk hnames.nodup, hkept]
  by_cases hmem : name ∈ names <;> simp [hmem, Function.comp_def]

theorem get_eq_head? (headers : Headers) (name : Bytes) :
    headers.get name = (headers.values name).head? := by
  rw [Headers.get, Headers.values, List.head?_map, List.head?_filter]

/-! ### When keys collide -/

/-- Among the values of two consecutive vary headers no empty one has the name of the second
    header as the next.  For `host` there may be one, when the value behind the name is not the
    host of the request. -/
def Unambiguous (config : ResponseCacheConfig) (request : HttpRequest) : Prop :=
  ∀ before name rest, [before, name] <:+: config.varyHeaders →
    Recut [] request.headers.values before name rest →
      name = bytes "host" ∧ lower (rest.head?.getD []) ≠ hostOf request

/-- An unambiguous request has the key of no other one. -/
theorem sameParts_of_makeKey_eq (hnames : NormalizedVary config.varyHeaders)
    (hunambiguous : Unambiguous config r₁) (hkey : makeKey r₁ config = makeKey r₂ config) :
    SameParts config r₁ r₂ := by
  obtain ⟨hhost, hpath, hquery, hgroups⟩ := keyFields_eq_iff.mp (makeKey_eq_iff.mp hkey)
  refine ⟨hhost, hpath, hquery, ?_⟩
  by_contra hvary
  have hother : ∃ name ∈ config.varyHeaders,
      r₁.headers.values name ≠ r₂.headers.values name := by
    simpa using hvary
  obtain ⟨before, name, rest, hpair, hrecut, hhead⟩ :=
    exists_recut hnames.notMem_nil hnames.nodup hgroups hother
  obtain ⟨rfl, hne⟩ := hunambiguous before name rest hpair hrecut
  -- the value behind the name is the host of the other request
  rw [hhead, ← get_eq_head?] at hne
  exact hne hhost.symm

theorem makeKey_eq_of_sameParts (h : SameParts config r₁ r₂) :
    makeKey r₁ config = makeKey r₂ config := by
  apply makeKey_eq_iff.mpr
  apply keyFields_eq_iff.mpr
  refine ⟨h.host, h.path, h.query, ?_⟩
  apply List.flatMap_congr
  intro name hname
  rw [h.vary name hname]

/-- When two headers get other values, the host is the same if the first value of neither says
    another one. -/
theorem hostOf_withValues {names : List Bytes} (hnames : NormalizedVary names)
    {before name : Bytes} {left right : List Bytes} (hdistinct : before ≠ name)
    (hleft : left.head?.getD [] = (r₁.headers.values before).head?.getD [])
    (hright : name = bytes "host" → lower (right.head?.getD []) = hostOf r₁) :
    hostOf (withValues r₁ names (withPair r₁.headers.values before left name right)) =
      hostOf r₁ := by
  have hnormal : normalizeHeaderName (bytes "host") = bytes "host" := by decide
  rw [hostOf, get_eq_head?, values_withValues hnames _ _ hnormal]
  by_cases hvary : bytes "host" ∈ names
  · rw [if_pos hvary]
    by_cases hname : bytes "host" = name
    · subst hname
      rw [withPair_second, hright rfl]
    · by_cases hbefore : bytes "host" = before
      · subst hbefore
        rw [withPair_first hdistinct, hleft, ← get_eq_head?, hostOf]
      · rw [withPair_of_ne hbefore hname, ← get_eq_head?, hostOf]
  · rw [if_neg hvary, ← get_eq_head?, hostOf]

/-- A request that is ambiguous has the key of another one. -/
theorem exists_collision (hnames : NormalizedVary config.varyHeaders)
    (hambiguous : ¬ Unambiguous config r₁) :
    ∃ r₂, makeKey r₁ config = makeKey r₂ config ∧ ¬ SameParts config r₁ r₂ := by
  simp only [Unambiguous, not_forall] at hambiguous
  obtain ⟨before, name, rest, hpair, hrecut, hhost⟩ := hambiguous
  obtain ⟨left, right, hgroups, hne, hleft, hright⟩ := hrecut.exists_other hnames.nodup hpair
  -- the same bytes, cut elsewhere between the two names
  let W := withPair r₁.headers.values before left name right
  let r₂ := withValues r₁ config.varyHeaders W
  have hdistinct : before ≠ name := by simpa using hnames.nodup.sublist hpair.sublist
  have hvalues : ∀ other ∈ config.varyHeaders, r₂.headers.values other = W other := by
    intro other hother
    rw [values_withValues hnames _ _ (hnames.normalized other hother), if_pos hother]
  have hname : name ∈ config.varyHeaders := hpair.subset (by simp)
  refine ⟨r₂, ?_, ?_⟩
  · apply makeKey_eq_iff.mpr
    apply keyFields_eq_iff.mpr
    refine ⟨?_, rfl, rfl, ?_⟩
    · apply (hostOf_withValues hnames hdistinct hleft _).symm
      intro hmatch
      rw [hright]
      by_contra hne'
      exact hhost ⟨hmatch, hne'⟩
    · rw [hgroups]
      apply List.flatMap_congr
      intro other hother
      rw [hvalues other hother]
  · intro hparts
    have hsame := hparts.vary name hname
    rw [hvalues name hname, show W name = right from withPair_second] at hsame
    exact hne hsame.symm

/-- **Collisions.** In a cache of any accepted configuration, the key of a request is the key
    of the requests with the same parts alone exactly when the request is unambiguous. -/
theorem collisionFree_iff {config : ResponseCacheConfig} (hcreate : create config = .ok c)
    (r₁ : HttpRequest) :
    (∀ r₂, makeKey r₁ c.config = makeKey r₂ c.config ↔ SameParts c.config r₁ r₂) ↔
      Unambiguous c.config r₁ := by
  have hnames := normalizedVary_create hcreate
  constructor
  · intro hfree
    by_contra hambiguous
    obtain ⟨r₂, hkey, hparts⟩ := exists_collision hnames hambiguous
    exact hparts ((hfree r₂).mp hkey)
  · exact fun hunambiguous r₂ =>
      ⟨sameParts_of_makeKey_eq hnames hunambiguous, makeKey_eq_of_sameParts⟩

/-- Values that are not empty are told apart. -/
theorem unambiguous_of_notMem_nil
    (h : ∀ name ∈ config.varyHeaders, [] ∉ r₁.headers.values name) : Unambiguous config r₁ := by
  rintro before name rest hpair ⟨start, hstart⟩
  have hbefore := h before (hpair.subset (by simp))
  have hname := h name (hpair.subset (by simp))
  rcases hstart with hstart | hstart
  · exact absurd (by simp [hstart]) hbefore
  · exact absurd (by simp [hstart]) hname

/-- With one vary header or none, as in the configurations of the program itself, no keys
    collide. -/
theorem unambiguous_of_length_le_one (h : config.varyHeaders.length ≤ 1) (request : HttpRequest) :
    Unambiguous config request := by
  intro before name rest hpair
  have hlength := hpair.length_le
  simp only [List.length_cons, List.length_nil] at hlength
  omega

/-- Responses vary with two headers. -/
def twoVary : ResponseCacheConfig := { shardCount := 1, varyHeaders := [bytes "a", bytes "b"] }

def twoVaryCache : ResponseCache := { config := twoVary, shards := [{ maxBytes := 4194304 }] }

/-- A request for `/` with some headers. -/
def withHeaders (entries : List Header) : HttpRequest :=
  { method := .Get, target := bytes "/", headers := { entries := entries } }

def bothHeaders : HttpRequest := withHeaders [⟨bytes "a", bytes "1"⟩, ⟨bytes "b", bytes "2"⟩]

theorem collisionFree_bothHeaders :
    ((∀ r₂, makeKey bothHeaders twoVary = makeKey r₂ twoVary ↔
        SameParts twoVary bothHeaders r₂) ↔ Unambiguous twoVary bothHeaders) ∧
      Unambiguous twoVary bothHeaders :=
  have hcreate : create twoVary = .ok twoVaryCache := by decide +kernel
  ⟨collisionFree_iff hcreate bothHeaders, unambiguous_of_notMem_nil (by decide)⟩

/-- The header `a` has an empty value and the value `b`, or the header `b` has them. -/
theorem makeKey_collides :
    ¬ ∀ config c, create config = .ok c → ∀ r₁ r₂,
      makeKey r₁ c.config = makeKey r₂ c.config ↔ SameParts c.config r₁ r₂ := by
  intro h
  have hcreate : create twoVary = .ok twoVaryCache := by decide +kernel
  have hiff := h twoVary twoVaryCache hcreate
    (withHeaders [⟨bytes "a", []⟩, ⟨bytes "a", bytes "b"⟩])
    (withHeaders [⟨bytes "b", []⟩, ⟨bytes "b", bytes "b"⟩])
  have hsame := (hiff.mp (by decide +kernel)).vary (bytes "a") (by decide)
  exact absurd hsame (by decide)

end PulseGate.ResponseCache
