import PulseGate.Http.ConfigLoader
import PulseGate.Lib.Machine
import Mathlib.Data.List.Range

namespace PulseGate

/-!
# Reloading the configuration

`ConfigManager` of `config.cpp`: a reload goes from the strand to the worker, which loads the
file, and back to the strand, which compares what was loaded with what is published.

* `staticChanges_eq_nil_iff` — the comparison finds no difference exactly if only the logging
  differs;
* `reload_changes_logging_only` — the published snapshot and the handlers, in every run.
-/

/-! ### `ConfigManager::staticChanges` -/

/-- `==` of two `double`s. -/
def Double.equal : Double → Double → Bool
  | .finite left, .finite right => left = right
  | .infinity, .infinity => true
  | .negativeInfinity, .negativeInfinity => true
  | _, _ => false

theorem Double.equal_iff {left right : Double} :
    left.equal right = true ↔ left = right ∧ left ≠ .nan := by
  cases left <;> cases right <;> simp [Double.equal]

namespace ConfigManager

def equalRate : Option RateLimitSettings → Option RateLimitSettings → Bool
  | none, none => true
  | some left, some right =>
    left.requestsPerSecond.equal right.requestsPerSecond && left.burst.equal right.burst &&
      left.perClient = right.perClient && left.shardCount = right.shardCount &&
      left.maxKeys = right.maxKeys && left.idleTtl = right.idleTtl
  | _, _ => false

def equalCache : Option ResponseCacheConfig → Option ResponseCacheConfig → Bool
  | none, none => true
  | some left, some right =>
    left.ttl = right.ttl && left.maxEntryBytes = right.maxEntryBytes &&
      left.maxBytes = right.maxBytes && left.shardCount = right.shardCount &&
      left.varyHeaders = right.varyHeaders
  | _, _ => false

def equalRoute (left right : RouteConfig) : Bool :=
  left.pathPrefix = right.pathPrefix && left.upstream = right.upstream &&
    equalRate left.rateLimit right.rateLimit && equalCache left.cache right.cache

def equalUpstream (left right : UpstreamConfig) : Bool :=
  left.name = right.name && left.poolShards = right.poolShards &&
    left.endpoints.length = right.endpoints.length &&
    left.proxyLimits.connectTimeout = right.proxyLimits.connectTimeout &&
    left.proxyLimits.responseTimeout = right.proxyLimits.responseTimeout &&
    left.proxyLimits.poolLimits.maxConnections = right.proxyLimits.poolLimits.maxConnections &&
    (left.endpoints.zip right.endpoints).all fun e =>
      e.1.host = e.2.host && e.1.service = e.2.service

def changeIf (changed : Bool) (change : Bytes) : List Bytes := if changed then [change] else []

def serverChanges (before after : ServerConfig) : List Bytes :=
  changeIf (before.listenHost ≠ after.listenHost) (bytes "server.listen_host") ++
  changeIf (before.listenPort ≠ after.listenPort) (bytes "server.listen_port") ++
  changeIf (before.ioThreads ≠ after.ioThreads) (bytes "server.io_threads") ++
  changeIf (before.maxConnections ≠ after.maxConnections) (bytes "server.max_connections") ++
  changeIf (before.idleTimeout ≠ after.idleTimeout ∨ before.headerTimeout ≠ after.headerTimeout ∨
      before.bodyTimeout ≠ after.bodyTimeout ∨ before.gracefulShutdown ≠ after.gracefulShutdown ∨
      before.maxHeaderBytes ≠ after.maxHeaderBytes ∨ before.maxBodyBytes ≠ after.maxBodyBytes ∨
      before.outputHighWaterBytes ≠ after.outputHighWaterBytes ∨
      before.outputLowWaterBytes ≠ after.outputLowWaterBytes) (bytes "server.limits")

/-- The loop over two lists of one length. -/
def itemChanges {T : Type} (equal : T → T → Bool) (list : String) :
    Nat → List T → List T → List Bytes
  | index, left :: lefts, right :: rights =>
    changeIf (!equal left right) (Config.indexed list index) ++
      itemChanges equal list (index + 1) lefts rights
  | _, _, _ => []

def listChanges {T : Type} (equal : T → T → Bool) (list : String) (before after : List T) :
    List Bytes :=
  if before.length ≠ after.length then [bytes list] else itemChanges equal list 0 before after

def staticChanges (before after : Config) : List Bytes :=
  serverChanges before.server after.server ++
    listChanges equalRoute "routes" before.routes after.routes ++
    listChanges equalUpstream "upstreams" before.upstreams after.upstreams

/-! #### When nothing changes -/

theorem changeIf_eq_nil {changed : Bool} {change : Bytes} :
    changeIf changed change = [] ↔ changed = false := by
  cases changed <;> simp [changeIf]

theorem serverChanges_eq_nil_iff {before after : ServerConfig} :
    serverChanges before after = [] ↔ after = before := by
  simp only [serverChanges, List.append_eq_nil_iff, changeIf_eq_nil, decide_eq_false_iff_not,
    not_or, not_not]
  constructor
  · intro h
    cases before
    cases after
    simp_all
  · rintro rfl
    simp

theorem itemChanges_eq_nil_iff {T : Type} {equal : T → T → Bool} {list : String} {index : Nat}
    {before after : List T} (hlength : before.length = after.length) :
    itemChanges equal list index before after = [] ↔
      List.Forall₂ (fun left right => equal left right = true) before after := by
  induction before generalizing index after with
  | nil =>
    obtain rfl := List.eq_nil_of_length_eq_zero hlength.symm
    exact iff_of_true rfl .nil
  | cons left lefts ih =>
    cases after with
    | nil => cases hlength
    | cons right rights =>
      rw [itemChanges, List.append_eq_nil_iff, changeIf_eq_nil, List.forall₂_cons,
        ih (Nat.succ.inj hlength), Bool.not_eq_false']

theorem listChanges_eq_nil_iff {T : Type} {equal : T → T → Bool} {list : String}
    {before after : List T} : listChanges equal list before after = [] ↔
      List.Forall₂ (fun left right => equal left right = true) before after := by
  unfold listChanges
  split
  · next hlength => exact iff_of_false (List.cons_ne_nil _ _) fun h => hlength h.length_eq
  · next hlength => exact itemChanges_eq_nil_iff (not_not.mp hlength)

/-- No rate is not a number, which equals nothing. -/
def Comparable (config : Config) : Prop :=
  ∀ route ∈ config.routes, ∀ limit ∈ route.rateLimit,
    limit.requestsPerSecond ≠ .nan ∧ limit.burst ≠ .nan

theorem equalRate_iff {left right : Option RateLimitSettings} :
    equalRate left right = true ↔ right = left ∧
      ∀ limit ∈ left, limit.requestsPerSecond ≠ .nan ∧ limit.burst ≠ .nan := by
  cases left with
  | none => cases right <;> simp [equalRate]
  | some left =>
    cases right with
    | none => simp [equalRate]
    | some right =>
      cases left
      cases right
      simp only [equalRate, Bool.and_eq_true, Double.equal_iff, decide_eq_true_eq,
        Option.some.injEq, RateLimitSettings.mk.injEq, Option.mem_def, forall_eq']
      tauto

theorem equalCache_iff {left right : Option ResponseCacheConfig} :
    equalCache left right = true ↔ right = left := by
  cases left with
  | none => cases right <;> simp [equalCache]
  | some left =>
    cases right with
    | none => simp [equalCache]
    | some right =>
      cases left
      cases right
      simp only [equalCache, Bool.and_eq_true, decide_eq_true_eq, Option.some.injEq,
        ResponseCacheConfig.mk.injEq]
      tauto

theorem equalRoute_iff {left right : RouteConfig} :
    equalRoute left right = true ↔ right = left ∧ ∀ limit ∈ left.rateLimit,
      limit.requestsPerSecond ≠ .nan ∧ limit.burst ≠ .nan := by
  cases left
  cases right
  simp only [equalRoute, Bool.and_eq_true, equalRate_iff, equalCache_iff, decide_eq_true_eq,
    RouteConfig.mk.injEq]
  tauto

/-- What a file can set of an upstream is the same. -/
structure SameUpstream (left right : UpstreamConfig) : Prop where
  name : right.name = left.name
  endpoints : right.endpoints = left.endpoints
  connectTimeout : right.proxyLimits.connectTimeout = left.proxyLimits.connectTimeout
  responseTimeout : right.proxyLimits.responseTimeout = left.proxyLimits.responseTimeout
  maxConnections : right.proxyLimits.poolLimits.maxConnections =
    left.proxyLimits.poolLimits.maxConnections
  poolShards : right.poolShards = left.poolShards

theorem zip_all_eq_iff {left right : List UpstreamEndpoint} (hlength : left.length = right.length) :
    ((left.zip right).all fun e => e.1.host = e.2.host && e.1.service = e.2.service) = true ↔
      right = left := by
  induction left generalizing right with
  | nil =>
    obtain rfl := List.eq_nil_of_length_eq_zero hlength.symm
    exact iff_of_true rfl rfl
  | cons l left ih =>
    cases right with
    | nil => cases hlength
    | cons r right =>
      have hendpoint : l.host = r.host ∧ l.service = r.service ↔ r = l := by
        cases l
        cases r
        simp only [UpstreamEndpoint.mk.injEq]
        tauto
      rw [List.zip_cons_cons, List.all_cons, Bool.and_eq_true, ih (Nat.succ.inj hlength),
        Bool.and_eq_true, decide_eq_true_eq, decide_eq_true_eq, hendpoint, List.cons.injEq]

theorem equalUpstream_iff {left right : UpstreamConfig} :
    equalUpstream left right = true ↔ SameUpstream left right := by
  simp only [equalUpstream, Bool.and_eq_true, decide_eq_true_eq]
  constructor
  · rintro ⟨⟨⟨⟨⟨⟨hname, hshards⟩, hlength⟩, hconnect⟩, hresponse⟩, hmax⟩, hendpoints⟩
    exact ⟨hname.symm, (zip_all_eq_iff hlength).mp hendpoints, hconnect.symm, hresponse.symm,
      hmax.symm, hshards.symm⟩
  · intro h
    have hlength : left.endpoints.length = right.endpoints.length := by rw [h.endpoints]
    exact ⟨⟨⟨⟨⟨⟨h.name.symm, h.poolShards.symm⟩, hlength⟩, h.connectTimeout.symm⟩,
      h.responseTimeout.symm⟩, h.maxConnections.symm⟩, (zip_all_eq_iff hlength).mpr h.endpoints⟩

/-- Everything but the logging that a file can set is the same. -/
structure SameStatic (before after : Config) : Prop where
  server : after.server = before.server
  routes : after.routes = before.routes
  upstreams : List.Forall₂ SameUpstream before.upstreams after.upstreams

theorem SameUpstream.trans {u v w : UpstreamConfig} (h : SameUpstream u v)
    (h' : SameUpstream v w) : SameUpstream u w :=
  ⟨h'.name.trans h.name, h'.endpoints.trans h.endpoints,
    h'.connectTimeout.trans h.connectTimeout, h'.responseTimeout.trans h.responseTimeout,
    h'.maxConnections.trans h.maxConnections, h'.poolShards.trans h.poolShards⟩

theorem SameStatic.refl (config : Config) : SameStatic config config :=
  ⟨rfl, rfl, List.forall₂_same.mpr fun _ _ => ⟨rfl, rfl, rfl, rfl, rfl, rfl⟩⟩

theorem SameStatic.trans {a b c : Config} (h : SameStatic a b) (h' : SameStatic b c) :
    SameStatic a c := by
  refine ⟨h'.server.trans h.server, h'.routes.trans h.routes, ?_⟩
  have hmid := h.upstreams
  have hlast := h'.upstreams
  -- the induction is on the first of the two relations, over all third lists
  generalize a.upstreams = u at hmid
  generalize b.upstreams = v at hmid hlast
  generalize c.upstreams = w at hlast
  induction hmid generalizing w with
  | nil => exact hlast
  | cons hsame _ ih =>
    cases hlast with
    | cons hsame' hrest => exact .cons (hsame.trans hsame') (ih _ hrest)

theorem routes_forall₂_iff {before after : List RouteConfig} :
    List.Forall₂ (fun left right => equalRoute left right = true) before after ↔
      after = before ∧ ∀ route ∈ before, ∀ limit ∈ route.rateLimit,
        limit.requestsPerSecond ≠ .nan ∧ limit.burst ≠ .nan := by
  simp only [equalRoute_iff]
  constructor
  · intro h
    induction h with
    | nil => exact ⟨rfl, fun _ h => absurd h List.not_mem_nil⟩
    | cons hroute _ ih =>
      refine ⟨by rw [hroute.1, ih.1], List.forall_mem_cons.mpr ⟨hroute.2, ih.2⟩⟩
  · rintro ⟨rfl, hnan⟩
    exact List.forall₂_same.mpr fun route hmem => ⟨rfl, hnan route hmem⟩

/-- The comparison finds no change exactly if everything but the logging that a file can set is
    the same, and no number of the routes is a NaN. -/
theorem staticChanges_eq_nil_iff {before after : Config} :
    staticChanges before after = [] ↔ SameStatic before after ∧ Comparable before := by
  simp only [staticChanges, List.append_eq_nil_iff, serverChanges_eq_nil_iff,
    listChanges_eq_nil_iff, routes_forall₂_iff, equalUpstream_iff]
  constructor
  · rintro ⟨⟨hserver, hroutes, hnan⟩, hupstreams⟩
    exact ⟨⟨hserver, hroutes, hupstreams⟩, hnan⟩
  · rintro ⟨h, hnan⟩
    exact ⟨⟨h.server, h.routes, hnan⟩, h.upstreams⟩

/-- What a file does not set of an upstream follows from what it sets. -/
theorem SameUpstream.eq_of_derived {left right : UpstreamConfig} (h : SameUpstream left right)
    (hleft : ConfigLoader.Derived left) (hright : ConfigLoader.Derived right) : right = left := by
  have hlimits : right.proxyLimits = left.proxyLimits := by
    rw [hleft, hright, h.connectTimeout, h.responseTimeout, h.maxConnections]
  have hname := h.name
  have hendpoints := h.endpoints
  have hshards := h.poolShards
  cases left
  cases right
  simp_all

theorem eq_of_derived {left right : List UpstreamConfig}
    (h : List.Forall₂ SameUpstream left right)
    (hleft : ∀ upstream ∈ left, ConfigLoader.Derived upstream)
    (hright : ∀ upstream ∈ right, ConfigLoader.Derived upstream) : right = left := by
  induction h with
  | nil => rfl
  | cons hsame _ ih =>
    rw [List.forall_mem_cons] at hleft hright
    rw [hsame.eq_of_derived hleft.1 hright.1, ih hleft.2 hright.2]

/-- Two files with the same settings give one configuration, up to the logging. -/
theorem SameStatic.eq_of_loaded {before after : Config} (h : SameStatic before after)
    (hbefore : ConfigLoader.Loaded before) (hafter : ConfigLoader.Loaded after) :
    after = { before with logging := after.logging } := by
  have hupstreams := eq_of_derived h.upstreams hbefore.upstreams hafter.upstreams
  have hserver := h.server
  have hroutes := h.routes
  cases before
  cases after
  simp_all

end ConfigManager

/-! ### The manager -/

structure ConfigSnapshot where
  value : Config
  sourcePath : Bytes
  loadedAt : Int
  deriving DecidableEq, Repr

structure ConfigReloadResult where
  published : Bool := false
  errors : List ConfigError := []
  restartRequired : List Bytes := []
  deriving DecidableEq, Repr

/-- A call of `requestReload`; the handler may be empty. -/
structure ReloadRequest where
  number : Nat
  hasHandler : Bool
  deriving DecidableEq, Repr

/-- What is posted to the strand. -/
inductive ReloadTask
  | start (request : ReloadRequest)
  | finish (request : ReloadRequest) (result : ConfigReloadResult) (next : Option ConfigSnapshot)
  deriving DecidableEq, Repr

namespace ReloadTask

def request : ReloadTask → ReloadRequest
  | start request => request
  | finish request _ _ => request

def isFinish : ReloadTask → Bool
  | start _ => false
  | finish _ _ _ => true

/-- How many steps are left for a reload of which this is the next. -/
def weight : ReloadTask → Nat
  | start _ => 4
  | finish _ _ _ => 1

end ReloadTask

/-- A manager with its strand and its worker.  The requests, the calls of handlers, the requests
    that came to an end and the stores are kept for the statements about runs. -/
structure ConfigManager where
  path : Bytes
  snapshot : ConfigSnapshot
  reloadInProgress : Bool := false
  strand : List ReloadTask := []
  worker : List ReloadRequest := []
  /-- The request for which the worker is loading. -/
  loading : Option ReloadRequest := none
  requests : List ReloadRequest := []
  answers : List (ReloadRequest × ConfigReloadResult) := []
  finished : List (ReloadRequest × ConfigReloadResult) := []
  stored : List (ReloadRequest × ConfigSnapshot) := []
  deriving DecidableEq, Repr

/-- What can happen: a call, the next task of the strand, or the worker begins or ends a load. -/
inductive ReloadEvent
  | requestReload (hasHandler : Bool)
  | runStrand
  | beginLoad
  | endLoad (content : FileContent) (now : Int)

def ReloadEvent.isRequest : ReloadEvent → Bool
  | requestReload _ => true
  | _ => false

namespace ConfigManager

/-- `if (handler) handler(result)`. -/
def answer (s : ConfigManager) (r : ReloadRequest) (result : ConfigReloadResult) :
    ConfigManager :=
  { s with
    finished := s.finished ++ [(r, result)]
    answers := if r.hasHandler then s.answers ++ [(r, result)] else s.answers }

/-- `ConfigManager::requestReload`, up to the post to the strand. -/
def requestReload (s : ConfigManager) (hasHandler : Bool) : ConfigManager :=
  let r : ReloadRequest := ⟨s.requests.length, hasHandler⟩
  { s with requests := s.requests ++ [r], strand := s.strand ++ [.start r] }

/-- The first handler on the strand. -/
def runStart (s : ConfigManager) (r : ReloadRequest) : ConfigManager :=
  if s.reloadInProgress then
    s.answer r { errors := [⟨bytes "config", bytes "reload already in progress"⟩] }
  else { s with reloadInProgress := true, worker := s.worker ++ [r] }

/-- What the worker makes of the file. -/
def load (conv : YamlConversions) (path : Bytes) (content : FileContent) (now : Int) :
    ConfigReloadResult × Option ConfigSnapshot :=
  match ConfigLoader.loadFromFile conv content with
  | .ok value => ({}, some ⟨value, path, now⟩)
  | .error (.validation errors) => ({ errors := errors }, none)
  | .error (.other what) => ({ errors := [⟨bytes "config", what⟩] }, none)

/-- The second handler on the strand. -/
def runFinish (s : ConfigManager) (r : ReloadRequest) (result : ConfigReloadResult)
    (next : Option ConfigSnapshot) : ConfigManager :=
  let idle := { s with reloadInProgress := false }
  match next with
  | none => idle.answer r result
  | some next =>
    let restartRequired := staticChanges s.snapshot.value next.value
    if restartRequired = [] then
      { idle with snapshot := next, stored := s.stored ++ [(r, next)] }.answer r
        { result with published := true, restartRequired := [] }
    else idle.answer r { result with restartRequired := restartRequired }

def step (conv : YamlConversions) (s : ConfigManager) : ReloadEvent → Option ConfigManager
  | .requestReload hasHandler => some (s.requestReload hasHandler)
  | .runStrand =>
    match s.strand with
    | [] => none
    | .start r :: rest => some ({ s with strand := rest }.runStart r)
    | .finish r result next :: rest => some ({ s with strand := rest }.runFinish r result next)
  | .beginLoad =>
    match s.loading, s.worker with
    | none, r :: rest => some { s with worker := rest, loading := some r }
    | _, _ => none
  | .endLoad content now =>
    match s.loading with
    | none => none
    | some r =>
      -- the result goes back to the strand
      let loaded := load conv s.path content now
      some { s with loading := none, strand := s.strand ++ [.finish r loaded.1 loaded.2] }

/-! ### The requests on their way -/

/-- The requests that are being loaded, or wait for it. -/
def loads (s : ConfigManager) : List ReloadRequest := s.worker ++ s.loading.toList

def pending (s : ConfigManager) : List ReloadRequest := s.strand.map ReloadTask.request ++ s.loads

/-- The requests between the two handlers on the strand. -/
def inFlight (s : ConfigManager) : Nat :=
  s.strand.countP ReloadTask.isFinish + s.loads.length

/-- How many steps are left for what is on its way. -/
def work (s : ConfigManager) : Nat :=
  (s.strand.map ReloadTask.weight).sum + 3 * s.worker.length + 2 * s.loading.toList.length

/-- What the worker posts: a result that publishes nothing yet, without errors if something was
    loaded. -/
def WellPosted : ReloadTask → Prop
  | .start _ => True
  | .finish _ result next => result.published = false ∧ result.restartRequired = [] ∧
      ∀ snapshot ∈ next, result.errors = [] ∧ ConfigLoader.Loaded snapshot.value

theorem wellPosted_load (conv : YamlConversions) (path : Bytes) (content : FileContent) (now : Int)
    (r : ReloadRequest) : WellPosted (.finish r (load conv path content now).1
      (load conv path content now).2) := by
  unfold load
  split
  · next value hvalue =>
    refine ⟨rfl, rfl, fun snapshot hnext => ⟨rfl, ?_⟩⟩
    obtain rfl := Option.some.inj hnext
    exact ConfigLoader.loaded_of_loadFromFile hvalue
  · exact ⟨rfl, rfl, fun _ hnext => absurd hnext (Option.not_mem_none _)⟩
  · exact ⟨rfl, rfl, fun _ hnext => absurd hnext (Option.not_mem_none _)⟩

/-- Every request came to its end once or is on its way, and was answered according to its end. -/
structure Accounted (s : ConfigManager) : Prop where
  once : (s.finished.map (·.1) ++ s.pending).Perm s.requests
  numbers : s.requests.map (·.number) = List.range s.requests.length
  answers : s.answers = s.finished.filter (·.1.hasHandler)
  stored : ∀ e ∈ s.stored, e.1 ∈ s.finished.map (·.1)
  published : ∀ f ∈ s.finished, f.2.published = true ↔ f.1 ∈ s.stored.map (·.1)

/-- The invariant of the runs from `initial`. -/
structure Inv (initial : ConfigSnapshot) (s : ConfigManager) : Prop where
  agrees : SameStatic initial.value s.snapshot.value
  loaded : s.snapshot = initial ∨ ConfigLoader.Loaded s.snapshot.value
  posted : ∀ task ∈ s.strand, WellPosted task
  /-- The flag stands for the one request in flight. -/
  flag : s.inFlight = s.reloadInProgress.toNat
  accounted : Accounted s

/-- What holds in every state of a run from `initial`. -/
structure ReloadSafe (conv : YamlConversions) (initial : ConfigSnapshot) (s : ConfigManager) :
    Prop where
  agrees : SameStatic initial.value s.snapshot.value
  /-- If the initial configuration came from a file, nothing but the logging differs. -/
  logging : ConfigLoader.Loaded initial.value →
    s.snapshot.value = { initial.value with logging := s.snapshot.value.logging }
  oneLoad : s.loads.length ≤ 1
  /-- Every handler was called once, or its request is on its way. -/
  once : (s.answers.map (·.1) ++ s.pending.filter (·.hasHandler)).Perm
    (s.requests.filter (·.hasHandler)) ∧ s.requests.Nodup
  published : ∀ a ∈ s.answers, a.2.published = true ↔ a.1 ∈ s.stored.map (·.1)
  /-- What is on its way goes on. -/
  goesOn : s.pending ≠ [] → ∃ e s', e.isRequest = false ∧ step conv s e = some s'

/-- A step stores the snapshot of a reload, which has nothing to report, or it leaves what is
    published as it was; and only a request gives it more to do. -/
structure ReloadStep (s : ConfigManager) (e : ReloadEvent) (s' : ConfigManager) : Prop where
  snapshot : (∃ r next, s'.snapshot = next ∧ s'.stored = s.stored ++ [(r, next)] ∧
      s'.finished = s.finished ++ [(r, { published := true })]) ∨
    s'.snapshot = s.snapshot ∧ s'.stored = s.stored ∧
      ∀ f ∈ s'.finished.drop s.finished.length, f.2.published = false
  work : e.isRequest = false → s'.work < s.work

/-! ### The invariant -/

section Steps

variable {conv : YamlConversions} {initial : ConfigSnapshot} {s s' : ConfigManager}
  {r : ReloadRequest} {result : ConfigReloadResult}

/-- What an event does, and what it needs. -/
theorem step_cases {e : ReloadEvent} (hstep : ConfigManager.step conv s e = some s') :
    (∃ hasHandler, e = .requestReload hasHandler ∧ s' = s.requestReload hasHandler) ∨
    (∃ r rest, e = .runStrand ∧ s.strand = .start r :: rest ∧
      s' = { s with strand := rest }.runStart r) ∨
    (∃ r result next rest, e = .runStrand ∧ s.strand = .finish r result next :: rest ∧
      s' = { s with strand := rest }.runFinish r result next) ∨
    (∃ r waiting, e = .beginLoad ∧ s.loading = none ∧ s.worker = r :: waiting ∧
      s' = { s with worker := waiting, loading := some r }) ∨
    ∃ r content now, e = .endLoad content now ∧ s.loading = some r ∧
      s' = { s with
        loading := none
        strand := s.strand ++ [.finish r (load conv s.path content now).1
          (load conv s.path content now).2] } := by
  cases e with
  | requestReload hasHandler => exact .inl ⟨hasHandler, rfl, (Option.some.inj hstep).symm⟩
  | runStrand =>
    unfold ConfigManager.step at hstep
    dsimp only at hstep
    split at hstep
    · cases hstep
    · next r rest hstrand =>
      exact .inr (.inl ⟨r, rest, rfl, hstrand, (Option.some.inj hstep).symm⟩)
    · next r result next rest hstrand =>
      exact .inr (.inr (.inl ⟨r, result, next, rest, rfl, hstrand, (Option.some.inj hstep).symm⟩))
  | beginLoad =>
    unfold ConfigManager.step at hstep
    dsimp only at hstep
    split at hstep
    · next r waiting hloading hworker =>
      exact .inr (.inr (.inr (.inl
        ⟨r, waiting, rfl, hloading, hworker, (Option.some.inj hstep).symm⟩)))
    · cases hstep
  | endLoad content now =>
    unfold ConfigManager.step at hstep
    dsimp only at hstep
    split at hstep
    · cases hstep
    · next r hloading =>
      exact .inr (.inr (.inr (.inr
        ⟨r, content, now, rfl, hloading, (Option.some.inj hstep).symm⟩)))

theorem Accounted.nodup (h : Accounted s) : s.requests.Nodup := by
  apply List.Nodup.of_map (·.number)
  rw [h.numbers]
  exact List.nodup_range

/-- What is on its way did not end before. -/
theorem Accounted.not_finished (h : Accounted s) (hr : r ∈ s.pending) :
    r ∉ s.finished.map (·.1) := by
  have hnodup := h.once.nodup_iff.mpr h.nodup
  exact fun hmem => (List.nodup_append.mp hnodup).2.2 r hmem r hr rfl

theorem Accounted.moves (h : Accounted s) (hpending : s'.pending.Perm s.pending)
    (hfinished : s'.finished = s.finished) (hrequests : s'.requests = s.requests)
    (hanswers : s'.answers = s.answers) (hstored : s'.stored = s.stored) : Accounted s' := by
  refine ⟨?_, ?_, ?_, ?_, ?_⟩
  · rw [hfinished, hrequests]
    exact (hpending.append_left _).trans h.once
  · rw [hrequests]
    exact h.numbers
  · rw [hanswers, hfinished]
    exact h.answers
  · rw [hstored, hfinished]
    exact h.stored
  · rw [hstored, hfinished]
    exact h.published

/-- A request ends; it is published exactly if its snapshot is stored. -/
theorem Accounted.ends (h : Accounted s) (hpending : s.pending.Perm (r :: s'.pending))
    (hfinished : s'.finished = s.finished ++ [(r, result)]) (hrequests : s'.requests = s.requests)
    (hanswers : s'.answers = if r.hasHandler then s.answers ++ [(r, result)] else s.answers)
    (hstored : s'.stored = s.stored ∧ result.published = false ∨
      (∃ next, s'.stored = s.stored ++ [(r, next)]) ∧ result.published = true) :
    Accounted s' := by
  -- the request was pending, so that this is its first end
  have hnew : r ∉ s.finished.map (·.1) :=
    h.not_finished (hpending.mem_iff.mpr List.mem_cons_self)
  have hnotStored : r ∉ s.stored.map (·.1) := by
    intro hmem
    obtain ⟨e, he, rfl⟩ := List.mem_map.mp hmem
    exact hnew (h.stored e he)
  have hmem : ∀ r' ∈ s.finished.map (·.1), r' ∈ s'.finished.map (·.1) := by
    intro r' hr'
    rw [hfinished, List.map_append]
    exact List.mem_append_left _ hr'
  refine ⟨?_, ?_, ?_, ?_, ?_⟩
  · rw [hfinished, hrequests, List.map_append, List.append_assoc]
    exact (hpending.symm.append_left _).trans h.once
  · rw [hrequests]
    exact h.numbers
  · rw [hanswers, hfinished, List.filter_append, h.answers]
    cases hhandler : r.hasHandler <;> simp [hhandler]
  · rcases hstored with ⟨hsame, -⟩ | ⟨⟨next, hnext⟩, -⟩
    · rw [hsame]
      exact fun e he => hmem _ (h.stored e he)
    · rw [hnext]
      intro e he
      rcases List.mem_append.mp he with he | he
      · exact hmem _ (h.stored e he)
      · rw [List.mem_singleton.mp he, hfinished, List.map_append]
        exact List.mem_append_right _ List.mem_cons_self
  · intro f hf
    rw [hfinished] at hf
    rcases List.mem_append.mp hf with hf | hf
    · -- an earlier end is of another request
      have hne : f.1 ≠ r := fun heq => hnew (heq ▸ List.mem_map_of_mem hf)
      rcases hstored with ⟨hsame, -⟩ | ⟨⟨next, hnext⟩, -⟩
      · rw [hsame]
        exact h.published f hf
      · rw [hnext, List.map_append, List.mem_append, h.published f hf]
        exact ⟨.inl, fun hin => hin.resolve_right fun heq => hne (List.mem_singleton.mp heq)⟩
    · rw [List.mem_singleton.mp hf]
      rcases hstored with ⟨hsame, hresult⟩ | ⟨⟨next, hnext⟩, hresult⟩
      · rw [hsame]
        exact iff_of_false (Bool.eq_false_iff.mp hresult) hnotStored
      · rw [hnext, List.map_append]
        exact iff_of_true hresult (List.mem_append_right _ List.mem_cons_self)

theorem inv_start (path : Bytes) (initial : ConfigSnapshot) :
    Inv initial { path := path, snapshot := initial } :=
  ⟨.refl _, .inl rfl, fun _ h => absurd h List.not_mem_nil, rfl,
    ⟨.refl _, rfl, rfl, fun _ h => absurd h List.not_mem_nil,
      fun _ h => absurd h List.not_mem_nil⟩⟩

theorem Inv.requestReload (h : Inv initial s) (hasHandler : Bool) :
    Inv initial (s.requestReload hasHandler) := by
  have hacc := h.accounted
  have hposted : ∀ task ∈ s.strand ++ [.start ⟨s.requests.length, hasHandler⟩],
      WellPosted task := by
    intro task htask
    rcases List.mem_append.mp htask with htask | htask
    · exact h.posted task htask
    · rw [List.mem_singleton.mp htask]
      trivial
  refine ⟨h.agrees, h.loaded, hposted, ?_, ⟨?_, ?_, hacc.answers, hacc.stored, hacc.published⟩⟩
  · show (s.strand ++ [_]).countP ReloadTask.isFinish + s.loads.length = _
    rw [List.countP_append]
    exact h.flag
  · show (s.finished.map _ ++ ((s.strand ++ [_]).map ReloadTask.request ++ s.loads)).Perm
      (s.requests ++ [_])
    rw [List.map_append, List.append_assoc (s.strand.map _)]
    have hlast : (s.strand.map ReloadTask.request ++ (([ReloadTask.start
        ⟨s.requests.length, hasHandler⟩].map ReloadTask.request) ++ s.loads)).Perm
        (s.pending ++ [⟨s.requests.length, hasHandler⟩]) := by
      rw [ConfigManager.pending, List.append_assoc]
      exact List.perm_append_comm.append_left _
    refine (hlast.append_left _).trans ?_
    rw [← List.append_assoc]
    exact hacc.once.append_right _
  · show (s.requests ++ [_]).map _ = List.range (s.requests ++ [_]).length
    rw [List.map_append, hacc.numbers, List.length_append]
    exact List.range_succ.symm

section Strand

variable {task : ReloadTask} {rest : List ReloadTask} {next : Option ConfigSnapshot}

theorem pending_of_strand (hstrand : s.strand = task :: rest) :
    s.pending = task.request :: (rest.map ReloadTask.request ++ s.loads) := by
  rw [pending, hstrand]
  rfl

theorem inFlight_of_strand (hstrand : s.strand = task :: rest) :
    s.inFlight = rest.countP ReloadTask.isFinish + task.isFinish.toNat + s.loads.length := by
  rw [inFlight, hstrand, List.countP_cons]
  cases task.isFinish <;> rfl

theorem Inv.posted_rest (h : Inv initial s) (hstrand : s.strand = task :: rest) :
    ∀ task ∈ rest, WellPosted task := by
  intro task hmem
  apply h.posted
  rw [hstrand]
  exact List.mem_cons_of_mem _ hmem

theorem Inv.runStart (h : Inv initial s) (hstrand : s.strand = .start r :: rest) :
    Inv initial ({ s with strand := rest }.runStart r) := by
  have hflag := h.flag
  rw [inFlight_of_strand hstrand] at hflag
  unfold ConfigManager.runStart
  dsimp only
  split
  · -- another reload is in progress, and this one ends here
    refine ⟨h.agrees, h.loaded, h.posted_rest hstrand, hflag, ?_⟩
    refine h.accounted.ends ?_ rfl rfl rfl (.inl ⟨rfl, rfl⟩)
    rw [pending_of_strand hstrand]
    exact .refl _
  · -- it becomes the one in flight
    next hidle =>
    rw [Bool.eq_false_iff.mpr hidle] at hflag
    have hlength : (s.worker ++ s.loading.toList).length =
        s.worker.length + s.loading.toList.length := List.length_append
    refine ⟨h.agrees, h.loaded, h.posted_rest hstrand, ?_, ?_⟩
    · show rest.countP ReloadTask.isFinish + (s.worker ++ [r] ++ s.loading.toList).length = 1
      have hnone :
          rest.countP ReloadTask.isFinish + 0 + (s.worker ++ s.loading.toList).length = 0 :=
        hflag
      rw [List.append_assoc, List.length_append, List.length_append]
      simp only [List.length_singleton]
      omega
    · refine h.accounted.moves ?_ rfl rfl rfl rfl
      rw [pending_of_strand hstrand]
      show (rest.map ReloadTask.request ++ (s.worker ++ [r] ++ s.loading.toList)).Perm
        (r :: (rest.map ReloadTask.request ++ (s.worker ++ s.loading.toList)))
      refine List.Perm.trans (List.Perm.append_left _ ?_) List.perm_middle
      rw [List.append_assoc]
      exact List.perm_middle

theorem Inv.runFinish (h : Inv initial s) (hstrand : s.strand = .finish r result next :: rest) :
    Inv initial ({ s with strand := rest }.runFinish r result next) := by
  have hpending : s.pending.Perm (r :: (rest.map ReloadTask.request ++ s.loads)) := by
    rw [pending_of_strand hstrand]
    exact .refl _
  -- the flag is set for this request, and there is no other
  have hflag : rest.countP ReloadTask.isFinish + s.loads.length = 0 := by
    have hone := h.flag
    rw [inFlight_of_strand hstrand] at hone
    have hle := Bool.toNat_le s.reloadInProgress
    have hfinish : (ReloadTask.finish r result next).isFinish.toNat = 1 := rfl
    omega
  obtain ⟨hunpublished, -, hnext⟩ : WellPosted (.finish r result next) := by
    apply h.posted
    rw [hstrand]
    exact List.mem_cons_self
  unfold ConfigManager.runFinish
  split
  · exact ⟨h.agrees, h.loaded, h.posted_rest hstrand, hflag,
      h.accounted.ends hpending rfl rfl rfl (.inl ⟨rfl, hunpublished⟩)⟩
  · next snapshot =>
    obtain ⟨-, hloaded⟩ := hnext snapshot rfl
    dsimp only
    split
    · -- the snapshot is stored, as only the logging differs
      next hnone =>
      obtain ⟨hsame, -⟩ := staticChanges_eq_nil_iff.mp hnone
      exact ⟨h.agrees.trans hsame, .inr hloaded, h.posted_rest hstrand, hflag,
        h.accounted.ends hpending rfl rfl rfl (.inr ⟨⟨snapshot, rfl⟩, rfl⟩)⟩
    · exact ⟨h.agrees, h.loaded, h.posted_rest hstrand, hflag,
        h.accounted.ends hpending rfl rfl rfl (.inl ⟨rfl, hunpublished⟩)⟩

end Strand

theorem Inv.beginLoad {waiting : List ReloadRequest} (h : Inv initial s)
    (hloading : s.loading = none) (hworker : s.worker = r :: waiting) :
    Inv initial { s with worker := waiting, loading := some r } := by
  have hloads : (waiting ++ [r]).Perm s.loads := by
    rw [loads, hloading, hworker]
    show (waiting ++ [r]).Perm (r :: waiting ++ [])
    rw [List.append_nil]
    exact List.perm_append_comm
  refine ⟨h.agrees, h.loaded, h.posted, ?_, ?_⟩
  · have hflag := h.flag
    rw [inFlight, ← hloads.length_eq] at hflag
    exact hflag
  · exact h.accounted.moves (hloads.append_left _) rfl rfl rfl rfl

theorem Inv.endLoad (h : Inv initial s) (hloading : s.loading = some r) (content : FileContent)
    (now : Int) : Inv initial { s with
      loading := none
      strand := s.strand ++ [.finish r (load conv s.path content now).1
        (load conv s.path content now).2] } := by
  have hloads : s.loads = s.worker ++ [r] := by rw [loads, hloading]; rfl
  refine ⟨h.agrees, h.loaded, ?_, ?_, ?_⟩
  · intro task htask
    rcases List.mem_append.mp htask with htask | htask
    · exact h.posted task htask
    · rw [List.mem_singleton.mp htask]
      exact wellPosted_load conv s.path content now r
  · have hflag := h.flag
    rw [inFlight, hloads, List.length_append] at hflag
    show (s.strand ++ [_]).countP ReloadTask.isFinish + (s.worker ++ []).length =
      s.reloadInProgress.toNat
    rw [List.countP_append, List.append_nil]
    show s.strand.countP ReloadTask.isFinish + 1 + s.worker.length = s.reloadInProgress.toNat
    rw [List.length_singleton] at hflag
    omega
  · refine h.accounted.moves ?_ rfl rfl rfl rfl
    show ((s.strand ++ [_]).map ReloadTask.request ++ (s.worker ++ [])).Perm
      (s.strand.map ReloadTask.request ++ s.loads)
    rw [List.map_append, List.append_nil, List.append_assoc, hloads]
    exact List.perm_append_comm.append_left _

/-- **Step lemma.** -/
theorem Inv.step (h : Inv initial s) {e : ReloadEvent}
    (hstep : ConfigManager.step conv s e = some s') : Inv initial s' := by
  rcases step_cases hstep with
    ⟨hasHandler, -, rfl⟩ | ⟨r, rest, -, hstrand, rfl⟩ | ⟨r, result, next, rest, -, hstrand, rfl⟩ |
    ⟨r, waiting, -, hloading, hworker, rfl⟩ | ⟨r, content, now, -, hloading, rfl⟩
  · exact h.requestReload hasHandler
  · exact h.runStart hstrand
  · exact h.runFinish hstrand
  · exact h.beginLoad hloading hworker
  · exact h.endLoad hloading content now

/-! ### What a step does -/

theorem drop_finished {f : ReloadRequest × ConfigReloadResult}
    (hf : f ∈ (s.finished ++ [(r, result)]).drop s.finished.length) : f = (r, result) := by
  rw [List.drop_left] at hf
  exact List.mem_singleton.mp hf

theorem not_mem_drop_finished {f : ReloadRequest × ConfigReloadResult} :
    f ∉ s.finished.drop s.finished.length := by
  rw [List.drop_length]
  exact List.not_mem_nil

theorem work_of_strand {task : ReloadTask} {rest : List ReloadTask}
    (hstrand : s.strand = task :: rest) :
    s.work = task.weight + { s with strand := rest }.work := by
  rw [work, hstrand, List.map_cons, List.sum_cons, Nat.add_assoc, Nat.add_assoc]
  rw [work, Nat.add_assoc]

theorem work_rest_lt {task : ReloadTask} {rest : List ReloadTask}
    (hstrand : s.strand = task :: rest) : { s with strand := rest }.work < s.work := by
  rw [work_of_strand hstrand]
  apply Nat.lt_add_of_pos_left
  cases task <;> exact Nat.succ_pos _

theorem reloadStep_runStart {rest : List ReloadTask} (hstrand : s.strand = .start r :: rest) :
    ReloadStep s .runStrand ({ s with strand := rest }.runStart r) := by
  have hwork := work_of_strand hstrand
  unfold ConfigManager.runStart
  dsimp only
  split
  · refine ⟨.inr ⟨rfl, rfl, fun f hf => ?_⟩, fun _ => work_rest_lt hstrand⟩
    rw [drop_finished hf]
  · refine ⟨.inr ⟨rfl, rfl, fun f hf => absurd hf not_mem_drop_finished⟩, fun _ => ?_⟩
    rw [hwork]
    show (rest.map ReloadTask.weight).sum + 3 * (s.worker ++ [r]).length +
        2 * s.loading.toList.length <
      4 + ((rest.map ReloadTask.weight).sum + 3 * s.worker.length + 2 * s.loading.toList.length)
    rw [List.length_append, List.length_singleton]
    omega

theorem Inv.reloadStep_runFinish {rest : List ReloadTask} {next : Option ConfigSnapshot}
    (h : Inv initial s) (hstrand : s.strand = .finish r result next :: rest) :
    ReloadStep s .runStrand ({ s with strand := rest }.runFinish r result next) := by
  have hlt := work_rest_lt hstrand
  obtain ⟨hunpublished, hnone, hnext⟩ : WellPosted (.finish r result next) := by
    apply h.posted
    rw [hstrand]
    exact List.mem_cons_self
  unfold ConfigManager.runFinish
  split
  · refine ⟨.inr ⟨rfl, rfl, fun f hf => ?_⟩, fun _ => hlt⟩
    rw [drop_finished hf]
    exact hunpublished
  · next snapshot =>
    dsimp only
    split
    · refine ⟨.inl ⟨r, snapshot, rfl, rfl, ?_⟩, fun _ => hlt⟩
      have hresult : { result with published := true, restartRequired := [] } =
          ({ published := true } : ConfigReloadResult) := by
        rw [(hnext snapshot rfl).1]
      rw [← hresult]
      rfl
    · refine ⟨.inr ⟨rfl, rfl, fun f hf => ?_⟩, fun _ => hlt⟩
      rw [drop_finished hf]
      exact hunpublished

theorem Inv.reloadStep (h : Inv initial s) {e : ReloadEvent}
    (hstep : ConfigManager.step conv s e = some s') : ReloadStep s e s' := by
  rcases step_cases hstep with
    ⟨hasHandler, rfl, rfl⟩ | ⟨r, rest, rfl, hstrand, rfl⟩ |
    ⟨r, result, next, rest, rfl, hstrand, rfl⟩ | ⟨r, waiting, rfl, hloading, hworker, rfl⟩ |
    ⟨r, content, now, rfl, hloading, rfl⟩
  · refine ⟨.inr ⟨rfl, rfl, fun f hf => absurd hf not_mem_drop_finished⟩, ?_⟩
    rintro ⟨⟩
  · exact reloadStep_runStart hstrand
  · exact h.reloadStep_runFinish hstrand
  · -- three steps were left, and two are now
    refine ⟨.inr ⟨rfl, rfl, fun f hf => absurd hf not_mem_drop_finished⟩, fun _ => ?_⟩
    rw [work, work, hloading, hworker]
    show (s.strand.map ReloadTask.weight).sum + 3 * waiting.length + 2 * 1 <
      (s.strand.map ReloadTask.weight).sum + 3 * (waiting.length + 1) + 2 * 0
    omega
  · refine ⟨.inr ⟨rfl, rfl, fun f hf => absurd hf not_mem_drop_finished⟩, fun _ => ?_⟩
    rw [work, work, hloading, List.map_append, List.sum_append]
    show (s.strand.map ReloadTask.weight).sum + 1 + 3 * s.worker.length + 2 * 0 <
      (s.strand.map ReloadTask.weight).sum + 3 * s.worker.length + 2 * 1
    omega

/-! ### Every state -/

theorem pending_goes_on (hpending : s.pending ≠ []) :
    ∃ e s', e.isRequest = false ∧ ConfigManager.step conv s e = some s' := by
  cases hstrand : s.strand with
  | cons task rest =>
    refine ⟨.runStrand, ?_⟩
    cases task with
    | start r => exact ⟨_, rfl, by rw [ConfigManager.step, hstrand]⟩
    | finish r result next => exact ⟨_, rfl, by rw [ConfigManager.step, hstrand]⟩
  | nil =>
    cases hloading : s.loading with
    | some r => exact ⟨.endLoad (.throws []) 0, _, rfl, by rw [ConfigManager.step, hloading]⟩
    | none =>
      cases hworker : s.worker with
      | cons r waiting => exact ⟨.beginLoad, _, rfl, by rw [ConfigManager.step, hloading, hworker]⟩
      | nil =>
        rw [pending, loads, hstrand, hloading, hworker] at hpending
        exact absurd rfl hpending

theorem Inv.safe (h : Inv initial s) : ReloadSafe conv initial s := by
  have hacc := h.accounted
  refine ⟨h.agrees, ?_, ?_, ⟨?_, hacc.nodup⟩, ?_, pending_goes_on⟩
  · intro hinitial
    rcases h.loaded with hsame | hloaded
    · rw [hsame]
    · exact h.agrees.eq_of_loaded hinitial hloaded
  · have hflag := h.flag
    have hle := Bool.toNat_le s.reloadInProgress
    rw [inFlight] at hflag
    omega
  · have hanswers : s.answers.map (·.1) =
        (s.finished.map (·.1)).filter (·.hasHandler) := by
      rw [hacc.answers, List.filter_map]
      rfl
    rw [hanswers, ← List.filter_append]
    exact hacc.once.filter _
  · intro a ha
    rw [hacc.answers] at ha
    exact hacc.published a (List.mem_of_mem_filter ha)

end Steps

/-- **A reload changes only the logging.**  For every sequence of requests, loads of any content
    and steps of the strand: the published snapshot agrees with the initial one in all that a
    file can set of the server, the upstreams and the routes; at most one file is being loaded;
    every handler is called once, and told of a publication exactly if the snapshot of its
    request was stored; and a reload that is not published leaves the snapshot as it was. -/
theorem reload_changes_logging_only (conv : YamlConversions) (path : Bytes)
    (initial : ConfigSnapshot) (events : List ReloadEvent) :
    Machine.Always (step conv) (ReloadSafe conv initial)
        { path := path, snapshot := initial } events ∧
      Machine.EachStep (step conv) ReloadStep { path := path, snapshot := initial } events := by
  have hstart := inv_start path initial
  constructor
  · exact Machine.always_of_invariant (Inv initial) (fun _ h => h.safe)
      (fun _ _ _ h hstep => h.step hstep) events hstart
  · refine Machine.eachStep_of_invariant (Inv initial) ?_ events hstart
    intro s e s' h hstep
    exact ⟨h.reloadStep hstep, h.step hstep⟩

end ConfigManager

end PulseGate
