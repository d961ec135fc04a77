import PulseGate.Http.ConfigLoader
import PulseGate.Http.HealthChecker
import PulseGate.Lib.Loop
import PulseGate.Runtime.AsioRuntime

namespace PulseGate

/-!
# The command line

`main` of `pulsegate_main.cpp`, up to what is built from the options.  `std::stod` is a parameter:
the number and how many characters were read, or nothing when it throws.

* `readArguments_eq_options_iff` — the loop over the arguments reads a list of items;
* `proxyCache_spec` — the sizes of the cache are never divided by zero;
* `command_line_read` — what each command line asks for;
* `command_line_builds` — what is built from the options does not throw, but for a cache that lasts
  too long, or has too many shards.
-/

structure ListenConfig where
  host : Bytes := bytes "127.0.0.1"
  port : Nat := 8080
  backlog : Int := 1024
  deriving DecidableEq, Repr

namespace CommandLine

/-- How `main` can end before it has read everything. -/
inductive Failure
  /-- An exception with this text. -/
  | exception (what : Bytes)
  /-- A division by zero, or the value of an optional that has none. -/
  | undefined
  deriving DecidableEq, Repr

def invalid {α : Type} (what : String) : Except Failure α := .error (.exception (bytes what))

/-! ### The values of the options -/

/-- Host and what comes after the colon; the texts are those of the two exceptions. -/
def splitAddress (value : Bytes) (bracketed plain : String) : Except Failure (Bytes × Bytes) :=
  if value.head? = some 91 then
    match value.idxOf? 93 with
    | none => invalid bracketed
    | some closing =>
      if value[closing + 1]? = some 58 then
        .ok ((value.drop 1).take (closing - 1), value.drop (closing + 2))
      else invalid bracketed
  else
    match ConfigLoader.rfind 58 value with
    | none => invalid plain
    | some colon => .ok (value.take colon, value.drop (colon + 1))

/-- `std::from_chars` to a `std::uint32_t` when all of the string must be read. -/
def fromChars32 (s : Bytes) : Option Nat := (fromChars 10 s).filter (· < 2 ^ 32)

def parseListenAddress (value : Bytes) : Except Failure ListenConfig :=
  (splitAddress value "IPv6 listen addresses must look like [::1]:8080"
    "listen address must look like HOST:PORT").bind fun p =>
      if p.1 = [] ∨ p.2 = [] then invalid "listen host and port must not be empty"
      else
        match fromChars32 p.2 with
        | none => invalid "listen port must be between 0 and 65535"
        | some port =>
          if 65535 < port then invalid "listen port must be between 0 and 65535"
          else .ok { host := p.1, port := port }

def parseUpstreamEndpoint (value : Bytes) : Except Failure UpstreamEndpoint :=
  (splitAddress value "IPv6 upstream addresses must look like [::1]:8081"
    "upstream address must look like HOST:PORT").bind fun p =>
      if p.1 = [] ∨ p.2 = [] then invalid "upstream host and port must not be empty"
      else .ok ⟨p.1, p.2⟩

def parseThreadCount (value : Bytes) : Except Failure Nat :=
  match fromChars32 value with
  | none => invalid "thread count must be a positive integer"
  | some count =>
    if count = 0 then invalid "thread count must be a positive integer" else .ok count

def parsePositiveSize (value : Bytes) (option : String) : Except Failure Nat :=
  match fromChars 10 value with
  | none => invalid (option ++ " must be a positive integer")
  | some parsed =>
    if parsed = 0 then invalid (option ++ " must be a positive integer") else .ok parsed

/-- `defaultThreadCount`, from `std::thread::hardware_concurrency`. -/
def defaultThreadCount (detected : Nat) : Nat := if detected = 0 then 1 else detected

section

variable (stod : Bytes → Option (Double × Nat))

def parsePositiveDouble (value : Bytes) (option : String) : Except Failure Double :=
  match stod value with
  | none => invalid (option ++ " must be a positive number")
  | some (parsed, consumed) =>
    if consumed ≠ value.length ∨ parsed.isfinite = false ∨ parsed.nonpositive = true then
      invalid (option ++ " must be a positive number")
    else .ok parsed

/-! ### The loop over the arguments -/

/-- The variables that the loop sets. -/
structure Options where
  config : ListenConfig := {}
  threadCount : Nat
  documentRoot : Option Bytes := none
  configPath : Option Bytes := none
  proxyUpstreams : List UpstreamEndpoint := []
  rateLimit : Option Double := none
  rateBurst : Option Double := none
  ratePerClient : Bool := false
  proxyRateLimit : Option Double := none
  proxyRateBurst : Option Double := none
  proxyRatePerClient : Bool := false
  proxyCacheTtlMs : Option Nat := none
  proxyCacheMaxBytes : Option Nat := none
  proxyCacheEntryMaxBytes : Option Nat := none
  proxyCacheShards : Option Nat := none
  deriving DecidableEq, Repr

/-- The options that take a value. -/
inductive ValueOption
  | listen
  | config
  | threads
  | documentRoot
  | proxyUpstream
  | rateLimit
  | rateBurst
  | proxyRateLimit
  | proxyRateBurst
  | proxyCacheTtlMs
  | proxyCacheMaxBytes
  | proxyCacheEntryMaxBytes
  | proxyCacheShards
  deriving DecidableEq, Repr

/-- The options that take none, but for those that end the loop. -/
inductive FlagOption
  | ratePerClient
  | proxyRatePerClient
  deriving DecidableEq, Repr

def ValueOption.name : ValueOption → String
  | listen => "--listen"
  | config => "--config"
  | threads => "--threads"
  | documentRoot => "--document-root"
  | proxyUpstream => "--proxy-upstream"
  | rateLimit => "--rate-limit"
  | rateBurst => "--rate-burst"
  | proxyRateLimit => "--proxy-rate-limit"
  | proxyRateBurst => "--proxy-rate-burst"
  | proxyCacheTtlMs => "--proxy-cache-ttl-ms"
  | proxyCacheMaxBytes => "--proxy-cache-max-bytes"
  | proxyCacheEntryMaxBytes => "--proxy-cache-entry-max-bytes"
  | proxyCacheShards => "--proxy-cache-shards"

def FlagOption.name : FlagOption → String
  | ratePerClient => "--rate-per-client"
  | proxyRatePerClient => "--proxy-rate-per-client"

def valueOptions : List ValueOption :=
  [.listen, .config, .threads, .documentRoot, .proxyUpstream, .rateLimit, .rateBurst,
    .proxyRateLimit, .proxyRateBurst, .proxyCacheTtlMs, .proxyCacheMaxBytes,
    .proxyCacheEntryMaxBytes, .proxyCacheShards]

def flagOptions : List FlagOption := [.ratePerClient, .proxyRatePerClient]

def Options.set (options : Options) (option : ValueOption) (value : Bytes) :
    Except Failure Options :=
  match option with
  | .listen => (parseListenAddress value).map fun x => { options with config := x }
  | .config => .ok { options with configPath := some value }
  | .threads => (parseThreadCount value).map fun x => { options with threadCount := x }
  | .documentRoot => .ok { options with documentRoot := some value }
  | .proxyUpstream => (parseUpstreamEndpoint value).map fun x =>
      { options with proxyUpstreams := options.proxyUpstreams ++ [x] }
  | .rateLimit => (parsePositiveDouble stod value option.name).map fun x =>
      { options with rateLimit := some x }
  | .rateBurst => (parsePositiveDouble stod value option.name).map fun x =>
      { options with rateBurst := some x }
  | .proxyRateLimit => (parsePositiveDouble stod value option.name).map fun x =>
      { options with proxyRateLimit := some x }
  | .proxyRateBurst => (parsePositiveDouble stod value option.name).map fun x =>
      { options with proxyRateBurst := some x }
  | .proxyCacheTtlMs => (parsePositiveSize value option.name).map fun x =>
      { options with proxyCacheTtlMs := some x }
  | .proxyCacheMaxBytes => (parsePositiveSize value option.name).map fun x =>
      { options with proxyCacheMaxBytes := some x }
  | .proxyCacheEntryMaxBytes => (parsePositiveSize value option.name).map fun x =>
      { options with proxyCacheEntryMaxBytes := some x }
  | .proxyCacheShards => (parsePositiveSize value option.name).map fun x =>
      { options with proxyCacheShards := some x }

def Options.raise (options : Options) : FlagOption → Options
  | .ratePerClient => { options with ratePerClient := true }
  | .proxyRatePerClient => { options with proxyRatePerClient := true }

/-- How the loop ends without an exception. -/
inductive Read
  | version
  | usage
  | options (options : Options)
  deriving DecidableEq, Repr

def unknown (argument : Bytes) : Except Failure Read :=
  .error (.exception (bytes "unknown or incomplete argument: " ++ argument))

/-- The loop; `argc` counts the name of the program too. -/
def readArguments (argc : Nat) (options : Options) : List Bytes → Except Failure Read
  | [] => .ok (.options options)
  | argument :: rest =>
    if argument = bytes "--version" then
      if argc ≠ 2 then invalid "--version cannot be combined with other arguments"
      else .ok .version
    else if argument = bytes "--help" ∨ argument = bytes "-h" then .ok .usage
    else
      match flagOptions.find? fun flag => bytes flag.name = argument with
      | some flag => readArguments argc (options.raise flag) rest
      | none =>
        match rest with
        | [] => unknown argument
        | value :: rest =>
          match valueOptions.find? fun option => bytes option.name = argument with
          | some option =>
            (options.set stod option value).bind fun options => readArguments argc options rest
          | none => unknown argument

/-! ### After the loop -/

/-- What is built without a configuration file. -/
structure Settings where
  listen : ListenConfig
  threadCount : Nat
  globalRateLimit : Option RateLimitSettings
  documentRoot : Option Bytes
  proxyUpstreams : List UpstreamEndpoint
  proxyRouteLimit : Option RateLimitSettings
  proxyCache : Option ResponseCacheConfig
  deriving DecidableEq, Repr

/-- The rate limit of two options that were checked to be used together. -/
def rateLimitOf (rate burst : Option Double) (perClient : Bool) :
    Except Failure (Option RateLimitSettings) :=
  match rate, burst with
  | none, _ => .ok none
  | some rate, some burst =>
    .ok (some { requestsPerSecond := rate, burst := burst, perClient := perClient })
  | some _, none => .error .undefined

/-- The division of two sizes. -/
def divide (left right : Nat) : Except Failure Nat :=
  if right = 0 then .error .undefined else .ok (left / right)

/-- `std::chrono::milliseconds` of a size: its counter is a signed 64-bit number. -/
def millisecondsOfSize (n : Nat) : Int := if n < 2 ^ 63 then n else n - 2 ^ 64

/-- `std::optional::value_or`, whose argument is computed in any case. -/
def valueOr (given : Option Nat) (default : Except Failure Nat) : Except Failure Nat :=
  default.map given.getD

def proxyCache (options : Options) : Except Failure (Option ResponseCacheConfig) :=
  match options.proxyCacheTtlMs, options.proxyCacheMaxBytes with
  | none, _ => .ok none
  | some _, none => .error .undefined
  | some ttl, some maxBytes => do
    let maxEntryBytes := options.proxyCacheEntryMaxBytes.getD (min (256 * 1024) maxBytes)
    let shards ← valueOr options.proxyCacheShards
      ((divide maxBytes maxEntryBytes).map (min 16))
    if maxBytes < maxEntryBytes then
      invalid "--proxy-cache-entry-max-bytes cannot exceed cache size"
    else do
      let perShard ← divide maxBytes shards
      if perShard < maxEntryBytes then
        invalid "--proxy-cache-entry-max-bytes is too large for the selected shard count"
      else
        .ok (some { ttl := millisecondsOfSize ttl, maxEntryBytes := maxEntryBytes,
                    maxBytes := maxBytes, shardCount := shards, varyHeaders := [] })

/-- What `main` goes on to do. -/
inductive Command
  | version
  | usage
  | runFromConfig (path : Bytes)
  | serve (settings : Settings)
  deriving DecidableEq, Repr

/-- `main` after the loop, up to the runtime. -/
def checkOptions (argc : Nat) (options : Options) : Except Failure Command :=
  match options.configPath with
  | some path =>
    if argc ≠ 3 then invalid "--config cannot be combined with other options"
    else .ok (.runFromConfig path)
  | none =>
    if options.rateLimit.isSome ≠ options.rateBurst.isSome then
      invalid "--rate-limit and --rate-burst must be used together"
    else if options.proxyRateLimit.isSome ≠ options.proxyRateBurst.isSome then
      invalid "--proxy-rate-limit and --proxy-rate-burst must be used together"
    else if options.proxyCacheTtlMs.isSome ≠ options.proxyCacheMaxBytes.isSome then
      invalid "--proxy-cache-ttl-ms and --proxy-cache-max-bytes must be used together"
    else if (options.proxyCacheEntryMaxBytes.isSome ∨ options.proxyCacheShards.isSome) ∧
        options.proxyCacheTtlMs.isNone then
      invalid ("proxy cache entry and shard options require --proxy-cache-ttl-ms and " ++
        "--proxy-cache-max-bytes")
    else do
      let globalRateLimit ← rateLimitOf options.rateLimit options.rateBurst options.ratePerClient
      let proxyRouteLimit ← rateLimitOf options.proxyRateLimit options.proxyRateBurst
        options.proxyRatePerClient
      let proxyCache ← proxyCache options
      .ok (.serve { listen := options.config, threadCount := options.threadCount,
                    globalRateLimit := globalRateLimit, documentRoot := options.documentRoot,
                    proxyUpstreams := options.proxyUpstreams,
                    proxyRouteLimit := proxyRouteLimit, proxyCache := proxyCache })

/-- `main` on the arguments after the name of the program, where `detected` threads can run at
    once. -/
def commandLine (detected : Nat) (arguments : List Bytes) : Except Failure Command :=
  let argc := arguments.length + 1
  (readArguments stod argc { threadCount := defaultThreadCount detected } arguments).bind fun
    | .version => .ok .version
    | .usage => .ok .usage
    | .options options => checkOptions argc options

end

/-! ### Addresses and numbers -/

/-- An address as it is written: its host, and what comes after the last colon, or after the
    bracket. -/
inductive AddressText : Bytes → Bytes → Bytes → Prop
  | plain {host service : Bytes} (hfirst : host.head? ≠ some 91) (hlast : 58 ∉ service) :
    AddressText (host ++ 58 :: service) host service
  | bracketed {host service : Bytes} (hinside : 93 ∉ host) :
    AddressText (91 :: host ++ 93 :: 58 :: service) host service

theorem idxOf?_eq_some_iff {c : UInt8} {s : Bytes} {i : Nat} :
    s.idxOf? c = some i ↔ ∃ before after, s = before ++ c :: after ∧ c ∉ before ∧
      before.length = i := by
  induction s generalizing i with
  | nil => simp
  | cons d s ih =>
    rw [List.idxOf?_cons]
    by_cases hd : d = c
    · rw [if_pos (by simpa using hd)]
      constructor
      · intro h
        exact ⟨[], s, by rw [hd]; rfl, List.not_mem_nil, Option.some.inj h⟩
      · rintro ⟨before, after, hs, hnot, rfl⟩
        cases before with
        | nil => rfl
        | cons e before =>
          have he : d = e := (List.cons.inj hs).1
          exact absurd (List.mem_cons.mpr (.inl (hd.symm.trans he))) hnot
    · rw [if_neg (by simpa using hd), Option.map_eq_some_iff]
      constructor
      · rintro ⟨j, hj, rfl⟩
        obtain ⟨before, after, rfl, hnot, rfl⟩ := ih.mp hj
        refine ⟨d :: before, after, rfl, ?_, rfl⟩
        exact fun hmem => (List.mem_cons.mp hmem).elim (fun h => hd h.symm) hnot
      · rintro ⟨before, after, hs, hnot, rfl⟩
        cases before with
        | nil => exact absurd (List.cons.inj hs).1 hd
        | cons e before =>
          obtain ⟨rfl, rfl⟩ := List.cons.inj hs
          exact ⟨before.length,
            ih.mpr ⟨before, after, rfl, fun h => hnot (List.mem_cons_of_mem _ h), rfl⟩, rfl⟩

/-- The last of several is found. -/
theorem rfind_eq_some_iff {c : UInt8} {s : Bytes} {i : Nat} :
    ConfigLoader.rfind c s = some i ↔ ∃ before after, s = before ++ c :: after ∧ c ∉ after ∧
      before.length = i := by
  rw [ConfigLoader.rfind, Option.map_eq_some_iff]
  constructor
  · rintro ⟨j, hj, rfl⟩
    obtain ⟨after, before, hs, hnot, rfl⟩ := idxOf?_eq_some_iff.mp hj
    have hs' : s = before.reverse ++ c :: after.reverse := by
      rw [← List.reverse_reverse s, hs]
      simp
    refine ⟨before.reverse, after.reverse, hs', by simpa using hnot, ?_⟩
    rw [hs']
    simp only [List.length_append, List.length_cons, List.length_reverse]
    omega
  · rintro ⟨before, after, rfl, hnot, rfl⟩
    refine ⟨after.length, idxOf?_eq_some_iff.mpr ⟨after.reverse, before.reverse, ?_, ?_, ?_⟩, ?_⟩
    · simp
    · simpa using hnot
    · simp
    · simp only [List.length_append, List.length_cons]
      omega

/-- **What an address is cut into.** -/
theorem splitAddress_eq_ok_iff {value host service : Bytes} {bracketed plain : String} :
    splitAddress value bracketed plain = .ok (host, service) ↔ AddressText value host service := by
  constructor
  · intro h
    unfold splitAddress at h
    split at h
    · next hfirst =>
      split at h
      · cases h
      · next closing hclosing =>
        split at h
        · next hcolon =>
          obtain ⟨before, after, hvalue, hnot, rfl⟩ := idxOf?_eq_some_iff.mp hclosing
          obtain ⟨rfl, rfl⟩ := Prod.mk.inj (Except.ok.inj h)
          cases before with
          | nil =>
            rw [hvalue] at hfirst
            exact absurd (Option.some.inj hfirst) (by decide)
          | cons first inside =>
            subst hvalue
            obtain rfl : first = 91 := Option.some.inj hfirst
            cases after with
            | nil => simp at hcolon
            | cons colon service =>
              obtain rfl : colon = 58 := by simpa using hcolon
              have hhost : ((91 :: inside ++ 93 :: 58 :: service).drop 1).take
                  ((91 :: inside : Bytes).length - 1) = inside := by simp
              have hservice : (91 :: inside ++ 93 :: 58 :: service).drop
                  ((91 :: inside : Bytes).length + 2) = service := by simp
              rw [hhost, hservice]
              exact .bracketed fun hmem => hnot (List.mem_cons_of_mem _ hmem)
        · cases h
    · next hfirst =>
      split at h
      · cases h
      · next colon hcolon =>
        obtain ⟨before, after, rfl, hnot, rfl⟩ := rfind_eq_some_iff.mp hcolon
        obtain ⟨rfl, rfl⟩ := Prod.mk.inj (Except.ok.inj h)
        rw [List.take_left, List.drop_append, List.drop_of_length_le (Nat.le_succ _)]
        simp only [Nat.add_sub_cancel_left, List.nil_append, List.drop_succ_cons, List.drop_zero]
        refine .plain (fun hhead => hfirst ?_) hnot
        cases before with
        | nil => cases hhead
        | cons _ _ => exact hhead
  · rintro (⟨hfirst, hlast⟩ | ⟨hinside⟩)
    · have hhead : (host ++ 58 :: service).head? ≠ some 91 := by
        cases host with
        | nil => exact fun h => absurd (Option.some.inj h) (by decide)
        | cons _ _ => exact hfirst
      have hcolon : ConfigLoader.rfind 58 (host ++ 58 :: service) = some host.length :=
        rfind_eq_some_iff.mpr ⟨host, service, rfl, hlast, rfl⟩
      rw [splitAddress, if_neg hhead, hcolon]
      simp
    · have hclosing : (91 :: host ++ 93 :: 58 :: service).idxOf? 93 = some (host.length + 1) := by
        refine idxOf?_eq_some_iff.mpr ⟨91 :: host, 58 :: service, rfl, ?_, rfl⟩
        exact fun hmem => (List.mem_cons.mp hmem).elim (fun h => absurd h (by decide)) hinside
      simp only [List.cons_append] at hclosing
      simp [splitAddress, hclosing]

theorem fromChars32_eq_some_iff {s : Bytes} {n : Nat} :
    fromChars32 s = some n ↔ fromChars 10 s = some n ∧ n < 2 ^ 32 := by
  simp [fromChars32, Option.filter_eq_some_iff]

theorem fromChars_ne_nil {s : Bytes} {n : Nat} (h : fromChars 10 s = some n) : s ≠ [] := by
  rintro rfl
  cases h

theorem parseListenAddress_eq_ok_iff {value : Bytes} {config : ListenConfig} :
    parseListenAddress value = .ok config ↔ ∃ host portText port,
      AddressText value host portText ∧ host ≠ [] ∧ fromChars 10 portText = some port ∧
        port ≤ 65535 ∧ config = { host := host, port := port } := by
  constructor
  · intro h
    obtain ⟨⟨host, portText⟩, hsplit, h⟩ := Loop.bind_eq_ok.mp h
    simp only at h
    split at h
    · cases h
    next hempty =>
    split at h
    · cases h
    next port hport =>
    split at h
    · cases h
    next hmax =>
    exact ⟨host, portText, port, splitAddress_eq_ok_iff.mp hsplit, fun h => hempty (.inl h),
      (fromChars32_eq_some_iff.mp hport).1, not_lt.mp hmax, (Except.ok.inj h).symm⟩
  · rintro ⟨host, portText, port, haddress, hhost, hport, hmax, rfl⟩
    refine Loop.bind_eq_ok.mpr ⟨(host, portText), splitAddress_eq_ok_iff.mpr haddress, ?_⟩
    have hread : fromChars32 portText = some port :=
      fromChars32_eq_some_iff.mpr ⟨hport, by omega⟩
    simp [hhost, fromChars_ne_nil hport, hread, hmax]

theorem parseUpstreamEndpoint_eq_ok_iff {value : Bytes} {endpoint : UpstreamEndpoint} :
    parseUpstreamEndpoint value = .ok endpoint ↔
      AddressText value endpoint.host endpoint.service ∧ endpoint.host ≠ [] ∧
        endpoint.service ≠ [] := by
  constructor
  · intro h
    obtain ⟨⟨host, service⟩, hsplit, h⟩ := Loop.bind_eq_ok.mp h
    simp only at h
    split at h
    · cases h
    next hempty =>
    obtain rfl := Except.ok.inj h
    rw [not_or] at hempty
    exact ⟨splitAddress_eq_ok_iff.mp hsplit, hempty⟩
  · rintro ⟨haddress, hhost, hservice⟩
    refine Loop.bind_eq_ok.mpr ⟨_, splitAddress_eq_ok_iff.mpr haddress, ?_⟩
    simp [hhost, hservice]

theorem parseThreadCount_eq_ok_iff {value : Bytes} {count : Nat} :
    parseThreadCount value = .ok count ↔
      fromChars 10 value = some count ∧ count < 2 ^ 32 ∧ count ≠ 0 := by
  rw [← and_assoc, ← fromChars32_eq_some_iff]
  unfold parseThreadCount
  cases fromChars32 value with
  | none => simp [invalid]
  | some n =>
    by_cases hzero : n = 0
    · simpa [hzero, invalid] using Eq.symm
    · simp only [hzero, if_false, Except.ok.injEq, Option.some.injEq]
      exact ⟨fun h => ⟨h, h ▸ hzero⟩, fun h => h.1⟩

theorem parsePositiveSize_eq_ok_iff {value : Bytes} {option : String} {size : Nat} :
    parsePositiveSize value option = .ok size ↔ fromChars 10 value = some size ∧ size ≠ 0 := by
  unfold parsePositiveSize
  cases fromChars 10 value with
  | none => simp [invalid]
  | some n =>
    by_cases hzero : n = 0
    · simpa [hzero, invalid] using Eq.symm
    · simp only [hzero, if_false, Except.ok.injEq, Option.some.injEq]
      exact ⟨fun h => ⟨h, h ▸ hzero⟩, fun h => h.1⟩

section

variable {stod : Bytes → Option (Double × Nat)}

/-- A positive and finite number, as `std::stod` reads it to the end of the text. -/
structure PositiveDouble (stod : Bytes → Option (Double × Nat)) (text : Bytes) (value : Double) :
    Prop where
  read : stod text = some (value, text.length)
  finite : value.isfinite = true
  positive : value.nonpositive = false

theorem parsePositiveDouble_eq_ok_iff {value : Bytes} {option : String} {number : Double} :
    parsePositiveDouble stod value option = .ok number ↔ PositiveDouble stod value number := by
  unfold parsePositiveDouble
  constructor
  · intro h
    split at h
    · cases h
    next parsed consumed hread =>
    split at h
    · cases h
    next hgood =>
    obtain rfl := Except.ok.inj h
    simp only [not_or, not_not, Bool.not_eq_false, Bool.not_eq_true] at hgood
    exact ⟨hgood.1 ▸ hread, hgood.2.1, hgood.2.2⟩
  · rintro ⟨hread, hfinite, hpositive⟩
    simp [hread, hfinite, hpositive]

/-! ### The options of a command line -/

/-- An option with its value. -/
inductive Item
  | listen (config : ListenConfig)
  | config (path : Bytes)
  | threads (count : Nat)
  | documentRoot (path : Bytes)
  | proxyUpstream (endpoint : UpstreamEndpoint)
  | rateLimit (value : Double)
  | rateBurst (value : Double)
  | proxyRateLimit (value : Double)
  | proxyRateBurst (value : Double)
  | proxyCacheTtlMs (value : Nat)
  | proxyCacheMaxBytes (value : Nat)
  | proxyCacheEntryMaxBytes (value : Nat)
  | proxyCacheShards (value : Nat)
  | flag (option : FlagOption)
  deriving DecidableEq, Repr

def Options.apply (options : Options) : Item → Options
  | .listen config => { options with config := config }
  | .config path => { options with configPath := some path }
  | .threads count => { options with threadCount := count }
  | .documentRoot path => { options with documentRoot := some path }
  | .proxyUpstream endpoint =>
    { options with proxyUpstreams := options.proxyUpstreams ++ [endpoint] }
  | .rateLimit value => { options with rateLimit := some value }
  | .rateBurst value => { options with rateBurst := some value }
  | .proxyRateLimit value => { options with proxyRateLimit := some value }
  | .proxyRateBurst value => { options with proxyRateBurst := some value }
  | .proxyCacheTtlMs value => { options with proxyCacheTtlMs := some value }
  | .proxyCacheMaxBytes value => { options with proxyCacheMaxBytes := some value }
  | .proxyCacheEntryMaxBytes value => { options with proxyCacheEntryMaxBytes := some value }
  | .proxyCacheShards value => { options with proxyCacheShards := some value }
  | .flag option => options.raise option

/-- How the value of an option is written. -/
inductive Valued (stod : Bytes → Option (Double × Nat)) : ValueOption → Bytes → Item → Prop
  | listen {value host portText : Bytes} {port : Nat} (haddress : AddressText value host portText)
      (hhost : host ≠ []) (hport : fromChars 10 portText = some port) (hmax : port ≤ 65535) :
    Valued stod .listen value (.listen { host := host, port := port })
  | config {value : Bytes} : Valued stod .config value (.config value)
  | threads {value : Bytes} {count : Nat} (hread : fromChars 10 value = some count)
      (hmax : count < 2 ^ 32) (hcount : count ≠ 0) : Valued stod .threads value (.threads count)
  | documentRoot {value : Bytes} : Valued stod .documentRoot value (.documentRoot value)
  | proxyUpstream {value : Bytes} {endpoint : UpstreamEndpoint}
      (haddress : AddressText value endpoint.host endpoint.service) (hhost : endpoint.host ≠ [])
      (hservice : endpoint.service ≠ []) :
    Valued stod .proxyUpstream value (.proxyUpstream endpoint)
  | rateLimit {value : Bytes} {number : Double} (hnumber : PositiveDouble stod value number) :
    Valued stod .rateLimit value (.rateLimit number)
  | rateBurst {value : Bytes} {number : Double} (hnumber : PositiveDouble stod value number) :
    Valued stod .rateBurst value (.rateBurst number)
  | proxyRateLimit {value : Bytes} {number : Double} (hnumber : PositiveDouble stod value number) :
    Valued stod .proxyRateLimit value (.proxyRateLimit number)
  | proxyRateBurst {value : Bytes} {number : Double} (hnumber : PositiveDouble stod value number) :
    Valued stod .proxyRateBurst value (.proxyRateBurst number)
  | proxyCacheTtlMs {value : Bytes} {size : Nat} (hread : fromChars 10 value = some size)
      (hsize : size ≠ 0) : Valued stod .proxyCacheTtlMs value (.proxyCacheTtlMs size)
  | proxyCacheMaxBytes {value : Bytes} {size : Nat} (hread : fromChars 10 value = some size)
      (hsize : size ≠ 0) : Valued stod .proxyCacheMaxBytes value (.proxyCacheMaxBytes size)
  | proxyCacheEntryMaxBytes {value : Bytes} {size : Nat} (hread : fromChars 10 value = some size)
      (hsize : size ≠ 0) :
    Valued stod .proxyCacheEntryMaxBytes value (.proxyCacheEntryMaxBytes size)
  | proxyCacheShards {value : Bytes} {size : Nat} (hread : fromChars 10 value = some size)
      (hsize : size ≠ 0) : Valued stod .proxyCacheShards value (.proxyCacheShards size)

/-- A command line without the options that end the loop. -/
inductive Written (stod : Bytes → Option (Double × Nat)) : List Item → List Bytes → Prop
  | nil : Written stod [] []
  | valued {option : ValueOption} {value : Bytes} {item : Item} {items : List Item}
      {arguments : List Bytes} (hitem : Valued stod option value item)
      (hrest : Written stod items arguments) :
    Written stod (item :: items) (bytes option.name :: value :: arguments)
  | flag {option : FlagOption} {items : List Item} {arguments : List Bytes}
      (hrest : Written stod items arguments) :
    Written stod (.flag option :: items) (bytes option.name :: arguments)

/-- What is set for an option is its item. -/
theorem set_eq_ok_iff {options options' : Options} {option : ValueOption} {value : Bytes} :
    options.set stod option value = .ok options' ↔
      ∃ item, Valued stod option value item ∧ options.apply item = options' := by
  constructor
  · intro h
    cases option with
    | listen =>
      obtain ⟨config, hparse, rfl⟩ := Loop.map_eq_ok.mp h
      obtain ⟨host, portText, port, haddress, hhost, hport, hmax, rfl⟩ :=
        parseListenAddress_eq_ok_iff.mp hparse
      exact ⟨_, .listen haddress hhost hport hmax, rfl⟩
    | config => exact ⟨_, .config, Except.ok.inj h⟩
    | threads =>
      obtain ⟨count, hparse, rfl⟩ := Loop.map_eq_ok.mp h
      obtain ⟨hread, hmax, hcount⟩ := parseThreadCount_eq_ok_iff.mp hparse
      exact ⟨_, .threads hread hmax hcount, rfl⟩
    | documentRoot => exact ⟨_, .documentRoot, Except.ok.inj h⟩
    | proxyUpstream =>
      obtain ⟨endpoint, hparse, rfl⟩ := Loop.map_eq_ok.mp h
      obtain ⟨haddress, hhost, hservice⟩ := parseUpstreamEndpoint_eq_ok_iff.mp hparse
      exact ⟨_, .proxyUpstream haddress hhost hservice, rfl⟩
    | rateLimit =>
      obtain ⟨number, hparse, rfl⟩ := Loop.map_eq_ok.mp h
      exact ⟨_, .rateLimit (parsePositiveDouble_eq_ok_iff.mp hparse), rfl⟩
    | rateBurst =>
      obtain ⟨number, hparse, rfl⟩ := Loop.map_eq_ok.mp h
      exact ⟨_, .rateBurst (parsePositiveDouble_eq_ok_iff.mp hparse), rfl⟩
    | proxyRateLimit =>
      obtain ⟨number, hparse, rfl⟩ := Loop.map_eq_ok.mp h
      exact ⟨_, .proxyRateLimit (parsePositiveDouble_eq_ok_iff.mp hparse), rfl⟩
    | proxyRateBurst =>
      obtain ⟨number, hparse, rfl⟩ := Loop.map_eq_ok.mp h
      exact ⟨_, .proxyRateBurst (parsePositiveDouble_eq_ok_iff.mp hparse), rfl⟩
    | proxyCacheTtlMs =>
      obtain ⟨size, hparse, rfl⟩ := Loop.map_eq_ok.mp h
      obtain ⟨hread, hsize⟩ := parsePositiveSize_eq_ok_iff.mp hparse
      exact ⟨_, .proxyCacheTtlMs hread hsize, rfl⟩
    | proxyCacheMaxBytes =>
      obtain ⟨size, hparse, rfl⟩ := Loop.map_eq_ok.mp h
      obtain ⟨hread, hsize⟩ := parsePositiveSize_eq_ok_iff.mp hparse
      exact ⟨_, .proxyCacheMaxBytes hread hsize, rfl⟩
    | proxyCacheEntryMaxBytes =>
      obtain ⟨size, hparse, rfl⟩ := Loop.map_eq_ok.mp h
      obtain ⟨hread, hsize⟩ := parsePositiveSize_eq_ok_iff.mp hparse
      exact ⟨_, .proxyCacheEntryMaxBytes hread hsize, rfl⟩
    | proxyCacheShards =>
      obtain ⟨size, hparse, rfl⟩ := Loop.map_eq_ok.mp h
      obtain ⟨hread, hsize⟩ := parsePositiveSize_eq_ok_iff.mp hparse
      exact ⟨_, .proxyCacheShards hread hsize, rfl⟩
  · rintro ⟨item, hitem, rfl⟩
    cases hitem with
    | listen haddress hhost hport hmax =>
      exact Loop.map_eq_ok.mpr ⟨_, parseListenAddress_eq_ok_iff.mpr
        ⟨_, _, _, haddress, hhost, hport, hmax, rfl⟩, rfl⟩
    | config => rfl
    | threads hread hmax hcount =>
      exact Loop.map_eq_ok.mpr ⟨_, parseThreadCount_eq_ok_iff.mpr ⟨hread, hmax, hcount⟩, rfl⟩
    | documentRoot => rfl
    | proxyUpstream haddress hhost hservice =>
      exact Loop.map_eq_ok.mpr ⟨_, parseUpstreamEndpoint_eq_ok_iff.mpr
        ⟨haddress, hhost, hservice⟩, rfl⟩
    | rateLimit hnumber | rateBurst hnumber | proxyRateLimit hnumber | proxyRateBurst hnumber =>
      exact Loop.map_eq_ok.mpr ⟨_, parsePositiveDouble_eq_ok_iff.mpr hnumber, rfl⟩
    | proxyCacheTtlMs hread hsize | proxyCacheMaxBytes hread hsize
    | proxyCacheEntryMaxBytes hread hsize | proxyCacheShards hread hsize =>
      exact Loop.map_eq_ok.mpr ⟨_, parsePositiveSize_eq_ok_iff.mpr ⟨hread, hsize⟩, rfl⟩

/-- Reading a value does nothing undefined. -/
theorem set_ne_undefined {options : Options} {option : ValueOption} {value : Bytes} :
    options.set stod option value ≠ .error .undefined := by
  have hsplit : ∀ bracketed plain, splitAddress value bracketed plain ≠ .error .undefined := by
    intro bracketed plain
    unfold splitAddress invalid
    grind
  have hlisten : parseListenAddress value ≠ .error .undefined := by
    have hvalue := hsplit "IPv6 listen addresses must look like [::1]:8080"
      "listen address must look like HOST:PORT"
    unfold parseListenAddress invalid
    cases h : splitAddress value _ _ <;> grind [Except.bind]
  have hupstream : parseUpstreamEndpoint value ≠ .error .undefined := by
    have hvalue := hsplit "IPv6 upstream addresses must look like [::1]:8081"
      "upstream address must look like HOST:PORT"
    unfold parseUpstreamEndpoint invalid
    cases h : splitAddress value _ _ <;> grind [Except.bind]
  have hthreads : parseThreadCount value ≠ .error .undefined := by
    unfold parseThreadCount invalid
    grind
  have hsize : ∀ name, parsePositiveSize value name ≠ .error .undefined := by
    intro name
    unfold parsePositiveSize invalid
    grind
  have hnumber : ∀ name, parsePositiveDouble stod value name ≠ .error .undefined := by
    intro name
    unfold parsePositiveDouble invalid
    grind
  have hmap : ∀ {α : Type} {x : Except Failure α} {f : α → Options}, x ≠ .error .undefined →
      x.map f ≠ .error .undefined := by
    intro α x f hx
    cases x with
    | error failure => exact fun h => hx (congrArg _ (Except.error.inj h))
    | ok _ => exact fun h => by cases h
  cases option with
  | listen => exact hmap hlisten
  | threads => exact hmap hthreads
  | proxyUpstream => exact hmap hupstream
  | config | documentRoot => exact fun h => by cases h
  | rateLimit | rateBurst | proxyRateLimit | proxyRateBurst => exact hmap (hnumber _)
  | proxyCacheTtlMs | proxyCacheMaxBytes | proxyCacheEntryMaxBytes | proxyCacheShards =>
    exact hmap (hsize _)

/-! ### The names of the options -/

/-- A name of an option that the loop goes on after. -/
def Goes (argument : Bytes) : Prop :=
  argument ≠ bytes "--version" ∧ ¬(argument = bytes "--help" ∨ argument = bytes "-h")

instance (argument : Bytes) : Decidable (Goes argument) :=
  inferInstanceAs (Decidable (_ ∧ _))

theorem goes_value (option : ValueOption) : Goes (bytes option.name) := by
  cases option <;> decide +kernel

theorem goes_flag (option : FlagOption) : Goes (bytes option.name) := by
  cases option <;> decide +kernel

theorem find_flag (option : FlagOption) :
    flagOptions.find? (fun flag => bytes flag.name = bytes option.name) = some option := by
  cases option <;> decide +kernel

theorem find_value (option : ValueOption) :
    flagOptions.find? (fun flag => bytes flag.name = bytes option.name) = none ∧
      valueOptions.find? (fun other => bytes other.name = bytes option.name) = some option := by
  cases option <;> decide +kernel

/-! ### The loop -/

theorem readArguments_flag {argc : Nat} {options : Options} (option : FlagOption)
    (rest : List Bytes) : readArguments stod argc options (bytes option.name :: rest) =
      readArguments stod argc (options.raise option) rest := by
  rw [readArguments.eq_def]
  simp only [if_neg (goes_flag option).1, if_neg (goes_flag option).2, find_flag]

theorem readArguments_value {argc : Nat} {options : Options} (option : ValueOption)
    (value : Bytes) (rest : List Bytes) :
    readArguments stod argc options (bytes option.name :: value :: rest) =
      (options.set stod option value).bind fun options =>
        readArguments stod argc options rest := by
  rw [readArguments.eq_def]
  simp only [if_neg (goes_value option).1, if_neg (goes_value option).2, (find_value option).1,
    (find_value option).2]

/-- **Run lemma of the loop.** What is written is set, one option after the other. -/
theorem readArguments_written {argc : Nat} {items : List Item} {arguments rest : List Bytes}
    (h : Written stod items arguments) (options : Options) :
    readArguments stod argc options (arguments ++ rest) =
      readArguments stod argc (items.foldl Options.apply options) rest := by
  induction h generalizing options with
  | nil => rfl
  | @valued option value item _ _ hitem _ ih =>
    have hset : options.set stod option value = .ok (options.apply item) :=
      set_eq_ok_iff.mpr ⟨item, hitem, rfl⟩
    rw [List.cons_append, List.cons_append, readArguments_value, hset]
    exact ih _
  | flag _ ih =>
    rw [List.cons_append, readArguments_flag]
    exact ih _

/-- How the loop ends after the options that it has set. -/
inductive Ends (argc : Nat) (options : Options) : List Bytes → Read → Prop
  | options : Ends argc options [] (.options options)
  | version (rest : List Bytes) (hargc : argc = 2) :
    Ends argc options (bytes "--version" :: rest) .version
  | usage {help : Bytes} (rest : List Bytes) (hhelp : help = bytes "--help" ∨ help = bytes "-h") :
    Ends argc options (help :: rest) .usage

theorem readArguments_of_ends {argc : Nat} {options : Options} {rest : List Bytes} {read : Read}
    (h : Ends argc options rest read) : readArguments stod argc options rest = .ok read := by
  cases h with
  | options => rfl
  | version rest hargc =>
    rw [readArguments.eq_def]
    simp [hargc]
  | usage rest hhelp =>
    have hversion : ∀ help, help = bytes "--help" ∨ help = bytes "-h" →
        help ≠ bytes "--version" := by
      rintro help (rfl | rfl) <;> decide +kernel
    rw [readArguments.eq_def]
    simp only [if_neg (hversion _ hhelp), if_pos hhelp]

theorem exception_stops {what : Bytes} {p : Read → Prop} :
    (.error (.exception what) : Except Failure Read) ≠ .error .undefined ∧
      ∀ read, (.error (.exception what) : Except Failure Read) = .ok read → p read :=
  ⟨by simp, by simp⟩

/-- The loop has read some options when it ends, and does nothing undefined. -/
theorem readArguments_ends (stod : Bytes → Option (Double × Nat)) (argc : Nat)
    (options : Options) (arguments : List Bytes) :
    readArguments stod argc options arguments ≠ .error .undefined ∧
      ∀ read, readArguments stod argc options arguments = .ok read →
        ∃ items written rest, Written stod items written ∧ arguments = written ++ rest ∧
          Ends argc (items.foldl Options.apply options) rest read := by
  fun_induction readArguments stod argc options arguments with
  | case1 options =>
    refine ⟨by simp, fun read h => ⟨[], [], [], .nil, rfl, ?_⟩⟩
    obtain rfl := Except.ok.inj h
    exact .options
  | case2 options rest hargc => exact exception_stops
  | case3 options rest hargc =>
    refine ⟨by simp, fun read h => ⟨[], [], _, .nil, rfl, ?_⟩⟩
    obtain rfl := Except.ok.inj h
    exact .version rest (not_not.mp hargc)
  | case4 options argument rest hversion hhelp =>
    refine ⟨by simp, fun read h => ⟨[], [], _, .nil, rfl, ?_⟩⟩
    obtain rfl := Except.ok.inj h
    exact .usage rest hhelp
  | case5 options argument rest hversion hhelp flag hflag ih =>
    refine ⟨ih.1, fun read h => ?_⟩
    obtain ⟨items, written, left, hwritten, rfl, hends⟩ := ih.2 read h
    have hname := List.find?_some hflag
    obtain rfl : bytes flag.name = argument := by simpa using hname
    exact ⟨.flag flag :: items, _, left, .flag hwritten, rfl, hends⟩
  | case6 options argument hversion hhelp hflag => exact exception_stops
  | case7 options argument hversion hhelp hflag value rest option hoption ih =>
    constructor
    · intro h
      cases hset : options.set stod option value with
      | error failure =>
        rw [hset] at h
        obtain rfl := Except.error.inj h
        exact set_ne_undefined hset
      | ok options' =>
        rw [hset] at h
        exact (ih options').1 h
    · intro read h
      obtain ⟨options', hset, h⟩ := Loop.bind_eq_ok.mp h
      obtain ⟨item, hitem, rfl⟩ := set_eq_ok_iff.mp hset
      obtain ⟨items, written, left, hwritten, rfl, hends⟩ := (ih _).2 read h
      have hname := List.find?_some hoption
      obtain rfl : bytes option.name = argument := by simpa using hname
      exact ⟨item :: items, _, left, .valued hitem hwritten, rfl, hends⟩
  | case8 options argument hversion hhelp hflag value rest hoption => exact exception_stops

/-! ### What the options are checked for -/

/-- What holds of the values that the loop has read. -/
structure Options.Sound (options : Options) : Prop where
  host : options.config.host ≠ []
  port : options.config.port ≤ 65535
  threadCount : options.threadCount ≠ 0
  proxyUpstreams : ∀ endpoint ∈ options.proxyUpstreams,
    endpoint.host ≠ [] ∧ endpoint.service ≠ []
  rates : ∀ rate, rate ∈ options.rateLimit ∨ rate ∈ options.rateBurst ∨
    rate ∈ options.proxyRateLimit ∨ rate ∈ options.proxyRateBurst →
      rate.isfinite = true ∧ rate.nonpositive = false
  sizes : ∀ size, size ∈ options.proxyCacheTtlMs ∨ size ∈ options.proxyCacheMaxBytes ∨
    size ∈ options.proxyCacheEntryMaxBytes ∨ size ∈ options.proxyCacheShards → size ≠ 0

theorem sound_start (detected : Nat) :
    ({ threadCount := defaultThreadCount detected } : Options).Sound := by
  refine ⟨?_, ?_, ?_, by simp, by simp, by simp⟩
  · show bytes "127.0.0.1" ≠ []
    decide
  · show 8080 ≤ 65535
    decide
  · unfold defaultThreadCount
    split <;> simp_all

/-- **Step lemma.** -/
theorem Options.Sound.valued {options : Options} (h : options.Sound) {option : ValueOption}
    {value : Bytes} {item : Item} (hitem : Valued stod option value item) :
    (options.apply item).Sound := by
  have hrates := h.rates
  have hsizes := h.sizes
  cases hitem with
  | listen haddress hhost hport hmax => exact { h with host := hhost, port := hmax }
  | config | documentRoot => exact { h with }
  | threads hread hmax hcount => exact { h with threadCount := hcount }
  | proxyUpstream haddress hhost hservice =>
    refine { h with proxyUpstreams := fun e he => ?_ }
    rcases List.mem_append.mp he with he | he
    · exact h.proxyUpstreams e he
    · obtain rfl := List.mem_singleton.mp he
      exact ⟨hhost, hservice⟩
  | rateLimit hnumber | rateBurst hnumber | proxyRateLimit hnumber | proxyRateBurst hnumber =>
    refine { h with rates := fun rate hrate => ?_ }
    have hgood := hnumber.finite
    have hpositive := hnumber.positive
    simp only [Options.apply, Option.mem_def, Option.some.injEq] at hrate hrates
    grind
  | proxyCacheTtlMs hread hsize | proxyCacheMaxBytes hread hsize
  | proxyCacheEntryMaxBytes hread hsize | proxyCacheShards hread hsize =>
    refine { h with sizes := fun size hmem => ?_ }
    simp only [Options.apply, Option.mem_def, Option.some.injEq] at hmem hsizes
    grind

/-- **Run lemma.** -/
theorem Options.Sound.written {options : Options} (h : options.Sound) {items : List Item}
    {arguments : List Bytes} (hwritten : Written stod items arguments) :
    (items.foldl Options.apply options).Sound := by
  induction hwritten generalizing options with
  | nil => exact h
  | valued hitem _ ih => exact ih (h.valued hitem)
  | @flag option _ _ _ ih =>
    refine ih ?_
    cases option <;> exact { h with }

/-- The limit of two options, which are used together or not at all. -/
inductive IsLimit (perClient : Bool) :
    Option Double → Option Double → Option RateLimitSettings → Prop
  | none : IsLimit perClient none none none
  | some (rate burst : Double) : IsLimit perClient (some rate) (some burst)
      (some { requestsPerSecond := rate, burst := burst, perClient := perClient })

/-- The cache of four options; the last two have defaults. -/
inductive IsCache (options : Options) : Option ResponseCacheConfig → Prop
  | none (hnone : options.proxyCacheTtlMs = none ∧ options.proxyCacheMaxBytes = none ∧
      options.proxyCacheEntryMaxBytes = none ∧ options.proxyCacheShards = none) :
    IsCache options none
  | some {ttl maxBytes maxEntryBytes shardCount : Nat} (httl : options.proxyCacheTtlMs = some ttl)
      (hbytes : options.proxyCacheMaxBytes = some maxBytes)
      (hentry : maxEntryBytes = options.proxyCacheEntryMaxBytes.getD (min (256 * 1024) maxBytes))
      (hshards : shardCount = options.proxyCacheShards.getD (min 16 (maxBytes / maxEntryBytes)))
      (hsize : maxEntryBytes ≤ maxBytes) (hfits : shardCount * maxEntryBytes ≤ maxBytes) :
    IsCache options (some { ttl := millisecondsOfSize ttl, maxEntryBytes := maxEntryBytes,
                            maxBytes := maxBytes, shardCount := shardCount, varyHeaders := [] })

/-- What `main` serves for the options. -/
structure Settles (options : Options) (settings : Settings) : Prop where
  configPath : options.configPath = none
  listen : settings.listen = options.config
  threadCount : settings.threadCount = options.threadCount
  documentRoot : settings.documentRoot = options.documentRoot
  proxyUpstreams : settings.proxyUpstreams = options.proxyUpstreams
  globalRateLimit : IsLimit options.ratePerClient options.rateLimit options.rateBurst
    settings.globalRateLimit
  proxyRouteLimit : IsLimit options.proxyRatePerClient options.proxyRateLimit
    options.proxyRateBurst settings.proxyRouteLimit
  proxyCache : IsCache options settings.proxyCache

theorem IsLimit.isSome {perClient : Bool} {rate burst : Option Double}
    {limit : Option RateLimitSettings} (h : IsLimit perClient rate burst limit) :
    rate.isSome = burst.isSome := by
  cases h <;> rfl

theorem IsCache.checked {options : Options} {cache : Option ResponseCacheConfig}
    (h : IsCache options cache) :
    options.proxyCacheTtlMs.isSome = options.proxyCacheMaxBytes.isSome ∧
      ¬((options.proxyCacheEntryMaxBytes.isSome ∨ options.proxyCacheShards.isSome) ∧
        options.proxyCacheTtlMs.isNone) := by
  cases h with
  | none hnone => simp [hnone]
  | some httl hbytes _ _ _ _ => simp [httl, hbytes]

theorem rateLimitOf_spec {perClient : Bool} {rate burst : Option Double}
    (htogether : rate.isSome = burst.isSome) :
    ∃ limit, rateLimitOf rate burst perClient = .ok limit ∧
      ∀ limit', IsLimit perClient rate burst limit' ↔ limit' = limit := by
  cases rate with
  | none =>
    cases burst with
    | none =>
      refine ⟨none, rfl, fun limit' => ⟨fun h => ?_, fun h => h ▸ .none⟩⟩
      cases h
      rfl
    | some _ => cases htogether
  | some rate =>
    cases burst with
    | none => cases htogether
    | some burst =>
      refine ⟨_, rfl, fun limit' => ⟨fun h => ?_, fun h => h ▸ .some rate burst⟩⟩
      cases h
      rfl

theorem divide_eq_ok {left right : Nat} (hright : right ≠ 0) :
    divide left right = .ok (left / right) := if_neg hright

/-- **The cache of the options.** Nothing is divided by zero: a size that was read is not zero,
    and a default is not when its size fits. -/
theorem proxyCache_spec {options : Options} (h : options.Sound)
    (htogether : options.proxyCacheTtlMs.isSome = options.proxyCacheMaxBytes.isSome)
    (hrequired : ¬((options.proxyCacheEntryMaxBytes.isSome ∨ options.proxyCacheShards.isSome) ∧
      options.proxyCacheTtlMs.isNone)) :
    proxyCache options ≠ .error .undefined ∧
      ∀ cache, proxyCache options = .ok cache ↔ IsCache options cache := by
  cases httl : options.proxyCacheTtlMs with
  | none =>
    have hbytes : options.proxyCacheMaxBytes = none := by
      rw [httl] at htogether
      simpa using htogether.symm
    have hnone : options.proxyCacheEntryMaxBytes = none ∧ options.proxyCacheShards = none := by
      simpa [httl] using hrequired
    have hresult : proxyCache options = .ok none := by
      unfold proxyCache
      rw [httl]
    refine ⟨by simp [hresult], fun cache => ?_⟩
    rw [hresult, Except.ok.injEq]
    constructor
    · rintro rfl
      exact .none ⟨httl, hbytes, hnone⟩
    · intro hcache
      cases hcache with
      | none _ => rfl
      | some httl' _ _ _ _ _ =>
        rw [httl] at httl'
        cases httl'
  | some ttl =>
    obtain ⟨maxBytes, hbytes⟩ : ∃ maxBytes, options.proxyCacheMaxBytes = some maxBytes := by
      rw [httl] at htogether
      exact Option.isSome_iff_exists.mp htogether.symm
    have hpositive : maxBytes ≠ 0 := h.sizes maxBytes (.inr (.inl hbytes))
    obtain ⟨maxEntryBytes, hentry⟩ : ∃ n,
      n = options.proxyCacheEntryMaxBytes.getD (min (256 * 1024) maxBytes) := ⟨_, rfl⟩
    obtain ⟨shards, hshards⟩ : ∃ n,
      n = options.proxyCacheShards.getD (min 16 (maxBytes / maxEntryBytes)) := ⟨_, rfl⟩
    have hentryPositive : maxEntryBytes ≠ 0 := by
      have hsizes := h.sizes maxEntryBytes
      cases hgiven : options.proxyCacheEntryMaxBytes with
      | none =>
        rw [hentry, hgiven]
        simp only [Option.getD_none]
        omega
      | some n =>
        have hn : maxEntryBytes = n := by rw [hentry, hgiven]; rfl
        exact hsizes (.inr (.inr (.inl (by rw [hn]; exact hgiven))))
    have hshardsPositive : maxEntryBytes ≤ maxBytes → shards ≠ 0 := by
      intro hsize
      have hsizes := h.sizes shards
      cases hgiven : options.proxyCacheShards with
      | none =>
        have hone : 0 < maxBytes / maxEntryBytes :=
          Nat.div_pos hsize (Nat.pos_of_ne_zero hentryPositive)
        rw [hshards, hgiven]
        simp only [Option.getD_none]
        omega
      | some n =>
        have hn : shards = n := by rw [hshards, hgiven]; rfl
        exact hsizes (.inr (.inr (.inr (by rw [hn]; exact hgiven))))
    have hresult : proxyCache options =
        if maxBytes < maxEntryBytes then
          invalid "--proxy-cache-entry-max-bytes cannot exceed cache size"
        else (divide maxBytes shards).bind fun perShard =>
          if perShard < maxEntryBytes then
            invalid "--proxy-cache-entry-max-bytes is too large for the selected shard count"
          else .ok (some { ttl := millisecondsOfSize ttl, maxEntryBytes := maxEntryBytes,
                           maxBytes := maxBytes, shardCount := shards, varyHeaders := [] }) := by
      unfold proxyCache
      rw [httl, hbytes]
      simp only [← hentry, valueOr, divide_eq_ok hentryPositive]
      simp only [Except.map, ← hshards, bind, Except.bind]
    have hunique : ∀ {cache}, IsCache options cache → maxEntryBytes ≤ maxBytes ∧
        shards * maxEntryBytes ≤ maxBytes ∧
        cache = some { ttl := millisecondsOfSize ttl, maxEntryBytes := maxEntryBytes,
                       maxBytes := maxBytes, shardCount := shards, varyHeaders := [] } := by
      intro cache hcache
      cases hcache with
      | none hnone =>
        rw [httl] at hnone
        cases hnone.1
      | some httl' hbytes' hentry' hshards' hsize hfits =>
        obtain rfl := Option.some.inj (httl'.symm.trans httl)
        obtain rfl := Option.some.inj (hbytes'.symm.trans hbytes)
        obtain rfl := hentry'.trans hentry.symm
        obtain rfl := hshards'.trans hshards.symm
        exact ⟨hsize, hfits, rfl⟩
    rw [hresult]
    by_cases hsize : maxBytes < maxEntryBytes
    · rw [if_pos hsize]
      refine ⟨by simp [invalid], fun cache => iff_of_false (by simp [invalid]) fun hcache => ?_⟩
      exact absurd (hunique hcache).1 (not_le.mpr hsize)
    · have hshardsPositive := hshardsPositive (not_lt.mp hsize)
      rw [if_neg hsize, divide_eq_ok hshardsPositive]
      simp only [Except.bind]
      have hiff : maxBytes / shards < maxEntryBytes ↔ ¬shards * maxEntryBytes ≤ maxBytes := by
        rw [← not_le, Nat.le_div_iff_mul_le (Nat.pos_of_ne_zero hshardsPositive), Nat.mul_comm]
      by_cases hfits : shards * maxEntryBytes ≤ maxBytes
      · rw [if_neg (fun hlt => hiff.mp hlt hfits)]
        refine ⟨by simp, fun cache => ⟨fun hcache => ?_, fun hcache => ?_⟩⟩
        · obtain rfl := Except.ok.inj hcache
          exact .some httl hbytes hentry hshards (not_lt.mp hsize) hfits
        · rw [(hunique hcache).2.2]
      · rw [if_pos (hiff.mpr hfits)]
        refine ⟨by simp [invalid], fun cache => iff_of_false (by simp [invalid]) fun hcache => ?_⟩
        exact hfits (hunique hcache).2.1

theorem checkOptions_spec {options : Options} (h : options.Sound) (argc : Nat) :
    checkOptions argc options ≠ .error .undefined ∧
      (∀ path, checkOptions argc options = .ok (.runFromConfig path) ↔
        argc = 3 ∧ options.configPath = some path) ∧
      ∀ settings, checkOptions argc options = .ok (.serve settings) ↔
        Settles options settings := by
  unfold checkOptions
  cases hpath : options.configPath with
  | some path =>
    have hnot : ∀ settings, ¬Settles options settings := by
      intro settings hsettles
      have hnone := hsettles.configPath
      rw [hpath] at hnone
      cases hnone
    by_cases hargc : argc = 3
    · simp [hargc, hnot]
    · simp [hargc, hnot, invalid]
  | none =>
    simp only
    by_cases hlimit : options.rateLimit.isSome = options.rateBurst.isSome
    swap
    · rw [if_pos hlimit]
      refine ⟨by simp [invalid], by simp [invalid], fun settings =>
        iff_of_false (by simp [invalid]) fun hsettles => hlimit hsettles.globalRateLimit.isSome⟩
    rw [if_neg (not_not.mpr hlimit)]
    by_cases hproxy : options.proxyRateLimit.isSome = options.proxyRateBurst.isSome
    swap
    · rw [if_pos hproxy]
      refine ⟨by simp [invalid], by simp [invalid], fun settings =>
        iff_of_false (by simp [invalid]) fun hsettles => hproxy hsettles.proxyRouteLimit.isSome⟩
    rw [if_neg (not_not.mpr hproxy)]
    by_cases htogether : options.proxyCacheTtlMs.isSome = options.proxyCacheMaxBytes.isSome
    swap
    · rw [if_pos htogether]
      refine ⟨by simp [invalid], by simp [invalid], fun settings =>
        iff_of_false (by simp [invalid]) fun hsettles => htogether hsettles.proxyCache.checked.1⟩
    rw [if_neg (not_not.mpr htogether)]
    by_cases hrequired : (options.proxyCacheEntryMaxBytes.isSome ∨
        options.proxyCacheShards.isSome) ∧ options.proxyCacheTtlMs.isNone
    · rw [if_pos hrequired]
      refine ⟨by simp [invalid], by simp [invalid], fun settings =>
        iff_of_false (by simp [invalid]) fun hsettles => hsettles.proxyCache.checked.2 hrequired⟩
    rw [if_neg hrequired]
    obtain ⟨limit, hlimitOf, hisLimit⟩ := rateLimitOf_spec hlimit
    obtain ⟨proxyLimit, hproxyOf, hisProxy⟩ := rateLimitOf_spec hproxy
    obtain ⟨hdefined, hcache⟩ := proxyCache_spec h htogether hrequired
    rw [hlimitOf, hproxyOf]
    simp only [bind, Except.bind]
    cases hcacheOf : proxyCache options with
    | error failure =>
      have hfailure : failure ≠ .undefined := by
        rintro rfl
        exact hdefined hcacheOf
      refine ⟨by simpa using hfailure, by simp, fun settings =>
        iff_of_false (by simp) fun hsettles => ?_⟩
      have hok := (hcache _).mpr hsettles.proxyCache
      rw [hcacheOf] at hok
      cases hok
    | ok cache =>
      refine ⟨by simp, by simp, fun settings => ?_⟩
      rw [Except.ok.injEq, Command.serve.injEq]
      constructor
      · rintro rfl
        exact ⟨hpath, rfl, rfl, rfl, rfl, (hisLimit _).mpr rfl, (hisProxy _).mpr rfl,
          (hcache _).mp hcacheOf⟩
      · intro hsettles
        have hsame := (hcache _).mpr hsettles.proxyCache
        rw [hcacheOf, Except.ok.injEq] at hsame
        rw [← hsettles.listen, ← hsettles.threadCount, ← hsettles.documentRoot,
          ← hsettles.proxyUpstreams, ← (hisLimit _).mp hsettles.globalRateLimit,
          ← (hisProxy _).mp hsettles.proxyRouteLimit, hsame]

/-! ### What a command line asks for -/

/-- The options that are written, set one after the other. -/
def optionsOf (detected : Nat) (items : List Item) : Options :=
  items.foldl Options.apply { threadCount := defaultThreadCount detected }

/-- `main` reads options, and then ends, or checks them. -/
theorem commandLine_cases (stod : Bytes → Option (Double × Nat)) (detected : Nat)
    (arguments : List Bytes) :
    (∃ items written rest, Written stod items written ∧ arguments = written ++ rest ∧
      ((rest = [] ∧ commandLine stod detected arguments =
          checkOptions (arguments.length + 1) (optionsOf detected items)) ∨
        (∃ left, rest = bytes "--version" :: left ∧ arguments.length = 1 ∧
          commandLine stod detected arguments = .ok .version) ∨
        ∃ help left, rest = help :: left ∧ (help = bytes "--help" ∨ help = bytes "-h") ∧
          commandLine stod detected arguments = .ok .usage)) ∨
      ∃ what, commandLine stod detected arguments = .error (.exception what) := by
  obtain ⟨hdefined, hends⟩ := readArguments_ends stod (arguments.length + 1)
    { threadCount := defaultThreadCount detected } arguments
  cases hread : readArguments stod (arguments.length + 1)
      { threadCount := defaultThreadCount detected } arguments with
  | error failure =>
    cases failure with
    | exception what => exact .inr ⟨what, by simp only [commandLine, hread]; rfl⟩
    | undefined => exact absurd hread hdefined
  | ok read =>
    obtain ⟨items, written, rest, hwritten, harguments, hend⟩ := hends read hread
    refine .inl ⟨items, written, rest, hwritten, harguments, ?_⟩
    simp only [commandLine, hread]
    cases hend with
    | options => exact .inl ⟨rfl, rfl⟩
    | version left hargc => exact .inr (.inl ⟨left, rfl, by omega, rfl⟩)
    | usage left hhelp => exact .inr (.inr ⟨_, left, rfl, hhelp, rfl⟩)

/-- How `main` has come to a command. -/
inductive ComesTo (stod : Bytes → Option (Double × Nat)) (detected : Nat) (arguments : List Bytes) :
    Command → Prop
  | checked {items : List Item} {command : Command} (hwritten : Written stod items arguments)
      (hcheck : checkOptions (arguments.length + 1) (optionsOf detected items) = .ok command) :
    ComesTo stod detected arguments command
  | version (hversion : arguments = [bytes "--version"]) : ComesTo stod detected arguments .version
  | usage {items : List Item} {written rest : List Bytes} {help : Bytes}
      (hwritten : Written stod items written) (hhelp : help = bytes "--help" ∨ help = bytes "-h")
      (harguments : arguments = written ++ help :: rest) :
    ComesTo stod detected arguments .usage

theorem comesTo_of_commandLine {detected : Nat} {arguments : List Bytes} {command : Command}
    (h : commandLine stod detected arguments = .ok command) :
    ComesTo stod detected arguments command := by
  rcases commandLine_cases stod detected arguments with
    ⟨items, written, rest, hwritten, harguments, hcase⟩ | ⟨what, herror⟩
  · rcases hcase with ⟨rfl, hcheck⟩ | ⟨left, rfl, hlength, hok⟩ | ⟨help, left, rfl, hhelp, hok⟩
    · rw [List.append_nil] at harguments
      exact .checked (harguments ▸ hwritten) (hcheck.symm.trans h)
    · obtain rfl := Except.ok.inj (hok.symm.trans h)
      -- one argument is no more than the option itself
      rw [harguments, List.length_append, List.length_cons] at hlength
      have hwrittenNil : written = [] := List.eq_nil_of_length_eq_zero (by omega)
      have hleftNil : left = [] := List.eq_nil_of_length_eq_zero (by omega)
      exact .version (by rw [harguments, hwrittenNil, hleftNil]; rfl)
    · obtain rfl := Except.ok.inj (hok.symm.trans h)
      exact .usage hwritten hhelp harguments
  · cases herror.symm.trans h

theorem commandLine_written (detected : Nat) {items : List Item} {written : List Bytes}
    (hwritten : Written stod items written) :
    commandLine stod detected written =
      checkOptions (written.length + 1) (optionsOf detected items) := by
  have hread : ∀ options, readArguments stod (written.length + 1) options written =
      .ok (.options (items.foldl Options.apply options)) := fun options => by
    rw [← List.append_nil written, readArguments_written hwritten, readArguments]
  unfold commandLine
  simp only [hread]
  rfl

theorem checkOptions_result {argc : Nat} {options : Options} {command : Command}
    (h : checkOptions argc options = .ok command) :
    (∃ path, command = .runFromConfig path) ∨ ∃ settings, command = .serve settings := by
  unfold checkOptions at h
  split at h
  · split at h
    · cases h
    · exact .inl ⟨_, (Except.ok.inj h).symm⟩
  · split at h
    · cases h
    split at h
    · cases h
    split at h
    · cases h
    split at h
    · cases h
    obtain ⟨_, _, h⟩ := Loop.bind_eq_ok.mp h
    obtain ⟨_, _, h⟩ := Loop.bind_eq_ok.mp h
    obtain ⟨_, _, h⟩ := Loop.bind_eq_ok.mp h
    exact .inr ⟨_, (Except.ok.inj h).symm⟩

/-- The only way to set the path of the configuration with two arguments. -/
theorem config_of_two {detected : Nat} {items : List Item} {arguments : List Bytes} {path : Bytes}
    (hwritten : Written stod items arguments) (hlength : arguments.length = 2)
    (hpath : (optionsOf detected items).configPath = some path) :
    arguments = [bytes "--config", path] := by
  cases hwritten with
  | nil => cases hlength
  | valued hitem hrest =>
    cases hrest with
    | nil =>
      cases hitem with
      | config => rw [← Option.some.inj hpath]; rfl
      | _ => cases hpath
    | _ => simp at hlength
  | @flag option _ _ hrest =>
    cases hrest with
    | nil => cases hlength
    | valued _ _ => simp at hlength
    | @flag other _ _ hrest =>
      cases hrest with
      | nil => cases option <;> cases other <;> cases hpath
      | _ => simp at hlength

/-- **The command line.** Whatever the arguments are, `main` divides nothing by zero and reads no
optional that is empty.  It prints the version for `--version` alone, and the usage when `--help`
stands where an option can stand; it reads a configuration for `--config` and a path alone; and it
serves what the options say when they are well formed, those that belong together are used
together, and the entries fit into the shards of the cache. -/
theorem command_line_read (stod : Bytes → Option (Double × Nat)) (detected : Nat)
    (arguments : List Bytes) :
    commandLine stod detected arguments ≠ .error .undefined ∧
      (commandLine stod detected arguments = .ok .version ↔ arguments = [bytes "--version"]) ∧
      (commandLine stod detected arguments = .ok .usage ↔
        ∃ items written help rest, Written stod items written ∧
          (help = bytes "--help" ∨ help = bytes "-h") ∧ arguments = written ++ help :: rest) ∧
      (∀ path, commandLine stod detected arguments = .ok (.runFromConfig path) ↔
        arguments = [bytes "--config", path]) ∧
      ∀ settings, commandLine stod detected arguments = .ok (.serve settings) ↔
        ∃ items, Written stod items arguments ∧ Settles (optionsOf detected items) settings := by
  have hsound : ∀ {items written}, Written stod items written →
      (optionsOf detected items).Sound := fun hwritten => (sound_start detected).written hwritten
  refine ⟨?_, ⟨?_, ?_⟩, ⟨?_, ?_⟩, fun path => ⟨?_, ?_⟩, fun settings => ⟨?_, ?_⟩⟩
  · intro h
    rcases commandLine_cases stod detected arguments with
      ⟨items, written, rest, hwritten, -, hcase⟩ | ⟨what, herror⟩
    · rcases hcase with ⟨-, hcheck⟩ | ⟨_, -, -, hok⟩ | ⟨_, _, -, -, hok⟩
      · exact (checkOptions_spec (hsound hwritten) _).1 (hcheck.symm.trans h)
      · cases hok.symm.trans h
      · cases hok.symm.trans h
    · cases herror.symm.trans h
  · intro h
    cases comesTo_of_commandLine h with
    | checked _ hcheck =>
      obtain ⟨_, hcommand⟩ | ⟨_, hcommand⟩ := checkOptions_result hcheck <;> cases hcommand
    | version hversion => exact hversion
  · rintro rfl
    have hread : readArguments stod 2 { threadCount := defaultThreadCount detected }
        [bytes "--version"] = .ok .version := readArguments_of_ends (.version [] rfl)
    simp only [commandLine, List.length_singleton, Nat.reduceAdd, hread]
    rfl
  · intro h
    cases comesTo_of_commandLine h with
    | checked _ hcheck =>
      obtain ⟨_, hcommand⟩ | ⟨_, hcommand⟩ := checkOptions_result hcheck <;> cases hcommand
    | usage hwritten hhelp harguments => exact ⟨_, _, _, _, hwritten, hhelp, harguments⟩
  · rintro ⟨items, written, help, rest, hwritten, hhelp, rfl⟩
    simp only [commandLine, readArguments_written hwritten,
      readArguments_of_ends (.usage rest hhelp)]
    rfl
  · intro h
    cases comesTo_of_commandLine h with
    | checked hwritten hcheck =>
      obtain ⟨hargc, hpath⟩ := ((checkOptions_spec (hsound hwritten) _).2.1 path).mp hcheck
      exact config_of_two hwritten (by omega) hpath
  · rintro rfl
    have hwritten : Written stod [.config path] [bytes "--config", path] := .valued .config .nil
    rw [commandLine_written detected hwritten]
    exact ((checkOptions_spec (hsound hwritten) _).2.1 path).mpr ⟨rfl, rfl⟩
  · intro h
    cases comesTo_of_commandLine h with
    | checked hwritten hcheck =>
      exact ⟨_, hwritten, ((checkOptions_spec (hsound hwritten) _).2.2 settings).mp hcheck⟩
  · rintro ⟨items, hwritten, hsettles⟩
    rw [commandLine_written detected hwritten]
    exact ((checkOptions_spec (hsound hwritten) _).2.2 settings).mpr hsettles

end

/-! ### What is built -/

/-- What `main` builds for the settings is accepted by its constructors. -/
structure Built (settings : Settings) : Prop where
  runtime : (AsioRuntime.create settings.threadCount).isOk
  globalLimiter : ∀ limit ∈ settings.globalRateLimit, ∀ initialTime,
    (limit.limiter initialTime).isOk
  proxy : settings.proxyUpstreams ≠ [] → (ReverseProxy.create settings.proxyUpstreams {}).isOk
  checker : settings.proxyUpstreams ≠ [] → ∀ health,
    (HealthChecker.create {} settings.proxyUpstreams (some health)).isOk
  routeLimiter : settings.proxyUpstreams ≠ [] → ∀ limit ∈ settings.proxyRouteLimit,
    ∀ initialTime, (limit.limiter initialTime).isOk
  routeCache : settings.proxyUpstreams ≠ [] → ∀ cache ∈ settings.proxyCache,
    (ResponseCache.create cache).isOk

theorem IsLimit.limiter_isOk {perClient : Bool} {rate burst : Option Double}
    {limit : Option RateLimitSettings} (h : IsLimit perClient rate burst limit)
    (hrates : ∀ value, value ∈ rate ∨ value ∈ burst →
      value.isfinite = true ∧ value.nonpositive = false) :
    ∀ settings ∈ limit, ∀ initialTime, (settings.limiter initialTime).isOk := by
  cases h with
  | none => exact fun _ hsettings => by cases hsettings
  | some rate burst =>
    rintro settings hsettings initialTime
    obtain rfl := Option.some.inj hsettings
    obtain ⟨hrate, hratePositive⟩ := hrates rate (.inl rfl)
    obtain ⟨hburst, hburstPositive⟩ := hrates burst (.inr rfl)
    -- the other numbers are the defaults
    have hshards : (16 : Nat) ≤ pointerVectorMaxSize := by decide
    refine (Config.limiter_isOk_iff hratePositive hburstPositive).mpr
      ⟨hrate, hburst, ?_, ?_, ?_, fun _ => hshards⟩
    · show (16 : Nat) ≠ 0
      decide
    · show (10000 : Nat) ≠ 0
      decide
    · show (0 : Int) < 600000
      decide

theorem IsCache.create_isOk_iff {options : Options} {cache : ResponseCacheConfig}
    (h : IsCache options (Option.some cache)) (hsound : options.Sound) :
    (ResponseCache.create cache).isOk ↔
      0 < cache.ttl ∧ cache.shardCount ≤ pointerVectorMaxSize := by
  cases h with
  | @some ttl maxBytes maxEntryBytes shardCount httl hbytes hentry hshards hsize hfits =>
    have hmax : maxBytes ≠ 0 := hsound.sizes maxBytes (.inr (.inl hbytes))
    have hentryPositive : maxEntryBytes ≠ 0 := by
      have hsizes := hsound.sizes maxEntryBytes
      cases hgiven : options.proxyCacheEntryMaxBytes <;> simp_all
    have hshardsPositive : shardCount ≠ 0 := by
      have hsizes := hsound.sizes shardCount
      have hone : 0 < maxBytes / maxEntryBytes :=
        Nat.div_pos hsize (Nat.pos_of_ne_zero hentryPositive)
      cases hgiven : options.proxyCacheShards with
      | none =>
        rw [hshards, hgiven]
        simp only [Option.getD_none]
        omega
      | some n =>
        have hn : shardCount = n := by rw [hshards, hgiven]; rfl
        exact hsizes (.inr (.inr (.inr (by rw [hn]; exact hgiven))))
    have hfitsShard : maxEntryBytes ≤ maxBytes / shardCount :=
      (Nat.le_div_iff_mul_le (Nat.pos_of_ne_zero hshardsPositive)).mpr (by rwa [Nat.mul_comm])
    by_cases hpositive : 0 < millisecondsOfSize ttl
    · have hvalid : Config.ValidCache
          { ttl := millisecondsOfSize ttl, maxEntryBytes := maxEntryBytes, maxBytes := maxBytes,
            shardCount := shardCount, varyHeaders := [] } :=
        ⟨hpositive, hentryPositive, hmax, hshardsPositive, hfitsShard⟩
      rw [Config.create_cache_isOk_iff hvalid]
      exact ⟨fun hbounds => ⟨hpositive, hbounds.shards⟩, fun h => ⟨by simp, h.2⟩⟩
    · refine iff_of_false ?_ fun h => hpositive h.1
      rw [ResponseCache.create, if_pos]
      · exact Bool.false_ne_true
      · simp [ResponseCache.validConfig, not_lt.mp hpositive]

theorem create_proxy_isOk {upstreams : List UpstreamEndpoint} (hempty : upstreams ≠ [])
    (hnamed : ∀ upstream ∈ upstreams, upstream.host ≠ [] ∧ upstream.service ≠ []) :
    (ReverseProxy.create upstreams {}).isOk := by
  have hnot : ¬∃ upstream ∈ upstreams, upstream.host = [] ∨ upstream.service = [] := by
    rintro ⟨upstream, hmem, hnone⟩
    have hnames := hnamed upstream hmem
    tauto
  unfold ReverseProxy.create
  rw [dif_neg hempty, dif_neg hnot, Config.isOk_ite, Config.isOk_ite, Config.isOk_ite]
  refine ⟨?_, ?_, ?_, rfl⟩ <;> decide

/-- **What is built from a command line.** For all options that are served, the host is not empty
and the port has 16 bits, and no constructor throws, of the runtime, the limiters, the proxy, the
health checker and the cache; unless there is a proxy and its cache lasts `2 ^ 63` milliseconds or
more, which makes a duration that is not positive, or has more shards than fit into a vector.
Memory is taken to suffice for every vector that is not too long. -/
theorem command_line_builds (stod : Bytes → Option (Double × Nat)) (detected : Nat)
    (arguments : List Bytes) (settings : Settings)
    (h : commandLine stod detected arguments = .ok (.serve settings)) :
    settings.listen.host ≠ [] ∧ settings.listen.port ≤ 65535 ∧
      (Built settings ↔ settings.proxyUpstreams = [] ∨
        ∀ cache ∈ settings.proxyCache,
          0 < cache.ttl ∧ cache.shardCount ≤ pointerVectorMaxSize) := by
  cases comesTo_of_commandLine h with
  | checked hwritten hcheck =>
    have hsound := (sound_start detected).written hwritten
    have hsettles := ((checkOptions_spec hsound _).2.2 settings).mp hcheck
    have hupstreams : ∀ upstream ∈ settings.proxyUpstreams,
        upstream.host ≠ [] ∧ upstream.service ≠ [] := by
      rw [hsettles.proxyUpstreams]
      exact hsound.proxyUpstreams
    have hcache : ∀ cache ∈ settings.proxyCache, (ResponseCache.create cache).isOk ↔
        0 < cache.ttl ∧ cache.shardCount ≤ pointerVectorMaxSize := by
      intro cache hmem
      have hiscache := hsettles.proxyCache
      rw [hmem] at hiscache
      exact hiscache.create_isOk_iff hsound
    refine ⟨?_, ?_, fun hbuilt => ?_, fun hfits => ?_⟩
    · rw [hsettles.listen]
      exact hsound.host
    · rw [hsettles.listen]
      exact hsound.port
    · refine or_iff_not_imp_left.mpr fun hproxy cache hmem => ?_
      exact (hcache cache hmem).mp (hbuilt.routeCache hproxy cache hmem)
    · exact
        { runtime := by
            rw [AsioRuntime.create, hsettles.threadCount, if_neg hsound.threadCount]
            rfl
          globalLimiter := hsettles.globalRateLimit.limiter_isOk fun value hvalue =>
            hsound.rates value (hvalue.elim .inl fun h => .inr (.inl h))
          proxy := fun hproxy => create_proxy_isOk hproxy hupstreams
          checker := fun _ _ => by
            rw [HealthChecker.create, dif_pos (by decide)]
            rfl
          routeLimiter := fun _ => hsettles.proxyRouteLimit.limiter_isOk fun value hvalue =>
            hsound.rates value (hvalue.elim (fun h => .inr (.inr (.inl h)))
              fun h => .inr (.inr (.inr h)))
          routeCache := fun hproxy cache hmem =>
            (hcache cache hmem).mpr ((hfits.resolve_left hproxy) cache hmem) }

/-- A proxy with a cache of 64 bytes, of which the entries and the shards are the defaults. -/
theorem command_line_builds_cached :
    ∃ settings : Settings, settings.proxyUpstreams ≠ [] ∧ settings.proxyCache.isSome = true ∧
      (Built settings ↔ settings.proxyUpstreams = [] ∨
        ∀ cache ∈ settings.proxyCache,
          0 < cache.ttl ∧ cache.shardCount ≤ pointerVectorMaxSize) := by
  let arguments : List Bytes := [bytes "--proxy-upstream", bytes "[::1]:80",
    bytes "--proxy-cache-max-bytes", bytes "64", bytes "--proxy-cache-ttl-ms", bytes "5"]
  let settings : Settings :=
    { listen := {}, threadCount := 4, globalRateLimit := none, documentRoot := none,
      proxyUpstreams := [⟨bytes "::1", bytes "80"⟩], proxyRouteLimit := none,
      proxyCache := some { ttl := 5, maxEntryBytes := 64, maxBytes := 64, shardCount := 1,
                           varyHeaders := [] } }
  have hserve : commandLine (fun _ => none) 4 arguments = .ok (.serve settings) := by
    decide +kernel
  exact ⟨settings, List.cons_ne_nil _ _, rfl,
    (command_line_builds (fun _ => none) 4 arguments settings hserve).2.2⟩

end CommandLine

end PulseGate
