import PulseGate.Http.MetricsSeries
import PulseGate.Http.MetricsText
import PulseGate.Lib.Exposition
import Mathlib.Data.List.Flatten

namespace PulseGate

/-!
# What a scrape is read as

The text of `/metrics` is that of a document, with the metrics of the registry and those of the
router.

* `Series.text_eq` — a series is named as the format writes its labels, when its strings have no
  control characters; `\r` and `\t` have escapes here that the format does not know;
* `MetricsRegistry.text_families`, `Router.text_families` — the text is that of the metrics;
* `MetricsRegistry.mem_samples_iff` — what they show is what is in the registry;
* `scrape_reads_back` — in every state of every run the text is read as this document.
-/

/-! ### The document -/

/-- No control characters. -/
def Printable (value : Bytes) : Prop := ∀ c ∈ value, ¬Json.IsControl c

instance decidablePrintable (value : Bytes) : Decidable (Printable value) :=
  List.decidableBAll (fun c => ¬Json.IsControl c) value

/-- The labels of a series. -/
def Series.labels : Series → List (Bytes × Bytes)
  | httpRequests method statusClass route =>
    [(bytes "method", method.value), (bytes "status_class", intToString statusClass ++ bytes "xx"),
      (bytes "route", route.value)]
  | rejectedConnections reason => [(bytes "reason", reason.value)]
  | upstreamRequests upstream result =>
    [(bytes "upstream", upstream.value), (bytes "result", result.value)]
  | cacheRequests result => [(bytes "result", result.value)]
  | rateLimitRejections route => [(bytes "route", route.value)]

def Series.Printable (series : Series) : Prop :=
  ∀ label ∈ series.labels, PulseGate.Printable label.2

/-- The strings that a call hands over for labels. -/
def MetricsCall.strings : MetricsCall → List Bytes
  | .recordHttp method _ route _ => [method, route]
  | .connectionRejected reason => [reason]
  | .recordUpstream upstream result _ => [upstream, result]
  | .recordCache result => [result]
  | .recordRateLimitRejection route => [route]
  | .setCircuitState upstream _ => [upstream]
  | _ => []

/-- The labels of a key, which is the text of its labels. -/
def keyLabels (key : Bytes) : List (Bytes × Bytes) :=
  ((Exposition.labelsFrom key.length (key ++ [125])).map (·.1)).getD []

def CounterMap.name : CounterMap → Bytes
  | httpRequests => bytes "pulsegate_http_requests_total"
  | rejectedConnections => bytes "pulsegate_rejected_connections_total"
  | upstreamRequests => bytes "pulsegate_upstream_requests_total"
  | cacheRequests => bytes "pulsegate_cache_requests_total"
  | rateLimitRejections => bytes "pulsegate_rate_limit_rejections_total"

/-- The names of the histograms, for the two maps that have them. -/
def CounterMap.durationName : CounterMap → Bytes
  | httpRequests => bytes "pulsegate_http_request_duration_seconds"
  | upstreamRequests => bytes "pulsegate_upstream_connect_duration_seconds"
  | _ => []

/-- All buckets of a histogram. -/
def Histogram.limits (h : Histogram) : List (Bytes × UInt64) :=
  h.buckets ++ [(bytes "+Inf", h.count)]

def bucketSample (name : Bytes) (labels : List (Bytes × Bytes)) (bucket : Bytes × UInt64) :
    Exposition.Sample :=
  { name := name ++ bytes "_bucket"
    labels := labels ++ [(bytes "le", bucket.1)]
    value := countText bucket.2 }

def sumSample (name : Bytes) (labels : List (Bytes × Bytes)) (h : Histogram) : Exposition.Sample :=
  { name := name ++ bytes "_sum", labels := labels, value := Decimal.general 12 h.sum }

def countSample (name : Bytes) (labels : List (Bytes × Bytes)) (h : Histogram) :
    Exposition.Sample :=
  { name := name ++ bytes "_count", labels := labels, value := countText h.count }

def circuitSample (upstream state candidate : Bytes) : Exposition.Sample :=
  { name := bytes "pulsegate_circuit_state"
    labels := [(bytes "upstream", upstream), (bytes "state", candidate)]
    value := if state = candidate then bytes "1" else bytes "0" }

namespace MetricsRegistry

def counterFamily (r : MetricsRegistry) (m : CounterMap) (help : Option Bytes) :
    Exposition.Family :=
  { name := m.name
    help := help
    kind := .counter
    samples := (r.counters m).entries.map fun x => ⟨m.name, keyLabels x.1, countText x.2⟩ }

def histogramFamily (r : MetricsRegistry) (m : CounterMap) (help : Option Bytes) :
    Exposition.Family :=
  { name := m.durationName
    help := help
    kind := .histogram
    samples := (r.histograms m).entries.flatMap fun x =>
      x.2.limits.map (bucketSample m.durationName (keyLabels x.1)) ++
        [sumSample m.durationName (keyLabels x.1) x.2,
          countSample m.durationName (keyLabels x.1) x.2] }

def circuitFamily (r : MetricsRegistry) : Exposition.Family :=
  { name := bytes "pulsegate_circuit_state"
    kind := .gauge
    samples := r.circuitStates.entries.flatMap fun x =>
      circuitCandidates.map (circuitSample x.1 x.2) }

/-- The metrics with one number. -/
def numbers (r : MetricsRegistry) : List (Bytes × Exposition.Kind × UInt64) :=
  [(bytes "pulsegate_active_connections", .gauge, r.activeConnections),
    (bytes "pulsegate_accepted_connections_total", .counter, r.acceptedConnections),
    (bytes "pulsegate_runtime_active_coroutines", .gauge, r.runtimeActiveCoroutines),
    (bytes "pulsegate_upstream_pool_waiters", .gauge, r.upstreamPoolWaiters),
    (bytes "pulsegate_output_buffer_bytes", .gauge, r.outputBufferBytes),
    (bytes "pulsegate_logs_dropped_total", .counter, r.logsDropped)]

def numberFamily (x : Bytes × Exposition.Kind × UInt64) : Exposition.Family :=
  { name := x.1, kind := x.2.1, samples := [⟨x.1, [], countText x.2.2⟩] }

/-- The metrics of a registry, in the order of its text. -/
def families (r : MetricsRegistry) : List Exposition.Family :=
  [r.counterFamily .httpRequests (some (bytes "Total HTTP requests.")),
    r.histogramFamily .httpRequests (some (bytes "HTTP request duration.")),
    r.counterFamily .rejectedConnections none, r.counterFamily .upstreamRequests none,
    r.histogramFamily .upstreamRequests none, r.counterFamily .cacheRequests none,
    r.counterFamily .rateLimitRejections none, r.circuitFamily] ++ r.numbers.map numberFamily

/-- Their names and types. -/
def names : List (Bytes × Exposition.Kind) :=
  [(CounterMap.httpRequests.name, .counter), (CounterMap.httpRequests.durationName, .histogram),
    (CounterMap.rejectedConnections.name, .counter), (CounterMap.upstreamRequests.name, .counter),
    (CounterMap.upstreamRequests.durationName, .histogram),
    (CounterMap.cacheRequests.name, .counter),
    (CounterMap.rateLimitRejections.name, .counter), (bytes "pulsegate_circuit_state", .gauge),
    (bytes "pulsegate_active_connections", .gauge),
    (bytes "pulsegate_accepted_connections_total", .counter),
    (bytes "pulsegate_runtime_active_coroutines", .gauge),
    (bytes "pulsegate_upstream_pool_waiters", .gauge),
    (bytes "pulsegate_output_buffer_bytes", .gauge),
    (bytes "pulsegate_logs_dropped_total", .counter)]

/-- What a document is to show of a registry. -/
inductive Shown (r : MetricsRegistry) : Exposition.Sample → Prop
  | counter {series : Series} {n : UInt64} (h : series.counter r = some n) :
    Shown r ⟨series.kind.name, series.labels, countText n⟩
  | bucket {series : Series} {h : Histogram} (hhistogram : series.histogram r = some h)
    {bucket : Bytes × UInt64} (hbucket : bucket ∈ h.limits) :
    Shown r (bucketSample series.kind.durationName series.labels bucket)
  | sum {series : Series} {h : Histogram} (hhistogram : series.histogram r = some h) :
    Shown r (sumSample series.kind.durationName series.labels h)
  | count {series : Series} {h : Histogram} (hhistogram : series.histogram r = some h) :
    Shown r (countSample series.kind.durationName series.labels h)
  | circuit {upstream state candidate : Bytes} (hstate : r.circuitStates.get upstream = some state)
    (hcandidate : candidate ∈ circuitCandidates) : Shown r (circuitSample upstream state candidate)
  | number {x : Bytes × Exposition.Kind × UInt64} (hnumber : x ∈ r.numbers) :
    Shown r ⟨x.1, [], countText x.2.2⟩

end MetricsRegistry

namespace Router

def rateLimitName : Bytes := bytes "pulsegate_rate_limit_requests_total"
def cacheName : Bytes := bytes "pulsegate_response_cache_operations_total"

def rateLimitSamples (scope : Bytes) (stats : RateLimitStats) : List Exposition.Sample :=
  [(bytes "allowed", stats.allowed), (bytes "rejected", stats.rejected),
    (bytes "key_capacity", stats.rejectedKeyCapacity)].map fun x =>
      { name := rateLimitName
        labels := [(bytes "scope", scope), (bytes "outcome", x.1)]
        value := toChars 10 x.2 }

def rateLimitFamily (global : Option RateLimitStats) (routes : List RateLimitStats) :
    Exposition.Family :=
  { name := rateLimitName
    kind := .counter
    samples := global.elim [] (rateLimitSamples (bytes "global")) ++
      if routes.isEmpty then [] else rateLimitSamples (bytes "route") (rateLimitTotals routes) }

def cacheFamily (caches : List CacheStats) : Exposition.Family :=
  let totals := cacheTotals caches
  { name := cacheName
    kind := .counter
    samples := [(bytes "hit", totals.hits), (bytes "miss", totals.misses),
      (bytes "store", totals.stores), (bytes "eviction", totals.evictions),
      (bytes "expired", totals.expired)].map fun x =>
        { name := cacheName, labels := [(bytes "operation", x.1)], value := toChars 10 x.2 } }

/-- The metrics of the router. -/
def families (global : Option RateLimitStats) (routes : List RateLimitStats)
    (caches : List CacheStats) : List Exposition.Family :=
  rateLimitFamily global routes :: if caches.isEmpty then [] else [cacheFamily caches]

end Router

/-- The sample that stands first. -/
def readySample : Exposition.Sample := { name := bytes "pulsegate_ready", value := bytes "1" }

/-- The document of `/metrics`. -/
def metricsDocument (r : MetricsRegistry) (global : Option RateLimitStats)
    (routes : List RateLimitStats) (caches : List CacheStats) : Exposition.Document :=
  { untyped := [readySample], families := r.families ++ Router.families global routes caches }

/-! ### Series are written in the format -/

variable {value : Bytes}

theorem escapeChar_of_printable {c : UInt8} (hc : ¬Json.IsControl c) :
    escapeChar c = Exposition.escape c := by
  have hall : ∀ k : Fin 256, ¬Json.IsControl (.ofFin k) →
      escapeChar (.ofFin k) = Exposition.escape (.ofFin k) := by decide +kernel
  exact hall c.toFin hc

theorem escapedLabel_of_printable (h : Printable value) :
    escapedLabel value = value.flatMap Exposition.escape := by
  induction value with
  | nil => rfl
  | cons c value ih =>
    obtain ⟨hc, hvalue⟩ := List.forall_mem_cons.mp h
    show escapeChar c ++ escapedLabel value = _
    rw [escapeChar_of_printable hc, ih hvalue]
    rfl

theorem logged_of_printable (h : Printable value) : logged value = value :=
  (List.map_congr_left fun c hc => if_neg fun hcontrol => h c hc hcontrol.1).trans
    (List.map_id value)

/-- The digits of a count. -/
theorem isDecimal_of_mem_toChars {n : Nat} {c : UInt8} (hc : c ∈ toChars 10 n) :
    48 ≤ c ∧ c ≤ 57 := by
  obtain ⟨d, hd, rfl⟩ := Numeral.mem_write (by decide) hc
  have hall : ∀ e < 10, 48 ≤ digitChar e ∧ digitChar e ≤ 57 := by decide
  exact hall d hd

/-- A class of statuses needs no escapes. -/
theorem escape_class (n : Int) :
    (intToString n ++ bytes "xx").flatMap Exposition.escape = intToString n ++ bytes "xx" := by
  have hself : ∀ s : Bytes, (∀ c ∈ s, c ≠ 34 ∧ c ≠ 92 ∧ c ≠ 10) →
      s.flatMap Exposition.escape = s := by
    intro s hs
    refine (List.flatMap_congr fun c hc => ?_).trans (List.flatMap_singleton' s)
    obtain ⟨hquote, hbackslash, hfeed⟩ := hs c hc
    rw [Exposition.escape, if_neg hquote, if_neg hbackslash, if_neg hfeed]
  have hdigits : ∀ m, ∀ c ∈ toChars 10 m, c ≠ 34 ∧ c ≠ 92 ∧ c ≠ 10 := by
    intro m c hc
    obtain ⟨hlow, hhigh⟩ := isDecimal_of_mem_toChars hc
    refine ⟨?_, ?_, ?_⟩ <;> rintro rfl
    · exact absurd hlow (by decide)
    · exact absurd hhigh (by decide)
    · exact absurd hlow (by decide)
  refine hself _ fun c hc => ?_
  rcases List.mem_append.mp hc with hc | hc
  · unfold intToString at hc
    split at hc
    · rcases List.mem_cons.mp hc with rfl | hc
      · decide
      · exact hdigits _ c hc
    · exact hdigits _ c hc
  · have hletters : ∀ c ∈ bytes "xx", c ≠ 34 ∧ c ≠ 92 ∧ c ≠ 10 := by decide +kernel
    exact hletters c hc

namespace Series

variable {series : Series}

theorem labels_ne_nil (series : Series) : series.labels ≠ [] := by
  cases series <;> exact List.cons_ne_nil _ _

theorem isLabelName_labels (series : Series) :
    ∀ label ∈ series.labels, Exposition.IsLabelName label.1 ∧ label.1 ≠ bytes "le" := by
  cases series <;>
    simp only [labels, List.forall_mem_cons, List.not_mem_nil, false_implies, implies_true,
      and_true] <;> decide

theorem nodup_labels (series : Series) : (series.labels.map (·.1)).Nodup := by
  cases series <;> simp only [labels, List.map_cons, List.map_nil] <;> decide

/-- A series with one label. -/
theorem single_text {opening name : Bytes} (hopen : opening = name ++ [61, 34])
    (h : PulseGate.Printable value) :
    opening ++ escapedLabel value ++ bytes "\"" = Exposition.labelsText [(name, value)] := by
  have hquote : bytes "\"" = [34] := by decide
  simp only [hopen, hquote, escapedLabel_of_printable h, Exposition.labelsText,
    Exposition.labelText, List.map_cons, List.map_nil, List.intercalate_singleton,
    List.append_assoc, List.cons_append, List.nil_append]

/-- **A series is named as the format writes its labels.** -/
theorem text_eq (h : series.Printable) : series.text = Exposition.labelsText series.labels := by
  have hescape : ∀ label ∈ series.labels,
      escapedLabel label.2 = label.2.flatMap Exposition.escape :=
    fun label hlabel => escapedLabel_of_printable (h label hlabel)
  cases series with
  | httpRequests method statusClass route =>
    have hmethod := hescape (bytes "method", method.value) (by simp [labels])
    have hroute := hescape (bytes "route", route.value) (by simp [labels])
    have hopen : bytes "method=\"" = bytes "method" ++ [61, 34] := by decide
    have hclass : bytes "\",status_class=\"" = 34 :: 44 :: (bytes "status_class" ++ [61, 34]) := by
      decide
    have hclose : bytes "xx\",route=\"" =
        bytes "xx" ++ 34 :: 44 :: (bytes "route" ++ [61, 34]) := by
      decide
    have hquote : bytes "\"" = [34] := by decide
    have hletters := escape_class statusClass
    rw [List.flatMap_append] at hletters
    simp only [text, labels, hopen, hclass, hclose, hquote, hmethod, hroute, Exposition.labelsText,
      Exposition.labelText, List.map_cons, List.map_nil, List.intercalate_cons_cons,
      List.intercalate_singleton, escape_class, List.append_assoc, List.cons_append,
      List.nil_append]
  | rejectedConnections reason => exact single_text rfl (h _ (List.mem_singleton.mpr rfl))
  | upstreamRequests upstream result =>
    have hupstream := hescape (bytes "upstream", upstream.value) (by simp [labels])
    have hresult := hescape (bytes "result", result.value) (by simp [labels])
    have hopen : bytes "upstream=\"" = bytes "upstream" ++ [61, 34] := by decide
    have hbetween : bytes "\",result=\"" = 34 :: 44 :: (bytes "result" ++ [61, 34]) := by decide
    have hquote : bytes "\"" = [34] := by decide
    simp only [text, upstreamLabels, labels, hopen, hbetween, hquote, hupstream, hresult,
      Exposition.labelsText, Exposition.labelText, List.map_cons, List.map_nil,
      List.intercalate_cons_cons, List.intercalate_singleton, List.append_assoc, List.cons_append,
      List.nil_append]
  | cacheRequests result => exact single_text rfl (h _ (List.mem_singleton.mpr rfl))
  | rateLimitRejections route => exact single_text rfl (h _ (List.mem_singleton.mpr rfl))

/-- The key of a series is read as its labels. -/
theorem keyLabels_text (h : series.Printable) : keyLabels series.text = series.labels := by
  have hread := Exposition.labelsFrom_text series.labels_ne_nil
    (fun label hlabel => (series.isLabelName_labels label hlabel).1)
    (Exposition.length_le_labelsText series.labels) []
  rw [keyLabels, text_eq h, hread]
  rfl

end Series

/-! ### What a registry needs to be read -/

/-- The keys are those of series without control characters. -/
structure MetricsRegistry.Readable (r : MetricsRegistry) : Prop where
  counters : ∀ m, ∀ x ∈ (r.counters m).entries,
    ∃ series : Series, series.Printable ∧ series.kind = m ∧ series.text = x.1
  histograms : ∀ m, ∀ x ∈ (r.histograms m).entries,
    ∃ series : Series, series.Printable ∧ series.kind = m ∧ series.text = x.1
  circuits : ∀ x ∈ r.circuitStates.entries, Printable x.1

namespace MetricsRegistry

open Exposition

variable {r : MetricsRegistry} {m : CounterMap}

/-- The keys of a map are told apart by their labels. -/
theorem nodup_keyLabels {α : Type} {entries : SortedMap Bytes α}
    (h : ∀ x ∈ entries.entries, ∃ series : Series, series.Printable ∧ series.kind = m ∧
      series.text = x.1) : (entries.entries.map fun x => keyLabels x.1).Nodup := by
  have hkeys := entries.nodup_keys
  rw [List.nodup_map_iff_inj_on (List.Nodup.of_map _ hkeys)]
  intro x hx y hy hlabels
  obtain ⟨series, hseries, hkind, htext⟩ := h x hx
  obtain ⟨series', hseries', hkind', htext'⟩ := h y hy
  rw [← htext, ← htext', Series.keyLabels_text hseries, Series.keyLabels_text hseries'] at hlabels
  refine List.inj_on_of_nodup_map hkeys hx hy ?_
  rw [← htext, ← htext', Series.text_eq hseries, Series.text_eq hseries', hlabels]

theorem isName_counter (m : CounterMap) : IsName m.name := by
  cases m <;> decide

theorem isName_circuit : IsName (bytes "pulsegate_circuit_state") := by
  decide

/-- A count is a number of the format. -/
theorem isNumber_countText (n : UInt64) :
    countText n ≠ [] ∧ ∀ c ∈ countText n, Decimal.IsDecimal c :=
  ⟨Numeral.write_ne_nil _, fun _ hc => .inl (isDecimal_of_mem_toChars hc)⟩

theorem wellFormed_bucket {name : Bytes} (hname : IsName (name ++ bytes "_bucket"))
    (series : Series) (bucket : Bytes × UInt64) :
    (bucketSample name series.labels bucket).WellFormed where
  name := hname
  labels := by
    intro label hlabel
    rcases List.mem_append.mp hlabel with hlabel | hlabel
    · exact (series.isLabelName_labels label hlabel).1
    · have hle : IsLabelName (bytes "le") := by decide
      rw [List.mem_singleton.mp hlabel]
      exact hle
  distinct := by
    simp only [bucketSample, List.map_append, List.map_cons, List.map_nil]
    refine List.nodup_append.mpr ⟨series.nodup_labels, List.nodup_singleton _, ?_⟩
    intro name hname le hle heq
    obtain ⟨label, hlabel, rfl⟩ := List.mem_map.mp hname
    exact (series.isLabelName_labels label hlabel).2 (heq.trans (List.mem_singleton.mp hle))
  value := isNumber_countText _

theorem wellFormed_counter (h : r.Readable) (help : Option Bytes) :
    (r.counterFamily m help).WellFormed where
  name := isName_counter m
  samples := by
    intro s hs
    obtain ⟨x, hx, rfl⟩ := List.mem_map.mp hs
    obtain ⟨series, hseries, -, htext⟩ := h.counters m x hx
    rw [← htext, Series.keyLabels_text hseries]
    refine ⟨⟨isName_counter m, ?_, series.nodup_labels, isNumber_countText _⟩, ?_⟩
    · exact fun label hlabel => (series.isLabelName_labels label hlabel).1
    · exact List.mem_singleton.mpr rfl

theorem wellFormed_histogram (h : r.Readable) (hname : IsName m.durationName)
    (help : Option Bytes) : (r.histogramFamily m help).WellFormed where
  name := hname
  samples := by
    intro s hs
    obtain ⟨x, hx, hs⟩ := List.mem_flatMap.mp hs
    obtain ⟨series, hseries, -, htext⟩ := h.histograms m x hx
    rw [← htext, Series.keyLabels_text hseries] at hs
    have hsuffixed : ∀ suffix : Bytes, suffix.all isNameChar = true →
        IsName (m.durationName ++ suffix) := by
      intro suffix hsuffix
      obtain ⟨hstart, hall⟩ := hname
      refine ⟨?_, by rw [List.all_append, hall, hsuffix]; rfl⟩
      cases hdurationName : m.durationName with
      | nil => rw [hdurationName] at hstart; cases hstart
      | cons c name => rw [hdurationName] at hstart; exact hstart
    have hlabels : ∀ label ∈ series.labels, IsLabelName label.1 := fun label hlabel =>
      (series.isLabelName_labels label hlabel).1
    simp only [List.mem_append, List.mem_map, List.mem_cons, List.not_mem_nil, or_false] at hs
    rcases hs with ⟨bucket, -, rfl⟩ | rfl | rfl
    · exact ⟨wellFormed_bucket (hsuffixed _ (by decide)) _ _, .head _⟩
    · refine ⟨⟨hsuffixed _ (by decide), hlabels, series.nodup_labels, ?_⟩, .tail _ (.head _)⟩
      exact ⟨Decimal.general_ne_nil _ _, fun _ => Decimal.mem_general⟩
    · exact ⟨⟨hsuffixed _ (by decide), hlabels, series.nodup_labels, isNumber_countText _⟩,
        .tail _ (.tail _ (.head _))⟩

theorem wellFormed_circuit (r : MetricsRegistry) : r.circuitFamily.WellFormed where
  name := isName_circuit
  samples := by
    intro s hs
    obtain ⟨x, -, hs⟩ := List.mem_flatMap.mp hs
    obtain ⟨candidate, -, rfl⟩ := List.mem_map.mp hs
    have hdistinct : [bytes "upstream", bytes "state"].Nodup := by decide
    refine ⟨⟨isName_circuit, ?_, hdistinct, ?_⟩, List.mem_singleton.mpr rfl⟩
    · have hupstream : IsLabelName (bytes "upstream") := by decide
      have hstate : IsLabelName (bytes "state") := by decide
      simp only [circuitSample, List.forall_mem_cons]
      exact ⟨hupstream, hstate, fun _ h => absurd h List.not_mem_nil⟩
    · simp only [circuitSample]
      split <;> decide +kernel

theorem wellFormed_number {x : Bytes × Kind × UInt64} (hx : x ∈ r.numbers) :
    (numberFamily x).WellFormed := by
  have hnames : ∀ name ∈ r.numbers.map (·.1), IsName name := by
    show ∀ name ∈ [bytes "pulsegate_active_connections",
      bytes "pulsegate_accepted_connections_total", bytes "pulsegate_runtime_active_coroutines",
      bytes "pulsegate_upstream_pool_waiters", bytes "pulsegate_output_buffer_bytes",
      bytes "pulsegate_logs_dropped_total"], IsName name
    decide
  have hall : ∀ x ∈ r.numbers, x.1 ∈ (numberFamily x).sampleNames := by
    simp only [numbers, List.forall_mem_cons]
    refine ⟨.head _, .head _, .head _, .head _, .head _, .head _, ?_⟩
    exact fun _ h => absurd h List.not_mem_nil
  have hname := hnames _ (List.mem_map_of_mem hx)
  refine ⟨hname, fun s hs => ?_⟩
  rw [List.mem_singleton.mp hs]
  exact ⟨⟨hname, fun _ h => absurd h List.not_mem_nil, .nil, isNumber_countText _⟩, hall x hx⟩

theorem wellFormed_families (h : r.Readable) : ∀ f ∈ r.families, f.WellFormed := by
  intro f hf
  simp only [families, List.cons_append, List.nil_append, List.mem_cons] at hf
  rcases hf with rfl | rfl | rfl | rfl | rfl | rfl | rfl | rfl | hf
  · exact wellFormed_counter h _
  · exact wellFormed_histogram h (by decide) _
  · exact wellFormed_counter h _
  · exact wellFormed_counter h _
  · exact wellFormed_histogram h (by decide) _
  · exact wellFormed_counter h _
  · exact wellFormed_counter h _
  · exact wellFormed_circuit r
  · obtain ⟨x, hx, rfl⟩ := List.mem_map.mp hf
    exact wellFormed_number hx

/-! ### The text is that of the document -/

/-- A sample with labels, as the source writes it. -/
theorem text_sample {labels : List (Bytes × Bytes)} {key : Bytes} (hne : labels ≠ [])
    (hkey : labelsText labels = key) (name value : Bytes) :
    (⟨name, labels, value⟩ : Sample).text ++ [10] =
      name ++ bytes "\x7b" ++ key ++ bytes "\x7d " ++ value ++ bytes "\n" := by
  have hopen : bytes "\x7b" = [123] := by decide
  have hclose : bytes "\x7d " = [125, 32] := by decide
  have hfeed : bytes "\n" = [10] := by decide
  simp only [Sample.text, if_neg hne, hkey, hopen, hclose, hfeed, List.append_assoc,
    List.cons_append, List.nil_append]

theorem text_counters (h : r.Readable) (m : CounterMap) (help : Option Bytes) :
    samplesText (r.counterFamily m help).samples = renderCounters m.name (r.counters m) := by
  rw [counterFamily, samplesText_map]
  refine List.flatMap_congr fun ⟨key, n⟩ hx => ?_
  obtain ⟨series, hseries, -, rfl⟩ := h.counters m _ hx
  rw [Series.keyLabels_text hseries]
  exact text_sample series.labels_ne_nil (Series.text_eq hseries).symm _ _

theorem text_histogram {series : Series} (hseries : series.Printable) (name : Bytes)
    (h : Histogram) :
    samplesText (h.limits.map (bucketSample name series.labels) ++
        [sumSample name series.labels h, countSample name series.labels h]) =
      renderHistogram name series.text h := by
  have hkey := (Series.text_eq hseries).symm
  have hne := series.labels_ne_nil
  have hlabel : ∀ limit : Bytes, labelText (bytes "le", limit) =
      bytes "le=\"" ++ limit.flatMap escape ++ bytes "\"" := fun _ => by
    simp only [labelText, List.append_assoc]
    rfl
  have hlimits : ∀ bucket ∈ h.limits, bucket.1.flatMap escape = bucket.1 := by
    have hall : ∀ limit ∈ h.limits.map (·.1), limit.flatMap escape = limit := by
      show ∀ limit ∈ [bytes "0.001", bytes "0.005", bytes "0.025", bytes "0.1", bytes "1",
        bytes "+Inf"], limit.flatMap escape = limit
      decide
    exact fun bucket hbucket => hall _ (List.mem_map_of_mem hbucket)
  have hbucket : ∀ bucket ∈ h.limits, (bucketSample name series.labels bucket).text ++ [10] =
      name ++ bytes "_bucket\x7b" ++ series.text ++ bytes ",le=\"" ++ bucket.1 ++
        bytes "\"\x7d " ++ countText bucket.2 ++ bytes "\n" := by
    intro bucket hbucket
    have hopen : bytes "_bucket\x7b" = bytes "_bucket" ++ bytes "\x7b" := by decide
    have hcomma : bytes ",le=\"" = 44 :: bytes "le=\"" := by decide
    have hclose : bytes "\"\x7d " = bytes "\"" ++ bytes "\x7d " := by decide
    rw [bucketSample, text_sample (List.append_ne_nil_of_left_ne_nil hne _) rfl,
      labelsText_concat hne, hkey, hlabel, hlimits _ hbucket, hopen, hcomma, hclose]
    simp only [List.append_assoc, List.cons_append]
  have hinf := hbucket (bytes "+Inf", h.count) (List.mem_append_right _ (.head _))
  have hlimit : bytes ",le=\"+Inf\"\x7d " = bytes ",le=\"" ++ bytes "+Inf" ++ bytes "\"\x7d " := by
    decide
  have hsum : bytes "_sum\x7b" = bytes "_sum" ++ bytes "\x7b" := by decide
  have hcount : bytes "_count\x7b" = bytes "_count" ++ bytes "\x7b" := by decide
  have hbuckets : h.limits.flatMap (fun bucket =>
      (bucketSample name series.labels bucket).text ++ [10]) =
      h.buckets.flatMap (fun bucket =>
        name ++ bytes "_bucket\x7b" ++ series.text ++ bytes ",le=\"" ++ bucket.1 ++
          bytes "\"\x7d " ++ countText bucket.2 ++ bytes "\n") ++
      ((bucketSample name series.labels (bytes "+Inf", h.count)).text ++ [10]) := by
    rw [Histogram.limits, List.flatMap_append, List.flatMap_singleton]
    congr 1
    exact List.flatMap_congr fun bucket hmem => hbucket bucket (List.mem_append_left _ hmem)
  rw [samplesText_append, samplesText_map, hbuckets, hinf, samplesText_cons, samplesText_cons,
    sumSample, countSample, text_sample hne hkey, text_sample hne hkey, renderHistogram, hlimit,
    hsum, hcount]
  simp only [List.append_assoc]
  rfl

theorem text_histograms (h : r.Readable) (m : CounterMap) (help : Option Bytes) :
    samplesText (r.histogramFamily m help).samples =
      renderHistograms m.durationName (r.histograms m) := by
  rw [histogramFamily, samplesText_flatMap]
  refine List.flatMap_congr fun ⟨key, histogram⟩ hx => ?_
  obtain ⟨series, hseries, -, rfl⟩ := h.histograms m _ hx
  rw [Series.keyLabels_text hseries]
  exact text_histogram hseries _ _

theorem text_circuits (h : r.Readable) :
    samplesText r.circuitFamily.samples = renderCircuits r.circuitStates := by
  rw [circuitFamily, samplesText_flatMap]
  refine List.flatMap_congr fun ⟨upstream, state⟩ hx => ?_
  have hupstream := escapedLabel_of_printable (h.circuits _ hx)
  have hcandidates : ∀ candidate ∈ circuitCandidates, candidate.flatMap escape = candidate := by
    decide
  rw [samplesText_map]
  refine List.flatMap_congr fun candidate hcandidate => ?_
  have hopen : bytes "pulsegate_circuit_state\x7bupstream=\"" =
      bytes "pulsegate_circuit_state" ++ 123 :: (bytes "upstream" ++ [61, 34]) := by decide
  have hbetween : bytes "\",state=\"" = 34 :: 44 :: (bytes "state" ++ [61, 34]) := by decide
  have hclose : bytes "\"\x7d " = [34, 125, 32] := by decide
  have hvalue : (if state = candidate then bytes "1\n" else bytes "0\n") =
      (if state = candidate then bytes "1" else bytes "0") ++ [10] := by
    split <;> decide
  simp only [circuitSample, Sample.text, labelsText, labelText, List.map_cons, List.map_nil,
    List.intercalate_cons_cons, List.intercalate_singleton, hopen, hbetween, hclose, hvalue,
    hupstream, hcandidates _ hcandidate, List.append_assoc, List.cons_append, List.nil_append,
    reduceCtorEq, if_false]

/-- A metric with one number, as the source writes it. -/
theorem text_number {name header : Bytes} {kind : Kind} (n : UInt64)
    (hheader : headerText name none kind ++ (name ++ [32]) = header) :
    (numberFamily (name, kind, n)).text = header ++ (countText n ++ bytes "\n") := by
  have hfeed : bytes "\n" = [10] := by decide
  rw [← hheader, Family.text, numberFamily, samplesText_cons, Sample.text, if_pos rfl,
    List.append_nil, hfeed]
  simp only [List.append_assoc, List.cons_append, List.nil_append]
  rfl

theorem text_counterFamily (h : r.Readable) {m : CounterMap} {help : Option Bytes} {header : Bytes}
    (hheader : headerText m.name help .counter = header) :
    (r.counterFamily m help).text = header ++ renderCounters m.name (r.counters m) := by
  rw [Family.text, text_counters h, ← hheader]
  rfl

theorem text_histogramFamily (h : r.Readable) {m : CounterMap} {help : Option Bytes}
    {header : Bytes} (hheader : headerText m.durationName help .histogram = header) :
    (r.histogramFamily m help).text =
      header ++ renderHistograms m.durationName (r.histograms m) := by
  rw [Family.text, text_histograms h, ← hheader]
  rfl

/-- **The text of the registry is that of its metrics.** -/
theorem text_families (h : r.Readable) :
    textOfLines (r.families.flatMap (·.lines)) = r.renderPrometheus := by
  have hrequests : headerText CounterMap.httpRequests.name
      (some (bytes "Total HTTP requests.")) .counter =
      bytes "# HELP pulsegate_http_requests_total Total HTTP requests.\n" ++
        bytes "# TYPE pulsegate_http_requests_total counter\n" := by decide +kernel
  have hdurations : headerText CounterMap.httpRequests.durationName
      (some (bytes "HTTP request duration.")) .histogram =
      bytes "# HELP pulsegate_http_request_duration_seconds HTTP request duration.\n" ++
        bytes "# TYPE pulsegate_http_request_duration_seconds histogram\n" := by decide +kernel
  have hrejected : headerText CounterMap.rejectedConnections.name none .counter =
      bytes "# TYPE pulsegate_rejected_connections_total counter\n" := by decide +kernel
  have hupstream : headerText CounterMap.upstreamRequests.name none .counter =
      bytes "# TYPE pulsegate_upstream_requests_total counter\n" := by decide +kernel
  have hconnect : headerText CounterMap.upstreamRequests.durationName none .histogram =
      bytes "# TYPE pulsegate_upstream_connect_duration_seconds histogram\n" := by decide +kernel
  have hcache : headerText CounterMap.cacheRequests.name none .counter =
      bytes "# TYPE pulsegate_cache_requests_total counter\n" := by decide +kernel
  have hlimits : headerText CounterMap.rateLimitRejections.name none .counter =
      bytes "# TYPE pulsegate_rate_limit_rejections_total counter\n" := by decide +kernel
  have hcircuits : r.circuitFamily.text =
      bytes "# TYPE pulsegate_circuit_state gauge\n" ++ renderCircuits r.circuitStates := by
    have hheader : headerText (bytes "pulsegate_circuit_state") none .gauge =
        bytes "# TYPE pulsegate_circuit_state gauge\n" := by decide +kernel
    rw [Family.text, text_circuits h, ← hheader]
    rfl
  have hactive : headerText (bytes "pulsegate_active_connections") none .gauge ++
      (bytes "pulsegate_active_connections" ++ [32]) =
        bytes "# TYPE pulsegate_active_connections gauge\npulsegate_active_connections " := by
      decide +kernel
  have haccepted : headerText (bytes "pulsegate_accepted_connections_total") none .counter ++
      (bytes "pulsegate_accepted_connections_total" ++ [32]) =
        bytes "# TYPE pulsegate_accepted_connections_total counter\n" ++
        bytes "pulsegate_accepted_connections_total " := by decide +kernel
  have hcoroutines : headerText (bytes "pulsegate_runtime_active_coroutines") none .gauge ++
      (bytes "pulsegate_runtime_active_coroutines" ++ [32]) =
        bytes "# TYPE pulsegate_runtime_active_coroutines gauge\n" ++
        bytes "pulsegate_runtime_active_coroutines " := by decide +kernel
  have hwaiters : headerText (bytes "pulsegate_upstream_pool_waiters") none .gauge ++
      (bytes "pulsegate_upstream_pool_waiters" ++ [32]) =
        bytes "# TYPE pulsegate_upstream_pool_waiters gauge\npulsegate_upstream_pool_waiters " := by
      decide +kernel
  have hbuffers : headerText (bytes "pulsegate_output_buffer_bytes") none .gauge ++
      (bytes "pulsegate_output_buffer_bytes" ++ [32]) =
        bytes "# TYPE pulsegate_output_buffer_bytes gauge\npulsegate_output_buffer_bytes " := by
      decide +kernel
  have hdropped : headerText (bytes "pulsegate_logs_dropped_total") none .counter ++
      (bytes "pulsegate_logs_dropped_total" ++ [32]) =
        bytes "# TYPE pulsegate_logs_dropped_total counter\npulsegate_logs_dropped_total " := by
      decide +kernel
  rw [textOfLines_families]
  simp only [families, numbers, List.map_cons, List.map_nil, List.cons_append, List.nil_append,
    List.flatMap_cons, List.flatMap_nil, List.append_nil, text_counterFamily h hrequests,
    text_histogramFamily h hdurations, text_counterFamily h hrejected,
    text_counterFamily h hupstream, text_histogramFamily h hconnect, text_counterFamily h hcache,
    text_counterFamily h hlimits, hcircuits, text_number _ hactive, text_number _ haccepted,
    text_number _ hcoroutines, text_number _ hwaiters, text_number _ hbuffers,
    text_number _ hdropped]
  unfold renderPrometheus
  simp only [counters, histograms, CounterMap.name, CounterMap.durationName]
  -- the strings are the same ones on both sides
  generalize bytes = literal
  simp only [List.append_assoc]

/-! ### What the document shows -/

variable {s : Sample}

theorem shown_of_counter (h : r.Readable) {help : Option Bytes}
    (hs : s ∈ (r.counterFamily m help).samples) : r.Shown s := by
  obtain ⟨⟨key, n⟩, hx, rfl⟩ := List.mem_map.mp hs
  obtain ⟨series, hseries, rfl, rfl⟩ := h.counters m _ hx
  rw [Series.keyLabels_text hseries]
  exact .counter (SortedMap.mem_entries_iff.mp hx)

theorem counter_mem (h : r.Readable) {series : Series} {n : UInt64}
    (hget : series.counter r = some n) (help : Option Bytes) :
    ⟨series.kind.name, series.labels, countText n⟩ ∈
      (r.counterFamily series.kind help).samples := by
  have hx := SortedMap.mem_entries_iff.mpr hget
  obtain ⟨series', hseries', hkind, htext⟩ := h.counters _ _ hx
  obtain rfl := Series.text_injective hkind htext
  exact List.mem_map.mpr ⟨_, hx, by rw [Series.keyLabels_text hseries']⟩

theorem shown_of_histogram (h : r.Readable) {help : Option Bytes}
    (hs : s ∈ (r.histogramFamily m help).samples) : r.Shown s := by
  obtain ⟨⟨key, histogram⟩, hx, hs⟩ := List.mem_flatMap.mp hs
  obtain ⟨series, hseries, rfl, rfl⟩ := h.histograms m _ hx
  rw [Series.keyLabels_text hseries] at hs
  have hget : series.histogram r = some histogram := SortedMap.mem_entries_iff.mp hx
  rcases List.mem_append.mp hs with hs | hs
  · obtain ⟨bucket, hbucket, rfl⟩ := List.mem_map.mp hs
    exact .bucket hget hbucket
  · rcases List.mem_cons.mp hs with rfl | hs
    · exact .sum hget
    · rw [List.mem_singleton.mp hs]
      exact .count hget

theorem histogram_mem (h : r.Readable) {series : Series} {histogram : Histogram}
    (hget : series.histogram r = some histogram) (help : Option Bytes)
    (hs : s ∈ histogram.limits.map (bucketSample series.kind.durationName series.labels) ++
      [sumSample series.kind.durationName series.labels histogram,
        countSample series.kind.durationName series.labels histogram]) :
    s ∈ (r.histogramFamily series.kind help).samples := by
  have hx := SortedMap.mem_entries_iff.mpr hget
  obtain ⟨series', hseries', hkind, htext⟩ := h.histograms _ _ hx
  obtain rfl := Series.text_injective hkind htext
  refine List.mem_flatMap.mpr ⟨_, hx, ?_⟩
  rwa [Series.keyLabels_text hseries']

/-- Each counter is of a metric of the document. -/
theorem counterFamily_mem (r : MetricsRegistry) (m : CounterMap) :
    ∃ help, r.counterFamily m help ∈ r.families := by
  unfold families
  cases m with
  | httpRequests => exact ⟨_, .head _⟩
  | rejectedConnections => exact ⟨_, .tail _ (.tail _ (.head _))⟩
  | upstreamRequests => exact ⟨_, .tail _ (.tail _ (.tail _ (.head _)))⟩
  | cacheRequests => exact ⟨_, .tail _ (.tail _ (.tail _ (.tail _ (.tail _ (.head _)))))⟩
  | rateLimitRejections =>
    exact ⟨_, .tail _ (.tail _ (.tail _ (.tail _ (.tail _ (.tail _ (.head _))))))⟩

/-- Each histogram, too. -/
theorem histogramFamily_mem {series : Series} {histogram : Histogram}
    (hget : series.histogram r = some histogram) :
    ∃ help, r.histogramFamily series.kind help ∈ r.families := by
  unfold families
  unfold Series.histogram at hget
  cases hkind : series.kind with
  | httpRequests => exact ⟨_, .tail _ (.head _)⟩
  | upstreamRequests => exact ⟨_, .tail _ (.tail _ (.tail _ (.tail _ (.head _))))⟩
  | _ =>
    rw [hkind] at hget
    cases hget

theorem circuitFamily_mem (r : MetricsRegistry) : r.circuitFamily ∈ r.families :=
  List.mem_append_left _ (List.mem_append_right
    [r.counterFamily .httpRequests _, r.histogramFamily .httpRequests _,
      r.counterFamily .rejectedConnections _, r.counterFamily .upstreamRequests _,
      r.histogramFamily .upstreamRequests _, r.counterFamily .cacheRequests _,
      r.counterFamily .rateLimitRejections _] (.head _))

/-- **The samples are those that are to be shown.** -/
theorem mem_samples_iff (h : r.Readable) :
    s ∈ r.families.flatMap (·.samples) ↔ r.Shown s := by
  constructor
  · intro hs
    obtain ⟨f, hf, hs⟩ := List.mem_flatMap.mp hs
    unfold families at hf
    rcases List.mem_append.mp hf with hf | hf
    · simp only [List.mem_cons, List.not_mem_nil, or_false] at hf
      rcases hf with rfl | rfl | rfl | rfl | rfl | rfl | rfl | rfl
      · exact shown_of_counter h hs
      · exact shown_of_histogram h hs
      · exact shown_of_counter h hs
      · exact shown_of_counter h hs
      · exact shown_of_histogram h hs
      · exact shown_of_counter h hs
      · exact shown_of_counter h hs
      · obtain ⟨⟨upstream, state⟩, hx, hs⟩ := List.mem_flatMap.mp hs
        obtain ⟨candidate, hcandidate, rfl⟩ := List.mem_map.mp hs
        exact .circuit (SortedMap.mem_entries_iff.mp hx) hcandidate
    · obtain ⟨x, hx, rfl⟩ := List.mem_map.mp hf
      rw [List.mem_singleton.mp hs]
      exact .number hx
  · intro hshown
    cases hshown with
    | @counter series n hget =>
      obtain ⟨help, hf⟩ := counterFamily_mem r series.kind
      exact List.mem_flatMap.mpr ⟨_, hf, counter_mem h hget help⟩
    | @bucket series histogram hget bucket hbucket =>
      obtain ⟨help, hf⟩ := histogramFamily_mem hget
      exact List.mem_flatMap.mpr ⟨_, hf, histogram_mem h hget help
        (List.mem_append_left _ (List.mem_map_of_mem hbucket))⟩
    | @sum series histogram hget =>
      obtain ⟨help, hf⟩ := histogramFamily_mem hget
      exact List.mem_flatMap.mpr ⟨_, hf, histogram_mem h hget help
        (List.mem_append_right _ (.head _))⟩
    | @count series histogram hget =>
      obtain ⟨help, hf⟩ := histogramFamily_mem hget
      exact List.mem_flatMap.mpr ⟨_, hf, histogram_mem h hget help
        (List.mem_append_right _ (.tail _ (.head _)))⟩
    | circuit hget hcandidate =>
      exact List.mem_flatMap.mpr ⟨_, circuitFamily_mem r, List.mem_flatMap.mpr
        ⟨_, SortedMap.mem_entries_iff.mpr hget, List.mem_map_of_mem hcandidate⟩⟩
    | number hx =>
      exact List.mem_flatMap.mpr ⟨_, List.mem_append_right _ (List.mem_map_of_mem hx),
        List.mem_singleton.mpr rfl⟩

/-! ### No sample comes twice -/

theorem nodup_counter (h : r.Readable) (help : Option Bytes) :
    ((r.counterFamily m help).samples.map fun s => (s.name, s.labels)).Nodup := by
  have hkeys := nodup_keyLabels (h.counters m)
  rw [counterFamily, List.map_map]
  refine List.Nodup.of_map Prod.snd ?_
  rw [List.map_map]
  exact hkeys

/-- The labels of the series that a sample of a histogram belongs to. -/
def seriesLabels (name : Bytes) (x : Bytes × List (Bytes × Bytes)) : List (Bytes × Bytes) :=
  if x.1 = name ++ bytes "_bucket" then x.2.dropLast else x.2

theorem nodup_histogram (h : r.Readable) (help : Option Bytes) :
    ((r.histogramFamily m help).samples.map fun s => (s.name, s.labels)).Nodup := by
  have hkeys := nodup_keyLabels (h.histograms m)
  have hsum : bytes "_sum" ≠ bytes "_bucket" := by decide
  have hcount : bytes "_count" ≠ bytes "_bucket" := by decide
  have hlast : bytes "_sum" ≠ bytes "_count" := by decide
  rw [histogramFamily, List.map_flatMap, List.nodup_flatMap]
  constructor
  · rintro ⟨key, histogram⟩ -
    simp only [List.map_append, List.map_map, List.map_cons, List.map_nil]
    refine List.nodup_append.mpr ⟨?_, ?_, ?_⟩
    · -- the buckets have different limits
      have hlimits : (histogram.limits.map (·.1)).Nodup := by
        show [bytes "0.001", bytes "0.005", bytes "0.025", bytes "0.1", bytes "1",
          bytes "+Inf"].Nodup
        decide
      refine List.Nodup.of_map (fun x => (x.2.getLast?.map (·.2)).getD []) ?_
      rw [List.map_map]
      simpa [Function.comp_def, bucketSample] using hlimits
    · simp [sumSample, countSample, hlast]
    · intro x hx y hy
      obtain ⟨bucket, -, rfl⟩ := List.mem_map.mp hx
      simp only [List.mem_cons, List.not_mem_nil, or_false] at hy
      rcases hy with rfl | rfl
      · simp [bucketSample, sumSample, hsum.symm]
      · simp [bucketSample, countSample, hcount.symm]
  · -- samples of different series differ in their labels
    have hbase : ∀ x : Bytes × Histogram, ∀ y ∈ (x.2.limits.map (bucketSample m.durationName
        (keyLabels x.1)) ++ [sumSample m.durationName (keyLabels x.1) x.2,
          countSample m.durationName (keyLabels x.1) x.2]).map fun s => (s.name, s.labels),
        seriesLabels m.durationName y = keyLabels x.1 := by
      intro x y hy
      obtain ⟨s, hs, rfl⟩ := List.mem_map.mp hy
      rcases List.mem_append.mp hs with hs | hs
      · obtain ⟨bucket, -, rfl⟩ := List.mem_map.mp hs
        simp [seriesLabels, bucketSample]
      · simp only [List.mem_cons, List.not_mem_nil, or_false] at hs
        rcases hs with rfl | rfl
        · simp [seriesLabels, sumSample, hsum]
        · simp [seriesLabels, countSample, hcount]
    refine (List.pairwise_map.mp hkeys).imp fun {x y} hxy z hz hz' => hxy ?_
    rw [← hbase x z hz, hbase y z hz']

theorem nodup_circuit (r : MetricsRegistry) :
    (r.circuitFamily.samples.map fun s => (s.name, s.labels)).Nodup := by
  have hkeys := r.circuitStates.nodup_keys
  rw [circuitFamily, List.map_flatMap, List.nodup_flatMap]
  constructor
  · rintro ⟨upstream, state⟩ -
    refine List.Nodup.of_map (fun x => (x.2.getLast?.map (·.2)).getD []) ?_
    rw [List.map_map, List.map_map]
    show (circuitCandidates.map id).Nodup
    decide
  · refine (List.pairwise_map.mp hkeys).imp fun {x y} hxy z hz hz' => hxy ?_
    obtain ⟨s, hs, rfl⟩ := List.mem_map.mp hz
    obtain ⟨s', hs', heq⟩ := List.mem_map.mp hz'
    obtain ⟨candidate, -, rfl⟩ := List.mem_map.mp hs
    obtain ⟨candidate', -, rfl⟩ := List.mem_map.mp hs'
    have hlabels := congrArg Prod.snd heq
    simp only [circuitSample, List.cons.injEq, Prod.mk.injEq] at hlabels
    exact hlabels.1.2.symm

theorem nodup_families (h : r.Readable) :
    ∀ f ∈ r.families, (f.samples.map fun s => (s.name, s.labels)).Nodup := by
  intro f hf
  unfold families at hf
  rcases List.mem_append.mp hf with hf | hf
  · simp only [List.mem_cons, List.not_mem_nil, or_false] at hf
    rcases hf with rfl | rfl | rfl | rfl | rfl | rfl | rfl | rfl
    · exact nodup_counter h _
    · exact nodup_histogram h _
    · exact nodup_counter h _
    · exact nodup_counter h _
    · exact nodup_histogram h _
    · exact nodup_counter h _
    · exact nodup_counter h _
    · exact nodup_circuit r
  · obtain ⟨x, -, rfl⟩ := List.mem_map.mp hf
    exact List.nodup_singleton _

end MetricsRegistry

/-! ### The document of `/metrics` -/

namespace Router

open Exposition

variable (global : Option RateLimitStats) (routes : List RateLimitStats) (caches : List CacheStats)

theorem text_rateLimit :
    (rateLimitFamily global routes).text = rateLimitMetrics global routes := by
  have hheader : headerText rateLimitName none .counter =
      bytes "# TYPE pulsegate_rate_limit_requests_total counter\n" := by decide +kernel
  have hsamples : ∀ scope stats, scope.flatMap escape = scope →
      samplesText (rateLimitSamples scope stats) = rateLimitLines scope stats := by
    intro scope stats hscope
    have hline : ∀ outcome : Bytes, outcome.flatMap escape = outcome → ∀ n : Nat,
        (⟨rateLimitName, [(bytes "scope", scope), (bytes "outcome", outcome)], toChars 10 n⟩ :
          Sample).text ++ [10] =
        bytes "pulsegate_rate_limit_requests_total\x7bscope=\"" ++ scope ++
          bytes "\",outcome=\"" ++ outcome ++ bytes "\"\x7d " ++ toChars 10 n ++ bytes "\n" := by
      intro outcome houtcome n
      have hopen : bytes "pulsegate_rate_limit_requests_total\x7bscope=\"" =
          rateLimitName ++ 123 :: (bytes "scope" ++ [61, 34]) := by decide +kernel
      have hbetween : bytes "\",outcome=\"" = 34 :: 44 :: (bytes "outcome" ++ [61, 34]) := by decide
      have hclose : bytes "\"\x7d " = [34, 125, 32] := by decide
      have hfeed : bytes "\n" = [10] := by decide
      simp only [Sample.text, labelsText, labelText, List.map_cons, List.map_nil,
        List.intercalate_cons_cons, List.intercalate_singleton, hopen, hbetween, hclose, hfeed,
        hscope, houtcome, List.append_assoc, List.cons_append, List.nil_append, reduceCtorEq,
        if_false]
    have hallowed := hline (bytes "allowed") (by decide) stats.allowed
    have hrejected := hline (bytes "rejected") (by decide) stats.rejected
    have hcapacity := hline (bytes "key_capacity") (by decide) stats.rejectedKeyCapacity
    simp only [rateLimitSamples, samplesText_map, List.flatMap_cons, List.flatMap_nil, hallowed,
      hrejected, hcapacity, rateLimitLines, List.append_assoc, List.append_nil]
  have hglobal := hsamples (bytes "global") (global.getD {}) (by decide)
  have hroute := hsamples (bytes "route") (rateLimitTotals routes) (by decide)
  have hfamily : (rateLimitFamily global routes).text = headerText rateLimitName none .counter ++
      samplesText (global.elim [] (rateLimitSamples (bytes "global")) ++
        if routes.isEmpty then [] else rateLimitSamples (bytes "route") (rateLimitTotals routes)) :=
    rfl
  rw [hfamily, hheader, samplesText_append, rateLimitMetrics, List.append_assoc]
  congr 1
  congr 1
  · cases global with
    | none => rfl
    | some stats => exact hglobal
  · split
    · rfl
    · exact hroute

theorem text_cache : (cacheFamily caches).text =
    bytes "# TYPE pulsegate_response_cache_operations_total counter\n" ++
      (cacheLine (bytes "hit") (cacheTotals caches).hits ++
        (cacheLine (bytes "miss") (cacheTotals caches).misses ++
          (cacheLine (bytes "store") (cacheTotals caches).stores ++
            (cacheLine (bytes "eviction") (cacheTotals caches).evictions ++
              cacheLine (bytes "expired") (cacheTotals caches).expired)))) := by
  have hheader : headerText cacheName none .counter =
      bytes "# TYPE pulsegate_response_cache_operations_total counter\n" := by decide +kernel
  have hline : ∀ operation : Bytes, operation.flatMap escape = operation → ∀ n : Nat,
      (⟨cacheName, [(bytes "operation", operation)], toChars 10 n⟩ : Sample).text ++ [10] =
        cacheLine operation n := by
    intro operation hoperation n
    have hopen : bytes "pulsegate_response_cache_operations_total\x7boperation=\"" =
        cacheName ++ 123 :: (bytes "operation" ++ [61, 34]) := by decide +kernel
    have hclose : bytes "\"\x7d " = [34, 125, 32] := by decide
    have hfeed : bytes "\n" = [10] := by decide
    simp only [cacheLine, Sample.text, labelsText, labelText, List.map_cons, List.map_nil,
      List.intercalate_singleton, hopen, hclose, hfeed, hoperation, List.append_assoc,
      List.cons_append, List.nil_append, reduceCtorEq, if_false]
  have hhit := hline (bytes "hit") (by decide)
  have hmiss := hline (bytes "miss") (by decide)
  have hstore := hline (bytes "store") (by decide)
  have heviction := hline (bytes "eviction") (by decide)
  have hexpired := hline (bytes "expired") (by decide)
  rw [Family.text, cacheFamily, hheader]
  simp only [samplesText_map, List.flatMap_cons, List.flatMap_nil, hhit, hmiss, hstore, heviction,
    hexpired, List.append_nil]

theorem text_families :
    textOfLines ((families global routes caches).flatMap (·.lines)) =
      rateLimitMetrics global routes ++ cacheMetrics caches := by
  rw [textOfLines_families, families, List.flatMap_cons, text_rateLimit, cacheMetrics]
  congr 1
  split
  · rfl
  · rw [List.flatMap_singleton, text_cache]
    simp only [List.append_assoc]

theorem isNumber_toChars (n : Nat) :
    toChars 10 n ≠ [] ∧ ∀ c ∈ toChars 10 n, Decimal.IsDecimal c :=
  ⟨Numeral.write_ne_nil _, fun _ hc => .inl (isDecimal_of_mem_toChars hc)⟩

/-- The samples about a limiter or a cache, when these are the names of their labels. -/
theorem wellFormed_sample {name : Bytes} (hname : IsName name) (labels : List (Bytes × Bytes))
    (hlabels : ∀ label ∈ labels.map (·.1), IsLabelName label) (hdistinct : (labels.map (·.1)).Nodup)
    (n : Nat) : (⟨name, labels, toChars 10 n⟩ : Sample).WellFormed :=
  ⟨hname, fun _ hlabel => hlabels _ (List.mem_map_of_mem hlabel), hdistinct, isNumber_toChars n⟩

variable {global routes caches}

theorem mem_rateLimitSamples {s : Sample}
    (hs : s ∈ (rateLimitFamily global routes).samples) :
    ∃ scope stats, s ∈ rateLimitSamples scope stats := by
  rcases List.mem_append.mp hs with hs | hs
  · cases global with
    | none => cases hs
    | some stats => exact ⟨_, _, hs⟩
  · split at hs
    · cases hs
    · exact ⟨_, _, hs⟩

theorem wellFormed_rateLimit : (rateLimitFamily global routes).WellFormed where
  name := by
    show IsName rateLimitName
    decide
  samples := by
    intro s hs
    obtain ⟨scope, stats, hs⟩ := mem_rateLimitSamples hs
    obtain ⟨x, -, rfl⟩ := List.mem_map.mp hs
    have hnames : (∀ label ∈ [bytes "scope", bytes "outcome"], IsLabelName label) ∧
      [bytes "scope", bytes "outcome"].Nodup := by decide
    have hname : IsName rateLimitName := by decide
    exact ⟨wellFormed_sample hname [(bytes "scope", scope), (bytes "outcome", x.1)] hnames.1
      hnames.2 _, .head _⟩

theorem wellFormed_cache : (cacheFamily caches).WellFormed where
  name := by
    show IsName cacheName
    decide
  samples := by
    intro s hs
    obtain ⟨x, -, rfl⟩ := List.mem_map.mp hs
    have hnames : ∀ label ∈ [bytes "operation"], IsLabelName label := by decide
    have hname : IsName cacheName := by decide
    exact ⟨wellFormed_sample hname [(bytes "operation", x.1)] hnames (List.nodup_singleton _) _,
      .head _⟩

theorem wellFormed_families :
    ∀ f ∈ families global routes caches,
      f.WellFormed ∧ (f.samples.map fun s => (s.name, s.labels)).Nodup := by
  intro f hf
  rcases List.mem_cons.mp hf with rfl | hf
  · refine ⟨wellFormed_rateLimit, ?_⟩
    have hglobal : (global.elim [] (rateLimitSamples (bytes "global"))).Sublist
        (rateLimitSamples (bytes "global") (global.getD {})) := by
      cases global with
      | none => exact List.nil_sublist _
      | some stats => exact List.Sublist.refl _
    have hroute : (if routes.isEmpty then [] else
        rateLimitSamples (bytes "route") (rateLimitTotals routes)).Sublist
        (rateLimitSamples (bytes "route") (rateLimitTotals routes)) := by
      split
      · exact List.nil_sublist _
      · exact List.Sublist.refl _
    have hlabels : ∀ scope stats,
        (rateLimitSamples scope stats).map (fun s => (s.name, s.labels)) =
          [bytes "allowed", bytes "rejected", bytes "key_capacity"].map fun outcome =>
            (rateLimitName, [(bytes "scope", scope), (bytes "outcome", outcome)]) :=
      fun _ _ => rfl
    -- whatever the numbers are, the labels are among these
    refine List.Nodup.sublist ((hglobal.append hroute).map _) ?_
    rw [List.map_append, hlabels, hlabels]
    decide +kernel
  · split at hf
    · cases hf
    · rw [List.mem_singleton.mp hf]
      refine ⟨wellFormed_cache, ?_⟩
      show ([bytes "hit", bytes "miss", bytes "store", bytes "eviction", bytes "expired"].map
        fun operation => (cacheName, [(bytes "operation", operation)])).Nodup
      decide +kernel

end Router

/-! ### Every scrape is read -/

/-- The names and types that a document of `/metrics` can have. -/
def scrapeNames : List (Bytes × Exposition.Kind) :=
  MetricsRegistry.names ++ [(Router.rateLimitName, .counter), (Router.cacheName, .counter)]

theorem scrapeNames_distinct :
    (scrapeNames.map (·.1)).Nodup ∧ (scrapeNames.flatMap fun x => x.2.sampleNames x.1).Nodup ∧
      ∀ name ∈ scrapeNames.flatMap fun x => x.2.sampleNames x.1, readySample.name ≠ name := by
  decide +kernel

variable {r : MetricsRegistry} {global : Option RateLimitStats} {routes : List RateLimitStats}
  {caches : List CacheStats}

theorem names_sublist :
    ((metricsDocument r global routes caches).families.map fun f => (f.name, f.kind)).Sublist
      scrapeNames := by
  have hregistry : r.families.map (fun f => (f.name, f.kind)) = MetricsRegistry.names := rfl
  show ((r.families ++ Router.families global routes caches).map _).Sublist _
  rw [List.map_append, hregistry]
  refine (List.Sublist.refl _).append (.cons_cons _ ?_)
  split
  · exact List.nil_sublist _
  · exact List.Sublist.refl _

theorem wellFormed_metricsDocument (h : r.Readable) :
    (metricsDocument r global routes caches).WellFormed := by
  have hready : readySample.WellFormed :=
    ⟨by decide +kernel, fun _ h => absurd h List.not_mem_nil, .nil, by decide +kernel⟩
  have huntyped : ∀ s ∈ (metricsDocument r global routes caches).untyped, s = readySample :=
    fun s hs => List.mem_singleton.mp hs
  have hfamilies : ∀ f ∈ (metricsDocument r global routes caches).families,
      f.WellFormed ∧ (f.samples.map fun s => (s.name, s.labels)).Nodup := by
    intro f hf
    rcases List.mem_append.mp hf with hf | hf
    · exact ⟨MetricsRegistry.wellFormed_families h f hf, MetricsRegistry.nodup_families h f hf⟩
    · exact Router.wellFormed_families f hf
  obtain ⟨hnames, hsamples, hfirst⟩ := scrapeNames_distinct
  have hsublist : ((metricsDocument r global routes caches).families.map
      fun f => (f.name, f.kind)).Sublist scrapeNames := names_sublist
  have hapart : ((metricsDocument r global routes caches).families.flatMap (·.sampleNames)).Sublist
      (scrapeNames.flatMap fun x => x.2.sampleNames x.1) := by
    have h := hsublist.flatMap fun x => x.2.sampleNames x.1
    rwa [List.flatMap_map] at h
  refine ⟨fun s hs => huntyped s hs ▸ hready, fun f hf => (hfamilies f hf).1, ?_⟩
  refine Exposition.Document.distinct_of ?_ (fun f hf s hs => ((hfamilies f hf).1.samples s hs).2)
    (hsamples.sublist hapart) ?_ (List.nodup_singleton _) fun f hf => (hfamilies f hf).2
  · have h := hsublist.map Prod.fst
    rw [List.map_map] at h
    exact hnames.sublist h
  · intro s hs f hf hname
    rw [huntyped s hs] at hname
    exact hfirst _ (hapart.subset (List.mem_flatMap.mpr ⟨f, hf, hname⟩)) rfl

/-- **The body is the text of the document.** -/
theorem render_metricsDocument (h : r.Readable) :
    (metricsDocument r global routes caches).render =
      (metricsResponse (some r) global routes caches).body := by
  have hready : readySample.text ++ [10] = bytes "pulsegate_ready 1\n" := by decide
  show Exposition.textOfLines (.sample readySample ::
    (r.families ++ Router.families global routes caches).flatMap (·.lines)) = _
  rw [List.flatMap_append, ← List.singleton_append, Exposition.textOfLines_append,
    Exposition.textOfLines_append, MetricsRegistry.text_families h, Router.text_families,
    ← List.append_assoc,
    ← List.append_assoc]
  show readySample.text ++ [10] ++ [] ++ _ ++ _ ++ _ = _
  rw [List.append_nil, hready]
  rfl

namespace SharedMetrics

open MetricsCall

variable {s : SharedMetrics}

/-- The series of a call has the strings of the call in its labels. -/
theorem printable_series {c : MetricsCall} (h : ∀ value ∈ c.strings, Printable value)
    {series : Series} (hseries : c.series = some series) : series.Printable := by
  have hshown : ∀ value, Printable value → Printable (LabelValue.of value).value := by
    intro value hvalue
    show Printable (logged value)
    rwa [logged_of_printable hvalue]
  have hclass : ∀ n, Printable (intToString n ++ bytes "xx") := by
    intro n c hc
    rcases List.mem_append.mp hc with hc | hc
    · exact UInt8.not_lt.mpr (UInt8.le_trans (by decide) (mem_intToString hc))
    · have hletters : Printable (bytes "xx") := by decide
      exact hletters c hc
  cases c <;> cases hseries <;>
    simp_all [Series.Printable, Series.labels, strings]

theorem Inv.readable (h : s.Inv) (hstrings : ∀ c ∈ s.calls, ∀ value ∈ c.strings, Printable value) :
    s.registry.Readable where
  counters m x hx := by
    obtain ⟨c, hc, _, hcounted⟩ := (h.counters m).exists_of_mem hx
    obtain ⟨series, hseries, hkind, htext⟩ := series_of_counted hcounted
    exact ⟨series, printable_series (hstrings c hc) hseries, hkind, htext⟩
  histograms m x hx := by
    obtain ⟨c, hc, _, htimed⟩ := (h.histograms m).exists_of_mem hx
    obtain ⟨y, hcounted, hduration⟩ := Option.bind_eq_some_iff.mp htimed
    obtain ⟨_, _, heq⟩ := Option.map_eq_some_iff.mp hduration
    obtain ⟨series, hseries, hkind, htext⟩ := series_of_counted hcounted
    have hkey : y.1 = x.1 := congrArg Prod.fst heq
    exact ⟨series, printable_series (hstrings c hc) hseries, hkind, htext.trans hkey⟩
  circuits x hx := by
    obtain ⟨c, hc, state, hcircuit⟩ := h.circuits.exists_of_mem hx
    cases c with
    | setCircuitState upstream state' =>
      obtain ⟨rfl, -⟩ := Prod.mk.inj (Option.some.inj hcircuit)
      exact hstrings _ hc _ (.head _)
    | _ => cases hcircuit

/-- **Every scrape is read back.** In every state of every run in which the strings of the calls
have no control characters, whatever the limiters and caches of the router say, the body of
`/metrics` is one document of the text format; its samples are those of the counters, histograms,
circuits and numbers of the registry, and those of the router, and no others. -/
theorem scrape_reads_back (global : Option RateLimitStats) (routes : List RateLimitStats)
    (caches : List CacheStats) (events : List Event) :
    Machine.Always step (fun s => (∀ c ∈ s.calls, ∀ value ∈ c.strings, Printable value) →
      ∃ d, Exposition.parse (metricsResponse (some s.registry) global routes caches).body = some d ∧
        ∀ sample, sample ∈ d.samples ↔ sample = readySample ∨ s.registry.Shown sample ∨
          sample ∈ (Router.families global routes caches).flatMap (·.samples)) {} events := by
  refine Machine.always_of_invariant Inv (fun s h hstrings => ?_)
    (fun _ _ _ h hstep => h.step hstep) events inv_init
  have hreadable := h.readable hstrings
  refine ⟨metricsDocument s.registry global routes caches, ?_, fun sample => ?_⟩
  · rw [← render_metricsDocument hreadable]
    exact Exposition.parse_render (wellFormed_metricsDocument hreadable)
  · show sample ∈ [readySample] ++
      (s.registry.families ++ Router.families global routes caches).flatMap (·.samples) ↔ _
    rw [List.flatMap_append, List.mem_append, List.mem_append, List.mem_singleton,
      MetricsRegistry.mem_samples_iff hreadable]

end SharedMetrics

end PulseGate
