import PulseGate.Http.Metrics
import Mathlib

namespace PulseGate

/-!
# What the metrics say

A time series of the registry is a kind of event with the values of its labels, as they are shown.
The registry keys its maps by the text of the labels.

* `Series.text_injective` — series of one kind with the same text are the same;
* `recorded_exactly` — in every state of every run each counter is the number of the calls of its
  series, each histogram is that of their durations, and there are no other entries;
* `scrapes_consistent` — the buckets of a histogram contain each other, and the histogram of a
  series counts what its counter counts; no counter and no bucket becomes smaller, and no sum
  where no duration is negative.
-/

/-! ### Values of labels -/

theorem loggedChar_loggedChar (c : UInt8) : loggedChar (loggedChar c) = loggedChar c := by
  have hall : ∀ k : Fin 256, loggedChar (loggedChar (.ofFin k)) = loggedChar (.ofFin k) := by
    decide +kernel
  exact hall c.toFin

theorem escapeChar_loggedChar (c : UInt8) : escapeChar (loggedChar c) = escapeChar c := by
  have hall : ∀ k : Fin 256, escapeChar (loggedChar (.ofFin k)) = escapeChar (.ofFin k) := by
    decide +kernel
  exact hall c.toFin

theorem jsonEscape_logged (value : Bytes) : jsonEscape (logged value) = jsonEscape value := by
  unfold jsonEscape logged
  rw [List.flatMap_map]
  exact congrArg (List.flatMap · value) (funext escapeChar_loggedChar)

/-- A value of a label, as it is shown. -/
structure LabelValue where
  value : Bytes
  shown : logged value = value
  deriving DecidableEq

/-- What is shown of a value. -/
def LabelValue.of (value : Bytes) : LabelValue where
  value := logged value
  shown := by
    rw [logged, logged, List.map_map]
    exact congrArg (List.map · value) (funext loggedChar_loggedChar)

/-- Behind an escaped value comes a quote, which says where the value ends. -/
theorem escape_inj {v v' : LabelValue} {rest rest' : Bytes}
    (h : escapedLabel v.value ++ 34 :: rest = escapedLabel v'.value ++ 34 :: rest') :
    v = v' ∧ rest = rest' := by
  have hread := congrArg Json.stringFrom h
  rw [escapedLabel, (spells_jsonEscape _).closed, escapedLabel, (spells_jsonEscape _).closed,
    v.shown, v'.shown] at hread
  obtain ⟨hvalue, hrest⟩ := Prod.mk.inj (Option.some.inj hread)
  cases v
  cases v'
  obtain rfl : _ = _ := hvalue
  exact ⟨rfl, hrest⟩

theorem closing_inj {v v' : LabelValue}
    (h : escapedLabel v.value ++ bytes "\"" = escapedLabel v'.value ++ bytes "\"") : v = v' := by
  have hquote : bytes "\"" = 34 :: [] := rfl
  rw [hquote] at h
  exact (escape_inj h).1

/-- The digits of a class end where the letters begin. -/
theorem class_inj {n m : Int} {rest rest' : Bytes}
    (h : intToString n ++ 120 :: rest = intToString m ++ 120 :: rest') :
    n = m ∧ rest = rest' := by
  have hdigits : ∀ k : Int, (120 : UInt8) ∉ intToString k := by
    intro k hmem
    unfold intToString at hmem
    split at hmem
    · rcases List.mem_cons.mp hmem with heq | hmem
      · exact absurd heq (by decide)
      · exact absurd (mem_toChars (by decide) (by decide) hmem).2.1 (by decide)
    · exact absurd (mem_toChars (by decide) (by decide) hmem).2.1 (by decide)
  have htake := congrArg (List.takeWhile (· ≠ 120)) h
  have hdrop := congrArg (List.dropWhile (· ≠ 120)) h
  rw [(takeWhile_separator (hdigits n) _).1, (takeWhile_separator (hdigits m) _).1] at htake
  rw [(takeWhile_separator (hdigits n) _).2, (takeWhile_separator (hdigits m) _).2] at hdrop
  have hread := congrArg intFromChars htake
  rw [intFromChars_intToString, intFromChars_intToString] at hread
  exact ⟨Option.some.inj hread, (List.cons.inj hdrop).2⟩

/-! ### Series -/

/-- The maps with counters. -/
inductive CounterMap
  | httpRequests
  | rejectedConnections
  | upstreamRequests
  | cacheRequests
  | rateLimitRejections
  deriving DecidableEq, Repr

def MetricsRegistry.counters (r : MetricsRegistry) : CounterMap → SortedMap Bytes UInt64
  | .httpRequests => r.httpRequests
  | .rejectedConnections => r.rejectedConnections
  | .upstreamRequests => r.upstreamRequests
  | .cacheRequests => r.cacheRequests
  | .rateLimitRejections => r.rateLimitRejections

/-- The histograms of the series of a map, where they have any. -/
def MetricsRegistry.histograms (r : MetricsRegistry) : CounterMap → SortedMap Bytes Histogram
  | .httpRequests => r.httpDuration
  | .upstreamRequests => r.upstreamConnectDuration
  | _ => ∅

/-- What is counted apart. -/
inductive Series
  | httpRequests (method : LabelValue) (statusClass : Int) (route : LabelValue)
  | rejectedConnections (reason : LabelValue)
  | upstreamRequests (upstream result : LabelValue)
  | cacheRequests (result : LabelValue)
  | rateLimitRejections (route : LabelValue)
  deriving DecidableEq

namespace Series

def kind : Series → CounterMap
  | httpRequests _ _ _ => .httpRequests
  | rejectedConnections _ => .rejectedConnections
  | upstreamRequests _ _ => .upstreamRequests
  | cacheRequests _ => .cacheRequests
  | rateLimitRejections _ => .rateLimitRejections

/-- The text of the labels, which is the key in the map. -/
def text : Series → Bytes
  | httpRequests method statusClass route =>
    bytes "method=\"" ++ escapedLabel method.value ++ bytes "\",status_class=\"" ++
      intToString statusClass ++ bytes "xx\",route=\"" ++ escapedLabel route.value ++ bytes "\""
  | rejectedConnections reason => reasonLabel reason.value
  | upstreamRequests upstream result => upstreamLabels upstream.value result.value
  | cacheRequests result => resultLabel result.value
  | rateLimitRejections route => routeLabel route.value

/-- **Series of one map are told apart.** -/
theorem text_injective {s s' : Series} (hkind : s.kind = s'.kind) (htext : s.text = s'.text) :
    s = s' := by
  cases s with
  | httpRequests method statusClass route =>
    cases s' with
    | httpRequests method' statusClass' route' =>
      have hclass : bytes "\",status_class=\"" = 34 :: bytes ",status_class=\"" := rfl
      have hroute : bytes "xx\",route=\"" = 120 :: bytes "x\",route=\"" := rfl
      simp only [text, hclass, hroute, List.append_assoc, List.append_cancel_left_eq,
        List.cons_append] at htext
      obtain ⟨rfl, hbehind⟩ := escape_inj htext
      obtain ⟨rfl, hroutes⟩ := class_inj (List.append_cancel_left hbehind)
      rw [closing_inj (List.append_cancel_left hroutes)]
    | _ => cases hkind
  | rejectedConnections reason =>
    cases s' with
    | rejectedConnections reason' =>
      simp only [text, reasonLabel, List.append_assoc, List.append_cancel_left_eq] at htext
      rw [closing_inj htext]
    | _ => cases hkind
  | upstreamRequests upstream result =>
    cases s' with
    | upstreamRequests upstream' result' =>
      have hresult : bytes "\",result=\"" = 34 :: bytes ",result=\"" := rfl
      simp only [text, upstreamLabels, hresult, List.append_assoc, List.append_cancel_left_eq,
        List.cons_append] at htext
      obtain ⟨rfl, hbehind⟩ := escape_inj htext
      rw [closing_inj (List.append_cancel_left hbehind)]
    | _ => cases hkind
  | cacheRequests result =>
    cases s' with
    | cacheRequests result' =>
      simp only [text, resultLabel, List.append_assoc, List.append_cancel_left_eq] at htext
      rw [closing_inj htext]
    | _ => cases hkind
  | rateLimitRejections route =>
    cases s' with
    | rateLimitRejections route' =>
      simp only [text, routeLabel, List.append_assoc, List.append_cancel_left_eq] at htext
      rw [closing_inj htext]
    | _ => cases hkind

/-- The counter of a series. -/
def counter (r : MetricsRegistry) (series : Series) : Option UInt64 :=
  (r.counters series.kind).get series.text

/-- The histogram of a series. -/
def histogram (r : MetricsRegistry) (series : Series) : Option Histogram :=
  (r.histograms series.kind).get series.text

end Series

namespace MetricsCall

/-- The series a call counts in. -/
def series : MetricsCall → Option Series
  | .recordHttp method status route _ =>
    some (.httpRequests (.of method) (statusClass status) (.of route))
  | .connectionRejected reason => some (.rejectedConnections (.of reason))
  | .recordUpstream upstream result _ => some (.upstreamRequests (.of upstream) (.of result))
  | .recordCache result => some (.cacheRequests (.of result))
  | .recordRateLimitRejection route => some (.rateLimitRejections (.of route))
  | _ => none

/-- The text of its labels, as the call makes it. -/
def labels : MetricsCall → Bytes
  | .recordHttp method status route _ => httpLabels method status route
  | .connectionRejected reason => reasonLabel reason
  | .recordUpstream upstream result _ => upstreamLabels upstream result
  | .recordCache result => resultLabel result
  | .recordRateLimitRejection route => routeLabel route
  | _ => []

/-- The duration that goes to the histogram. -/
def duration : MetricsCall → Option Int
  | .recordHttp _ _ _ duration => some duration
  | .recordUpstream _ _ connectDuration =>
    if 0 < connectDuration then some connectDuration else none
  | _ => none

/-- The key a call counts at in a map. -/
def counted (m : CounterMap) (c : MetricsCall) : Option (Bytes × Unit) :=
  (c.series.filter fun series => series.kind = m).map fun series => (series.text, ())

/-- The key a call brings its duration to. -/
def timed (m : CounterMap) (c : MetricsCall) : Option (Bytes × Int) :=
  (counted m c).bind fun x => c.duration.map fun duration => (x.1, duration)

end MetricsCall

/-! ### What a call changes -/

namespace MetricsRegistry

open MetricsCall

variable {m : CounterMap} {c : MetricsCall}

/-- The series are named as the source names them. -/
theorem text_series {series : Series} (h : c.series = some series) : series.text = c.labels := by
  cases c <;> cases h <;>
    simp only [Series.text, LabelValue.of, labels, httpLabels, upstreamLabels, reasonLabel,
      resultLabel, routeLabel, escapedLabel, jsonEscape_logged]

theorem counted_eq (m : CounterMap) (c : MetricsCall) :
    counted m c = (c.series.filter fun series => series.kind = m).map fun _ => (c.labels, ()) := by
  unfold counted
  cases hseries : c.series with
  | none => rfl
  | some series =>
    by_cases hkind : series.kind = m
    · simp [Option.filter, hkind, text_series hseries]
    · simp [Option.filter, hkind]

/-- **A call counts at its key, in its map.** -/
theorem counters_perform (r : MetricsRegistry) (c : MetricsCall) (m : CounterMap) :
    (r.perform c).counters m =
      (counted m c).elim (r.counters m) fun x => (r.counters m).update 0 (fun n => n + 1) x.1 := by
  rw [counted_eq]
  cases c <;> cases m <;> rfl

/-- A duration goes to the histogram of the series. -/
theorem histograms_perform (r : MetricsRegistry) (c : MetricsCall) (m : CounterMap) :
    (r.perform c).histograms m = (timed m c).elim (r.histograms m) fun x =>
      (r.histograms m).update {} (updateHistogram x.2) x.1 := by
  rw [timed, counted_eq]
  cases c with
  | recordUpstream upstream result connectDuration =>
    -- only a positive duration is one of a new connection
    unfold duration perform
    by_cases hpositive : 0 < connectDuration
    · simp only [if_pos hpositive]
      cases m <;> rfl
    · simp only [if_neg hpositive]
      cases m <;> rfl
  | _ => cases m <;> rfl

end MetricsRegistry

/-! ### Histograms -/

theorem ofNat_mono {n m : Nat} (hle : n ≤ m) (hm : m < sizeModulus) :
    UInt64.ofNat n ≤ UInt64.ofNat m := by
  unfold sizeModulus at hm
  rw [UInt64.le_iff_toNat_le, UInt64.toNat_ofNat', UInt64.toNat_ofNat', Nat.mod_eq_of_lt (by omega),
    Nat.mod_eq_of_lt (by omega)]
  exact hle

/-- The number of the durations up to a limit, in microseconds. -/
def within (limit : Int) (durations : List Int) : UInt64 :=
  .ofNat (durations.countP (· ≤ limit))

namespace Histogram

/-- What the numbers of a histogram of these durations are. -/
structure Shows (h : Histogram) (durations : List Int) : Prop where
  count : h.count = .ofNat durations.length
  /-- In seconds. -/
  sum : h.sum = (durations.sum : ℚ) / 1000000
  le1ms : h.le1ms = within 1000 durations
  le5ms : h.le5ms = within 5000 durations
  le25ms : h.le25ms = within 25000 durations
  le100ms : h.le100ms = within 100000 durations
  le1s : h.le1s = within 1000000 durations

variable {h : Histogram} {durations : List Int} {d : Int}

theorem within_append (limit : Int) (durations : List Int) (d : Int) :
    within limit (durations ++ [d]) =
      if d ≤ limit then within limit durations + 1 else within limit durations := by
  unfold within
  rw [List.countP_append, List.countP_singleton]
  by_cases hd : d ≤ limit <;> simp [hd]

/-- The limits of the buckets are whole numbers of microseconds. -/
theorem seconds_le_iff (limit : Int) :
    (d : ℚ) / 1000000 ≤ (limit : ℚ) / 1000000 ↔ d ≤ limit := by
  rw [div_le_div_iff_of_pos_right (by norm_num), Int.cast_le]

/-- **Step lemma.** -/
theorem Shows.update (hshows : h.Shows durations) (d : Int) :
    (updateHistogram d h).Shows (durations ++ [d]) := by
  have hbucket : ∀ (limit : Int) (q : ℚ) (n : UInt64), q = limit / 1000000 →
      n = within limit durations →
      (if (d : ℚ) / 1000000 ≤ q then n + 1 else n) = within limit (durations ++ [d]) := by
    rintro limit q n rfl rfl
    simp only [within_append, seconds_le_iff]
  refine ⟨?_, ?_, hbucket _ _ _ (by norm_num) hshows.le1ms,
    hbucket _ _ _ (by norm_num) hshows.le5ms, hbucket _ _ _ (by norm_num) hshows.le25ms,
    hbucket _ _ _ (by norm_num) hshows.le100ms, hbucket _ _ _ (by norm_num) hshows.le1s⟩
  · show h.count + 1 = _
    rw [hshows.count, List.length_append, UInt64.ofNat_add]
    rfl
  · show h.sum + (d : ℚ) / 1000000 = _
    rw [hshows.sum, List.sum_append, List.sum_singleton]
    push_cast
    ring

theorem shows_accumulate
    (h : SortedMap.accumulate {} updateHistogram durations = some h') : h'.Shows durations := by
  have hall : (durations.foldl (fun h d => updateHistogram d h) {}).Shows durations := by
    clear h
    induction durations using List.reverseRecOn with
    | nil => exact ⟨rfl, by simp, rfl, rfl, rfl, rfl, rfl⟩
    | append_singleton durations d ih =>
      rw [List.foldl_append]
      exact ih.update d
  unfold SortedMap.accumulate at h
  split at h
  · cases h
  · exact Option.some.inj h ▸ hall

/-- **The buckets contain each other**, while the count does not wrap. -/
theorem Shows.cumulative (hshows : h.Shows durations) (hlength : durations.length < sizeModulus) :
    h.le1ms ≤ h.le5ms ∧ h.le5ms ≤ h.le25ms ∧ h.le25ms ≤ h.le100ms ∧ h.le100ms ≤ h.le1s ∧
      h.le1s ≤ h.count := by
  have hwithin : ∀ l l' : Int, l ≤ l' → within l durations ≤ within l' durations := by
    intro l l' hl
    refine ofNat_mono (List.countP_mono_left fun d _ hd => ?_)
      (List.countP_le_length.trans_lt hlength)
    exact decide_eq_true (le_trans (of_decide_eq_true hd) hl)
  rw [hshows.count, hshows.le1ms, hshows.le5ms, hshows.le25ms, hshows.le100ms, hshows.le1s]
  exact ⟨hwithin _ _ (by decide), hwithin _ _ (by decide), hwithin _ _ (by decide),
    hwithin _ _ (by decide), ofNat_mono List.countP_le_length hlength⟩

end Histogram

/-! ### The registry in use -/

/-- What a counter of `n` events holds. -/
def tally (n : Nat) : Option UInt64 := if n = 0 then none else some (.ofNat n)

/-- The state that is set of an upstream. -/
def MetricsCall.circuit : MetricsCall → Option (Bytes × Bytes)
  | .setCircuitState upstream state => some (upstream, state)
  | _ => none

/-- The bytes that a call adds to the gauge of the output buffers, and those it removes. -/
def MetricsCall.addedBytes : MetricsCall → UInt64
  | .addOutputBufferBytes value => value
  | _ => 0

def MetricsCall.removedBytes : MetricsCall → UInt64
  | .removeOutputBufferBytes value => value
  | _ => 0

/-- The durations of the calls of a series, in their order. -/
def durationsOf (series : Series) (calls : List MetricsCall) : List Int :=
  calls.filterMap fun c => if c.series = some series then c.duration else none

namespace SharedMetrics

open MetricsCall

/-- The atomics. -/
structure Gauged (s : SharedMetrics) : Prop where
  accepted : s.registry.acceptedConnections = .ofNat (s.calls.count .connectionAccepted)
  /-- What a thread is about to count is missing. -/
  active : s.registry.activeConnections + .ofNat s.accepting +
    .ofNat (s.calls.count .connectionClosed) = s.registry.acceptedConnections
  logsDropped : s.registry.logsDropped = .ofNat (s.calls.count .recordLogDrop)
  coroutines : (∀ value, .setRuntimeActiveCoroutines value ∉ s.calls) →
    s.registry.runtimeActiveCoroutines + .ofNat (s.calls.count .coroutineFinished) =
      .ofNat (s.calls.count .coroutineStarted)
  outputBuffer : (∀ value, .setOutputBufferBytes value ∉ s.calls) →
    s.registry.outputBufferBytes + (s.calls.map removedBytes).sum = (s.calls.map addedBytes).sum

/-- What the registry holds is what was recorded. -/
structure Recorded (s : SharedMetrics) : Prop where
  counter : ∀ series : Series, series.counter s.registry =
    tally (s.calls.countP fun c => c.series = some series)
  histogram : ∀ series : Series,
    ((series.histogram s.registry).isSome = true ↔ durationsOf series s.calls ≠ []) ∧
      ∀ h ∈ series.histogram s.registry, h.Shows (durationsOf series s.calls)
  /-- There are no other entries. -/
  named : ∀ m, ∀ x ∈ (s.registry.counters m).entries, ∃ c ∈ s.calls, ∃ series,
    c.series = some series ∧ series.kind = m ∧ series.text = x.1
  circuit : ∀ upstream, s.registry.circuitStates.get upstream =
    (SortedMap.arrivals circuit upstream s.calls).getLast?
  gauges : s.Gauged

/-- What holds between two steps. -/
structure Inv (s : SharedMetrics) : Prop where
  counters : ∀ m, (s.registry.counters m).Records 0 (fun _ n => n + 1) (counted m) s.calls
  histograms : ∀ m, (s.registry.histograms m).Records {} updateHistogram (timed m) s.calls
  circuits : s.registry.circuitStates.Records [] (fun state _ => state) circuit s.calls
  gauges : s.Gauged

theorem inv_init : Inv {} where
  counters m := by cases m <;> exact SortedMap.records_empty
  histograms m := by cases m <;> exact SortedMap.records_empty
  circuits := SortedMap.records_empty
  gauges := ⟨rfl, rfl, rfl, fun _ => rfl, fun _ => rfl⟩

variable {s s' : SharedMetrics}

theorem Gauged.call (h : s.Gauged) (c : MetricsCall) :
    Gauged { registry := s.registry.perform c,
             accepting := if c = .connectionAccepted then s.accepting + 1 else s.accepting,
             calls := s.calls ++ [c] } := by
  refine ⟨?_, ?_, ?_, fun hstores => ?_, fun hstores => ?_⟩
  · have haccepted := h.accepted
    cases c <;> simp [MetricsRegistry.perform, haccepted]
  · have hactive := h.active
    cases c <;> simp [MetricsRegistry.perform] <;> grind
  · have hlogs := h.logsDropped
    cases c <;> simp [MetricsRegistry.perform, hlogs]
  · have hcoroutines := h.coroutines fun value hmem =>
      hstores value (List.mem_append_left _ hmem)
    cases c with
    | setRuntimeActiveCoroutines value => exact absurd (by simp) (hstores value)
    | _ =>
      simp [MetricsRegistry.perform]
      grind
  · have hbytes := h.outputBuffer fun value hmem => hstores value (List.mem_append_left _ hmem)
    cases c with
    | setOutputBufferBytes value => exact absurd (by simp) (hstores value)
    | _ =>
      simp [MetricsRegistry.perform, addedBytes, removedBytes]
      grind

/-- **Step lemma.** -/
theorem Inv.step (h : s.Inv) {e : Event} (hstep : s.step e = some s') : s'.Inv := by
  cases e with
  | call c =>
    obtain rfl := Option.some.inj hstep
    refine ⟨fun m => ?_, fun m => ?_, ?_, h.gauges.call c⟩
    · -- the map of the call has one more event at its key
      show ((s.registry.perform c).counters m).Records _ _ _ (s.calls ++ [c])
      rw [MetricsRegistry.counters_perform]
      cases hcounted : counted m c with
      | none => exact (h.counters m).skip hcounted
      | some x => exact (h.counters m).update hcounted
    · show ((s.registry.perform c).histograms m).Records _ _ _ (s.calls ++ [c])
      rw [MetricsRegistry.histograms_perform]
      cases htimed : timed m c with
      | none => exact (h.histograms m).skip htimed
      | some x => exact (h.histograms m).update htimed
    · cases c with
      | setCircuitState upstream state =>
        exact h.circuits.update (e := .setCircuitState upstream state) rfl
      | _ => exact h.circuits.skip rfl
  | activated =>
    change (if s.accepting = 0 then none else _) = some s' at hstep
    split at hstep
    · cases hstep
    · next hpositive =>
      obtain rfl := Option.some.inj hstep
      refine ⟨fun m => ?_, fun m => ?_, h.circuits, h.gauges.accepted, ?_, h.gauges.logsDropped,
        h.gauges.coroutines, h.gauges.outputBuffer⟩
      · have hcounters := h.counters m
        cases m <;> exact hcounters
      · have hhistograms := h.histograms m
        cases m <;> exact hhistograms
      · -- what was missing of the gauge is there
        have hactive := h.gauges.active
        have hsplit : UInt64.ofNat s.accepting = UInt64.ofNat (s.accepting - 1) + 1 := by
          conv_lhs => rw [← Nat.sub_add_cancel (Nat.one_le_iff_ne_zero.mpr hpositive)]
          rw [UInt64.ofNat_add]
          rfl
        show s.registry.activeConnections + 1 + _ + _ = s.registry.acceptedConnections
        grind

/-! ### What the invariant says of the series -/

theorem accumulate_increment (arrived : List Unit) :
    SortedMap.accumulate (0 : UInt64) (fun _ n => n + 1) arrived = tally arrived.length := by
  have hall : arrived.foldl (fun n _ => n + 1) (0 : UInt64) = .ofNat arrived.length := by
    induction arrived using List.reverseRecOn with
    | nil => rfl
    | append_singleton arrived u ih =>
      rw [List.foldl_append, ih, List.length_append, UInt64.ofNat_add]
      rfl
  unfold SortedMap.accumulate tally
  simp only [hall, List.length_eq_zero_iff]

/-- A call counts at the key of a series exactly if it is one of this series. -/
theorem counted_any (series : Series) (c : MetricsCall) :
    (counted series.kind c).any (fun x => x.1 = series.text) =
      decide (c.series = some series) := by
  unfold counted
  cases hseries : c.series with
  | none => rfl
  | some other =>
    by_cases hsame : other = series
    · subst hsame
      simp [Option.filter]
    · by_cases hkind : other.kind = series.kind
      · have htext : other.text ≠ series.text :=
          fun htext => hsame (Series.text_injective hkind htext)
        simp [Option.filter, hkind, htext, hsame]
      · simp [Option.filter, hkind, hsame]

theorem arrivals_timed (series : Series) (calls : List MetricsCall) :
    SortedMap.arrivals (timed series.kind) series.text calls = durationsOf series calls := by
  refine List.filterMap_congr fun c _ => ?_
  have hany := counted_any series c
  by_cases hsame : c.series = some series
  · rw [if_pos hsame, timed, counted, hsame]
    cases c.duration <;> simp [Option.filter]
  · rw [if_neg hsame]
    rw [decide_eq_false hsame] at hany
    unfold timed
    cases hcounted : counted series.kind c with
    | none => rfl
    | some x =>
      rw [hcounted] at hany
      have hne : ¬x.1 = series.text := by simpa using hany
      cases c.duration <;> simp [Option.filter, hne]

/-- A key at which a call counts is that of its series. -/
theorem series_of_counted {m : CounterMap} {c : MetricsCall} {x : Bytes × Unit}
    (hcounted : counted m c = some x) :
    ∃ series, c.series = some series ∧ series.kind = m ∧ series.text = x.1 := by
  obtain ⟨series, hseries, rfl⟩ := Option.map_eq_some_iff.mp hcounted
  obtain ⟨hseries, hkind⟩ := Option.filter_eq_some_iff.mp hseries
  exact ⟨series, hseries, of_decide_eq_true hkind, rfl⟩

theorem Inv.recorded (h : s.Inv) : s.Recorded where
  counter series := by
    rw [Series.counter, h.counters, accumulate_increment, SortedMap.length_arrivals]
    simp only [counted_any]
  histogram series := by
    have hget := h.histograms series.kind series.text
    rw [arrivals_timed] at hget
    refine ⟨?_, fun histogram hhistogram => ?_⟩
    · rw [Series.histogram, hget, SortedMap.accumulate]
      split <;> simp_all
    · rw [Series.histogram, hget] at hhistogram
      exact Histogram.shows_accumulate hhistogram
  named m x hx := by
    obtain ⟨c, hc, _, hcounted⟩ := (h.counters m).exists_of_mem hx
    exact ⟨c, hc, series_of_counted hcounted⟩
  circuit upstream := (h.circuits upstream).trans (SortedMap.accumulate_last _ _)
  gauges := h.gauges

/-- **The registry holds what was recorded.** In every state of every run, whatever threads make
the calls and in whatever order they take effect. -/
theorem recorded_exactly (events : List Event) :
    Machine.Always step Recorded {} events :=
  Machine.always_of_invariant Inv (fun _ h => h.recorded) (fun _ _ _ h hstep => h.step hstep) events
    inv_init

/-! ### One scrape, and the next -/

/-- What one look at the registry shows fits together. -/
structure Consistent (r : MetricsRegistry) : Prop where
  cumulative : ∀ series : Series, ∀ h ∈ series.histogram r,
    h.le1ms ≤ h.le5ms ∧ h.le5ms ≤ h.le25ms ∧ h.le25ms ≤ h.le100ms ∧ h.le100ms ≤ h.le1s ∧
      h.le1s ≤ h.count
  /-- A duration is that of a call that was counted. -/
  counted : ∀ series : Series, ∀ h ∈ series.histogram r,
    ∃ n ∈ series.counter r, h.count ≤ n
  /-- All requests have a duration. -/
  requests : ∀ method statusClass route,
    let series := Series.httpRequests method statusClass route
    series.counter r = (series.histogram r).map (·.count)

/-- Nothing that is counted is taken back. -/
structure Grows (r r' : MetricsRegistry) : Prop where
  accepted : r.acceptedConnections ≤ r'.acceptedConnections
  logsDropped : r.logsDropped ≤ r'.logsDropped
  counter : ∀ series : Series, ∀ n ∈ series.counter r, ∃ n' ∈ series.counter r', n ≤ n'
  histogram : ∀ series : Series, ∀ h ∈ series.histogram r, ∃ h' ∈ series.histogram r',
    h.count ≤ h'.count ∧ h.le1ms ≤ h'.le1ms ∧ h.le5ms ≤ h'.le5ms ∧ h.le25ms ≤ h'.le25ms ∧
      h.le100ms ≤ h'.le100ms ∧ h.le1s ≤ h'.le1s

/-- Nothing is taken back from the sums. -/
def SumsGrow (r r' : MetricsRegistry) : Prop :=
  ∀ series : Series, ∀ h ∈ series.histogram r, ∃ h' ∈ series.histogram r', h.sum ≤ h'.sum

theorem length_durationsOf_le (series : Series) (calls : List MetricsCall) :
    (durationsOf series calls).length ≤ calls.countP fun c => c.series = some series := by
  unfold durationsOf
  rw [List.length_filterMap_eq_countP]
  refine List.countP_mono_left fun c _ hc => ?_
  by_cases hsame : c.series = some series
  · exact decide_eq_true hsame
  · rw [if_neg hsame] at hc
    cases hc

/-- Every request has a duration. -/
theorem length_durationsOf_requests (method : LabelValue) (statusClass : Int) (route : LabelValue)
    (calls : List MetricsCall) :
    (durationsOf (.httpRequests method statusClass route) calls).length =
      calls.countP fun c => c.series = some (.httpRequests method statusClass route) := by
  unfold durationsOf
  rw [List.length_filterMap_eq_countP]
  refine List.countP_congr fun c _ => ?_
  by_cases hsame : c.series = some (.httpRequests method statusClass route)
  · rw [if_pos hsame, decide_eq_true hsame]
    cases c with
    | recordHttp method status route duration => rfl
    | _ => simp [series] at hsame
  · rw [if_neg hsame, decide_eq_false hsame]
    rfl

theorem tally_of_pos {n : Nat} (h : n ≠ 0) : tally n = some (.ofNat n) := if_neg h

theorem Recorded.consistent (h : s.Recorded) (hlength : s.calls.length < sizeModulus) :
    Consistent s.registry where
  cumulative series histogram hhistogram := by
    refine ((h.histogram series).2 histogram hhistogram).cumulative ?_
    exact (List.length_filterMap_le _ _).trans_lt hlength
  counted series histogram hhistogram := by
    have hshows := (h.histogram series).2 histogram hhistogram
    have hsome := (h.histogram series).1.mp (Option.isSome_iff_exists.mpr ⟨_, hhistogram⟩)
    have hle := length_durationsOf_le series s.calls
    have hpos := List.length_pos_iff.mpr hsome
    refine ⟨_, (h.counter series).trans (tally_of_pos (by omega)), ?_⟩
    rw [hshows.count]
    exact ofNat_mono hle (List.countP_le_length.trans_lt hlength)
  requests method statusClass route := by
    have hlengths := length_durationsOf_requests method statusClass route s.calls
    obtain ⟨hsome, hshows⟩ := h.histogram (.httpRequests method statusClass route)
    show Series.counter _ _ = _
    rw [h.counter, ← hlengths]
    cases hhistogram : Series.histogram s.registry (.httpRequests method statusClass route) with
    | none =>
      rw [hhistogram] at hsome
      have hnil : durationsOf (.httpRequests method statusClass route) s.calls = [] := by
        simpa using hsome
      rw [hnil]
      rfl
    | some histogram =>
      rw [hhistogram] at hsome
      have hpos := List.length_pos_iff.mpr (hsome.mp rfl)
      rw [tally_of_pos (by omega), Option.map_some, (hshows histogram hhistogram).count]

theorem within_mono {ds ds' : List Int} (hextends : ds <+: ds') (hlength : ds'.length < sizeModulus)
    (limit : Int) : within limit ds ≤ within limit ds' :=
  ofNat_mono hextends.sublist.countP_le (List.countP_le_length.trans_lt hlength)

/-- More calls are counted by more. -/
theorem count_mono (hcalls : s.calls <+: s'.calls) (hlength : s'.calls.length < sizeModulus)
    (c : MetricsCall) : UInt64.ofNat (s.calls.count c) ≤ .ofNat (s'.calls.count c) :=
  ofNat_mono (hcalls.sublist.count_le c) (List.count_le_length.trans_lt hlength)

/-- A histogram is there to stay, with the durations that it has. -/
theorem Recorded.histogram_later (h : s.Recorded) (h' : s'.Recorded)
    (hcalls : s.calls <+: s'.calls) {series : Series} {histogram : Histogram}
    (hhistogram : series.histogram s.registry = some histogram) :
    ∃ histogram', series.histogram s'.registry = some histogram' ∧
      histogram.Shows (durationsOf series s.calls) ∧
      histogram'.Shows (durationsOf series s'.calls) ∧
      durationsOf series s.calls <+: durationsOf series s'.calls := by
  have hextends : durationsOf series s.calls <+: durationsOf series s'.calls := hcalls.filterMap _
  have hne := (h.histogram series).1.mp (Option.isSome_iff_exists.mpr ⟨_, hhistogram⟩)
  have hne' : durationsOf series s'.calls ≠ [] := fun hnil =>
    hne (List.prefix_nil.mp (hnil ▸ hextends))
  obtain ⟨histogram', hhistogram'⟩ :=
    Option.isSome_iff_exists.mp ((h'.histogram series).1.mpr hne')
  exact ⟨histogram', hhistogram', (h.histogram series).2 histogram hhistogram,
    (h'.histogram series).2 histogram' hhistogram', hextends⟩

/-- What is added to a sum is not negative, if no duration is. -/
theorem Recorded.sumsGrow (h : s.Recorded) (h' : s'.Recorded) (hcalls : s.calls <+: s'.calls)
    (hnonneg : ∀ c ∈ s'.calls, ∀ d ∈ c.duration, 0 ≤ d) : SumsGrow s.registry s'.registry := by
  intro series histogram hhistogram
  obtain ⟨histogram', hhistogram', hshows, hshows', more, hmore⟩ :=
    h.histogram_later h' hcalls hhistogram
  refine ⟨histogram', hhistogram', ?_⟩
  have hadded : 0 ≤ more.sum := by
    apply List.sum_nonneg
    intro d hd
    have hmem : d ∈ durationsOf series s'.calls := hmore ▸ List.mem_append_right _ hd
    obtain ⟨c, hc, hduration⟩ := List.mem_filterMap.mp hmem
    split at hduration
    · exact hnonneg c hc d hduration
    · cases hduration
  rw [hshows.sum, hshows'.sum, ← hmore, List.sum_append, Int.cast_add]
  have hcast : (0 : ℚ) ≤ (more.sum : ℚ) := Int.cast_nonneg hadded
  linarith

theorem Recorded.grows (h : s.Recorded) (h' : s'.Recorded) (hcalls : s.calls <+: s'.calls)
    (hlength : s'.calls.length < sizeModulus) : Grows s.registry s'.registry where
  accepted := by
    rw [h.gauges.accepted, h'.gauges.accepted]
    exact count_mono hcalls hlength _
  logsDropped := by
    rw [h.gauges.logsDropped, h'.gauges.logsDropped]
    exact count_mono hcalls hlength _
  counter series n hn := by
    have hle : (s.calls.countP fun c => c.series = some series) ≤
        s'.calls.countP fun c => c.series = some series := hcalls.sublist.countP_le
    have htally := h.counter series
    rw [hn, tally] at htally
    split at htally
    · cases htally
    · next hpos =>
      obtain rfl := Option.some.inj htally
      exact ⟨_, (h'.counter series).trans (tally_of_pos (by omega)),
        ofNat_mono hle (List.countP_le_length.trans_lt hlength)⟩
  histogram series histogram hhistogram := by
    obtain ⟨histogram', hhistogram', hshows, hshows', hextends⟩ :=
      h.histogram_later h' hcalls hhistogram
    have hlength' : (durationsOf series s'.calls).length < sizeModulus :=
      (List.length_filterMap_le _ _).trans_lt hlength
    refine ⟨histogram', hhistogram', ?_⟩
    rw [hshows.count, hshows.le1ms, hshows.le5ms, hshows.le25ms, hshows.le100ms, hshows.le1s,
      hshows'.count, hshows'.le1ms, hshows'.le5ms, hshows'.le25ms, hshows'.le100ms, hshows'.le1s]
    exact ⟨ofNat_mono hextends.length_le hlength', within_mono hextends hlength' _,
      within_mono hextends hlength' _, within_mono hextends hlength' _,
      within_mono hextends hlength' _, within_mono hextends hlength' _⟩

theorem calls_extend {e : Event} (hstep : s.step e = some s') : s.calls <+: s'.calls := by
  cases e with
  | call c => exact Option.some.inj hstep ▸ List.prefix_append _ _
  | activated =>
    change (if s.accepting = 0 then none else _) = some s' at hstep
    split at hstep
    · cases hstep
    · exact Option.some.inj hstep ▸ List.prefix_refl _

/-- **Scrapes fit together.** In every run, until there were 2^64 calls: the buckets of each
histogram contain each other, the histogram of the requests of a series counts what its counter
counts, and from one step to the next no counter, count or bucket becomes smaller, and no sum
becomes smaller where no duration was negative. -/
theorem scrapes_consistent (events : List Event) :
    Machine.Always step (fun s => s.calls.length < sizeModulus → Consistent s.registry) {} events ∧
      Machine.EachStep step (fun s _ s' =>
        (s'.calls.length < sizeModulus → Grows s.registry s'.registry) ∧
          ((∀ c ∈ s'.calls, ∀ d ∈ c.duration, 0 ≤ d) → SumsGrow s.registry s'.registry))
        {} events := by
  constructor
  · exact Machine.always_of_invariant Inv (fun _ h => h.recorded.consistent)
      (fun _ _ _ h hstep => h.step hstep) events inv_init
  · apply Machine.eachStep_of_invariant Inv _ events inv_init
    intro s e s' h hstep
    have h' := h.step hstep
    have hcalls := calls_extend hstep
    exact ⟨⟨h.recorded.grows h'.recorded hcalls, h.recorded.sumsGrow h'.recorded hcalls⟩, h'⟩

end SharedMetrics
end PulseGate
