import PulseGate.Http.ExchangeSteps
import PulseGate.Http.StreamReading

namespace PulseGate

/-!
# When to come back to open circuits

The seconds of `Retry-After` with which `ReverseProxy` answers when its circuits reject.

* `LeastSeconds` — the least positive number of seconds that reaches a time point;
* `rememberedTime` — the retry time that the loop ends with: the earliest, but for circuits with
  the zero time point, which is the loop's marker for none;
* `retryAfterSeconds_eq_iff` — the rounding, which adds 999 ms in 64 bits and cuts off;
* `retry_after_least_iff` — when the seconds are the least that reach the earliest retry time.
-/

/-! ### Seconds -/

/-- A second and a millisecond, in nanoseconds. -/
def oneSecond : Int := 1000000000

def oneMillisecond : Int := 1000000

/-- The least positive number of seconds after which `time` is reached. -/
structure LeastSeconds (time now seconds : Int) : Prop where
  positive : 0 < seconds
  reached : time ≤ now + seconds * oneSecond
  least : ∀ k, 0 < k → time ≤ now + k * oneSecond → seconds ≤ k

theorem exists_leastSeconds (time now : Int) : ∃ seconds, LeastSeconds time now seconds := by
  refine ⟨max 1 ((time - now + (oneSecond - 1)) / oneSecond), ?_, ?_, ?_⟩
  · omega
  · unfold oneSecond
    omega
  · intro k hk hreached
    unfold oneSecond at hreached ⊢
    omega

theorem LeastSeconds.unique {time now seconds seconds' : Int} (h : LeastSeconds time now seconds)
    (h' : LeastSeconds time now seconds') : seconds = seconds' := by
  have hle := h.least _ h'.positive h'.reached
  have hge := h'.least _ h.positive h.reached
  omega

/-- A time point of the steady clock. -/
def TimePoint (t : Int) : Prop := -2 ^ 63 ≤ t ∧ t ≤ timeMax

instance (t : Int) : Decidable (TimePoint t) := inferInstanceAs (Decidable (_ ∧ _))

/-- The longest wait to which 999 ms can be added in 64 bits. -/
def longestWait : Int := timeMax - milliseconds 999

/-- The wait calls for these seconds by the rounding: not a millisecond past them, and a
    millisecond or more past the second before.  A wait that is too long calls for one second:
    what is added makes it negative. -/
def RoundsTo (wait seconds : Int) : Prop :=
  if wait ≤ longestWait then
    wait < seconds * oneSecond + oneMillisecond ∧
      (seconds = 1 ∨ (seconds - 1) * oneSecond + oneMillisecond ≤ wait)
  else seconds = 1

/-- The rounding of a wait to which 999 ms can be added. -/
theorem rounds_of_le {wait seconds : Int} (hseconds : 0 < seconds) (hwait : 0 ≤ wait)
    (hle : wait ≤ longestWait) :
    max 1 (((wait + milliseconds 999).bmod (2 ^ 64)).tdiv 1000000000) = seconds ↔
      wait < seconds * oneSecond + oneMillisecond ∧
        (seconds = 1 ∨ (seconds - 1) * oneSecond + oneMillisecond ≤ wait) := by
  unfold longestWait timeMax at hle
  unfold milliseconds at hle ⊢
  unfold oneSecond oneMillisecond
  have hsum : (wait + 1000000 * 999).bmod (2 ^ 64) = wait + 1000000 * 999 :=
    Int.bmod_eq_of_le (by omega) (by omega)
  rw [hsum, Int.tdiv_eq_ediv_of_nonneg (by omega)]
  omega

/-- The sum of a longer wait and 999 ms is negative, or less than a second. -/
theorem rounds_of_lt {wait : Int} (hlong : longestWait < wait) (hwait : wait < 2 ^ 64) :
    max 1 (((wait + milliseconds 999).bmod (2 ^ 64)).tdiv 1000000000) = 1 := by
  unfold longestWait timeMax at hlong
  unfold milliseconds at hlong ⊢
  have hsum : (wait + 1000000 * 999).bmod (2 ^ 64) = wait + 1000000 * 999 - 2 ^ 64 := by
    rw [Int.bmod_def]
    split <;> omega
  rw [hsum]
  have hle : (wait + 1000000 * 999 - 2 ^ 64).tdiv 1000000000 ≤ 0 := by
    by_cases hsmall : 0 ≤ wait + 1000000 * 999 - 2 ^ 64
    · rw [Int.tdiv_eq_ediv_of_nonneg hsmall]
      omega
    · have hpositive : 0 ≤ (-(wait + 1000000 * 999 - 2 ^ 64)).tdiv 1000000000 :=
        Int.tdiv_nonneg (by omega) (by omega)
      rw [Int.neg_tdiv] at hpositive
      omega
  omega

/-- **The rounding.** -/
theorem retryAfterSeconds_eq_iff {time now seconds : Int} (h : 0 < seconds)
    (htime : TimePoint time) (hnow : TimePoint now) :
    Exchange.retryAfterSeconds time now = seconds ↔ RoundsTo (time - now) seconds := by
  obtain ⟨-, htime⟩ := htime
  obtain ⟨hnow, -⟩ := hnow
  unfold timeMax at htime
  unfold Exchange.retryAfterSeconds RoundsTo
  dsimp only
  split
  · split
    · next hle => exact rounds_of_le h (by omega) hle
    · next hlong =>
      rw [rounds_of_lt (by omega) (by omega)]
      exact eq_comm
  · have hzero : (0 : Int) ≤ longestWait := by decide
    rw [if_pos (by omega), rounds_of_le h (le_refl 0) hzero]
    unfold oneSecond oneMillisecond
    omega

/-- The wait is a number of seconds and less than a millisecond. -/
def JustOverSeconds (wait : Int) : Prop :=
  oneSecond < wait ∧ 0 < wait % oneSecond ∧ wait % oneSecond < oneMillisecond

/-- For the least seconds the rounding fails in the first millisecond of a second, and for a
    wait that is too long. -/
theorem LeastSeconds.roundsTo_iff {time now seconds : Int} (h : LeastSeconds time now seconds) :
    RoundsTo (time - now) seconds ↔ time - now ≤ longestWait ∧ ¬JustOverSeconds (time - now) := by
  obtain ⟨hpositive, hreached, hleast⟩ := h
  have hbefore := hleast (seconds - 1)
  have hlongest : oneSecond < longestWait := by decide
  unfold RoundsTo JustOverSeconds
  unfold oneSecond at *
  unfold oneMillisecond
  split
  · next hle => omega
  · next hlong =>
    -- one second does not reach a time so far away
    omega

/-! ### The time that the loop remembers -/

/-- What one rejecting circuit does to the time of the loop; zero is the marker for none. -/
def earlier (earliest retryAt : Int) : Int :=
  if earliest = 0 ∨ retryAt < earliest then retryAt else earliest

/-- The times after the last zero. -/
def afterZero (times : List Int) : List Int := (times.reverse.takeWhile (· ≠ 0)).reverse

/-- The earliest of the times if one is negative, else of those after the last zero. -/
def rememberedTime (times : List Int) : Int :=
  if times.any (· < 0) then times.min?.getD 0 else (afterZero times).min?.getD 0

theorem afterZero_of_ne {times : List Int} (h : ∀ t ∈ times, t ≠ 0) : afterZero times = times := by
  unfold afterZero
  rw [List.takeWhile_eq_self_iff.mpr, List.reverse_reverse]
  intro t ht
  simpa using h t (List.mem_reverse.mp ht)

theorem afterZero_snoc_zero (times : List Int) : afterZero (times ++ [0]) = [] := by
  simp [afterZero]

theorem afterZero_snoc {t : Int} (times : List Int) (ht : t ≠ 0) :
    afterZero (times ++ [t]) = afterZero times ++ [t] := by
  simp [afterZero, ht]

theorem ne_of_mem_afterZero {times : List Int} {t : Int} (h : t ∈ afterZero times) : t ≠ 0 := by
  unfold afterZero at h
  have htake := List.mem_takeWhile_imp (List.mem_reverse.mp h)
  simpa using htake

theorem mem_of_mem_afterZero {times : List Int} {t : Int} (h : t ∈ afterZero times) :
    t ∈ times := by
  unfold afterZero at h
  exact List.mem_reverse.mp ((List.takeWhile_sublist _).subset (List.mem_reverse.mp h))

/-- A time is the earliest of the list. -/
def EarliestOf (times : List Int) (time : Int) : Prop := time ∈ times ∧ ∀ t ∈ times, time ≤ t

/-- One more time, behind the others. -/
theorem EarliestOf.snoc {times : List Int} {earliest : Int} (h : EarliestOf times earliest)
    (t : Int) : EarliestOf (times ++ [t]) (if t < earliest then t else earliest) := by
  obtain ⟨hmem, hleast⟩ := h
  split
  · next hlt =>
    refine ⟨by simp, ?_⟩
    intro u hu
    rcases List.mem_append.mp hu with hu | hu
    · have hle := hleast u hu
      omega
    · rw [List.mem_singleton.mp hu]
  · next hge =>
    refine ⟨List.mem_append_left _ hmem, ?_⟩
    intro u hu
    rcases List.mem_append.mp hu with hu | hu
    · exact hleast u hu
    · rw [List.mem_singleton.mp hu]
      omega

theorem earlier_of_ne {earliest : Int} (h : earliest ≠ 0) (t : Int) :
    earlier earliest t = if t < earliest then t else earliest := by
  simp [earlier, h]

/-- **The loop remembers** the earliest time if one is negative; else the earliest of those
    after the last zero, if there is one. -/
theorem foldl_earlier (times : List Int) :
    ((∃ t ∈ times, t < 0) → EarliestOf times (times.foldl earlier 0)) ∧
      ((∀ t ∈ times, 0 ≤ t) → (afterZero times = [] ∧ times.foldl earlier 0 = 0) ∨
        EarliestOf (afterZero times) (times.foldl earlier 0)) := by
  induction times using List.reverseRecOn with
  | nil =>
    refine ⟨?_, fun _ => .inl ⟨rfl, rfl⟩⟩
    rintro ⟨t, ht, -⟩
    cases ht
  | append_singleton times t ih =>
    obtain ⟨hnegative, hpositive⟩ := ih
    rw [List.foldl_append, List.foldl_cons, List.foldl_nil]
    constructor
    · rintro ⟨u, hu, hlt⟩
      by_cases hsome : ∃ t ∈ times, t < 0
      · -- the marker is not reached again from below
        have hleast := hnegative hsome
        obtain ⟨v, hv, hvlt⟩ := hsome
        have hle := hleast.2 v hv
        rw [earlier_of_ne (by omega)]
        exact hleast.snoc t
      · have hall : ∀ v ∈ times, 0 ≤ v := fun v hv => by
          by_contra hneg
          exact hsome ⟨v, hv, by omega⟩
        have ht : t < 0 := by
          rcases List.mem_append.mp hu with hu | hu
          · exact absurd ⟨u, hu, hlt⟩ hsome
          · rwa [← List.mem_singleton.mp hu]
        -- the first negative time is taken: what was found before it is zero or positive
        have htakes : earlier (times.foldl earlier 0) t = t := by
          show (if times.foldl earlier 0 = 0 ∨ t < times.foldl earlier 0 then t else _) = t
          apply if_pos
          rcases hpositive hall with ⟨-, hzero⟩ | ⟨hmem, -⟩
          · exact .inl hzero
          · have hge := hall _ (mem_of_mem_afterZero hmem)
            omega
        rw [htakes]
        refine ⟨by simp, ?_⟩
        intro v hv
        rcases List.mem_append.mp hv with hv | hv
        · have hge := hall v hv
          omega
        · rw [List.mem_singleton.mp hv]
    · intro hall
      have hrest := hpositive fun v hv => hall v (List.mem_append_left _ hv)
      have ht : 0 ≤ t := hall t (by simp)
      by_cases hzero : t = 0
      · -- the zero time point is taken for the marker
        subst hzero
        refine .inl ⟨afterZero_snoc_zero times, ?_⟩
        rcases hrest with ⟨-, hnone⟩ | ⟨hmem, -⟩
        · rw [hnone]
          rfl
        · have hge := hall _ (List.mem_append_left _ (mem_of_mem_afterZero hmem))
          have hne := ne_of_mem_afterZero hmem
          rw [earlier_of_ne hne, if_pos (by omega)]
      · rw [afterZero_snoc times hzero]
        refine .inr ?_
        rcases hrest with ⟨hnil, hnone⟩ | hleast
        · rw [hnil, hnone]
          exact ⟨by simp [earlier], by simp [earlier]⟩
        · rw [earlier_of_ne (ne_of_mem_afterZero hleast.1)]
          exact hleast.snoc t

theorem min?_of_earliestOf {times : List Int} {time : Int} (h : EarliestOf times time) :
    times.min? = some time := List.min?_eq_some_iff.mpr h

theorem foldl_earlier_eq (times : List Int) : times.foldl earlier 0 = rememberedTime times := by
  obtain ⟨hnegative, hpositive⟩ := foldl_earlier times
  unfold rememberedTime
  split
  · next hany =>
    have hsome : ∃ t ∈ times, t < 0 := by simpa using hany
    rw [min?_of_earliestOf (hnegative hsome)]
    rfl
  · next hnone =>
    have hall : ∀ t ∈ times, 0 ≤ t := by simpa using hnone
    rcases hpositive hall with ⟨hnil, heq⟩ | hleast
    · rw [hnil, heq]
      rfl
    · rw [min?_of_earliestOf hleast]
      rfl

/-- Without a zero time point the earliest time is remembered. -/
theorem rememberedTime_of_ne {times : List Int} {earliest : Int} (h : ∀ t ∈ times, t ≠ 0)
    (hearliest : EarliestOf times earliest) : rememberedTime times = earliest := by
  unfold rememberedTime
  rw [afterZero_of_ne h, ite_self, min?_of_earliestOf hearliest]
  rfl

/-- The wait that the loop remembers calls for the least seconds, by the rounding. -/
def CallsForLeast (times : List Int) (now : Int) : Prop :=
  ∃ earliest seconds, EarliestOf times earliest ∧ LeastSeconds earliest now seconds ∧
    RoundsTo (rememberedTime times - now) seconds

theorem EarliestOf.unique {times : List Int} {time time' : Int} (h : EarliestOf times time)
    (h' : EarliestOf times time') : time = time' := by
  have hle := h.2 time' h'.1
  have hge := h'.2 time h.1
  omega

/-- **Without a zero time point** the wait must leave room for the rounding and must not be just
    over a number of seconds. -/
theorem callsForLeast_iff {times : List Int} {earliest : Int} (h : ∀ t ∈ times, t ≠ 0)
    (hearliest : EarliestOf times earliest) (now : Int) :
    CallsForLeast times now ↔
      earliest - now ≤ longestWait ∧ ¬JustOverSeconds (earliest - now) := by
  obtain ⟨seconds, hleast⟩ := exists_leastSeconds earliest now
  rw [← hleast.roundsTo_iff]
  unfold CallsForLeast
  rw [rememberedTime_of_ne h hearliest]
  constructor
  · rintro ⟨time, k, htime, hk, hrounds⟩
    obtain rfl := htime.unique hearliest
    rwa [hleast.unique hk]
  · intro hrounds
    exact ⟨earliest, seconds, hearliest, hleast, hrounds⟩

/-! ### The answer -/

/-- One endpoint that is visited: the ticket, the answers of the health store and of the breaker,
    and the snapshot of the breaker. -/
structure CircuitVisit where
  ticket : Nat
  healthy : Bool
  allowed : Bool
  circuit : CircuitState
  retryAt : Int

def CircuitVisit.event (v : CircuitVisit) : ExchangeEvent :=
  .attempted v.ticket v.healthy v.allowed v.circuit v.retryAt

/-- The retry times of the circuits that are not Closed. -/
def retryTimes (visits : List CircuitVisit) : List Int :=
  (visits.filter fun v => decide (v.circuit ≠ .Closed)).map (·.retryAt)

/-- The loop remembers a time point. -/
theorem timePoint_rememberedTime {visits : List CircuitVisit}
    (h : ∀ v ∈ visits, TimePoint v.retryAt) : TimePoint (rememberedTime (retryTimes visits)) := by
  have hall : ∀ t ∈ retryTimes visits, TimePoint t := by
    intro t ht
    obtain ⟨v, hv, rfl⟩ := List.mem_map.mp ht
    exact h v (List.mem_filter.mp hv).1
  have hleast (times : List Int) (htimes : ∀ t ∈ times, TimePoint t) :
      TimePoint (times.min?.getD 0) := by
    cases hmin : times.min? with
    | none => exact (by decide : TimePoint 0)
    | some t => exact htimes t (List.min?_mem hmin)
  unfold rememberedTime
  split
  · exact hleast _ hall
  · exact hleast _ fun t ht => hall t (mem_of_mem_afterZero ht)

namespace Exchange

variable {e e' : Exchange}

/-- The answer that the circuits reject, with these seconds. -/
def AnswersCircuitOpen (e : Exchange) (seconds : Int) : Prop :=
  e.stage = .handled (withRetryAfter (makeProxyErrorResponse .CircuitOpen) seconds)

/-- The answer has the least seconds that reach the earliest time. -/
def AdvertisesLeast (e : Exchange) (times : List Int) (now : Int) : Prop :=
  ∃ earliest seconds, EarliestOf times earliest ∧ e.AnswersCircuitOpen seconds ∧
    LeastSeconds earliest now seconds

/-- The answer names its seconds. -/
theorem AnswersCircuitOpen.unique {seconds seconds' : Int} (h : e.AnswersCircuitOpen seconds)
    (h' : e.AnswersCircuitOpen seconds') : seconds = seconds' := by
  have hresponse := Stage.handled.inj (h.symm.trans h')
  have hentries := congrArg (fun r => r.headers.entries) hresponse
  have htext : intToString seconds = intToString seconds' := by
    simpa [withRetryAfter, Headers.add] using hentries
  have hread := congrArg intFromChars htext
  rw [intFromChars_intToString, intFromChars_intToString] at hread
  exact Option.some.inj hread

theorem startAcquire_stage (e : Exchange) (endpoint attempt : Nat) (rejected : Bool)
    (earliest : Int) :
    (e.startAcquire endpoint).stage ≠ .selecting attempt rejected earliest := by
  unfold startAcquire
  split
  · exact nofun
  · exact nofun

/-- Where no endpoint is selected, the loop does not go on. -/
theorem run_visits_none {visits : List CircuitVisit} {now : Int}
    (h : ∀ attempt rejected earliest, e.stage ≠ .selecting attempt rejected earliest) :
    Machine.run step e (visits.map CircuitVisit.event ++ [.exhausted now]) = none := by
  have hnone (event : ExchangeEvent) (hevent : (∃ v : CircuitVisit, event = v.event) ∨
      event = .exhausted now) : e.step event = none := by
    rcases hevent with ⟨v, rfl⟩ | rfl
    · simp only [CircuitVisit.event, step]
    · simp only [step]
  cases visits with
  | nil => exact Option.bind_eq_none_iff.mpr fun e₁ h₁ => by simp [hnone _ (.inr rfl)] at h₁
  | cons v visits =>
    exact Option.bind_eq_none_iff.mpr fun e₁ h₁ => by simp [hnone _ (.inl ⟨v, rfl⟩)] at h₁

/-- **The loop**, when no endpoint is taken. -/
theorem run_visits {visits : List CircuitVisit} {attempt : Nat} {rejected : Bool}
    {earliest now : Int} (h : e.stage = .selecting attempt rejected earliest)
    (hrun : Machine.run step e (visits.map CircuitVisit.event ++ [.exhausted now]) = some e') :
    ∃ e₁ : Exchange, e' = e₁.noEndpoint (rejected || !(retryTimes visits).isEmpty)
      ((retryTimes visits).foldl earlier earliest) now := by
  induction visits generalizing e attempt rejected earliest with
  | nil =>
    obtain ⟨e₁, hstep, hend⟩ := Option.bind_eq_some_iff.mp hrun
    obtain rfl := Option.some.inj hend
    simp only [step, h] at hstep
    split at hstep
    · cases hstep
    · refine ⟨e, ?_⟩
      rw [← Option.some.inj hstep]
      simp [retryTimes]
  | cons v visits ih =>
    rw [List.map_cons, List.cons_append] at hrun
    obtain ⟨e₁, hstep, hrest⟩ := Option.bind_eq_some_iff.mp hrun
    simp only [CircuitVisit.event, step, h, Option.ite_none_right_eq_some,
      Option.some.injEq] at hstep
    obtain ⟨-, rfl⟩ := hstep
    unfold Exchange.attempt at hrest
    dsimp only at hrest
    split at hrest
    · -- the endpoint is taken
      rw [run_visits_none (startAcquire_stage _ _)] at hrest
      cases hrest
    split at hrest
    · -- the circuit refuses, and its time goes into the fold
      next hcircuit =>
      obtain ⟨e₁, heq⟩ := ih rfl hrest
      refine ⟨e₁, ?_⟩
      rw [heq]
      have htimes : retryTimes (v :: visits) = v.retryAt :: retryTimes visits := by
        simp [retryTimes, hcircuit]
      rw [htimes, List.foldl_cons, List.isEmpty_cons, Bool.true_or, Bool.not_false, Bool.or_true]
      rfl
    · next hcircuit =>
      obtain ⟨e₁, heq⟩ := ih rfl hrest
      refine ⟨e₁, ?_⟩
      rw [heq]
      have htimes : retryTimes (v :: visits) = retryTimes visits := by
        simp [retryTimes, hcircuit]
      rw [htimes]

/-- The run of the handler, from the request to the answer that there is no endpoint. -/
theorem run_noEndpoint {proxy : ReverseProxy} {requestId : Nat} {peer : Option Bytes}
    {request : HttpRequest} {cache : RouteCache} {inFlight : Nat} {visits : List CircuitVisit}
    {now : Int}
    (hrun : Machine.run step (init proxy requestId peer request cache)
      (.observed inFlight :: (visits.map CircuitVisit.event ++ [.exhausted now])) = some e) :
    ∃ e₁ : Exchange, e = e₁.noEndpoint (!(retryTimes visits).isEmpty)
      (rememberedTime (retryTimes visits)) now := by
  obtain ⟨e₁, hstep, hrest⟩ := Option.bind_eq_some_iff.mp hrun
  obtain rfl := Option.some.inj hstep
  unfold enterFlight at hrest
  split at hrest
  · rw [run_visits_none (fun _ _ _ => by exact nofun)] at hrest
    cases hrest
  · obtain ⟨e₁, heq⟩ := run_visits rfl hrest
    refine ⟨e₁, ?_⟩
    rw [heq, foldl_earlier_eq, Bool.false_or]

/-- **The seconds are the least** that reach the earliest retry time of the rejecting circuits
    exactly if the wait that the loop remembers calls for them by the rounding.  The clock and the
    snapshots of the circuits hold time points of 64 bits. -/
theorem retry_after_least_iff (proxy : ReverseProxy) (requestId : Nat) (peer : Option Bytes)
    (request : HttpRequest) (cache : RouteCache) (inFlight : Nat) (visits : List CircuitVisit)
    (now : Int) (e : Exchange) (hvisits : ∀ v ∈ visits, TimePoint v.retryAt)
    (hnow : TimePoint now)
    (hrun : Machine.run step (init proxy requestId peer request cache)
      (.observed inFlight :: (visits.map CircuitVisit.event ++ [.exhausted now])) = some e)
    (hanswer : ∃ seconds, e.AnswersCircuitOpen seconds) :
    e.AdvertisesLeast (retryTimes visits) now ↔ CallsForLeast (retryTimes visits) now := by
  obtain ⟨e₁, rfl⟩ := run_noEndpoint hrun
  -- what is answered are the rounded seconds
  have hrounded : (e₁.noEndpoint (!(retryTimes visits).isEmpty)
      (rememberedTime (retryTimes visits)) now).AnswersCircuitOpen
        (retryAfterSeconds (rememberedTime (retryTimes visits)) now) := by
    unfold noEndpoint at hanswer ⊢
    split
    · rfl
    · next hempty =>
      rw [if_neg hempty] at hanswer
      obtain ⟨seconds, hanswer⟩ := hanswer
      have hresponse : makeProxyErrorResponse .NoHealthyUpstream =
          withRetryAfter (makeProxyErrorResponse .CircuitOpen) seconds := Stage.handled.inj hanswer
      have hbody := congrArg HttpResponse.body hresponse
      change (makeProxyErrorResponse .NoHealthyUpstream).body =
        (makeProxyErrorResponse .CircuitOpen).body at hbody
      exact absurd hbody (by decide)
  have hremembered := timePoint_rememberedTime hvisits
  constructor
  · rintro ⟨earliest, seconds, hearliest, hanswer, hleast⟩
    refine ⟨earliest, seconds, hearliest, hleast, ?_⟩
    rw [← retryAfterSeconds_eq_iff hleast.positive hremembered hnow]
    exact hrounded.unique hanswer
  · rintro ⟨earliest, seconds, hearliest, hleast, hrounds⟩
    rw [← retryAfterSeconds_eq_iff hleast.positive hremembered hnow] at hrounds
    exact ⟨earliest, seconds, hearliest, hrounds ▸ hrounded, hleast⟩

/-- One endpoint with an open circuit. -/
def openVisit (retryAt : Int) : CircuitVisit :=
  { ticket := 0, healthy := true, allowed := false, circuit := .Open, retryAt := retryAt }

/-- The theorem at a wait of two seconds. -/
theorem retry_after_least_iff_twoSeconds :
    ∃ e, Machine.run step (smallExchange .Get) (.observed 0 ::
        ([openVisit 3000000000].map CircuitVisit.event ++ [.exhausted 1000000000])) = some e ∧
      e.AdvertisesLeast [3000000000] 1000000000 := by
  refine ⟨_, rfl, ?_⟩
  apply (retry_after_least_iff smallProxy 1 none { method := .Get, target := bytes "/" } {} 0
    [openVisit 3000000000] 1000000000 _ (by decide) (by decide) rfl ⟨2, rfl⟩).mpr
  have hearliest : EarliestOf (retryTimes [openVisit 3000000000]) 3000000000 := by
    constructor <;> decide
  refine (callsForLeast_iff (by decide) hearliest _).mpr ⟨by decide, ?_⟩
  unfold JustOverSeconds
  decide

/-- A wait of two seconds and half a millisecond is answered with two seconds. -/
theorem halfMillisecond_short :
    ∃ e, Machine.run step (smallExchange .Get) (.observed 0 ::
        ([openVisit 3000500000].map CircuitVisit.event ++ [.exhausted 1000000000])) = some e ∧
      e.AnswersCircuitOpen 2 ∧ ¬e.AdvertisesLeast [3000500000] 1000000000 := by
  refine ⟨_, rfl, rfl, ?_⟩
  rintro ⟨earliest, seconds, ⟨hmem, -⟩, hanswer, -, hreached, -⟩
  obtain rfl := List.mem_singleton.mp hmem
  rw [hanswer.unique rfl] at hreached
  exact absurd hreached (by decide)

end Exchange
end PulseGate
