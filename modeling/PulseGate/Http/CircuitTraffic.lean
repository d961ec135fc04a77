import PulseGate.Lib.Machine
import PulseGate.Http.CircuitBreaker
import Mathlib.Data.List.Perm.Basic

namespace PulseGate

/-!
# A circuit breaker and the requests that share it

The breaker's calls carry no tag: an outcome does not say which request it belongs to.
`Traffic` keeps beside the breaker what the breaker does not know — which admitted requests
still owe an outcome, and in which phase each of them was admitted — and lets the outcomes
arrive in any order.

* `cooldown_safe` — an open circuit refuses for its cooldown and is closed by a probe only,
  in every run without a stale success whose cooldowns end before the clock's last time point;
* `probe_budget` — the probes outstanding stay within the budget, in every run in which
  `probesInFlight` counts them.
-/

/-- An admitted request that has not recorded its outcome yet. -/
structure Admission where
  /-- Admitted while the breaker was HalfOpen, as a probe. -/
  probe : Bool
  /-- How often the breaker had opened before the request was admitted. -/
  epoch : Nat
  deriving DecidableEq, Repr

/-- A breaker and the requests that share it. -/
structure Traffic where
  breaker : CircuitBreaker
  outstanding : List Admission := []
  /-- The times at which the breaker opened, the latest first. -/
  openings : List Int := []
  /-- The clock reading of the last call that carried one. -/
  lastReading : Option Int := none

/-- One call on the breaker, under its mutex.  An outcome names, by its place, the
    outstanding request that records it, so every request records at most one. -/
inductive CircuitCall
  | allow (now : Int)
  | success (request : Nat)
  | failure (request : Nat) (now : Int)
  | neutral (request : Nat)
  deriving DecidableEq, Repr

namespace Traffic

def init (l : { l : CircuitBreakerLimits // l.Accepted }) : Traffic :=
  { breaker := CircuitBreaker.create l }

/-- `allowRequest(now)` by a new request. -/
def allow (s : Traffic) (now : Int) : Traffic :=
  let (allowed, breaker) := s.breaker.allowRequest now
  let admission : Admission :=
    { probe := breaker.state = .HalfOpen, epoch := s.openings.length }
  { s with breaker := breaker, lastReading := some now,
           outstanding := if allowed then admission :: s.outstanding else s.outstanding }

/-- `recordFailure(now)`; it counts as an opening when the breaker goes to Open. -/
def fail (s : Traffic) (now : Int) : Traffic :=
  let breaker := s.breaker.recordFailure now
  { s with breaker := breaker, lastReading := some now,
           openings := if s.breaker.state ≠ .Open ∧ breaker.state = .Open then now :: s.openings
                       else s.openings }

/-- The outstanding request at place `i` is done with its outcome. -/
def retire (s : Traffic) (i : Nat) : Traffic := { s with outstanding := s.outstanding.eraseIdx i }

/-- `recordSuccess()` by the outstanding request at place `i`. -/
def succeed (s : Traffic) (i : Nat) : Traffic :=
  { s.retire i with breaker := s.breaker.recordSuccess }

/-- `recordNeutral()` by the outstanding request at place `i`. -/
def abstain (s : Traffic) (i : Nat) : Traffic :=
  { s.retire i with breaker := s.breaker.recordNeutral }

def step (s : Traffic) : CircuitCall → Option Traffic
  | .allow now => some (s.allow now)
  | .success i => if i < s.outstanding.length then some (s.succeed i) else none
  | .failure i now => if i < s.outstanding.length then some ((s.retire i).fail now) else none
  | .neutral i => if i < s.outstanding.length then some (s.abstain i) else none

/-- What a call does to the traffic, one case per call. -/
theorem step_cases {s s' : Traffic} {c : CircuitCall} (hs : step s c = some s') :
    (∃ now, c = .allow now ∧ s' = s.allow now) ∨
    (∃ i, i < s.outstanding.length ∧ c = .success i ∧ s' = s.succeed i) ∨
    (∃ i now, i < s.outstanding.length ∧ c = .failure i now ∧ s' = (s.retire i).fail now) ∨
    (∃ i, i < s.outstanding.length ∧ c = .neutral i ∧ s' = s.abstain i) := by
  cases c with
  | allow now => cases hs; exact .inl ⟨now, rfl, rfl⟩
  | success i =>
    obtain ⟨hi, ⟨⟩⟩ := Option.ite_none_right_eq_some.mp hs
    exact .inr (.inl ⟨i, hi, rfl, rfl⟩)
  | failure i now =>
    obtain ⟨hi, ⟨⟩⟩ := Option.ite_none_right_eq_some.mp hs
    exact .inr (.inr (.inl ⟨i, now, hi, rfl, rfl⟩))
  | neutral i =>
    obtain ⟨hi, ⟨⟩⟩ := Option.ite_none_right_eq_some.mp hs
    exact .inr (.inr (.inr ⟨i, hi, rfl, rfl⟩))

/-- The number of outstanding requests that were admitted as HalfOpen probes. -/
def probes (s : Traffic) : Nat := s.outstanding.countP (·.probe)

/-- The cooldown, in nanoseconds. -/
def cooldown (s : Traffic) : Int := milliseconds s.breaker.limits.cooldown

end Traffic

/-- The clock reading a call carries. -/
def CircuitCall.reading : CircuitCall → Option Int
  | .allow now => some now
  | .failure _ now => some now
  | .success _ => none
  | .neutral _ => none

namespace Traffic

/-! ### The cooldown

`RefusedInCooldown` and `ClosedByProbe` are what an open circuit promises;
`ClockOrdered`, `CooldownFits` and `FreshSuccess` are the conditions on a call under which it
keeps them.
-/

/-- An `allowRequest` whose clock reading lies in the cooldown of an opening is refused. -/
def RefusedInCooldown (s : Traffic) (c : CircuitCall) (_ : Traffic) : Prop :=
  match c with
  | .allow now =>
    ∀ t ∈ s.openings, now < t + s.cooldown → (s.breaker.allowRequest now).1 = false
  | _ => True

instance : ∀ s c s', Decidable (RefusedInCooldown s c s')
  | _, .allow _, _ => inferInstanceAs (Decidable (∀ _ ∈ _, _ → _ = _))
  | _, .success _, _ | _, .failure _ _, _ | _, .neutral _, _ => isTrue trivial

/-- The breaker goes back to Closed only by the success of a probe that was admitted after
    the latest opening. -/
def ClosedByProbe (s : Traffic) (c : CircuitCall) (s' : Traffic) : Prop :=
  s.breaker.state ≠ .Closed → s'.breaker.state = .Closed →
    match c with
    | .success i => ∃ a ∈ s.outstanding[i]?, a.probe = true ∧ a.epoch = s.openings.length
    | _ => False

/-- The call takes the mutex no earlier, by its clock reading, than the calls before it. -/
def ClockOrdered (s : Traffic) (c : CircuitCall) (_ : Traffic) : Prop :=
  ∀ now ∈ c.reading, ∀ t ∈ s.lastReading, t ≤ now

instance (s : Traffic) (c : CircuitCall) (s' : Traffic) : Decidable (ClockOrdered s c s') :=
  inferInstanceAs (Decidable (∀ _ ∈ _, ∀ _ ∈ _, _ ≤ _))

/-- A failure that opens the breaker is recorded early enough for the cooldown to end at a time
    point of the clock. -/
def CooldownFits (s : Traffic) (c : CircuitCall) (_ : Traffic) : Prop :=
  match c with
  | .failure _ now => s.breaker.FailureOpens → now + s.cooldown ≤ timeMax
  | _ => True

instance : ∀ s c s', Decidable (CooldownFits s c s')
  | _, .failure _ _, _ => inferInstanceAs (Decidable (_ → _ ≤ _))
  | _, .allow _, _ | _, .success _, _ | _, .neutral _, _ => isTrue trivial

/-- While the breaker is not Closed, a success comes from a request that was admitted after
    the latest opening. -/
def FreshSuccess (s : Traffic) (c : CircuitCall) (_ : Traffic) : Prop :=
  match c with
  | .success i =>
    s.breaker.state ≠ .Closed → ∀ a ∈ s.outstanding[i]?, a.epoch = s.openings.length
  | _ => True

instance : ∀ s c s', Decidable (FreshSuccess s c s')
  | _, .success _, _ => inferInstanceAs (Decidable (_ → ∀ _ ∈ _, _ = _))
  | _, .allow _, _ | _, .failure _ _, _ | _, .neutral _, _ => isTrue trivial

/-- What ties the openings and the outstanding requests to the breaker's state. -/
structure CooldownInv (s : Traffic) : Prop where
  reading : ∀ t ∈ s.openings, ∃ r ∈ s.lastReading, t ≤ r
  retryAt : s.breaker.state = .Open → ∀ t ∈ s.openings, t + s.cooldown ≤ s.breaker.retryAt
  elapsed : s.breaker.state ≠ .Open → ∀ t ∈ s.openings, ∃ r ∈ s.lastReading, t + s.cooldown ≤ r
  epoch : ∀ a ∈ s.outstanding, a.epoch ≤ s.openings.length
  stale : s.breaker.state = .Open → ∀ a ∈ s.outstanding, a.epoch < s.openings.length
  probe : s.breaker.state ≠ .Closed →
    ∀ a ∈ s.outstanding, a.epoch = s.openings.length → a.probe = true

theorem cooldownInv_init (l : { l : CircuitBreakerLimits // l.Accepted }) :
    CooldownInv (init l) := by
  constructor <;> simp [init, CircuitBreaker.create]

/-- Dropping an outstanding request keeps the invariant. -/
theorem CooldownInv.retire {s : Traffic} (h : CooldownInv s) (i : Nat) :
    CooldownInv (s.retire i) where
  reading := h.reading
  retryAt := h.retryAt
  elapsed := h.elapsed
  epoch := fun a ha => h.epoch a (List.mem_of_mem_eraseIdx ha)
  stale := fun hs a ha => h.stale hs a (List.mem_of_mem_eraseIdx ha)
  probe := fun hs a ha => h.probe hs a (List.mem_of_mem_eraseIdx ha)

/-- An earlier reading that passed a time is still passed by a later one. -/
theorem later_reading {s : Traffic} {now t : Int} (hclock : ∀ r ∈ s.lastReading, r ≤ now)
    (h : ∃ r ∈ s.lastReading, t ≤ r) : t ≤ now := by
  obtain ⟨r, hr, ht⟩ := h
  exact Int.le_trans ht (hclock r hr)

theorem CooldownInv.allow {s : Traffic} (h : CooldownInv s) (now : Int)
    (hclock : ∀ r ∈ s.lastReading, r ≤ now) : CooldownInv (s.allow now) := by
  -- the openings lie in the past, and so do their cooldowns unless the circuit is open
  have hreading : ∀ t ∈ s.openings, t ≤ now := fun t ht => later_reading hclock (h.reading t ht)
  have hover : s.breaker.state ≠ .Open → ∀ t ∈ s.openings, t + s.cooldown ≤ now :=
    fun hs t ht => later_reading hclock (h.elapsed hs t ht)
  rcases s.breaker.allowRequest_cases now with
    ⟨hs, _, heq⟩ | ⟨hs, heq⟩ | ⟨hs, _, heq⟩ | ⟨hs, _, heq⟩ | ⟨hs, hretry, heq⟩
  · -- refused while Open
    constructor <;> simp only [Traffic.allow, heq, cooldown, hs]
    · simpa using hreading
    · simpa [cooldown] using h.retryAt hs
    · simp
    · simpa using h.epoch
    · simpa using h.stale hs
    · simpa using h.probe (by simp [hs])
  · -- admitted in Closed
    constructor <;> simp only [Traffic.allow, heq, cooldown, hs]
    · simpa using hreading
    · simp
    · simpa [cooldown] using hover (by simp [hs])
    · simpa using h.epoch
    · simp
    · simp
  · -- refused in HalfOpen, its budget spent
    constructor <;> simp only [Traffic.allow, heq, cooldown, hs]
    · simpa using hreading
    · simp
    · simpa [cooldown] using hover (by simp [hs])
    · simpa using h.epoch
    · simp
    · simpa using h.probe (by simp [hs])
  · -- one more probe
    constructor <;> simp only [Traffic.allow, heq, cooldown, hs]
    · simpa using hreading
    · simp
    · simpa [cooldown] using hover (by simp [hs])
    · simpa using h.epoch
    · simp
    · simpa using h.probe (by simp [hs])
  · -- the first probe after the cooldown
    constructor <;> simp only [Traffic.allow, heq, cooldown]
    · simpa using hreading
    · simp
    · simpa [cooldown] using fun t ht => Int.le_trans (h.retryAt hs t ht) hretry
    · simpa using h.epoch
    · simp
    · simpa using fun a ha heq' => absurd heq' (Nat.ne_of_lt (h.stale hs a ha))

theorem CooldownInv.fail {s : Traffic} (h : CooldownInv s) (now : Int)
    (hclock : ∀ r ∈ s.lastReading, r ≤ now)
    (hfits : s.breaker.FailureOpens → now + s.cooldown ≤ timeMax) : CooldownInv (s.fail now) := by
  have hreading : ∀ t ∈ s.openings, t ≤ now := fun t ht => later_reading hclock (h.reading t ht)
  have hover : s.breaker.state ≠ .Open → ∀ t ∈ s.openings, t + s.cooldown ≤ now :=
    fun hs t ht => later_reading hclock (h.elapsed hs t ht)
  rcases s.breaker.recordFailure_cases now with
    ⟨hs, hopens, hopen, hretry⟩ | ⟨hs, heq⟩ | ⟨hs, hclosed⟩
  · -- the breaker opens at `now`, and the sum does not wrap below it
    have hend : now + s.cooldown ≤ (s.breaker.recordFailure now).retryAt := by
      rw [hretry]
      exact le_bmod_of_le_timeMax (hfits hopens)
    have hends : ∀ t ∈ s.openings, t + s.cooldown ≤ (s.breaker.recordFailure now).retryAt :=
      fun t ht => Int.le_trans (Int.add_le_add_right (hreading t ht) _) hend
    constructor <;> simp only [Traffic.fail, cooldown, hopen, CircuitBreaker.recordFailure_limits]
    · simpa [hs] using hreading
    · simpa [hs, cooldown] using And.intro hend hends
    · simp
    · simpa [hs] using fun a ha => Nat.le_succ_of_le (h.epoch a ha)
    · simpa [hs] using fun a ha => Nat.lt_succ_of_le (h.epoch a ha)
    · simpa [hs] using fun a ha heq => absurd heq (Nat.ne_of_lt (Nat.lt_succ_of_le (h.epoch a ha)))
  · -- a late failure, ignored while Open
    constructor <;> simp only [Traffic.fail, heq, cooldown, hs]
    · simpa using hreading
    · simpa [cooldown] using h.retryAt hs
    · simp
    · simpa using h.epoch
    · simpa using h.stale hs
    · simpa using h.probe (by simp [hs])
  · -- one more failure, below the threshold
    constructor <;>
      simp only [Traffic.fail, hclosed, cooldown, CircuitBreaker.recordFailure_limits, hs]
    · simpa using hreading
    · simp
    · simpa [cooldown] using hover (by simp [hs])
    · simpa using h.epoch
    · simp
    · simp

theorem CooldownInv.succeed {s : Traffic} (h : CooldownInv s) {i : Nat}
    (hi : i < s.outstanding.length)
    (hfresh : s.breaker.state ≠ .Closed → ∀ a ∈ s.outstanding[i]?, a.epoch = s.openings.length) :
    CooldownInv (s.succeed i) := by
  -- in Open every outstanding request is stale, so the success was recorded outside it
  have hopen : s.breaker.state ≠ .Open := by
    intro hs
    have hmem : s.outstanding[i] ∈ s.outstanding := List.getElem_mem hi
    have hepoch := hfresh (by simp [hs]) s.outstanding[i] (by simp [hi])
    have := h.stale hs _ hmem
    omega
  exact {
    reading := h.reading
    retryAt := fun hs => by simp [Traffic.succeed] at hs
    elapsed := fun _ => h.elapsed hopen
    epoch := fun a ha => h.epoch a (List.mem_of_mem_eraseIdx ha)
    stale := fun hs => by simp [Traffic.succeed] at hs
    probe := fun hs => absurd rfl hs }

theorem CooldownInv.abstain {s : Traffic} (h : CooldownInv s) (i : Nat) :
    CooldownInv (s.abstain i) := by
  have h' := h.retire i
  constructor <;> simp only [Traffic.abstain, cooldown, CircuitBreaker.recordNeutral_limits,
    CircuitBreaker.recordNeutral_state, CircuitBreaker.recordNeutral_retryAt]
  · exact h'.reading
  · exact h'.retryAt
  · exact h'.elapsed
  · exact h'.epoch
  · exact h'.stale
  · exact h'.probe

/-- A step that is in clock order, fits the clock and records no stale success keeps the
    invariant. -/
theorem cooldownInv_step {s s' : Traffic} {c : CircuitCall} (h : CooldownInv s)
    (hclock : ClockOrdered s c s') (hfits : CooldownFits s c s') (hfresh : FreshSuccess s c s')
    (hs : step s c = some s') : CooldownInv s' := by
  rcases step_cases hs with
    ⟨now, rfl, rfl⟩ | ⟨i, hi, rfl, rfl⟩ | ⟨i, now, hi, rfl, rfl⟩ | ⟨i, hi, rfl, rfl⟩
  · exact h.allow now (hclock now rfl)
  · exact h.succeed hi hfresh
  · exact (h.retire i).fail now (hclock now rfl) hfits
  · exact h.abstain i

/-- In the states of the invariant a call that is in clock order is refused for the cooldown
    of every opening. -/
theorem refusedInCooldown_of_inv {s s' : Traffic} {c : CircuitCall} (h : CooldownInv s)
    (hclock : ClockOrdered s c s') : RefusedInCooldown s c s' := by
  cases c with
  | success i | failure i now | neutral i => trivial
  | allow now =>
    intro t ht hlt
    -- Open refuses before `retryAt`; out of Open the cooldown of every opening is over
    by_cases hs : s.breaker.state = .Open
    · have hretry := h.retryAt hs t ht
      have hnow : now < s.breaker.retryAt := by omega
      simp [CircuitBreaker.allowRequest, hs, hnow]
    · have := later_reading (hclock now rfl) (h.elapsed hs t ht)
      omega

/-- Only a success takes the breaker from Open or HalfOpen to Closed. -/
theorem closed_by_success {s s' : Traffic} {c : CircuitCall} (hs : step s c = some s')
    (hstate : s.breaker.state ≠ .Closed) (hclosed : s'.breaker.state = .Closed) :
    ∃ i, i < s.outstanding.length ∧ c = .success i := by
  rcases step_cases hs with
    ⟨now, rfl, rfl⟩ | ⟨i, hi, rfl, rfl⟩ | ⟨i, now, hi, rfl, rfl⟩ | ⟨i, hi, rfl, rfl⟩
  · -- `allowRequest` goes to HalfOpen at most
    rcases s.breaker.allowRequest_cases now with
      ⟨hs, _, heq⟩ | ⟨hs, heq⟩ | ⟨hs, _, heq⟩ | ⟨hs, _, heq⟩ | ⟨hs, _, heq⟩ <;>
      simp [Traffic.allow, heq, hs] at hclosed hstate
  · exact ⟨i, hi, rfl⟩
  · rcases s.breaker.recordFailure_cases now with ⟨_, _, hopen, _⟩ | ⟨hs, heq⟩ | ⟨hs, _⟩
    · simp [Traffic.fail, Traffic.retire, hopen] at hclosed
    · simp [Traffic.fail, Traffic.retire, heq, hs] at hclosed
    · exact absurd hs hstate
  · simp only [Traffic.abstain, CircuitBreaker.recordNeutral_state] at hclosed
    exact absurd hclosed hstate

theorem closedByProbe_of_inv {s s' : Traffic} {c : CircuitCall} (h : CooldownInv s)
    (hfresh : FreshSuccess s c s') (hs : step s c = some s') : ClosedByProbe s c s' := by
  intro hstate hclosed
  obtain ⟨i, hi, rfl⟩ := closed_by_success hs hstate hclosed
  have hget : s.outstanding[i]? = some s.outstanding[i] := by simp [hi]
  have hepoch := hfresh hstate _ hget
  exact ⟨_, hget, h.probe hstate _ (List.getElem_mem hi) hepoch, hepoch⟩

/-- A stale success closes the breaker, and not as a probe's success. -/
theorem freshSuccess_of_closedByProbe {s s' : Traffic} {c : CircuitCall}
    (h : ClosedByProbe s c s') (hs : step s c = some s') : FreshSuccess s c s' := by
  rcases step_cases hs with
    ⟨now, rfl, rfl⟩ | ⟨i, hi, rfl, rfl⟩ | ⟨i, now, hi, rfl, rfl⟩ | ⟨i, hi, rfl, rfl⟩
  · trivial
  · intro hstate a ha
    -- the request that closes the breaker is the one that records the success
    obtain ⟨b, hb, _, hepoch⟩ := h hstate rfl
    obtain rfl : b = a := Option.mem_unique hb ha
    exact hepoch
  · trivial
  · trivial

/-- **Open-circuit cooldown.** In a run whose calls take the mutex in the order of their
    clock readings, in which every opening leaves its cooldown within the range of the clock,
    and in which no success of a request admitted before the latest opening is recorded while
    the breaker is Open or HalfOpen, every `allowRequest` inside a cooldown is refused and only
    a probe's success closes the breaker.  Conversely, a run in which only probes close the
    breaker has no stale success. -/
theorem cooldown_safe (l : { l : CircuitBreakerLimits // l.Accepted })
    (calls : List CircuitCall) :
    (Machine.EachStep step
        (fun s c s' => ClockOrdered s c s' ∧ CooldownFits s c s' ∧ FreshSuccess s c s') (init l)
        calls →
      Machine.EachStep step (fun s c s' => RefusedInCooldown s c s' ∧ ClosedByProbe s c s')
        (init l) calls) ∧
    (Machine.EachStep step ClosedByProbe (init l) calls →
      Machine.EachStep step FreshSuccess (init l) calls) := by
  constructor
  · refine Machine.eachStep_of_eachStep CooldownInv ?_ (cooldownInv_init l)
    intro s c s' h hok hs
    obtain ⟨hclock, hfits, hfresh⟩ := hok
    exact ⟨⟨refusedInCooldown_of_inv h hclock, closedByProbe_of_inv h hfresh hs⟩,
      cooldownInv_step h hclock hfits hfresh hs⟩
  · refine Machine.eachStep_of_eachStep (fun _ => True) ?_ trivial
    intro s c s' _ hok hs
    exact ⟨freshSuccess_of_closedByProbe hok hs, trivial⟩

/-- The theorem at a run of the default breaker that opens, refuses inside the cooldown,
    admits its probe and is closed by it. -/
theorem cooldown_safe_recovery :
    Machine.EachStep step (fun s c s' => RefusedInCooldown s c s' ∧ ClosedByProbe s c s')
      (init ⟨{}, by decide⟩)
      [.allow 0, .allow 0, .allow 0, .failure 0 0, .failure 0 0, .failure 0 0, .allow 1,
       .allow 5000000000, .success 0] :=
  (cooldown_safe ⟨{}, by decide⟩ _).1 (by decide)

/-- Three failures open the default breaker at time 0; the success of the fourth request,
    admitted before that, closes it, and the next request is let through at time 1. -/
theorem stale_success_closes :
    ¬ Machine.EachStep step RefusedInCooldown (init ⟨{}, by decide⟩)
        ([.allow 0, .allow 0, .allow 0, .allow 0, .failure 0 0, .failure 0 0, .failure 0 0,
          .success 0] ++ [.allow 1]) ∧
    ¬ Machine.EachStep step ClosedByProbe (init ⟨{}, by decide⟩)
        ([.allow 0, .allow 0, .allow 0, .allow 0, .failure 0 0, .failure 0 0, .failure 0 0] ++
          [.success 0]) := by
  constructor
  · intro h
    have hrefused := h.at_step rfl rfl 0 (by decide) (by decide)
    exact absurd hrefused (by decide)
  · intro h
    obtain ⟨a, ⟨⟩, hprobe, _⟩ := h.at_step rfl rfl (by decide) rfl
    exact absurd hprobe (by decide)

/-- A cooldown that is too long for the clock ends before it begins. -/
example : ¬ Machine.EachStep step RefusedInCooldown
    (init ⟨{ failureThreshold := 1, cooldown := 9223372036855 }, by decide⟩)
    ([.allow 0, .failure 0 0] ++ [.allow 1]) := by
  intro h
  have hrefused := h.at_step rfl rfl 0 (by decide) (by decide)
  exact absurd hrefused (by decide)

/-! ### The probe budget -/

/-- The call keeps `probesInFlight` a count of the outstanding probes: HalfOpen is entered
    only when no probe of an earlier episode is outstanding, and a neutral outcome recorded
    in HalfOpen is a probe's. -/
def CountsProbes (s : Traffic) (c : CircuitCall) (_ : Traffic) : Prop :=
  match c with
  | .allow now => s.breaker.state = .Open → s.breaker.retryAt ≤ now → s.probes = 0
  | .neutral i => s.breaker.state = .HalfOpen → ∀ a ∈ s.outstanding[i]?, a.probe = true
  | _ => True

instance : ∀ s c s', Decidable (CountsProbes s c s')
  | _, .allow _, _ => inferInstanceAs (Decidable (_ → _ → _ = _))
  | _, .neutral _, _ => inferInstanceAs (Decidable (_ → ∀ _ ∈ _, _ = _))
  | _, .success _, _ | _, .failure _ _, _ => isTrue trivial

/-- The budget: no more probes are outstanding than HalfOpen admits. -/
def WithinBudget (s : Traffic) : Prop := s.probes ≤ s.breaker.limits.halfOpenMaxProbes

instance (s : Traffic) : Decidable s.WithinBudget := inferInstanceAs (Decidable (_ ≤ _))

/-- In HalfOpen the breaker's counter is the number of outstanding probes. -/
structure ProbeInv (s : Traffic) : Prop where
  counted : s.breaker.state = .HalfOpen → s.breaker.probesInFlight = s.probes
  budget : s.WithinBudget

/-- A request that is done takes its own place out of the count. -/
theorem retire_probes {s : Traffic} {i : Nat} (hi : i < s.outstanding.length) :
    (s.retire i).probes + (if s.outstanding[i].probe then 1 else 0) = s.probes := by
  have hperm := List.getElem_cons_eraseIdx_perm hi
  have hcount := hperm.countP_eq (·.probe)
  rw [List.countP_cons] at hcount
  exact hcount

theorem retire_probes_le (s : Traffic) (i : Nat) : (s.retire i).probes ≤ s.probes :=
  (List.eraseIdx_sublist s.outstanding i).countP_le

theorem ProbeInv.allow {s : Traffic} (h : ProbeInv s) (now : Int)
    (hentry : s.breaker.state = .Open → s.breaker.retryAt ≤ now → s.probes = 0) :
    ProbeInv (s.allow now) := by
  have hbudget : s.probes ≤ s.breaker.limits.halfOpenMaxProbes := h.budget
  have hpos := s.breaker.accepted.2.2
  rcases s.breaker.allowRequest_cases now with
    ⟨hs, _, heq⟩ | ⟨hs, heq⟩ | ⟨hs, _, heq⟩ | ⟨hs, hroom, heq⟩ | ⟨hs, hretry, heq⟩
  · constructor
    · simp [Traffic.allow, heq, hs]
    · simpa [WithinBudget, Traffic.allow, probes, heq] using hbudget
  · constructor
    · simp [Traffic.allow, heq, hs]
    · simpa [WithinBudget, Traffic.allow, probes, heq, hs] using hbudget
  · constructor
    · simpa [Traffic.allow, probes, heq, hs] using h.counted hs
    · simpa [WithinBudget, Traffic.allow, probes, heq] using hbudget
  · -- the counter is the number of outstanding probes, and is below the budget
    have hcounted : s.breaker.probesInFlight = s.outstanding.countP (·.probe) := h.counted hs
    constructor
    · simp [Traffic.allow, probes, heq, hs, hcounted]
    · simp only [WithinBudget, Traffic.allow, probes, heq, hs]
      simp only [decide_true, if_true, List.countP_cons_of_pos]
      omega
  · -- HalfOpen is entered with a counter of one, for the probe that is admitted now
    have hnone : s.outstanding.countP (·.probe) = 0 := hentry hs hretry
    constructor
    · simp [Traffic.allow, probes, heq, hnone]
    · simp only [WithinBudget, Traffic.allow, probes, heq]
      simp only [decide_true, if_true, List.countP_cons_of_pos, hnone]
      omega

theorem ProbeInv.retire {s : Traffic} (h : ProbeInv s) (i : Nat) : (s.retire i).WithinBudget :=
  Nat.le_trans (retire_probes_le s i) h.budget

theorem ProbeInv.fail {s : Traffic} (h : ProbeInv s) (i : Nat) (now : Int) :
    ProbeInv ((s.retire i).fail now) := by
  constructor
  · -- a failure leaves HalfOpen for Open, so that nothing is counted afterwards
    intro hs
    rcases (s.retire i).breaker.recordFailure_cases now with
      ⟨_, _, hopen, _⟩ | ⟨hopen, heq⟩ | ⟨_, hclosed⟩
    · simp [Traffic.fail, hopen] at hs
    · simp [Traffic.fail, heq, hopen] at hs
    · simp [Traffic.fail, hclosed] at hs
  · simpa [WithinBudget, Traffic.fail, Traffic.retire, probes] using h.retire i

theorem ProbeInv.abstain {s : Traffic} (h : ProbeInv s) {i : Nat}
    (hi : i < s.outstanding.length)
    (hprobe : s.breaker.state = .HalfOpen → ∀ a ∈ s.outstanding[i]?, a.probe = true) :
    ProbeInv (s.abstain i) := by
  constructor
  · intro hs
    have hhalf : s.breaker.state = .HalfOpen := by simpa [Traffic.abstain] using hs
    -- the retired request is one of the probes the counter counts
    have hretire := retire_probes hi
    rw [if_pos (hprobe hhalf s.outstanding[i] (by simp [hi]))] at hretire
    have hcounted := h.counted hhalf
    have hpos : 0 < s.breaker.probesInFlight := by omega
    show s.breaker.recordNeutral.probesInFlight = (s.retire i).probes
    simp only [CircuitBreaker.recordNeutral, hhalf, hpos, and_self, if_true]
    omega
  · simpa [WithinBudget, Traffic.abstain, Traffic.retire, probes] using h.retire i

/-- A step that keeps the counter a count of probes keeps the invariant. -/
theorem probeInv_step {s s' : Traffic} {c : CircuitCall} (h : ProbeInv s)
    (hcount : CountsProbes s c s') (hs : step s c = some s') : ProbeInv s' := by
  rcases step_cases hs with
    ⟨now, rfl, rfl⟩ | ⟨i, hi, rfl, rfl⟩ | ⟨i, now, hi, rfl, rfl⟩ | ⟨i, hi, rfl, rfl⟩
  · exact h.allow now hcount
  · exact ⟨fun hs => by simp [succeed] at hs, h.retire i⟩
  · exact h.fail i now
  · exact h.abstain hi hcount

theorem probeInv_init (l : { l : CircuitBreakerLimits // l.Accepted }) : ProbeInv (init l) :=
  ⟨fun hs => by simp [init, CircuitBreaker.create] at hs, Nat.zero_le _⟩

/-- **Probe budget.** In every run in which HalfOpen is entered only when no probe of an
    earlier episode is outstanding, and only probes record a neutral outcome in HalfOpen, the
    outstanding probes stay within the budget. -/
theorem probe_budget (l : { l : CircuitBreakerLimits // l.Accepted })
    (calls : List CircuitCall) (hcount : Machine.EachStep step CountsProbes (init l) calls) :
    Machine.Always step WithinBudget (init l) calls := by
  refine Machine.always_of_eachStep ProbeInv (fun _ h => h.budget) ?_ (probeInv_init l) hcount
  intro s c s' h hok hs
  exact probeInv_step h hok hs

/-- The theorem at a run of the default breaker that opens, admits its one probe after the
    cooldown and closes by its success. -/
theorem probe_budget_recovery :
    Machine.Always step WithinBudget (init ⟨{}, by decide⟩)
      [.allow 0, .allow 0, .allow 0, .failure 0 0, .failure 0 0, .failure 0 0,
       .allow 5000000000, .allow 5000000000, .success 0] :=
  probe_budget ⟨{}, by decide⟩ _ (by decide)

/-- A neutral outcome of a request admitted while Closed frees the place of a probe that is
    still outstanding: two probes are outstanding where the budget is one. -/
theorem neutral_overdraws_budget :
    ¬ Machine.Always step WithinBudget (init ⟨{}, by decide⟩)
      [.allow 0, .allow 0, .allow 0, .allow 0, .failure 0 0, .failure 0 0, .failure 0 0,
       .allow 5000000000, .neutral 1, .allow 5000000000] := by
  intro h
  exact absurd (h.last _ rfl) (by decide)

end Traffic
end PulseGate
