import PulseGate.Http.CircuitTraffic

namespace PulseGate

/-!
# Streaks of failures

What opens the breaker, and what it needs to let a request through again.

* `streak` — the failures recorded in Closed since the last success, or since Closed was entered;
* `Watched.Sound` — in Closed the counter is the streak, and it is below the threshold; in Open
  both counters are zero; in HalfOpen no more probes are counted than requests are outstanding;
* `never_wedged` — every run is sound, and Closed turns Open exactly when the streak reaches the
  threshold.
-/

/-- A call is a failure. -/
def CircuitCall.isFailure : CircuitCall → Bool
  | .failure _ _ => true
  | _ => false

/-- A call in this state goes on with the streak. -/
def goesOnWith : CircuitState × CircuitCall → Bool
  | (.Closed, .success _) => false
  | (.Closed, _) => true
  | _ => false

/-- The failures of the latest calls in Closed, without a success among them; the latest call
    first. -/
def streak (calls : List (CircuitState × CircuitCall)) : Nat :=
  (calls.takeWhile goesOnWith).countP fun call => call.2.isFailure

/-- A traffic and its calls, each with the state the breaker was in, the latest first. -/
structure Watched where
  traffic : Traffic
  calls : List (CircuitState × CircuitCall) := []

namespace Watched

def init (l : { l : CircuitBreakerLimits // l.Accepted }) : Watched := { traffic := .init l }

def breaker (w : Watched) : CircuitBreaker := w.traffic.breaker

def step (w : Watched) (c : CircuitCall) : Option Watched :=
  (w.traffic.step c).map fun t => { traffic := t, calls := (w.breaker.state, c) :: w.calls }

/-- What is known of the counters, and that the breaker is not wedged. -/
structure Sound (w : Watched) : Prop where
  closed : w.breaker.state = .Closed →
    w.breaker.consecutiveFailures < w.breaker.limits.failureThreshold ∧
      w.breaker.consecutiveFailures = streak w.calls
  opened : w.breaker.state = .Open →
    w.breaker.consecutiveFailures = 0 ∧ w.breaker.probesInFlight = 0
  probes : w.breaker.state = .HalfOpen →
    w.breaker.probesInFlight ≤ w.breaker.limits.halfOpenMaxProbes ∧
      w.breaker.probesInFlight ≤ w.traffic.outstanding.length
  admits : w.traffic.outstanding = [] → ∀ now, w.breaker.retryAt ≤ now →
    (w.breaker.allowRequest now).1 = true

/-- Closed turns Open exactly when the streak reaches the threshold. -/
def OpensAtThreshold (w : Watched) (_ : CircuitCall) (w' : Watched) : Prop :=
  w.breaker.state = .Closed →
    (w'.breaker.state = .Open ↔ streak w'.calls = w'.breaker.limits.failureThreshold)

/-! ### The streak -/

theorem streak_cons_allow (now : Int) (calls : List (CircuitState × CircuitCall)) :
    streak ((.Closed, .allow now) :: calls) = streak calls := rfl

theorem streak_cons_success (s : CircuitState) (i : Nat)
    (calls : List (CircuitState × CircuitCall)) : streak ((s, .success i) :: calls) = 0 := by
  cases s <;> rfl

theorem streak_cons_failure (i : Nat) (now : Int) (calls : List (CircuitState × CircuitCall)) :
    streak ((.Closed, .failure i now) :: calls) = streak calls + 1 := by
  show List.countP _ ((.Closed, .failure i now) :: calls.takeWhile goesOnWith) = _
  exact List.countP_cons_of_pos rfl

/-! ### One step -/

variable {w w' : Watched} {c : CircuitCall}

/-- With no request outstanding there is nothing to wait for but the cooldown. -/
theorem admits_of_probes (hprobes : w.breaker.state = .HalfOpen →
    w.breaker.probesInFlight ≤ w.traffic.outstanding.length) (hnone : w.traffic.outstanding = [])
    (now : Int) (hnow : w.breaker.retryAt ≤ now) : (w.breaker.allowRequest now).1 = true := by
  have hpositive := w.breaker.accepted.2.2
  rcases w.breaker.allowRequest_cases now with
    ⟨-, hlt, -⟩ | ⟨-, heq⟩ | ⟨hs, hfull, -⟩ | ⟨-, -, heq⟩ | ⟨-, -, heq⟩
  · omega
  · rw [heq]
  · -- a spent budget needs an outstanding request
    have hcount := hprobes hs
    rw [hnone, List.length_nil] at hcount
    omega
  · rw [heq]
  · rw [heq]

/-- A failure in Closed is counted, or opens the breaker. -/
theorem recordFailure_closed {b : CircuitBreaker} (hs : b.state = .Closed) (now : Int) :
    (b.limits.failureThreshold ≤ b.consecutiveFailures + 1 ∧ b.recordFailure now =
      ({ b with consecutiveFailures := b.consecutiveFailures + 1 } : CircuitBreaker).openAt now) ∨
    (b.consecutiveFailures + 1 < b.limits.failureThreshold ∧ b.recordFailure now =
      { b with consecutiveFailures := b.consecutiveFailures + 1 }) := by
  by_cases hfull : b.limits.failureThreshold ≤ b.consecutiveFailures + 1
  · exact .inl ⟨hfull, by simp [CircuitBreaker.recordFailure, hs, hfull]⟩
  · exact .inr ⟨by omega, by simp [CircuitBreaker.recordFailure, hs, hfull]⟩

section States

variable {t : Traffic} {b : CircuitBreaker} {calls : List (CircuitState × CircuitCall)}

theorem sound_of_open (hb : t.breaker = b) (hs : b.state = .Open)
    (hfailures : b.consecutiveFailures = 0) (hprobes : b.probesInFlight = 0) :
    Sound { traffic := t, calls := calls } := by
  subst hb
  have hhalf : t.breaker.state ≠ .HalfOpen := by
    rw [hs]
    exact nofun
  constructor
  · intro h
    exact CircuitState.noConfusion (h.symm.trans hs)
  · intro _
    exact ⟨hfailures, hprobes⟩
  · intro h
    exact absurd h hhalf
  · exact admits_of_probes fun h => absurd h hhalf

theorem sound_of_closed (hb : t.breaker = b) (hs : b.state = .Closed)
    (hlt : b.consecutiveFailures < b.limits.failureThreshold)
    (hstreak : b.consecutiveFailures = streak calls) : Sound { traffic := t, calls := calls } := by
  subst hb
  have hhalf : t.breaker.state ≠ .HalfOpen := by
    rw [hs]
    exact nofun
  constructor
  · intro _
    exact ⟨hlt, hstreak⟩
  · intro h
    exact CircuitState.noConfusion (h.symm.trans hs)
  · intro h
    exact absurd h hhalf
  · exact admits_of_probes fun h => absurd h hhalf

theorem sound_of_halfOpen (hb : t.breaker = b) (hs : b.state = .HalfOpen)
    (hbudget : b.probesInFlight ≤ b.limits.halfOpenMaxProbes)
    (hprobes : b.probesInFlight ≤ t.outstanding.length) :
    Sound { traffic := t, calls := calls } := by
  subst hb
  constructor
  · intro h
    exact CircuitState.noConfusion (h.symm.trans hs)
  · intro h
    exact CircuitState.noConfusion (h.symm.trans hs)
  · intro _
    exact ⟨hbudget, hprobes⟩
  · exact admits_of_probes fun _ => hprobes

end States

theorem sound_allow (h : w.Sound) (now : Int) :
    Sound { traffic := w.traffic.allow now,
            calls := (w.breaker.state, .allow now) :: w.calls } := by
  have hpositive := w.breaker.accepted.2.2
  -- what the call returns is where the breaker of the traffic goes
  have hbreaker {allowed : Bool} {b : CircuitBreaker}
      (heq : w.breaker.allowRequest now = (allowed, b)) :
      (w.traffic.allow now).breaker = b := congrArg Prod.snd heq
  have hadmitted {b : CircuitBreaker} (heq : w.breaker.allowRequest now = (true, b)) :
      (w.traffic.allow now).outstanding.length = w.traffic.outstanding.length + 1 := by
    show (if (w.breaker.allowRequest now).1 = true then _ else _ : List Admission).length = _
    rw [heq]
    rfl
  have hrefused {b : CircuitBreaker} (heq : w.breaker.allowRequest now = (false, b)) :
      (w.traffic.allow now).outstanding = w.traffic.outstanding := by
    show (if (w.breaker.allowRequest now).1 = true then _ else _) = _
    rw [heq]
    rfl
  rcases w.breaker.allowRequest_cases now with
    ⟨hs, -, heq⟩ | ⟨hs, heq⟩ | ⟨hs, -, heq⟩ | ⟨hs, hroom, heq⟩ | ⟨hs, -, heq⟩
  · obtain ⟨hfailures, hprobes⟩ := h.opened hs
    exact sound_of_open (hbreaker heq) hs hfailures hprobes
  · obtain ⟨hlt, hstreak⟩ := h.closed hs
    apply sound_of_closed (hbreaker heq) hs hlt
    rw [hs, streak_cons_allow]
    exact hstreak
  · obtain ⟨hbudget, hprobes⟩ := h.probes hs
    apply sound_of_halfOpen (hbreaker heq) hs hbudget
    rw [hrefused heq]
    exact hprobes
  · -- one more probe, and one more request
    obtain ⟨-, hprobes⟩ := h.probes hs
    apply sound_of_halfOpen (hbreaker heq) hs
    · exact hroom
    · rw [hadmitted heq]
      exact Nat.succ_le_succ hprobes
  · -- the first probe after the cooldown
    apply sound_of_halfOpen (hbreaker heq) rfl
    · exact Nat.pos_of_ne_zero hpositive
    · rw [hadmitted heq]
      exact Nat.le_add_left _ _

theorem sound_fail (h : w.Sound) (i : Nat) (now : Int) :
    Sound { traffic := (w.traffic.retire i).fail now,
            calls := (w.breaker.state, .failure i now) :: w.calls } := by
  have hbreaker {b : CircuitBreaker} (heq : w.breaker.recordFailure now = b) :
      ((w.traffic.retire i).fail now).breaker = b := heq
  cases hs : w.breaker.state with
  | Closed =>
    obtain ⟨hlt, hstreak⟩ := h.closed hs
    rcases recordFailure_closed hs now with ⟨-, heq⟩ | ⟨hless, heq⟩
    · exact sound_of_open (hbreaker heq) rfl rfl rfl
    · apply sound_of_closed (hbreaker heq) hs hless
      rw [streak_cons_failure, ← hstreak]
  | Open =>
    -- a late failure
    obtain ⟨hfailures, hprobes⟩ := h.opened hs
    have heq : w.breaker.recordFailure now = w.breaker := by simp [CircuitBreaker.recordFailure, hs]
    exact sound_of_open (hbreaker heq) hs hfailures hprobes
  | HalfOpen =>
    have heq : w.breaker.recordFailure now = w.breaker.openAt now := by
      simp [CircuitBreaker.recordFailure, hs]
    exact sound_of_open (hbreaker heq) rfl rfl rfl

theorem sound_abstain (h : w.Sound) {i : Nat} (hi : i < w.traffic.outstanding.length) :
    Sound { traffic := w.traffic.abstain i,
            calls := (w.breaker.state, .neutral i) :: w.calls } := by
  have hretired : (w.traffic.abstain i).outstanding.length + 1 = w.traffic.outstanding.length := by
    show (w.traffic.outstanding.eraseIdx i).length + 1 = _
    rw [List.length_eraseIdx_of_lt hi]
    omega
  have hbreaker {b : CircuitBreaker} (heq : w.breaker.recordNeutral = b) :
      (w.traffic.abstain i).breaker = b := heq
  -- outside of HalfOpen nothing is recorded
  have hkept (hs : w.breaker.state ≠ .HalfOpen) : w.breaker.recordNeutral = w.breaker := by
    simp [CircuitBreaker.recordNeutral, hs]
  cases hs : w.breaker.state with
  | Closed =>
    obtain ⟨hlt, hstreak⟩ := h.closed hs
    exact sound_of_closed (hbreaker (hkept (by rw [hs]; rintro ⟨⟩))) hs hlt hstreak
  | Open =>
    obtain ⟨hfailures, hprobes⟩ := h.opened hs
    exact sound_of_open (hbreaker (hkept (by rw [hs]; rintro ⟨⟩))) hs hfailures hprobes
  | HalfOpen =>
    obtain ⟨hbudget, hprobes⟩ := h.probes hs
    by_cases hnone : w.breaker.probesInFlight = 0
    · have heq : w.breaker.recordNeutral = w.breaker := by
        simp [CircuitBreaker.recordNeutral, hnone]
      apply sound_of_halfOpen (hbreaker heq) hs hbudget
      omega
    · -- the request frees the place of a probe, whether it was one or not
      have heq : w.breaker.recordNeutral =
          { w.breaker with probesInFlight := w.breaker.probesInFlight - 1 } := by
        simp [CircuitBreaker.recordNeutral, hs, Nat.pos_of_ne_zero hnone]
      apply sound_of_halfOpen (hbreaker heq) hs
      · show w.breaker.probesInFlight - 1 ≤ w.breaker.limits.halfOpenMaxProbes
        omega
      · show w.breaker.probesInFlight - 1 ≤ _
        omega

theorem step_eq_some (hs : w.step c = some w') :
    ∃ t, w.traffic.step c = some t ∧
      w' = { traffic := t, calls := (w.breaker.state, c) :: w.calls } := by
  obtain ⟨t, ht, heq⟩ := Option.map_eq_some_iff.mp hs
  exact ⟨t, ht, heq.symm⟩

/-- **Every call keeps the breaker sound.** -/
theorem sound_step (h : w.Sound) (hs : w.step c = some w') : w'.Sound := by
  obtain ⟨t, ht, rfl⟩ := step_eq_some hs
  rcases Traffic.step_cases ht with
    ⟨now, rfl, rfl⟩ | ⟨i, hi, rfl, rfl⟩ | ⟨i, now, hi, rfl, rfl⟩ | ⟨i, hi, rfl, rfl⟩
  · exact sound_allow h now
  · apply sound_of_closed rfl rfl
    · exact Nat.pos_of_ne_zero w.breaker.accepted.1
    · exact (streak_cons_success _ _ _).symm
  · exact sound_fail h i now
  · exact sound_abstain h hi

/-- Only a failure opens the breaker. -/
theorem opensAtThreshold_step (h : w.Sound) (hs : w.step c = some w') :
    OpensAtThreshold w c w' := by
  intro hclosed
  obtain ⟨hlt, hstreak⟩ := h.closed hclosed
  have hsound := sound_step h hs
  -- a state that is still Closed has a streak below the threshold
  have hstays (hstate : w'.breaker.state = .Closed) :
      w'.breaker.state = .Open ↔ streak w'.calls = w'.breaker.limits.failureThreshold := by
    obtain ⟨hless, heq⟩ := hsound.closed hstate
    apply iff_of_false
    · rw [hstate]
      exact nofun
    · omega
  obtain ⟨t, ht, rfl⟩ := step_eq_some hs
  rcases Traffic.step_cases ht with
    ⟨now, rfl, rfl⟩ | ⟨i, hi, rfl, rfl⟩ | ⟨i, now, hi, rfl, rfl⟩ | ⟨i, hi, rfl, rfl⟩
  · apply hstays
    have heq : w.breaker.allowRequest now = (true, w.breaker) := by
      simp [CircuitBreaker.allowRequest, CircuitBreaker.allowNow, hclosed]
    have hbreaker : (w.traffic.allow now).breaker = w.breaker := congrArg Prod.snd heq
    exact (congrArg CircuitBreaker.state hbreaker).trans hclosed
  · exact hstays rfl
  · rcases recordFailure_closed hclosed now with ⟨hfull, heq⟩ | ⟨hless, heq⟩
    · have hbreaker : ((w.traffic.retire i).fail now).breaker = _ := heq
      apply iff_of_true
      · exact congrArg CircuitBreaker.state hbreaker
      · show streak ((w.breaker.state, _) :: w.calls) =
          ((w.traffic.retire i).fail now).breaker.limits.failureThreshold
        rw [hbreaker, hclosed, streak_cons_failure, ← hstreak]
        show _ = w.breaker.limits.failureThreshold
        omega
    · apply hstays
      have hbreaker : ((w.traffic.retire i).fail now).breaker = _ := heq
      exact (congrArg CircuitBreaker.state hbreaker).trans hclosed
  · apply hstays
    exact (CircuitBreaker.recordNeutral_state _).trans hclosed

/-! ### Whole runs -/

theorem sound_init (l : { l : CircuitBreakerLimits // l.Accepted }) : (init l).Sound :=
  sound_of_closed rfl rfl (Nat.pos_of_ne_zero l.2.1) rfl

/-- **The breaker is never wedged.** In every state of every run the counters are sound, and with
    no request outstanding a request is admitted once the cooldown is over; and the breaker goes
    from Closed to Open exactly when the streak of failures reaches the threshold. -/
theorem never_wedged (l : { l : CircuitBreakerLimits // l.Accepted }) (calls : List CircuitCall) :
    Machine.Always step Sound (init l) calls ∧
      Machine.EachStep step OpensAtThreshold (init l) calls := by
  constructor
  · exact Machine.always_of_invariant Sound (fun _ h => h) (fun _ _ _ => sound_step) calls
      (sound_init l)
  · apply Machine.eachStep_of_invariant Sound ?_ calls (sound_init l)
    intro w c w' h hs
    exact ⟨opensAtThreshold_step h hs, sound_step h hs⟩

end Watched
end PulseGate
