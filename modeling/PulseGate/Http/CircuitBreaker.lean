import PulseGate.Cpp

namespace PulseGate

/-!
# The circuit breaker of one upstream endpoint

The class of `circuit_breaker.cpp`.  Its mutex makes every call one atomic step, a function
on `CircuitBreaker` here.  Time points are integers in nanoseconds of the steady clock; the
constructor accepts every positive cooldown, and the sum of a time point and the cooldown is
one of 64 bits.
-/

inductive CircuitState
  | Closed
  | Open
  | HalfOpen
  deriving DecidableEq, Repr

structure CircuitBreakerLimits where
  failureThreshold : Nat := 3
  /-- The cooldown in milliseconds. -/
  cooldown : Int := 5000
  halfOpenMaxProbes : Nat := 1
  deriving DecidableEq, Repr

/-- The limits the constructor of `CircuitBreaker` accepts. -/
def CircuitBreakerLimits.Accepted (l : CircuitBreakerLimits) : Prop :=
  l.failureThreshold ≠ 0 ∧ 0 < l.cooldown ∧ l.halfOpenMaxProbes ≠ 0

instance CircuitBreakerLimits.decidableAccepted (l : CircuitBreakerLimits) : Decidable l.Accepted :=
  inferInstanceAs (Decidable (_ ∧ _ ∧ _))

/-- A circuit breaker; one exists only with limits its constructor accepts. -/
structure CircuitBreaker where
  limits : CircuitBreakerLimits
  accepted : limits.Accepted
  state : CircuitState := .Closed
  consecutiveFailures : Nat := 0
  probesInFlight : Nat := 0
  retryAt : Int := 0

namespace CircuitBreaker

/-- The constructor, for limits it does not throw on. -/
def create (l : { l : CircuitBreakerLimits // l.Accepted }) : CircuitBreaker :=
  { limits := l.1, accepted := l.2 }

/-- `CircuitBreaker::open`. -/
def openAt (b : CircuitBreaker) (now : Int) : CircuitBreaker :=
  { b with state := .Open, consecutiveFailures := 0, probesInFlight := 0,
           retryAt := (now + milliseconds b.limits.cooldown).bmod (2 ^ 64) }

/-- The half-open budget check of `allowRequest`, reached once the cooldown is over. -/
def allowNow (b : CircuitBreaker) : Bool × CircuitBreaker :=
  if b.state = .HalfOpen then
    if b.limits.halfOpenMaxProbes ≤ b.probesInFlight then (false, b)
    else (true, { b with probesInFlight := b.probesInFlight + 1 })
  else (true, b)

/-- `CircuitBreaker::allowRequest`. -/
def allowRequest (b : CircuitBreaker) (now : Int) : Bool × CircuitBreaker :=
  if b.state = .Open then
    if now < b.retryAt then (false, b)
    else ({ b with state := .HalfOpen, probesInFlight := 0 } : CircuitBreaker).allowNow
  else b.allowNow

/-- `CircuitBreaker::recordSuccess`. -/
def recordSuccess (b : CircuitBreaker) : CircuitBreaker :=
  { b with consecutiveFailures := 0, probesInFlight := 0, state := .Closed, retryAt := 0 }

/-- `CircuitBreaker::recordFailure`. -/
def recordFailure (b : CircuitBreaker) (now : Int) : CircuitBreaker :=
  match b.state with
  | .HalfOpen => b.openAt now
  -- a late failure of a request admitted earlier
  | .Open => b
  | .Closed =>
    let counted := { b with consecutiveFailures := b.consecutiveFailures + 1 }
    if counted.limits.failureThreshold ≤ counted.consecutiveFailures then counted.openAt now
    else counted

/-- `CircuitBreaker::recordNeutral`. -/
def recordNeutral (b : CircuitBreaker) : CircuitBreaker :=
  if b.state = .HalfOpen ∧ 0 < b.probesInFlight then
    { b with probesInFlight := b.probesInFlight - 1 }
  else b

/-! ### What the calls do, one lemma per call -/

/-- `allowRequest` refuses and changes nothing, admits in Closed, or admits a probe in
    HalfOpen, which it enters from Open once the cooldown is over. -/
theorem allowRequest_cases (b : CircuitBreaker) (now : Int) :
    (b.state = .Open ∧ now < b.retryAt ∧ b.allowRequest now = (false, b)) ∨
    (b.state = .Closed ∧ b.allowRequest now = (true, b)) ∨
    (b.state = .HalfOpen ∧ b.limits.halfOpenMaxProbes ≤ b.probesInFlight ∧
      b.allowRequest now = (false, b)) ∨
    (b.state = .HalfOpen ∧ b.probesInFlight < b.limits.halfOpenMaxProbes ∧
      b.allowRequest now = (true, { b with probesInFlight := b.probesInFlight + 1 })) ∨
    (b.state = .Open ∧ b.retryAt ≤ now ∧
      b.allowRequest now = (true, { b with state := .HalfOpen, probesInFlight := 1 })) := by
  -- the first probe is always within the budget
  have hmax : ¬ b.limits.halfOpenMaxProbes ≤ 0 := by
    have := b.accepted.2.2
    omega
  cases hs : b.state with
  | Closed => right; left; simp [allowRequest, allowNow, hs]
  | Open =>
    by_cases hnow : now < b.retryAt
    · left; simp [allowRequest, hs, hnow]
    · right; right; right; right
      have hle : b.retryAt ≤ now := by omega
      simp [allowRequest, allowNow, hs, hnow, hle, hmax]
  | HalfOpen =>
    by_cases hfull : b.limits.halfOpenMaxProbes ≤ b.probesInFlight
    · right; right; left; simp [allowRequest, allowNow, hs, hfull]
    · right; right; right; left
      have hlt : b.probesInFlight < b.limits.halfOpenMaxProbes := by omega
      simp [allowRequest, allowNow, hs, hfull, hlt]

@[simp] theorem allowRequest_limits (b : CircuitBreaker) (now : Int) :
    (b.allowRequest now).2.limits = b.limits := by
  rcases b.allowRequest_cases now with h | h | h | h | h <;> simp [h]

@[simp] theorem openAt_limits (b : CircuitBreaker) (now : Int) :
    (b.openAt now).limits = b.limits := rfl

@[simp] theorem openAt_state (b : CircuitBreaker) (now : Int) : (b.openAt now).state = .Open := rfl

@[simp] theorem openAt_retryAt (b : CircuitBreaker) (now : Int) :
    (b.openAt now).retryAt = (now + milliseconds b.limits.cooldown).bmod (2 ^ 64) := rfl

@[simp] theorem recordSuccess_limits (b : CircuitBreaker) : b.recordSuccess.limits = b.limits := rfl

@[simp] theorem recordSuccess_state (b : CircuitBreaker) : b.recordSuccess.state = .Closed := rfl

/-- A failure that is recorded now opens the breaker. -/
def FailureOpens (b : CircuitBreaker) : Prop :=
  b.state = .HalfOpen ∨
    (b.state = .Closed ∧ b.limits.failureThreshold ≤ b.consecutiveFailures + 1)

instance (b : CircuitBreaker) : Decidable b.FailureOpens :=
  inferInstanceAs (Decidable (_ ∨ (_ ∧ _)))

/-- `recordFailure` opens the breaker, or leaves it in the Open or Closed state it was in. -/
theorem recordFailure_cases (b : CircuitBreaker) (now : Int) :
    (b.state ≠ .Open ∧ b.FailureOpens ∧ (b.recordFailure now).state = .Open ∧
      (b.recordFailure now).retryAt =
        (now + milliseconds b.limits.cooldown).bmod (2 ^ 64)) ∨
    (b.state = .Open ∧ b.recordFailure now = b) ∨
    (b.state = .Closed ∧ (b.recordFailure now).state = .Closed) := by
  cases hs : b.state with
  | HalfOpen => left; simp [recordFailure, FailureOpens, hs]
  | Open => right; left; simp [recordFailure, hs]
  | Closed =>
    -- whether this failure reaches the threshold
    by_cases hfull : b.limits.failureThreshold ≤ b.consecutiveFailures + 1
    · left; simp [recordFailure, FailureOpens, hs, hfull, openAt]
    · right; right; simp [recordFailure, hs, hfull]

@[simp] theorem recordFailure_limits (b : CircuitBreaker) (now : Int) :
    (b.recordFailure now).limits = b.limits := by
  cases hs : b.state with
  | HalfOpen => simp [recordFailure, hs]
  | Open => simp [recordFailure, hs]
  | Closed =>
    by_cases hfull : b.limits.failureThreshold ≤ b.consecutiveFailures + 1 <;>
      simp [recordFailure, hs, hfull]

@[simp] theorem recordNeutral_limits (b : CircuitBreaker) : b.recordNeutral.limits = b.limits := by
  unfold recordNeutral
  split <;> rfl

@[simp] theorem recordNeutral_state (b : CircuitBreaker) : b.recordNeutral.state = b.state := by
  unfold recordNeutral
  split <;> rfl

@[simp] theorem recordNeutral_retryAt (b : CircuitBreaker) :
    b.recordNeutral.retryAt = b.retryAt := by
  unfold recordNeutral
  split <;> rfl

end CircuitBreaker
end PulseGate
