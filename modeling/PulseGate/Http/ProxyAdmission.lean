import PulseGate.Lib.BoundedCounter
import PulseGate.Lib.Machine
import PulseGate.Http.ReverseProxy

namespace PulseGate

/-!
# Admission to the proxy

Any number of calls of `ReverseProxy::operator()` at a time.  A call is counted in `in_flight`
by a loop of weak compare-exchanges, or is answered `Overloaded`; a call that was counted has an
`InFlightRelease` on its frame, which counts it out however the frame ends.  In between it is an
`Exchange`, whose steps are taken in any order with those of the other calls.

* `admission_accounted` — `in_flight` is the number of the calls that are counted, and who is
  not counted has seen the maximum.
-/

/-- Where a call is with `in_flight`. -/
inductive CallPoint
  | attempting (attempt : BoundedCounter.Attempt)
  /-- Counted; the destructor of `InFlightRelease` has not run. -/
  | admitted
  | rejected
  | released
  deriving DecidableEq, Repr

structure ProxyCall where
  exchange : Exchange
  point : CallPoint := .attempting .loading

/-- A proxy in use, with all calls there were. -/
structure ProxyInFlight where
  proxy : ReverseProxy
  inFlight : Nat := 0
  calls : List ProxyCall := []

namespace ProxyInFlight

inductive Event
  | call (requestId : Nat) (peer : Option Bytes) (request : HttpRequest) (cache : RouteCache)
  | access (i : Nat) (a : BoundedCounter.Access)
  /-- The call goes on, or its caller goes on with the response. -/
  | run (i : Nat) (event : ExchangeEvent)
  /-- The frame of the call ends: after a return or an exception, or it is destroyed. -/
  | release (i : Nat)
  deriving DecidableEq, Repr

/-- The handler has returned, or has thrown. -/
def returned (e : Exchange) : Bool :=
  match e.stage with
  | .handled _ | .responding | .finished => true
  | _ => false

def setCall (s : ProxyInFlight) (i : Nat) (call : ProxyCall) (inFlight : Nat) : ProxyInFlight :=
  { s with calls := s.calls.set i call, inFlight := inFlight }

/-- The access of a call to the counter; what it has seen last decides. -/
def accessed (s : ProxyInFlight) (i : Nat) (call : ProxyCall) (inFlight : Nat) :
    BoundedCounter.Attempt → ProxyInFlight
  | .counted => s.setCall i ⟨call.exchange.enterFlight s.inFlight, .admitted⟩ inFlight
  | .full => s.setCall i ⟨call.exchange.enterFlight s.inFlight, .rejected⟩ inFlight
  | attempt => s.setCall i ⟨call.exchange, .attempting attempt⟩ inFlight

/-- The call is inside the operator, or was left by it. -/
def mayRun (call : ProxyCall) : Bool :=
  match call.point with
  | .attempting _ => false
  | .admitted => !returned call.exchange
  | .rejected | .released => returned call.exchange

def step (s : ProxyInFlight) : Event → Option ProxyInFlight
  | .call requestId peer request cache =>
    some { s with
      calls := s.calls ++
        [{ exchange := Exchange.init s.proxy requestId peer request cache }] }
  | .access i a =>
    s.calls[i]?.bind fun call =>
      match call.point with
      | .attempting attempt =>
        -- one load or one compare-exchange of the loop
        (BoundedCounter.access s.proxy.limits.maxInFlightRequests s.inFlight attempt a).map
          fun (inFlight, attempt') => s.accessed i call inFlight attempt'
      | _ => none
  | .run i event =>
    s.calls[i]?.bind fun call =>
      if mayRun call then
        (call.exchange.step event).map fun exchange =>
          s.setCall i { call with exchange := exchange } s.inFlight
      else none
  | .release i =>
    s.calls[i]?.bind fun call =>
      match call.point with
      | .admitted =>
        -- `InFlightRelease` gives the place back at the end of the coroutine
        some (s.setCall i { call with point := .released }
          (BoundedCounter.fetchSub sizeModulus s.inFlight))
      | _ => none

/-! ### The accounts -/

/-- The call was admitted and has not been counted out. -/
def counted (call : ProxyCall) : Bool :=
  match call.point with
  | .admitted => true
  | _ => false

/-- The calls that were admitted and are unfinished. -/
def admittedCalls (s : ProxyInFlight) : Nat := s.calls.countP counted

structure Accounted (s : ProxyInFlight) : Prop where
  count : s.inFlight = s.admittedCalls
  capacity : s.inFlight ≤ s.proxy.limits.maxInFlightRequests

/-- What is subtracted from the counter was counted. -/
def NoUnderflow (s : ProxyInFlight) (e : Event) (_ : ProxyInFlight) : Prop :=
  match e with
  | .release _ => s.inFlight ≠ 0
  | _ => True

/-- A call that attempts to be admitted goes on, or is admitted to the selection of an endpoint,
    or is answered `Overloaded` when the counter is at its maximum. -/
def Answers (s : ProxyInFlight) (_ : Event) (s' : ProxyInFlight) : Prop :=
  ∀ (i : Nat) (call : ProxyCall) (attempt : BoundedCounter.Attempt), s.calls[i]? = some call →
    call.point = .attempting attempt → ∃ call', s'.calls[i]? = some call' ∧
      ((call'.exchange = call.exchange ∧ ∃ attempt', call'.point = .attempting attempt') ∨
        (call'.exchange.stage = .selecting 0 false 0 ∧ call'.point = .admitted) ∨
        (call'.exchange = call.exchange.overloaded ∧ call'.point = .rejected ∧
          s.inFlight = s.proxy.limits.maxInFlightRequests))

/-- What holds between two steps. -/
structure Inv (proxy : ReverseProxy) (s : ProxyInFlight) : Prop where
  same : s.proxy = proxy
  accounted : s.Accounted
  valid : ∀ call ∈ s.calls, ∀ attempt, call.point = .attempting attempt →
    attempt.Valid proxy.limits.maxInFlightRequests ∧ call.exchange.proxy = proxy

variable {proxy : ReverseProxy} {s s' : ProxyInFlight} {i : Nat} {call next : ProxyCall}
  {inFlight : Nat}

/-- A call goes on, and counts as it is counted. -/
theorem Inv.sets (h : s.Inv proxy) (hcall : s.calls[i]? = some call)
    (hcount : inFlight + (counted call).toNat = s.inFlight + (counted next).toNat)
    (hcapacity : inFlight ≤ proxy.limits.maxInFlightRequests)
    (hvalid : ∀ attempt, next.point = .attempting attempt →
      attempt.Valid proxy.limits.maxInFlightRequests ∧ next.exchange.proxy = proxy) :
    (s.setCall i next inFlight).Inv proxy := by
  refine ⟨h.same, ⟨?_, ?_⟩, ?_⟩
  · have hadmitted := BoundedCounter.countP_set counted hcall next
    have hold := h.accounted.count
    unfold admittedCalls at hold
    show inFlight = (s.calls.set i next).countP counted
    omega
  · show inFlight ≤ s.proxy.limits.maxInFlightRequests
    rw [h.same]
    exact hcapacity
  · intro other hother
    rcases List.mem_or_eq_of_mem_set hother with hother | rfl
    · exact h.valid other hother
    · exact hvalid

/-- The other calls go on attempting. -/
theorem answers_setCall (hcall : s.calls[i]? = some call) (e : Event)
    (hown : ∀ attempt, call.point = .attempting attempt →
      (next.exchange = call.exchange ∧ ∃ attempt', next.point = .attempting attempt') ∨
        (next.exchange.stage = .selecting 0 false 0 ∧ next.point = .admitted) ∨
        (next.exchange = call.exchange.overloaded ∧ next.point = .rejected ∧
          s.inFlight = s.proxy.limits.maxInFlightRequests)) :
    s.Answers e (s.setCall i next inFlight) := by
  intro j other attempt hother hpoint
  by_cases hij : i = j
  · subst hij
    have hlt := (List.getElem?_eq_some_iff.mp hcall).1
    obtain rfl : call = other := Option.some.inj (hcall.symm.trans hother)
    exact ⟨next, List.getElem?_set_self hlt, hown attempt hpoint⟩
  · exact ⟨other, (List.getElem?_set_ne hij).trans hother, .inl ⟨rfl, attempt, hpoint⟩⟩

/-- **Step lemma** for an access to the counter. -/
theorem Inv.accesses (h : s.Inv proxy) (hcall : s.calls[i]? = some call)
    {attempt attempt' : BoundedCounter.Attempt} (hpoint : call.point = .attempting attempt)
    {a : BoundedCounter.Access}
    (haccess : BoundedCounter.access s.proxy.limits.maxInFlightRequests s.inFlight attempt a =
      some (inFlight, attempt')) :
    (s.accessed i call inFlight attempt').Inv proxy ∧
      s.Answers (.access i a) (s.accessed i call inFlight attempt') := by
  obtain ⟨hvalid, hproxy⟩ := h.valid call (List.mem_of_getElem? hcall) attempt hpoint
  have hcapacity := h.accounted.capacity
  have hcall_counted : counted call = false := by
    unfold counted
    rw [hpoint]
  rw [← h.same] at hvalid
  obtain ⟨-, hcases⟩ := BoundedCounter.access_cases hvalid haccess
  -- a new reading of the counter, a place taken, or the limit found full
  rcases hcases with ⟨rfl, hroom, rfl⟩ | ⟨rfl, hroom, rfl⟩ | ⟨rfl, hfull, rfl⟩
  · constructor
    · apply h.sets hcall (by rw [hcall_counted]; rfl) (h.same ▸ hcapacity)
      rintro attempt hnext
      obtain rfl := CallPoint.attempting.inj hnext
      exact ⟨h.same ▸ hroom, hproxy⟩
    · exact answers_setCall hcall _ fun _ _ => .inl ⟨rfl, _, rfl⟩
  · constructor
    · exact h.sets hcall (by rw [hcall_counted]; rfl) (h.same ▸ hroom) nofun
    · refine answers_setCall hcall _ fun _ _ => .inr (.inl ⟨?_, rfl⟩)
      rw [h.same, ← hproxy] at hroom
      show (call.exchange.enterFlight s.inFlight).stage = _
      rw [Exchange.enterFlight, if_neg (not_le.mpr hroom)]
  · constructor
    · exact h.sets hcall (by rw [hcall_counted]; rfl) (h.same ▸ hcapacity) nofun
    · refine answers_setCall hcall _ fun _ _ => .inr (.inr ⟨?_, rfl, le_antisymm hcapacity hfull⟩)
      rw [h.same, ← hproxy] at hfull
      show call.exchange.enterFlight s.inFlight = _
      rw [Exchange.enterFlight, if_pos hfull]

/-- **Step lemma.** -/
theorem Inv.step (h : s.Inv proxy) {e : Event} (hstep : s.step e = some s') :
    (s.NoUnderflow e s' ∧ s.Answers e s') ∧ s'.Inv proxy := by
  have hcapacity := h.accounted.capacity
  rw [h.same] at hcapacity
  cases e with
  | call requestId peer request cache =>
    obtain rfl := Option.some.inj hstep
    refine ⟨⟨trivial, ?_⟩, ⟨h.same, ⟨?_, h.accounted.capacity⟩, ?_⟩⟩
    · intro i call attempt hcall hpoint
      refine ⟨call, ?_, .inl ⟨rfl, attempt, hpoint⟩⟩
      exact (List.getElem?_append_left (List.getElem?_eq_some_iff.mp hcall).1).trans hcall
    · show s.inFlight = (s.calls ++ [_]).countP counted
      rw [List.countP_append]
      exact h.accounted.count
    · intro call hcall
      rcases List.mem_append.mp hcall with hcall | hcall
      · exact h.valid call hcall
      · rw [List.mem_singleton.mp hcall]
        intro attempt hpoint
        obtain rfl := CallPoint.attempting.inj hpoint
        exact ⟨trivial, h.same⟩
  | access i a =>
    obtain ⟨call, hcall, hstep⟩ := Option.bind_eq_some_iff.mp hstep
    split at hstep
    · next attempt hpoint =>
      obtain ⟨⟨inFlight, attempt'⟩, haccess, rfl⟩ := Option.map_eq_some_iff.mp hstep
      obtain ⟨hinv, hanswers⟩ := h.accesses hcall hpoint haccess
      exact ⟨⟨trivial, hanswers⟩, hinv⟩
    · cases hstep
  | run i event =>
    obtain ⟨call, hcall, hstep⟩ := Option.bind_eq_some_iff.mp hstep
    split at hstep
    · next hruns =>
      obtain ⟨exchange, -, rfl⟩ := Option.map_eq_some_iff.mp hstep
      -- the call is not in its attempt
      have hpast : ∀ attempt, call.point ≠ .attempting attempt := by
        intro attempt hpoint
        unfold mayRun at hruns
        rw [hpoint] at hruns
        cases hruns
      refine ⟨⟨trivial, answers_setCall hcall _ fun attempt hpoint =>
        absurd hpoint (hpast attempt)⟩, ?_⟩
      exact h.sets hcall rfl hcapacity fun attempt hpoint => absurd hpoint (hpast attempt)
    · cases hstep
  | release i =>
    obtain ⟨call, hcall, hstep⟩ := Option.bind_eq_some_iff.mp hstep
    split at hstep
    · next hpoint =>
      obtain rfl := Option.some.inj hstep
      have hcounted : counted call = true := by
        unfold counted
        rw [hpoint]
      have hpos : 0 < s.calls.countP counted :=
        List.countP_pos_iff.mpr ⟨call, List.mem_of_getElem? hcall, hcounted⟩
      have hne : s.inFlight ≠ 0 := by
        rw [h.accounted.count]
        exact Nat.ne_of_gt hpos
      have hsub := BoundedCounter.fetchSub_add_one sizeModulus hne
      generalize BoundedCounter.fetchSub sizeModulus s.inFlight = less at hsub ⊢
      refine ⟨⟨hne, answers_setCall hcall _ fun attempt hattempt => ?_⟩, ?_⟩
      · rw [hpoint] at hattempt
        cases hattempt
      · refine h.sets hcall ?_ (by omega) nofun
        rw [hcounted]
        exact hsub
    · cases hstep

/-- **Admission to the proxy.** In every run of any calls, `in_flight` is the number of the calls
that were admitted and are unfinished, and no more than the maximum; it is not decremented at
zero, and a call is answered `Overloaded` at admission only where it is at the maximum. -/
theorem admission_accounted (proxy : ReverseProxy) (events : List Event) :
    Machine.Always step Accounted { proxy := proxy } events ∧
      Machine.EachStep step (fun s e s' => s.NoUnderflow e s' ∧ s.Answers e s')
        { proxy := proxy } events := by
  have hinit : Inv proxy { proxy := proxy } :=
    ⟨rfl, ⟨rfl, Nat.zero_le _⟩, fun _ hcall => absurd hcall List.not_mem_nil⟩
  constructor
  · apply Machine.always_of_invariant (Inv proxy) (fun s h => h.accounted) _ events hinit
    exact fun s e s' h hstep => (h.step hstep).2
  · apply Machine.eachStep_of_invariant (Inv proxy) _ events hinit
    exact fun s e s' h hstep => h.step hstep

end ProxyInFlight
end PulseGate
