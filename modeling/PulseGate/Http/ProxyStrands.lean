import PulseGate.Http.ExchangeSteps

namespace PulseGate

/-!
# A proxied request on two strands

The operations of a transaction on its upstream connection complete on the strand of that
connection, which belongs to the session whose request created the pool.  From there to its next
write downstream the coroutine runs beside the executor of its own session, where the total
deadline expires and the transaction is cancelled.  `StrandExchange` is the exchange with these
stops between any two points of the coroutine (`stopBeside`), in addition to all steps of
`Exchange`.

A phase deadline is disarmed where its operation completes; one that expires at the same time is
one that expires first.
-/

/-- A deadline expires, or the transaction is cancelled. -/
def ProxyEvent.Stops : ProxyEvent → Bool
  | .phaseExpired | .totalExpired | .cancelled _ => true
  | _ => false

/-- Whether the coroutine is on the strand of the connection after the event. -/
def ProxyEvent.awayAfter (away : Bool) : ProxyEvent → Bool
  | .resolved _ | .connected _ | .sent _ | .received _ | .readFailed => true
  | .written _ => false
  | _ => away

def ExchangeEvent.Stops : ExchangeEvent → Bool
  | .session event => event.Stops
  | _ => false

def ExchangeEvent.awayAfter (away : Bool) : ExchangeEvent → Bool
  | .session event => event.awayAfter away
  | _ => away

namespace ProxySession

/-- A stop that comes while the coroutine runs. -/
def stopBeside (s : ProxySession) : ProxyEvent → Option ProxySession
  | .totalExpired =>
    if s.totalDeadline then some ({ s with totalDeadline := false }.cancelInExecutor .TotalTimeout)
    else none
  | .cancelled reason =>
    if reason = .DownstreamClosed ∨ reason = .ServerShutdown then some (s.cancelInExecutor reason)
    else none
  | _ => none

theorem stops_of_stopBeside (s : ProxySession) {s' : ProxySession} {event : ProxyEvent}
    (hs : s.stopBeside event = some s') : event.Stops = true := by
  cases event with
  | phaseExpired | totalExpired | cancelled => rfl
  | _ => cases hs

end ProxySession

structure StrandExchange where
  exchange : Exchange
  /-- The coroutine runs on the strand of the upstream connection. -/
  away : Bool := false
  /-- A deadline of the transaction has expired, or it was cancelled. -/
  stopped : Bool := false

namespace StrandExchange

def init (proxy : ReverseProxy) (requestId : Nat) (peer : Option Bytes) (request : HttpRequest)
    (cache : RouteCache) : StrandExchange :=
  { exchange := .init proxy requestId peer request cache }

/-- The exchange takes an event. -/
def goesOn (x : StrandExchange) (event : ExchangeEvent) (e : Exchange) : StrandExchange :=
  { exchange := e, away := event.awayAfter x.away, stopped := x.stopped || event.Stops }

/-- A stop of the transaction whose coroutine is away, and does not wait. -/
def stopBeside (x : StrandExchange) : ExchangeEvent → Option StrandExchange
  | .session event =>
    match x.exchange.stage with
    | .transacting endpoint session =>
      if x.away ∧ !session.point.Suspended then
        (session.stopBeside event).map fun session =>
          { x with exchange := { x.exchange with stage := .transacting endpoint session },
                   stopped := true }
      else none
    | _ => none
  | _ => none

/-- One event; `none` when nothing waits for it. -/
def step (x : StrandExchange) (event : ExchangeEvent) : Option StrandExchange :=
  match x.exchange.step event with
  | some e => some (x.goesOn event e)
  | none => x.stopBeside event

/-! ### The cases of a step -/

/-- The steps: those of the exchange, and the stops beside its coroutine. -/
inductive Stepped (x : StrandExchange) : ExchangeEvent → StrandExchange → Prop
  | exchange (event : ExchangeEvent) (e : Exchange) (hs : x.exchange.step event = some e) :
    Stepped x event (x.goesOn event e)
  | beside (event : ProxyEvent) (endpoint : Nat) (s s' : ProxySession)
    (hstage : x.exchange.stage = .transacting endpoint s) (haway : x.away = true)
    (hs : s.stopBeside event = some s') :
    Stepped x (.session event)
      { x with exchange := { x.exchange with stage := .transacting endpoint s' },
               stopped := true }

variable {x x' : StrandExchange} {event : ExchangeEvent}

/-- **The cases of a step.** -/
theorem step_cases (hs : x.step event = some x') : x.Stepped event x' := by
  unfold step at hs
  split at hs
  · next e he =>
    obtain rfl := Option.some.inj hs
    exact .exchange event e he
  · cases event with
    | session event =>
      unfold stopBeside at hs
      dsimp only at hs
      split at hs
      · next endpoint s hstage =>
        obtain ⟨⟨haway, _⟩, hs⟩ := Option.ite_none_right_eq_some.mp hs
        obtain ⟨s', hs', rfl⟩ := Option.map_eq_some_iff.mp hs
        exact .beside event endpoint s s' hstage haway hs'
      · cases hs
    | _ => cases hs

theorem step_of_exchange {e : Exchange} (hs : x.exchange.step event = some e) :
    x.step event = some (x.goesOn event e) := by
  simp [step, hs]

/-- A step of the transaction's session, or a stop beside it. -/
theorem step_session {endpoint : Nat} {s : ProxySession} {event : ProxyEvent}
    (hstage : x.exchange.stage = .transacting endpoint s)
    (hs : x.step (.session event) = some x') :
    ∃ s', x'.exchange.stage = .transacting endpoint s' ∧
      x'.exchange.leases = x.exchange.leases ∧
      x'.exchange.transaction = x.exchange.transaction ∧
      x'.stopped = (x.stopped || event.Stops) ∧
      (s.step event = some s' ∨ s.stopBeside event = some s') := by
  cases step_cases hs with
  | exchange event e he =>
    cases Exchange.step_cases he with
    | session event endpoint' t s' hstage' hsession =>
      obtain ⟨rfl, rfl⟩ := Stage.transacting.inj (hstage.symm.trans hstage')
      exact ⟨s', rfl, rfl, rfl, rfl, .inl hsession⟩
  | beside event endpoint' t s' hstage' haway hbeside =>
    obtain ⟨rfl, rfl⟩ := Stage.transacting.inj (hstage.symm.trans hstage')
    refine ⟨s', rfl, rfl, rfl, ?_, .inr hbeside⟩
    rw [s.stops_of_stopBeside hbeside, Bool.or_true]

/-- A run of the transaction's session is one of the exchange. -/
theorem run_session {endpoint : Nat} {s t : ProxySession} {events : List ProxyEvent}
    (hstage : x.exchange.stage = .transacting endpoint s)
    (hrun : Machine.run ProxySession.step s events = some t) :
    ∃ x', Machine.run step x (events.map .session) = some x' ∧
      x'.exchange.stage = .transacting endpoint t ∧ x'.exchange.leases = x.exchange.leases ∧
      x'.exchange.transaction = x.exchange.transaction := by
  induction events generalizing x s with
  | nil =>
    obtain rfl := Option.some.inj hrun
    exact ⟨x, rfl, hstage, rfl, rfl⟩
  | cons event events ih =>
    obtain ⟨s₁, hs₁, hrest⟩ := Option.bind_eq_some_iff.mp hrun
    have hstep : x.exchange.step (.session event) = some
        { x.exchange with stage := .transacting endpoint s₁, output := s₁.output,
                          ending := x.exchange.ending.or (s.endingOf event) } := by
      simp [Exchange.step, hstage, hs₁]
    obtain ⟨x', hrun', hstage', hleases, htransaction⟩ := ih
      (x := x.goesOn (.session event) { x.exchange with
        stage := .transacting endpoint s₁, output := s₁.output,
        ending := x.exchange.ending.or (s.endingOf event) }) rfl hrest
    refine ⟨x', ?_, hstage', hleases, htransaction⟩
    exact Option.bind_eq_some_iff.mpr ⟨_, step_of_exchange hstep, hrun'⟩

end StrandExchange
end PulseGate
