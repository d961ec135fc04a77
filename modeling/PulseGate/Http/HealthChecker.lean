import PulseGate.Http.HealthStore
import PulseGate.Lib.Machine
import PulseGate.Lib.RoundRobin

namespace PulseGate

/-!
# Active health checks

`HealthChecker` of `health_checker.cpp`.  `run` starts probes of the endpoints round after round,
with an index that goes on where the last round ended; a probe takes as long as it takes, so that
a round may find no room for some of its probes, or for all.  Everything runs on one strand: an
event is what one coroutine does between two suspensions, and an iteration of the loop of a round
is an event of its own, with nothing but the start of the probes it spawned in between.

* `Inv.step` — the probes that were started took turns;
* `probing_bounded_and_fair` — in every run the probes in flight are counted and within their
  limit, no endpoint is probed two times more than another, and nothing is published after the
  stop.
-/

structure HealthCheckConfig where
  path : Bytes := bytes "/healthz"
  /-- In milliseconds, as the timeout is. -/
  interval : Int := 2000
  timeout : Int := 500
  maxConcurrentProbes : Nat := 4
  deriving DecidableEq, Repr

/-- What the constructor accepts. -/
def HealthCheckConfig.Accepted (config : HealthCheckConfig) : Prop :=
  config.path ≠ [] ∧ 0 < config.interval ∧ 0 < config.timeout ∧ config.maxConcurrentProbes ≠ 0

instance HealthCheckConfig.decidableAccepted (config : HealthCheckConfig) :
    Decidable config.Accepted :=
  inferInstanceAs (Decidable (_ ∧ _))

/-- What has become of a probe when its transport is closed. -/
structure ProbeReply where
  /-- Resolving, connecting, writing or reading has failed. -/
  error : Bool := false
  timedOut : Bool := false
  /-- What the one read has got. -/
  status : Bytes := []
  deriving DecidableEq, Repr

/-- What `probe` returns. -/
def ProbeReply.ok (reply : ProbeReply) : Bool :=
  if reply.error || reply.timedOut then false
  else (bytes "HTTP/1.1 2").isPrefixOf reply.status || (bytes "HTTP/1.0 2").isPrefixOf reply.status

/-- A probe that has not completed. -/
structure Probe where
  endpoint : UpstreamEndpoint
  id : Nat
  /-- Its coroutine has begun, with a transport. -/
  begun : Bool := false
  /-- Its transport was cancelled. -/
  cancelled : Bool := false
  deriving DecidableEq, Repr

/-- Where `run` is. -/
inductive Runner
  | NotStarted
  | Spawned
  /-- At the test of the inner loop. -/
  | Round (index : Nat)
  /-- In the wait for the interval timer. -/
  | Sleeping
  | Returned
  deriving DecidableEq, Repr

structure HealthChecker where
  config : HealthCheckConfig
  accepted : config.Accepted
  endpoints : List UpstreamEndpoint
  health : HealthStateStore
  started : Bool := false
  stopping : Bool := false
  activeProbes : Nat := 0
  nextEndpoint : Nat := 0
  nextProbeId : Nat := 1
  /-- The keys of the map. -/
  activeCancellations : List Nat := []
  runner : Runner := .NotStarted
  probes : List Probe := []
  /-- The index of the endpoint of each probe that was ever started. -/
  starts : List Nat := []
  /-- How many probes have completed. -/
  completed : Nat := 0
  /-- What was published to the store. -/
  published : List (Bytes × Bool) := []

namespace HealthChecker

/-- The constructor. -/
def create (config : HealthCheckConfig) (endpoints : List UpstreamEndpoint)
    (health : Option HealthStateStore) : Except Exception HealthChecker :=
  match health with
  | none => .error .InvalidArgument
  | some health =>
    if accepted : config.Accepted then .ok { config, accepted, endpoints, health }
    else .error .InvalidArgument

inductive Event
  /-- `startInStrand` and `stopInStrand`. -/
  | start
  | stop
  /-- The coroutine of `run` begins. -/
  | enter
  /-- The next iteration of the inner loop, or the end of the round. -/
  | iterate
  /-- The wait for the interval has ended. -/
  | tick (error : Bool)
  /-- The coroutine of the probe at index `i` begins. -/
  | begin (i : Nat)
  /-- The probe at index `i` completes. -/
  | complete (i : Nat) (reply : ProbeReply)
  deriving DecidableEq, Repr

def startInStrand (s : HealthChecker) : HealthChecker :=
  if s.started || s.stopping then s else { s with started := true, runner := .Spawned }

def stopInStrand (s : HealthChecker) : HealthChecker :=
  if s.stopping then s
  else
    { s with stopping := true,
             probes := s.probes.map fun p =>
              { p with cancelled := p.cancelled || s.activeCancellations.contains p.id } }

/-- The test of the outer loop. -/
def loop (s : HealthChecker) : HealthChecker :=
  if s.stopping then { s with runner := .Returned } else { s with runner := .Round 0 }

def probesThisRound (s : HealthChecker) : Nat :=
  min s.endpoints.length s.config.maxConcurrentProbes

/-- What an iteration does when there is room for a probe. -/
def startProbe (s : HealthChecker) (endpoint : UpstreamEndpoint) : HealthChecker :=
  { s with nextEndpoint := (s.nextEndpoint + 1) % s.endpoints.length,
           nextProbeId := s.nextProbeId + 1,
           activeProbes := s.activeProbes + 1,
           probes := s.probes ++ [{ endpoint := endpoint, id := s.nextProbeId }],
           starts := s.starts ++ [s.nextEndpoint] }

/-- The inner loop of `run` at `index`. -/
def iterate (s : HealthChecker) (index : Nat) : Option HealthChecker :=
  if index < s.probesThisRound ∧ s.stopping = false then
    if s.config.maxConcurrentProbes ≤ s.activeProbes then some { s with runner := .Sleeping }
    else
      s.endpoints[s.nextEndpoint]?.map fun endpoint =>
        { s.startProbe endpoint with runner := .Round (index + 1) }
  else some { s with runner := .Sleeping }

/-- Records the outcome of a probe. -/
def publish (s : HealthChecker) (endpoint : UpstreamEndpoint) (ok : Bool) : HealthChecker :=
  if s.stopping then s
  else
    { s with health := s.health.record endpoint.id ok,
             published := s.published ++ [(endpoint.id, ok)] }

/-- The probe at index `i` is no longer active. -/
def release (s : HealthChecker) (i : Nat) : HealthChecker :=
  { s with activeProbes := s.activeProbes - 1, probes := s.probes.eraseIdx i,
           completed := s.completed + 1 }

/-- `probeAndPublish` after its probe. -/
def complete (s : HealthChecker) (i : Nat) (p : Probe) (ok : Bool) : HealthChecker :=
  ({ s with activeCancellations := s.activeCancellations.erase p.id }.publish p.endpoint
    ok).release i

/-- `run` has the strand. -/
def InRound (s : HealthChecker) : Bool :=
  match s.runner with
  | .Round _ => true
  | _ => false

def step (s : HealthChecker) : Event → Option HealthChecker
  | .start => if s.InRound then none else some s.startInStrand
  | .stop => if s.InRound then none else some s.stopInStrand
  | .enter => if s.runner = .Spawned then some s.loop else none
  | .iterate =>
    match s.runner with
    | .Round index => s.iterate index
    | _ => none
  | .tick error =>
    if s.runner = .Sleeping then
      -- a timer that was cancelled ends the loop
      if error || s.stopping then some { s with runner := .Returned } else some s.loop
    else none
  | .begin i =>
    s.probes[i]?.bind fun p =>
      -- the coroutine of the probe has begun once
      if p.begun then none
      else
        some { s with probes := s.probes.set i { p with begun := true },
                      activeCancellations := s.activeCancellations.insert p.id }
  | .complete i reply =>
    if s.InRound then none
    else
      s.probes[i]?.bind fun p =>
        if p.begun then some (s.complete i p reply.ok) else none

/-! ### Taking turns -/

/-- The probes that were started took turns, those in flight are counted, and they are within
    their limit. -/
structure Inv (s : HealthChecker) : Prop where
  active_eq : s.activeProbes = s.probes.length
  accounted : s.activeProbes + s.completed = s.starts.length
  bounded : s.activeProbes ≤ s.config.maxConcurrentProbes
  starts_eq : s.starts = RoundRobin.turns s.endpoints.length s.starts.length
  next_eq : s.nextEndpoint = s.starts.length % s.endpoints.length

variable {config : HealthCheckConfig} {endpoints : List UpstreamEndpoint}
  {health : Option HealthStateStore} {s s' : HealthChecker} {e : Event}

theorem inv_create (hcreate : create config endpoints health = .ok s) : Inv s := by
  unfold create at hcreate
  split at hcreate
  · cases hcreate
  · split at hcreate
    · obtain rfl := Except.ok.inj hcreate
      exact
        { active_eq := rfl
          accounted := rfl
          bounded := Nat.zero_le _
          starts_eq := rfl
          next_eq := (Nat.zero_mod _).symm }
    · cases hcreate

theorem Inv.startInStrand (h : Inv s) : Inv s.startInStrand := by
  unfold HealthChecker.startInStrand
  split
  · exact h
  · exact { h with }

theorem Inv.stopInStrand (h : Inv s) : Inv s.stopInStrand := by
  unfold HealthChecker.stopInStrand
  split
  · exact h
  · exact { h with active_eq := h.active_eq.trans (List.length_map _).symm }

theorem Inv.loop (h : Inv s) : Inv s.loop := by
  unfold HealthChecker.loop
  split <;> exact { h with }

/-- The next endpoint is the one whose turn it is. -/
theorem Inv.startProbe (h : Inv s) (hroom : s.activeProbes < s.config.maxConcurrentProbes)
    (endpoint : UpstreamEndpoint) : Inv (s.startProbe endpoint) where
  active_eq := by
    show s.activeProbes + 1 = (s.probes ++ [_]).length
    rw [List.length_append, h.active_eq]
    rfl
  accounted := by
    show s.activeProbes + 1 + s.completed = (s.starts ++ [s.nextEndpoint]).length
    rw [List.length_append, ← h.accounted, List.length_singleton]
    omega
  bounded := hroom
  starts_eq := by
    show s.starts ++ [s.nextEndpoint] = RoundRobin.turns _ (s.starts ++ [s.nextEndpoint]).length
    rw [List.length_append, List.length_singleton, RoundRobin.turns_succ, h.next_eq]
    exact congrArg (· ++ _) h.starts_eq
  next_eq := by
    show (s.nextEndpoint + 1) % s.endpoints.length =
      (s.starts ++ [s.nextEndpoint]).length % s.endpoints.length
    rw [List.length_append, List.length_singleton, h.next_eq, Nat.mod_add_mod]

theorem Inv.iterate (h : Inv s) {index : Nat} (hstep : s.iterate index = some s') : Inv s' := by
  unfold HealthChecker.iterate at hstep
  split at hstep
  · split at hstep
    · exact Option.some.inj hstep ▸ { h with }
    · next hroom =>
      obtain ⟨endpoint, _, rfl⟩ := Option.map_eq_some_iff.mp hstep
      exact { h.startProbe (Nat.not_le.mp hroom) endpoint with }
  · exact Option.some.inj hstep ▸ { h with }

theorem Inv.publish (h : Inv s) (endpoint : UpstreamEndpoint) (ok : Bool) :
    Inv (s.publish endpoint ok) := by
  unfold HealthChecker.publish
  split
  · exact h
  · exact { h with }

theorem publish_probes (s : HealthChecker) (endpoint : UpstreamEndpoint) (ok : Bool) :
    (s.publish endpoint ok).probes = s.probes := by
  unfold publish
  split <;> rfl

theorem Inv.release (h : Inv s) {i : Nat} (hi : i < s.probes.length) : Inv (s.release i) where
  active_eq := by
    show s.activeProbes - 1 = (s.probes.eraseIdx i).length
    rw [List.length_eraseIdx_of_lt hi, h.active_eq]
  accounted := by
    show s.activeProbes - 1 + (s.completed + 1) = s.starts.length
    have hactive := h.active_eq
    have haccounted := h.accounted
    omega
  bounded := (Nat.sub_le _ _).trans h.bounded
  starts_eq := h.starts_eq
  next_eq := h.next_eq

/-- A probe that completes leaves, whether its outcome is published or not. -/
theorem Inv.complete (h : Inv s) {i : Nat} {p : Probe} (hp : s.probes[i]? = some p) (ok : Bool) :
    Inv (s.complete i p ok) := by
  obtain ⟨hi, -⟩ := List.getElem?_eq_some_iff.mp hp
  have herased : Inv { s with activeCancellations := s.activeCancellations.erase p.id } :=
    { h with }
  apply (herased.publish p.endpoint ok).release
  rw [publish_probes]
  exact hi

/-- **Step lemma.** -/
theorem Inv.step (h : Inv s) (hstep : step s e = some s') : Inv s' := by
  cases e with
  | start =>
    obtain ⟨_, hsome⟩ := Option.ite_none_left_eq_some.mp hstep
    exact Option.some.inj hsome ▸ h.startInStrand
  | stop =>
    obtain ⟨_, hsome⟩ := Option.ite_none_left_eq_some.mp hstep
    exact Option.some.inj hsome ▸ h.stopInStrand
  | enter =>
    obtain ⟨_, hsome⟩ := Option.ite_none_right_eq_some.mp hstep
    exact Option.some.inj hsome ▸ h.loop
  | iterate =>
    simp only [HealthChecker.step] at hstep
    split at hstep
    · exact h.iterate hstep
    · cases hstep
  | tick error =>
    obtain ⟨_, htick⟩ := Option.ite_none_right_eq_some.mp hstep
    split at htick
    · exact Option.some.inj htick ▸ { h with }
    · exact Option.some.inj htick ▸ h.loop
  -- a probe that begins changes its own place only
  | begin i =>
    obtain ⟨p, hp, hbegin⟩ := Option.bind_eq_some_iff.mp hstep
    obtain ⟨_, hsome⟩ := Option.ite_none_left_eq_some.mp hbegin
    exact Option.some.inj hsome ▸ { h with active_eq := h.active_eq.trans List.length_set.symm }
  | complete i reply =>
    obtain ⟨_, hprobe⟩ := Option.ite_none_left_eq_some.mp hstep
    obtain ⟨p, hp, hcomplete⟩ := Option.bind_eq_some_iff.mp hprobe
    obtain ⟨_, hsome⟩ := Option.ite_none_right_eq_some.mp hcomplete
    exact Option.some.inj hsome ▸ h.complete hp reply.ok

/-! ### Whole runs -/

/-- The counter counts the probes that were started and have not completed, and keeps to its
    limit; any two endpoints were probed the same number of times, or one of them once more. -/
structure BoundedFair (s : HealthChecker) : Prop where
  accounted : s.activeProbes + s.completed = s.starts.length
  bounded : s.activeProbes ≤ s.config.maxConcurrentProbes
  fair : ∀ i j, i < s.endpoints.length → j < s.endpoints.length →
    s.starts.count i ≤ s.starts.count j + 1

theorem Inv.boundedFair (h : Inv s) : BoundedFair s where
  accounted := h.accounted
  bounded := h.bounded
  fair i j hi hj := by
    rw [h.starts_eq]
    exact RoundRobin.count_turns_le hi hj _

/-- After the stop nothing is published, and it stays so. -/
def SilentAfterStop (s : HealthChecker) (_ : Event) (s' : HealthChecker) : Prop :=
  s.stopping = true → s'.stopping = true ∧ s'.health = s.health ∧ s'.published = s.published

theorem silentAfterStop_of_step (hstep : step s e = some s') : SilentAfterStop s e s' := by
  intro hstopping
  cases e with
  | start =>
    obtain ⟨_, hsome⟩ := Option.ite_none_left_eq_some.mp hstep
    rw [← Option.some.inj hsome, startInStrand, hstopping, Bool.or_true, if_pos rfl]
    exact ⟨hstopping, rfl, rfl⟩
  | stop =>
    obtain ⟨_, hsome⟩ := Option.ite_none_left_eq_some.mp hstep
    rw [← Option.some.inj hsome, stopInStrand, if_pos hstopping]
    exact ⟨hstopping, rfl, rfl⟩
  | enter =>
    obtain ⟨_, hsome⟩ := Option.ite_none_right_eq_some.mp hstep
    rw [← Option.some.inj hsome, loop, if_pos hstopping]
    exact ⟨hstopping, rfl, rfl⟩
  | iterate =>
    simp only [step] at hstep
    split at hstep
    · rw [iterate, if_neg (fun h => absurd (hstopping.symm.trans h.2) (by decide))] at hstep
      exact Option.some.inj hstep ▸ ⟨hstopping, rfl, rfl⟩
    · cases hstep
  | tick error =>
    obtain ⟨_, htick⟩ := Option.ite_none_right_eq_some.mp hstep
    rw [if_pos (by rw [hstopping, Bool.or_true])] at htick
    exact Option.some.inj htick ▸ ⟨hstopping, rfl, rfl⟩
  | begin i =>
    obtain ⟨p, _, hbegin⟩ := Option.bind_eq_some_iff.mp hstep
    obtain ⟨_, hsome⟩ := Option.ite_none_left_eq_some.mp hbegin
    exact Option.some.inj hsome ▸ ⟨hstopping, rfl, rfl⟩
  | complete i reply =>
    obtain ⟨_, hprobe⟩ := Option.ite_none_left_eq_some.mp hstep
    obtain ⟨p, _, hcomplete⟩ := Option.bind_eq_some_iff.mp hprobe
    obtain ⟨_, hsome⟩ := Option.ite_none_right_eq_some.mp hcomplete
    rw [← Option.some.inj hsome, complete, publish, if_pos hstopping]
    exact ⟨hstopping, rfl, rfl⟩

/-- **Probing is bounded and fair.** In every order of starts, stops, rounds and probes of any
    duration, the probes in flight are counted and within their limit, no endpoint is probed two
    times more than another one, and nothing is published after the stop. -/
theorem probing_bounded_and_fair (hcreate : create config endpoints health = .ok s)
    (events : List Event) :
    Machine.Always step BoundedFair s events ∧
      Machine.EachStep step SilentAfterStop s events := by
  have hinv := inv_create hcreate
  constructor
  · apply Machine.always_of_invariant Inv (fun _ h => h.boundedFair) ?_ events hinv
    exact fun s e s' h hstep => h.step hstep
  · apply Machine.eachStep_of_invariant Inv ?_ events hinv
    exact fun s e s' h hstep => ⟨silentAfterStop_of_step hstep, h.step hstep⟩

theorem thresholds_accepted : HealthThresholds.Accepted {} := by decide

/-- Two endpoints, both healthy. -/
def twoHealthy : HealthStateStore :=
  { thresholds := {}, accepted := thresholds_accepted,
    endpoints := [(bytes "a:80", {}), (bytes "b:80", {})] }

def twoProbes : HealthCheckConfig := { maxConcurrentProbes := 2 }

theorem twoProbes_accepted : twoProbes.Accepted := by decide

/-- A checker of three endpoints with room for two probes. -/
def threeEndpoints : HealthChecker :=
  { config := twoProbes, accepted := twoProbes_accepted, health := twoHealthy,
    endpoints := [⟨bytes "a", bytes "80"⟩, ⟨bytes "b", bytes "80"⟩, ⟨bytes "c", bytes "80"⟩] }

theorem create_threeEndpoints :
    create twoProbes threeEndpoints.endpoints (some twoHealthy) = .ok threeEndpoints := by
  rw [create, dif_pos twoProbes_accepted]
  rfl

/-- The second round finds room for one probe, and the last probe completes after the stop. -/
def slowProbe : List Event :=
  [.start, .enter, .iterate, .begin 0, .iterate, .begin 1, .iterate,
    .complete 1 { status := bytes "HTTP/1.1 204 No Content\r\n" }, .tick false, .iterate, .begin 1,
    .iterate, .stop, .complete 0 { timedOut := true }, .tick true]

theorem probing_bounded_and_fair_slowProbe :
    (Machine.Always step BoundedFair threeEndpoints slowProbe ∧
      Machine.EachStep step SilentAfterStop threeEndpoints slowProbe) ∧
      (Machine.run step threeEndpoints slowProbe).map (fun s => (s.starts, s.published)) =
        some ([0, 1, 2], [(bytes "b:80", true)]) :=
  ⟨probing_bounded_and_fair create_threeEndpoints slowProbe, by decide +kernel⟩

end HealthChecker
end PulseGate
