import PulseGate.Http.ProxySession

namespace PulseGate

/-!
# The health of the upstream endpoints

`HealthStateStore` of `upstream_health.cpp`.  A writer copies the snapshot, changes the copy and
exchanges it, and starts again when the exchange fails; here a call is what its last round does.
A reader sees one whole snapshot.
-/

/-- The thresholds the constructor accepts. -/
def HealthThresholds.Accepted (t : HealthThresholds) : Prop :=
  t.healthyThreshold ≠ 0 ∧ t.unhealthyThreshold ≠ 0

instance HealthThresholds.decidableAccepted (t : HealthThresholds) : Decidable t.Accepted :=
  inferInstanceAs (Decidable (_ ∧ _))

/-- `EndpointHealth`; the counters are of 32 bits. -/
structure EndpointHealth where
  healthy : Bool := true
  consecutiveSuccesses : UInt32 := 0
  consecutiveFailures : UInt32 := 0
  deriving DecidableEq, Repr

namespace EndpointHealth

/-- A success of the endpoint, as `HealthStateStore::record` counts it. -/
def succeeded (state : EndpointHealth) (thresholds : HealthThresholds) : EndpointHealth :=
  let successes := state.consecutiveSuccesses + 1
  { consecutiveFailures := 0, consecutiveSuccesses := successes,
    healthy := state.healthy || decide (thresholds.healthyThreshold ≤ successes.toNat) }

/-- A failure of the endpoint. -/
def failed (state : EndpointHealth) (thresholds : HealthThresholds) : EndpointHealth :=
  let failures := state.consecutiveFailures + 1
  { consecutiveSuccesses := 0, consecutiveFailures := failures,
    healthy := state.healthy && !decide (thresholds.unhealthyThreshold ≤ failures.toNat) }

end EndpointHealth

/-- The name of an endpoint in the store. -/
def UpstreamEndpoint.id (upstream : UpstreamEndpoint) : Bytes :=
  upstream.host ++ bytes ":" ++ upstream.service

structure HealthStateStore where
  thresholds : HealthThresholds
  accepted : thresholds.Accepted
  /-- The map of the snapshot. -/
  endpoints : List (Bytes × EndpointHealth) := []

namespace HealthStateStore

/-- `addEndpoint` of a healthy endpoint; an endpoint that is there stays as it is. -/
def addEndpoint (s : HealthStateStore) (id : Bytes) : HealthStateStore :=
  if s.endpoints.any (·.1 = id) then s
  else { s with endpoints := s.endpoints ++ [(id, {})] }

/-- `HealthStateStore::record`; nothing is recorded of an endpoint that is not there. -/
def record (s : HealthStateStore) (id : Bytes) (success : Bool) : HealthStateStore :=
  { s with endpoints := s.endpoints.map fun (id', state) =>
      if id' = id then
        (id', if success then state.succeeded s.thresholds else state.failed s.thresholds)
      else (id', state) }

/-- `HealthStateStore::isHealthy`. -/
def isHealthy (s : HealthStateStore) (id : Bytes) : Bool :=
  match s.endpoints.find? (·.1 = id) with
  | some (_, state) => state.healthy
  | none => false

end HealthStateStore
end PulseGate
