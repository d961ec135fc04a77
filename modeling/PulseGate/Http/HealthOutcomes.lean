import PulseGate.Lib.Machine
import PulseGate.Lib.Keyed
import PulseGate.Lib.RunLength
import PulseGate.Http.HealthStore

namespace PulseGate

/-!
# Outcomes that are recorded at the same time

`HealthStateStore` in any number of threads.  The snapshot is an immutable map behind an atomic
pointer; a call of `record` loads the pointer, and then copies, changes and exchanges until an
exchange succeeds.  Each access to the pointer is one step.  A thread that holds a snapshot keeps
it alive, so that a pointer is known by the place of its snapshot in `published`.

* `health_outcomes` — the snapshot is what the outcomes make of it one after the other, and an
  endpoint is healthy as its last decisive run of outcomes says.
-/

/-- `EndpointHealth` with `changed_at`. -/
structure StampedHealth extends EndpointHealth where
  changedAt : Int := 0
  deriving DecidableEq, Repr

/-- An outcome that is recorded at a time. -/
structure Outcome where
  id : Bytes
  success : Bool
  now : Int
  deriving DecidableEq, Repr

/-- The change of `record` to the state of one endpoint. -/
def StampedHealth.record (thresholds : HealthThresholds) (state : StampedHealth) (o : Outcome) :
    StampedHealth :=
  let next := if o.success then state.succeeded thresholds else state.failed thresholds
  { next with changedAt := if next.healthy = state.healthy then state.changedAt else o.now }

abbrev HealthSnapshot := List (Bytes × StampedHealth)

namespace HealthSnapshot

/-- `addEndpoint`; an endpoint that is there stays as it is. -/
def add (snapshot : HealthSnapshot) (id : Bytes) (initiallyHealthy : Bool) (now : Int) :
    Except Exception HealthSnapshot :=
  if id.isEmpty then .error .InvalidArgument
  else if snapshot.any (·.1 = id) then .ok snapshot
  else .ok (snapshot ++ [(id, { healthy := initiallyHealthy, changedAt := now })])

def record (thresholds : HealthThresholds) (snapshot : HealthSnapshot) (o : Outcome) :
    HealthSnapshot :=
  snapshot.map fun (id, state) =>
    if id = o.id then (id, state.record thresholds o) else (id, state)

def state (snapshot : HealthSnapshot) (id : Bytes) : Option StampedHealth :=
  (snapshot.find? (·.1 = id)).map (·.2)

def isHealthy (snapshot : HealthSnapshot) (id : Bytes) : Bool :=
  match snapshot.state id with
  | some state => state.healthy
  | none => false

end HealthSnapshot

/-- Where a thread is in `record`. -/
inductive RecordPoint
  | idle
  | loading (id : Bytes) (success : Bool)
  /-- At the next round, with the snapshot that it has seen. -/
  | trying (id : Bytes) (success : Bool) (current : Nat)
  deriving DecidableEq, Repr

/-- A store in use: all snapshots that were published, the first one first, the outcomes of the
    exchanges that succeeded, and the calls that have returned, the last one first. -/
structure SharedHealth where
  thresholds : HealthThresholds
  published : List HealthSnapshot
  threads : List RecordPoint
  outcomes : List Outcome := []
  returned : List (Bytes × Bool) := []
  deriving DecidableEq, Repr

namespace SharedHealth

/-- The constructor, and the endpoints that are added before any outcome is recorded. -/
def create (healthyThreshold unhealthyThreshold : UInt32) (endpoints : List (Bytes × Bool × Int))
    (threads : Nat) : Except Exception SharedHealth :=
  let thresholds : HealthThresholds :=
    { healthyThreshold := healthyThreshold.toNat, unhealthyThreshold := unhealthyThreshold.toNat }
  if ¬ thresholds.Accepted then .error .InvalidArgument
  else
    (endpoints.foldlM (fun (snapshot : HealthSnapshot) e => snapshot.add e.1 e.2.1 e.2.2) []).map
      fun snapshot => { thresholds := thresholds, published := [snapshot],
                        threads := List.replicate threads .idle }

inductive Event
  | call (i : Nat) (id : Bytes) (success : Bool)
  | load (i : Nat)
  /-- One round of the loop, at a time; the exchange may fail for no reason. -/
  | round (i : Nat) (spurious : Bool) (now : Int)
  deriving DecidableEq, Repr

/-- The snapshot that a load gives. -/
def current (s : SharedHealth) : HealthSnapshot := s.published.getLastD []

def point (s : SharedHealth) (i : Nat) (next : RecordPoint) : SharedHealth :=
  { s with threads := s.threads.set i next }

/-- A round of a thread that has seen the snapshot at `version`. -/
def round (s : SharedHealth) (i : Nat) (id : Bytes) (success : Bool) (version : Nat)
    (spurious : Bool) (now : Int) : Option SharedHealth :=
  s.published[version]?.map fun seen =>
    if (seen.state id).isNone then
      { s.point i .idle with returned := (id, success) :: s.returned }
    else if version + 1 = s.published.length ∧ spurious = false then
      let o : Outcome := { id := id, success := success, now := now }
      { s.point i .idle with
        published := s.published ++ [seen.record s.thresholds o],
        outcomes := o :: s.outcomes,
        returned := (id, success) :: s.returned }
    else s.point i (.trying id success (s.published.length - 1))

def step (s : SharedHealth) : Event → Option SharedHealth
  | .call i id success =>
    match s.threads[i]? with
    | some .idle => some (s.point i (.loading id success))
    | _ => none
  | .load i =>
    match s.threads[i]? with
    | some (.loading id success) => some (s.point i (.trying id success (s.published.length - 1)))
    | _ => none
  | .round i spurious now =>
    match s.threads[i]? with
    | some (.trying id success version) => s.round i id success version spurious now
    | _ => none

/-! ### What is claimed of a run -/

/-- The outcomes of one endpoint, the last one first. -/
def outcomesOf (s : SharedHealth) (id : Bytes) : List Bool :=
  (s.outcomes.filter (·.id = id)).map (·.success)

/-- How many equal outcomes in a row decide. -/
def threshold (thresholds : HealthThresholds) (success : Bool) : Nat :=
  if success then thresholds.healthyThreshold else thresholds.unhealthyThreshold

/-- The snapshot is what the outcomes make of the first one, one after the other. -/
structure Linearized (initial : HealthSnapshot) (s : SharedHealth) : Prop where
  current : s.current = s.outcomes.foldr (fun o snapshot => snapshot.record s.thresholds o) initial
  /-- The outcomes are those of the calls that have returned, for the endpoints there are. -/
  lossless : s.outcomes.map (fun o => (o.id, o.success)) =
    s.returned.filter fun call => (initial.state call.1).isSome

/-- An endpoint is healthy as the last run of equal outcomes that has reached its threshold says,
    and as it was added when there was none. -/
def Hysteresis (initial : HealthSnapshot) (s : SharedHealth) : Prop :=
  ∀ id state, initial.state id = some state →
    s.current.isHealthy id =
      (RunLength.latest (threshold s.thresholds) (s.outcomesOf id)).getD state.healthy

/-- Snapshots that were obtained do not change, and an outcome is of one endpoint. -/
def Frames (s : SharedHealth) (_ : Event) (s' : SharedHealth) : Prop :=
  (∀ (version : Nat) (snapshot : HealthSnapshot), s.published[version]? = some snapshot →
    s'.published[version]? = some snapshot) ∧
  ∀ id, (∀ o, s'.outcomes = o :: s.outcomes → o.id ≠ id) →
    s'.current.state id = s.current.state id

/-! ### One endpoint -/

section Endpoint

variable {thresholds : HealthThresholds} {state : StampedHealth} {os : List Bool}
  {initially : Bool}

/-- The thresholds of a store, which are of 32 bits. -/
structure Bounded (thresholds : HealthThresholds) : Prop where
  pos : ∀ success, 0 < threshold thresholds success
  lt : ∀ success, threshold thresholds success < 2 ^ 32

/-- The state of an endpoint after some outcomes: the counters count the last run, modulo
    2^32. -/
structure Tracks (thresholds : HealthThresholds) (initially : Bool) (os : List Bool)
    (state : StampedHealth) : Prop where
  successes : state.consecutiveSuccesses = UInt32.ofNat (RunLength.current true os)
  failures : state.consecutiveFailures = UInt32.ofNat (RunLength.current false os)
  healthy : state.healthy = (RunLength.latest (threshold thresholds) os).getD initially

theorem record_success (thresholds : HealthThresholds) (state : StampedHealth) {o : Outcome}
    (h : o.success = true) : (state.record thresholds o).toEndpointHealth =
      state.succeeded thresholds := by
  unfold StampedHealth.record
  rw [h]
  rfl

theorem record_failure (thresholds : HealthThresholds) (state : StampedHealth) {o : Outcome}
    (h : o.success = false) : (state.record thresholds o).toEndpointHealth =
      state.failed thresholds := by
  unfold StampedHealth.record
  rw [h]
  rfl

/-- The counter reaches the threshold with one more outcome exactly if the run does, unless the
    run was long enough before. -/
theorem counter_iff (h : Bounded thresholds) (success : Bool)
    (hshort : ¬ threshold thresholds success ≤ RunLength.current success os) :
    threshold thresholds success ≤
        (UInt32.ofNat (RunLength.current success os) + 1).toNat ↔
      threshold thresholds success ≤ RunLength.current success os + 1 := by
  have hlt := h.lt success
  have hsum : (UInt32.ofNat (RunLength.current success os) + 1).toNat =
      RunLength.current success os + 1 := by
    have hsize : RunLength.current success os < UInt32.size := by
      show _ < 2 ^ 32
      omega
    have hone : (1 : UInt32).toNat = 1 := rfl
    rw [UInt32.toNat_add, UInt32.toNat_ofNat_of_lt' hsize, hone]
    exact Nat.mod_eq_of_lt (by omega)
  rw [hsum]

/-- **Step lemma** for one endpoint.  A counter may wrap, but not before its run has decided. -/
theorem Tracks.record (h : Tracks thresholds initially os state) (hbounded : Bounded thresholds)
    (o : Outcome) : Tracks thresholds initially (o.success :: os) (state.record thresholds o) := by
  cases hsuccess : o.success with
  | true =>
    have hstate := record_success thresholds state hsuccess
    have hne : false ≠ true := Bool.false_ne_true
    refine ⟨?_, ?_, ?_⟩
    · rw [hstate, RunLength.current_cons_self]
      show state.consecutiveSuccesses + 1 = _
      rw [h.successes, UInt32.ofNat_add]
      rfl
    · rw [hstate, RunLength.current_cons_of_ne hne]
      rfl
    · rw [hstate, RunLength.latest_cons]
      show (state.healthy || decide (threshold thresholds true ≤ _)) = _
      rw [h.successes]
      -- a run that long has decided already; else this success may complete it
      by_cases hlong : threshold thresholds true ≤ RunLength.current true os
      · have hdecided := RunLength.latest_of_le hlong (Nat.lt_of_lt_of_le (hbounded.pos true) hlong)
        rw [if_pos (by omega), h.healthy, hdecided]
        rfl
      · have hcounter := counter_iff hbounded true hlong
        by_cases hreached : threshold thresholds true ≤ RunLength.current true os + 1
        · rw [if_pos hreached, decide_eq_true (hcounter.mpr hreached)]
          simp
        · rw [if_neg hreached, decide_eq_false (mt hcounter.mp hreached), h.healthy]
          simp
  | false =>
    have hstate := record_failure thresholds state hsuccess
    have hne : true ≠ false := Bool.false_ne_true.symm
    refine ⟨?_, ?_, ?_⟩
    · rw [hstate, RunLength.current_cons_of_ne hne]
      rfl
    · rw [hstate, RunLength.current_cons_self]
      show state.consecutiveFailures + 1 = _
      rw [h.failures, UInt32.ofNat_add]
      rfl
    · rw [hstate, RunLength.latest_cons]
      show (state.healthy && !decide (threshold thresholds false ≤ _)) = _
      rw [h.failures]
      -- as for a success
      by_cases hlong : threshold thresholds false ≤ RunLength.current false os
      · have hdecided :=
          RunLength.latest_of_le hlong (Nat.lt_of_lt_of_le (hbounded.pos false) hlong)
        rw [if_pos (by omega), h.healthy, hdecided]
        rfl
      · have hcounter := counter_iff hbounded false hlong
        by_cases hreached : threshold thresholds false ≤ RunLength.current false os + 1
        · rw [if_pos hreached, decide_eq_true (hcounter.mpr hreached)]
          simp
        · rw [if_neg hreached, decide_eq_false (mt hcounter.mp hreached), h.healthy]
          simp

end Endpoint

/-! ### The map -/

/-- The map of a snapshot without the times, as `HealthStateStore` has it. -/
def endpoints (snapshot : HealthSnapshot) : List (Bytes × EndpointHealth) :=
  snapshot.map fun entry => (entry.1, entry.2.toEndpointHealth)

/-- An outcome does to a snapshot what a call of `HealthStateStore.record` does. -/
theorem endpoints_record (store : HealthStateStore) {snapshot : HealthSnapshot}
    (h : store.endpoints = endpoints snapshot) (o : Outcome) :
    (store.record o.id o.success).endpoints = endpoints (snapshot.record store.thresholds o) := by
  unfold HealthStateStore.record HealthSnapshot.record endpoints at *
  rw [h, List.map_map, List.map_map]
  apply List.map_congr_left
  intro entry _
  by_cases hown : entry.1 = o.id
  · cases hsuccess : o.success with
    | true => simp [hown, record_success store.thresholds entry.2 hsuccess]
    | false => simp [hown, record_failure store.thresholds entry.2 hsuccess]
  · simp [hown]

theorem state_record (thresholds : HealthThresholds) (snapshot : HealthSnapshot) (o : Outcome)
    (id : Bytes) : (snapshot.record thresholds o).state id =
      (snapshot.state id).map fun state =>
        if id = o.id then state.record thresholds o else state := by
  unfold HealthSnapshot.record HealthSnapshot.state
  induction snapshot with
  | nil => rfl
  | cons entry snapshot ih =>
    rw [List.map_cons, List.find?_cons, List.find?_cons]
    by_cases hname : entry.1 = id
    · by_cases hown : entry.1 = o.id
      · simp [hname, ← hown]
      · have hother : id ≠ o.id := hname ▸ hown
        simp [hname, hother]
    · by_cases hown : entry.1 = o.id
      · simpa [hname, hown, hown ▸ hname] using ih
      · simpa [hname, hown] using ih

/-- An endpoint follows its own outcomes. -/
theorem tracks_foldr {thresholds : HealthThresholds} (hbounded : Bounded thresholds)
    {initial : HealthSnapshot} {id : Bytes} {state : StampedHealth} {initially : Bool}
    (hstate : initial.state id = some state) (h : Tracks thresholds initially [] state)
    (outcomes : List Outcome) :
    ∃ state', (outcomes.foldr (fun o snapshot => snapshot.record thresholds o) initial).state id =
        some state' ∧
      Tracks thresholds initially ((outcomes.filter (·.id = id)).map (·.success)) state' := by
  induction outcomes with
  | nil => exact ⟨state, hstate, h⟩
  | cons o outcomes ih =>
    obtain ⟨state', hstate', htracks⟩ := ih
    rw [List.foldr_cons, state_record, hstate', Option.map_some]
    by_cases hown : o.id = id
    · rw [if_pos hown.symm, List.filter_cons_of_pos (by simpa using hown), List.map_cons]
      exact ⟨_, rfl, htracks.record hbounded o⟩
    · rw [if_neg (Ne.symm hown), List.filter_cons_of_neg (by simpa using hown)]
      exact ⟨state', rfl, htracks⟩

/-! ### Runs -/

variable {s s' : SharedHealth} {initial : HealthSnapshot} {thresholds : HealthThresholds} {i : Nat}

/-- What holds between two steps. -/
structure Inv (thresholds : HealthThresholds) (initial : HealthSnapshot) (s : SharedHealth) :
    Prop where
  same : s.thresholds = thresholds
  published : s.published ≠ []
  /-- No endpoint is added or removed. -/
  known : ∀ snapshot ∈ s.published, ∀ id,
    (snapshot.state id).isSome = (initial.state id).isSome
  linearized : s.Linearized initial

theorem state_isSome_record (thresholds : HealthThresholds) (snapshot : HealthSnapshot)
    (o : Outcome) (id : Bytes) :
    ((snapshot.record thresholds o).state id).isSome = (snapshot.state id).isSome := by
  rw [state_record, Option.isSome_map]

/-- A thread goes on, and leaves the store as it is. -/
theorem Inv.point (h : s.Inv thresholds initial) (i : Nat) (next : RecordPoint) (e : Event) :
    s.Frames e (s.point i next) ∧ (s.point i next).Inv thresholds initial :=
  ⟨⟨fun _ _ hsnapshot => hsnapshot, fun _ _ => rfl⟩,
    ⟨h.same, h.published, h.known, ⟨h.linearized.current, h.linearized.lossless⟩⟩⟩

theorem current_eq {version : Nat} {seen : HealthSnapshot}
    (hseen : s.published[version]? = some seen) (hlast : version + 1 = s.published.length) :
    s.current = seen := by
  rw [current, List.getLastD_eq_getLast?, List.getLast?_eq_getElem?, ← hlast,
    Nat.add_sub_cancel, hseen]
  rfl

/-- **Step lemma** for a round of the loop. -/
theorem Inv.round (h : s.Inv thresholds initial) {id : Bytes} {success spurious : Bool}
    {version : Nat} {now : Int}
    (hround : s.round i id success version spurious now = some s') :
    s.Frames (.round i spurious now) s' ∧ s'.Inv thresholds initial := by
  obtain ⟨seen, hseen, rfl⟩ := Option.map_eq_some_iff.mp hround
  have hknown := h.known seen (List.mem_of_getElem? hseen)
  split
  · -- the endpoint is not there, and nothing is recorded
    next hnone =>
    have hunknown : (initial.state id).isSome = false := by
      rw [← hknown, Option.isNone_iff_eq_none.mp hnone]
      rfl
    refine ⟨⟨fun _ _ hsnapshot => hsnapshot, fun _ _ => rfl⟩, h.same, h.published, h.known,
      h.linearized.current, ?_⟩
    show _ = ((id, success) :: s.returned).filter _
    rw [List.filter_cons_of_neg (by simp [hunknown])]
    exact h.linearized.lossless
  · next hsome =>
    have hfound : (initial.state id).isSome = true := by
      rw [← hknown, Option.isSome_iff_ne_none]
      simpa using hsome
    split
    · next hexchanged =>
      -- the snapshot read is still the current one: the exchange is the linearization point
      have hcurrent := current_eq hseen hexchanged.1
      have hlast (next : HealthSnapshot) : (s.published ++ [next]).getLastD [] = next := by
        rw [List.getLastD_concat]
      refine ⟨⟨?_, ?_⟩, ⟨h.same, ?_, ?_, ⟨?_, ?_⟩⟩⟩
      · intro version snapshot hsnapshot
        exact (List.getElem?_append_left (List.getElem?_eq_some_iff.mp hsnapshot).1).trans hsnapshot
      · intro other hother
        have hne : other ≠ id := fun heq => hother _ rfl heq.symm
        show HealthSnapshot.state ((s.published ++ [_]).getLastD []) other = _
        rw [hlast, state_record, hcurrent]
        simp [hne]
      · exact List.append_ne_nil_of_right_ne_nil _ (List.cons_ne_nil _ _)
      · intro snapshot hsnapshot other
        rcases List.mem_append.mp hsnapshot with hsnapshot | hsnapshot
        · exact h.known snapshot hsnapshot other
        · rw [List.mem_singleton.mp hsnapshot, state_isSome_record, hknown]
      · show (s.published ++ [_]).getLastD [] = _
        rw [hlast, ← hcurrent, h.linearized.current]
        rfl
      · show (id, success) :: _ = ((id, success) :: s.returned).filter _
        rw [List.filter_cons_of_pos (by exact hfound)]
        exact congrArg _ h.linearized.lossless
    · -- the exchange fails, and the loop reads again
      exact h.point i _ _

theorem Inv.step (h : s.Inv thresholds initial) {e : Event} (hstep : s.step e = some s') :
    s.Frames e s' ∧ s'.Inv thresholds initial := by
  cases e with
  | call i id success =>
    simp only [SharedHealth.step] at hstep
    split at hstep
    · obtain rfl := Option.some.inj hstep
      exact h.point i _ _
    · cases hstep
  | load i =>
    simp only [SharedHealth.step] at hstep
    split at hstep
    · obtain rfl := Option.some.inj hstep
      exact h.point i _ _
    · cases hstep
  | round i spurious now =>
    simp only [SharedHealth.step] at hstep
    split at hstep
    · exact h.round hstep
    · cases hstep

/-! ### The first snapshot -/

/-- The endpoints of the first snapshot have no outcome yet. -/
theorem state_add {snapshot snapshot' : HealthSnapshot} {id : Bytes} {initiallyHealthy : Bool}
    {now : Int} (hadd : snapshot.add id initiallyHealthy now = .ok snapshot')
    (h : ∀ id state, snapshot.state id = some state → Tracks thresholds state.healthy [] state) :
    ∀ id state, snapshot'.state id = some state → Tracks thresholds state.healthy [] state := by
  unfold HealthSnapshot.add at hadd
  split at hadd
  · cases hadd
  · split at hadd
    · obtain rfl := Except.ok.inj hadd
      exact h
    · obtain rfl := Except.ok.inj hadd
      intro other state hstate
      unfold HealthSnapshot.state at hstate h
      rw [List.find?_append, Option.map_or, Option.or_eq_some_iff] at hstate
      rcases hstate with hold | ⟨-, hnew⟩
      · exact h other state hold
      · obtain ⟨entry, hentry, rfl⟩ := Option.map_eq_some_iff.mp hnew
        have hmem := List.mem_singleton.mp (List.mem_of_find?_eq_some hentry)
        rw [hmem]
        exact ⟨rfl, rfl, rfl⟩

theorem tracks_foldlM {endpoints : List (Bytes × Bool × Int)} {snapshot initial : HealthSnapshot}
    (hbuild : endpoints.foldlM
      (fun (snapshot : HealthSnapshot) e => snapshot.add e.1 e.2.1 e.2.2) snapshot = .ok initial)
    (h : ∀ id state, snapshot.state id = some state → Tracks thresholds state.healthy [] state) :
    ∀ id state, initial.state id = some state → Tracks thresholds state.healthy [] state := by
  induction endpoints generalizing snapshot with
  | nil =>
    obtain rfl := Except.ok.inj hbuild
    exact h
  | cons endpoint endpoints ih =>
    rw [List.foldlM_cons] at hbuild
    cases hadd : snapshot.add endpoint.1 endpoint.2.1 endpoint.2.2 with
    | error exception =>
      rw [hadd] at hbuild
      cases hbuild
    | ok next =>
      rw [hadd] at hbuild
      exact ih hbuild (state_add hadd h)

theorem inv_create {healthyThreshold unhealthyThreshold : UInt32}
    {endpoints : List (Bytes × Bool × Int)} {threads : Nat}
    (hcreate : create healthyThreshold unhealthyThreshold endpoints threads = .ok s) :
    Bounded s.thresholds ∧ s.Inv s.thresholds s.current ∧
      ∀ id state, s.current.state id = some state → Tracks s.thresholds state.healthy [] state := by
  unfold create at hcreate
  dsimp only at hcreate
  split at hcreate
  · cases hcreate
  · next haccepted =>
    rw [not_not] at haccepted
    cases hbuild : endpoints.foldlM
        (fun (snapshot : HealthSnapshot) e => snapshot.add e.1 e.2.1 e.2.2) [] with
    | error exception =>
      rw [hbuild] at hcreate
      cases hcreate
    | ok initial =>
      rw [hbuild] at hcreate
      obtain rfl := Except.ok.inj hcreate
      -- the thresholds are positive, and 32 bits hold them
      refine ⟨⟨?_, ?_⟩, ⟨rfl, List.cons_ne_nil _ _, ?_, ⟨rfl, rfl⟩⟩, ?_⟩
      · intro success
        cases success with
        | true => exact Nat.pos_of_ne_zero haccepted.1
        | false => exact Nat.pos_of_ne_zero haccepted.2
      · intro success
        cases success with
        | true => exact healthyThreshold.toNat_lt
        | false => exact unhealthyThreshold.toNat_lt
      · intro snapshot hsnapshot id
        rw [List.mem_singleton.mp hsnapshot]
        rfl
      · exact tracks_foldlM hbuild fun id state hstate =>
          absurd hstate (by simp [HealthSnapshot.state])

theorem Inv.hysteresis (h : s.Inv thresholds initial) (hbounded : Bounded thresholds)
    (hinitial : ∀ id state, initial.state id = some state →
      Tracks thresholds state.healthy [] state) : s.Hysteresis initial := by
  intro id state hstate
  obtain ⟨state', hstate', htracks⟩ :=
    tracks_foldr hbounded hstate (hinitial id state hstate) s.outcomes
  unfold HealthSnapshot.isHealthy
  rw [h.linearized.current, h.same, hstate']
  exact htracks.healthy

/-- **Outcomes are not lost, and have hysteresis.** In every run of any number of threads, the
snapshot is what the outcomes make of the first one in the order of their exchanges, and an
endpoint is healthy exactly if the last run of equal outcomes that has reached its threshold was
of successes, or there was none and it was added healthy.  No step changes a snapshot that was
obtained, or an endpoint by the outcome of another. -/
theorem health_outcomes {healthyThreshold unhealthyThreshold : UInt32}
    {endpoints : List (Bytes × Bool × Int)} {threads : Nat}
    (hcreate : create healthyThreshold unhealthyThreshold endpoints threads = .ok s)
    (events : List Event) :
    Machine.Always step (fun t => t.Linearized s.current ∧ t.Hysteresis s.current) s events ∧
      Machine.EachStep step Frames s events := by
  obtain ⟨hbounded, hinv, hinitial⟩ := inv_create hcreate
  constructor
  · apply Machine.always_of_invariant (Inv s.thresholds s.current) _ _ events hinv
    · exact fun t h => ⟨h.linearized, h.hysteresis hbounded hinitial⟩
    · exact fun t e t' h hstep => (h.step hstep).2
  · apply Machine.eachStep_of_invariant (Inv s.thresholds s.current) _ events hinv
    exact fun t e t' h hstep => h.step hstep

/-- Two threads record a failure of an endpoint that needs two.  The exchange of the first one
    comes too late, and is made again on the snapshot of the second one. -/
def twoFailures : List Event :=
  [.call 0 (bytes "10.0.0.1:80") false, .call 1 (bytes "10.0.0.1:80") false, .load 0, .load 1,
    .round 1 true 5, .round 1 false 6, .round 0 false 7, .round 0 false 8]

theorem health_outcomes_twoFailures :
    ∃ s s', create 2 2 [(bytes "10.0.0.1:80", true, 0)] 2 = .ok s ∧
      Machine.run step s twoFailures = some s' ∧ s'.Linearized s.current ∧
      s'.Hysteresis s.current ∧ s'.current.isHealthy (bytes "10.0.0.1:80") = false := by
  cases hcreate : create 2 2 [(bytes "10.0.0.1:80", true, 0)] 2 with
  | error exception =>
    have hok : (create 2 2 [(bytes "10.0.0.1:80", true, 0)] 2).isOk = true := by decide +kernel
    rw [hcreate] at hok
    cases hok
  | ok s =>
    have hruns := (health_outcomes hcreate twoFailures).1
    have hhealthy : ((create 2 2 [(bytes "10.0.0.1:80", true, 0)] 2).toOption.bind fun s =>
        Machine.run step s twoFailures).map
          (fun s' => s'.current.isHealthy (bytes "10.0.0.1:80")) = some false := by
      decide +kernel
    rw [hcreate] at hhealthy
    obtain ⟨s', hrun, hunhealthy⟩ := Option.map_eq_some_iff.mp hhealthy
    obtain ⟨hlinearized, hhysteresis⟩ := hruns.last s' hrun
    exact ⟨s, s', rfl, hrun, hlinearized, hhysteresis, hunhealthy⟩

end SharedHealth
end PulseGate
