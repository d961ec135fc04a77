import PulseGate.Lib.BoundedCounter
import PulseGate.Lib.Machine
import PulseGate.Lib.Roster
import PulseGate.Cpp

namespace PulseGate

/-!
# The worker threads

`AsioRuntime` of `asio_runtime.cpp` with its `io_context`: handlers are posted, or become ready
when an operation completes, and are run by the threads in any order; `requestStop` is called
from any thread, also by a worker that a handler has thrown through.

`outstanding` is the work that the context counts: the handlers that are not done, and the guard.
When it comes to nothing the context stops, and stays stopped.  This is taken from Boost.Asio, and
not from the source: a handler counts as work from the moment it is posted, or its operation is
started, until it has returned or thrown (`begin`, `post`, `workFinished`); `run` stops a context
without work (`enter`), gives a ready handler to one thread and only while the context is not
stopped (`take`), and returns once it is stopped (`leave`).  Other work guards, of executors that
`require` outstanding work, are not modelled.

* `handlers_run_before_stop` — in every run a worker leaves the context only when all handlers
  have run, unless one throws, and not before `requestStop`;
* `join_returns` — after `requestStop` nothing keeps the workers: they run what is left, and
  `join` returns.
-/

/-- A call of `requestStop`. -/
inductive StopCall
  /-- At the load of `started_`. -/
  | loading
  | exchanging
  /-- The first one to ask, at the reset of the guard. -/
  | resetting
  | done
  /-- The runtime was not started. -/
  | ignored
  deriving DecidableEq, Repr

inductive WorkerStage
  /-- The thread is there, and about to call `run` of the context. -/
  | entering
  | running
  | executing (handler : Nat)
  /-- A handler has thrown, and the worker is in `requestStop`. -/
  | stopping (call : Nat)
  | finished
  deriving DecidableEq, Repr

/-- An operation in progress, and its handler. -/
inductive HandlerStage
  | pending
  | ready
  | executing (worker : Nat)
  | done
  deriving DecidableEq, Repr

structure AsioRuntime where
  threadCount : Nat
  started : Bool := false
  /-- `start` is between its exchange and `emplace`. -/
  placing : Bool := false
  workGuard : Bool := false
  stopRequested : Bool := false
  /-- `requestStop` was first called while `start` was there. -/
  guardLost : Bool := false
  workers : List WorkerStage := []
  handlers : List HandlerStage := []
  stops : List StopCall := []
  outstanding : Nat := 0
  stopped : Bool := false
  deriving DecidableEq, Repr

namespace AsioRuntime

def create (threadCount : Nat) : Except Exception AsioRuntime :=
  if threadCount = 0 then .error .InvalidArgument else .ok { threadCount := threadCount }

inductive Event
  | start
  | emplace
  /-- `start` creates a thread. -/
  | spawn
  /-- The thread calls `run`. -/
  | enter (worker : Nat)
  /-- An operation is started, or a handler is posted. -/
  | begin
  | post
  | complete (handler : Nat)
  | take (worker handler : Nat)
  | finish (worker : Nat) (throws : Bool)
  /-- `run` returns. -/
  | leave (worker : Nat)
  | callStop
  | advance (call : Nat)
  /-- A worker comes back from its call of `requestStop`. -/
  | comeBack (worker : Nat)
  deriving DecidableEq, Repr

/-- `work_finished` of the context. -/
def workFinished (s : AsioRuntime) : AsioRuntime :=
  { s with
    outstanding := s.outstanding - 1
    stopped := s.stopped || s.outstanding == 1 }

/-- The reset of the guard. -/
def resetGuard (s : AsioRuntime) : AsioRuntime :=
  if s.workGuard then { s with workGuard := false }.workFinished else s

def setWorker (s : AsioRuntime) (w : Nat) (stage : WorkerStage) : AsioRuntime :=
  { s with workers := s.workers.set w stage }

def setStop (s : AsioRuntime) (k : Nat) (call : StopCall) : AsioRuntime :=
  { s with stops := s.stops.set k call }

def step (s : AsioRuntime) : Event → Option AsioRuntime
  | .start =>
    -- a second call throws
    if s.started then some s else some { s with started := true, placing := true }
  | .emplace =>
    if s.placing then
      some { s with placing := false, workGuard := true, outstanding := s.outstanding + 1 }
    else none
  | .spawn =>
    if s.started ∧ !s.placing ∧ s.workers.length < s.threadCount then
      some { s with workers := s.workers ++ [.entering] }
    else none
  | .enter w =>
    if s.workers[w]? = some .entering then
      -- `run` stops a context without work
      some { s.setWorker w .running with stopped := s.stopped || s.outstanding == 0 }
    else none
  | .begin =>
    some { s with handlers := s.handlers ++ [.pending], outstanding := s.outstanding + 1 }
  | .post => some { s with handlers := s.handlers ++ [.ready], outstanding := s.outstanding + 1 }
  | .complete i =>
    if s.handlers[i]? = some .pending then some { s with handlers := s.handlers.set i .ready }
    else none
  | .take w i =>
    if s.workers[w]? = some .running ∧ !s.stopped ∧ s.handlers[i]? = some .ready then
      some { s.setWorker w (.executing i) with handlers := s.handlers.set i (.executing w) }
    else none
  | .finish w throws =>
    match s.workers[w]? with
    | some (.executing i) =>
      let s := { s with handlers := s.handlers.set i .done }.workFinished
      if throws then
        some { s.setWorker w (.stopping s.stops.length) with stops := s.stops ++ [.loading] }
      else some (s.setWorker w .running)
    | _ => none
  | .leave w =>
    if s.workers[w]? = some .running ∧ s.stopped then some (s.setWorker w .finished) else none
  | .callStop => some { s with stops := s.stops ++ [.loading] }
  | .advance k =>
    match s.stops[k]? with
    | some .loading => some (s.setStop k (if s.started then .exchanging else .ignored))
    | some .exchanging =>
      if s.stopRequested then some (s.setStop k .done)
      else some { s.setStop k .resetting with stopRequested := true, guardLost := s.placing }
    | some .resetting => some (s.setStop k .done).resetGuard
    | _ => none
  | .comeBack w =>
    match s.workers[w]? with
    | some (.stopping k) =>
      if s.stops[k]? = some .done then some (s.setWorker w .finished) else none
    | _ => none

/-! ### The accounts -/

/-- A handler that was not run to its end. -/
def isLeft : HandlerStage → Bool
  | .done => false
  | _ => true

structure Accounted (s : AsioRuntime) : Prop where
  outstanding : s.outstanding = s.handlers.countP isLeft + s.workGuard.toNat
  /-- A handler is run by one worker, and a worker runs one. -/
  pairs : ∀ w i, s.workers[w]? = some (WorkerStage.executing i) ↔
    s.handlers[i]? = some (HandlerStage.executing w)
  threads : s.workers.length ≤ s.threadCount
  workers : s.workers ≠ [] → s.started = true ∧ s.placing = false
  /-- The guard is there from `start` to `requestStop`. -/
  guarded : s.workGuard = true → s.started = true ∧ s.placing = false
  held : s.stopRequested = false → s.started = true → s.placing = false → s.workGuard = true
  /-- It is about to go after the first `requestStop`. -/
  released : s.stopRequested = true → s.guardLost = false →
    s.placing = false ∧ (s.workGuard = true → .resetting ∈ s.stops)
  stopped : s.stopped = true → s.stopRequested = true ∧ s.workGuard = false ∧ s.placing = false
  /-- A context without work has stopped. -/
  idle : s.started = true → s.placing = false → s.outstanding = 0 → s.stopped = true
  exchanging : .exchanging ∈ s.stops → s.started = true
  requested : ∀ call ∈ s.stops, call = .resetting ∨ call = .done → s.stopRequested = true
  /-- A worker is asked to stop by `requestStop` alone. -/
  finished : .finished ∈ s.workers → s.stopRequested = true
  stopping : ∀ k, .stopping k ∈ s.workers → ∃ call, s.stops[k]? = some call ∧ call ≠ .ignored
  placing : s.placing = true → s.started = true
  asked : s.stopRequested = true → s.started = true

/-- What a step does not do. -/
structure Proper (s : AsioRuntime) (e : Event) (s' : AsioRuntime) : Prop where
  /-- The context stops when there is nothing left to run. -/
  stops : s.stopped = false → s'.stopped = true → ∀ handler ∈ s'.handlers, handler = .done
  leaves : ∀ w, e = .leave w → s.stopped = true
  /-- A handler is not run again. -/
  once : ∀ i : Nat, s.handlers[i]? = some HandlerStage.done →
    s'.handlers[i]? = some HandlerStage.done

theorem accounted_init (threadCount : Nat) : Accounted { threadCount := threadCount } where
  outstanding := rfl
  pairs _ _ := iff_of_false nofun nofun
  threads := Nat.zero_le _
  workers h := absurd rfl h
  guarded := nofun
  held := nofun
  released := nofun
  stopped := nofun
  idle := nofun
  exchanging h := absurd h List.not_mem_nil
  requested _ h := absurd h List.not_mem_nil
  finished h := absurd h List.not_mem_nil
  stopping _ h := absurd h List.not_mem_nil
  placing := nofun
  asked := nofun

variable {s s' : AsioRuntime} {e : Event} {w i k : Nat} {old new : WorkerStage}

/-- A worker goes from a stage to another, and runs no handler in either. -/
theorem Accounted.setWorker (h : s.Accounted) (hw : s.workers[w]? = some old)
    (hold : ∀ i, old ≠ .executing i) (hnew : ∀ i, new ≠ .executing i)
    (hfinished : new = .finished → s.stopRequested = true)
    (hstopping : ∀ k, new = .stopping k → ∃ call, s.stops[k]? = some call ∧ call ≠ .ignored) :
    (s.setWorker w new).Accounted := by
  refine { h with pairs := ?_, threads := ?_, workers := ?_, finished := ?_, stopping := ?_ }
  · intro v i
    show (s.workers.set w new)[v]? = _ ↔ s.handlers[i]? = _
    rw [← h.pairs v i]
    grind
  · show (s.workers.set w new).length ≤ _
    rw [List.length_set]
    exact h.threads
  · intro _
    refine h.workers fun hnil => ?_
    rw [hnil] at hw
    cases hw
  · intro hmem
    rcases List.mem_or_eq_of_mem_set hmem with hmem | heq
    · exact h.finished hmem
    · exact hfinished heq.symm
  · intro k hmem
    rcases List.mem_or_eq_of_mem_set hmem with hmem | heq
    · exact h.stopping k hmem
    · exact hstopping k heq.symm

/-- A worker is there. -/
theorem Accounted.of_worker (h : s.Accounted) (hw : s.workers[w]? = some old) :
    s.started = true ∧ s.placing = false := by
  refine h.workers fun hnil => ?_
  rw [hnil] at hw
  cases hw

/-- A context with a worker and without work was asked to stop. -/
theorem Accounted.of_idle (h : s.Accounted) (hw : s.workers[w]? = some old)
    (hguard : s.workGuard = false) : s.stopRequested = true := by
  obtain ⟨hstarted, hplacing⟩ := h.of_worker hw
  by_contra hnot
  rw [h.held (by simpa using hnot) hstarted hplacing] at hguard
  cases hguard

/-- An operation is started, or a handler is posted. -/
theorem Accounted.begins (h : s.Accounted) {stage : HandlerStage} (hleft : isLeft stage = true)
    (hstage : ∀ w, stage ≠ .executing w) :
    ({ s with handlers := s.handlers ++ [stage], outstanding := s.outstanding + 1 } :
      AsioRuntime).Accounted := by
  refine { h with outstanding := ?_, pairs := ?_, idle := fun _ _ hzero => nomatch hzero }
  · show s.outstanding + 1 = (s.handlers ++ [stage]).countP isLeft + s.workGuard.toNat
    rw [h.outstanding, List.countP_append, List.countP_singleton, if_pos hleft]
    omega
  · intro w i
    show _ ↔ (s.handlers ++ [stage])[i]? = _
    rw [h.pairs w i]
    have hstage := hstage w
    grind

theorem Accounted.completes (h : s.Accounted) (hi : s.handlers[i]? = some .pending) :
    ({ s with handlers := s.handlers.set i .ready } : AsioRuntime).Accounted := by
  refine { h with outstanding := ?_, pairs := ?_ }
  · show s.outstanding = (s.handlers.set i .ready).countP isLeft + s.workGuard.toNat
    have hcount := BoundedCounter.countP_set isLeft hi .ready
    rw [h.outstanding]
    simp only [isLeft] at hcount
    omega
  · intro w j
    show _ ↔ (s.handlers.set i .ready)[j]? = _
    rw [h.pairs w j]
    grind

theorem Accounted.takes (h : s.Accounted) (hw : s.workers[w]? = some .running)
    (hi : s.handlers[i]? = some .ready) :
    ({ s.setWorker w (.executing i) with handlers := s.handlers.set i (.executing w) } :
      AsioRuntime).Accounted := by
  refine { h with outstanding := ?_, pairs := ?_, threads := ?_, workers := fun _ => h.of_worker hw,
                  finished := ?_, stopping := ?_ }
  · show s.outstanding = (s.handlers.set i (.executing w)).countP isLeft + s.workGuard.toNat
    have hcount := BoundedCounter.countP_set isLeft hi (.executing w)
    rw [h.outstanding]
    simp only [isLeft] at hcount
    omega
  · intro v j
    show (s.workers.set w (.executing i))[v]? = _ ↔ (s.handlers.set i (.executing w))[j]? = _
    have hold := h.pairs v j
    grind
  · show (s.workers.set w _).length ≤ _
    rw [List.length_set]
    exact h.threads
  · intro hmem
    exact h.finished ((List.mem_or_eq_of_mem_set hmem).resolve_right nofun)
  · intro k hmem
    exact h.stopping k ((List.mem_or_eq_of_mem_set hmem).resolve_right nofun)

theorem done_of_countP {handlers : List HandlerStage} (hzero : handlers.countP isLeft = 0) :
    ∀ handler ∈ handlers, handler = .done := by
  intro handler hmem
  have hleft := List.countP_eq_zero.mp hzero handler hmem
  cases handler with
  | done => rfl
  | _ => exact absurd rfl hleft

/-- What is left when a handler has run. -/
theorem countP_finish (hi : s.handlers[i]? = some (.executing w)) :
    s.handlers.countP isLeft = (s.handlers.set i .done).countP isLeft + 1 := by
  have hcount := BoundedCounter.countP_set isLeft hi .done
  simp only [isLeft] at hcount
  exact hcount.symm

theorem Accounted.finishes (h : s.Accounted) (hw : s.workers[w]? = some (.executing i))
    (new : WorkerStage) (hnew : ∀ i, new ≠ .executing i) (hfinished : new ≠ .finished)
    (hstopping : ∀ k, new = .stopping k → ∃ call, s.stops[k]? = some call ∧ call ≠ .ignored) :
    (({ s with handlers := s.handlers.set i .done } : AsioRuntime).workFinished.setWorker w
      new).Accounted := by
  have hi := (h.pairs w i).mp hw
  have hcount := countP_finish hi
  have hwork := h.outstanding
  refine { h with outstanding := ?_, pairs := ?_, threads := ?_, workers := fun _ => h.of_worker hw,
                  stopped := ?_, idle := ?_, finished := ?_, stopping := ?_ }
  · show s.outstanding - 1 = (s.handlers.set i .done).countP isLeft + s.workGuard.toNat
    omega
  · intro v j
    show (s.workers.set w new)[v]? = _ ↔ (s.handlers.set i .done)[j]? = _
    have hold := h.pairs v j
    have hone := h.pairs v i
    grind
  · show (s.workers.set w _).length ≤ _
    rw [List.length_set]
    exact h.threads
  · intro hstopped
    rcases Bool.or_eq_true_iff.mp hstopped with hstopped | hone
    · exact h.stopped hstopped
    · -- this was the last handler, and there is no guard
      have hguard : s.workGuard = false := by
        have hone : s.outstanding = 1 := by simpa using hone
        cases hguard : s.workGuard with
        | false => rfl
        | true =>
          rw [hguard, Bool.toNat_true] at hwork
          omega
      exact ⟨h.of_idle hw hguard, hguard, (h.of_worker hw).2⟩
  · intro _ _ hzero
    have hone : s.outstanding = 1 := by
      have hzero : s.outstanding - 1 = 0 := hzero
      omega
    show (s.stopped || s.outstanding == 1) = true
    rw [hone]
    exact Bool.or_true _
  · intro hmem
    exact h.finished ((List.mem_or_eq_of_mem_set hmem).resolve_right hfinished.symm)
  · intro k hmem
    rcases List.mem_or_eq_of_mem_set hmem with hmem | heq
    · exact h.stopping k hmem
    · exact hstopping k heq.symm

theorem Accounted.callsStop (h : s.Accounted) :
    ({ s with stops := s.stops ++ [.loading] } : AsioRuntime).Accounted := by
  refine { h with released := ?_, exchanging := ?_, requested := ?_, stopping := ?_ }
  · intro hrequested hlost
    obtain ⟨hplacing, hmem⟩ := h.released hrequested hlost
    exact ⟨hplacing, fun hguard => List.mem_append_left _ (hmem hguard)⟩
  · intro hmem
    rcases List.mem_append.mp hmem with hmem | hmem
    · exact h.exchanging hmem
    · exact absurd (List.mem_singleton.mp hmem) nofun
  · intro call hmem hasked
    rcases List.mem_append.mp hmem with hmem | hmem
    · exact h.requested call hmem hasked
    · obtain rfl := List.mem_singleton.mp hmem
      rcases hasked with h | h <;> cases h
  · intro k hmem
    obtain ⟨call, hcall, hne⟩ := h.stopping k hmem
    exact ⟨call, (List.getElem?_append_left (List.getElem?_eq_some_iff.mp hcall).1).trans hcall,
      hne⟩

/-- A call of `requestStop` goes to its next place; it was not the one at the reset. -/
theorem Accounted.setStop (h : s.Accounted) {call next : StopCall} (hk : s.stops[k]? = some call)
    (hcall : call ≠ .resetting) (hexchanging : next = .exchanging → s.started = true)
    (hrequested : next = .resetting ∨ next = .done → s.stopRequested = true)
    (hignored : next = .ignored → s.started = false) : (s.setStop k next).Accounted := by
  have hlt := (List.getElem?_eq_some_iff.mp hk).1
  refine { h with released := ?_, exchanging := ?_, requested := ?_, stopping := ?_ }
  · intro hrequested hlost
    obtain ⟨hplacing, hmem⟩ := h.released hrequested hlost
    refine ⟨hplacing, fun hguard => ?_⟩
    -- another call is at the reset
    obtain ⟨j, hj⟩ := List.mem_iff_getElem?.mp (hmem hguard)
    have hne : k ≠ j := by
      rintro rfl
      exact hcall (Option.some.inj (hk.symm.trans hj))
    exact List.mem_iff_getElem?.mpr ⟨j, (List.getElem?_set_ne hne).trans hj⟩
  · intro hmem
    rcases List.mem_or_eq_of_mem_set hmem with hmem | heq
    · exact h.exchanging hmem
    · exact hexchanging heq.symm
  · intro other hmem hasked
    rcases List.mem_or_eq_of_mem_set hmem with hmem | rfl
    · exact h.requested other hmem hasked
    · exact hrequested hasked
  · intro j hmem
    obtain ⟨other, hother, hne⟩ := h.stopping j hmem
    by_cases hkj : k = j
    · subst hkj
      refine ⟨next, List.getElem?_set_self hlt, fun hnext => ?_⟩
      -- a worker is there, so the runtime was started
      have hstarted := (h.workers (List.ne_nil_of_mem hmem)).1
      rw [hignored hnext] at hstarted
      cases hstarted
    · exact ⟨other, (List.getElem?_set_ne hkj).trans hother, hne⟩

/-- The first exchange. -/
theorem Accounted.exchanges (h : s.Accounted) (hk : s.stops[k]? = some .exchanging) :
    ({ s.setStop k .resetting with stopRequested := true, guardLost := s.placing } :
      AsioRuntime).Accounted := by
  have hlt := (List.getElem?_eq_some_iff.mp hk).1
  have hmem : .resetting ∈ s.stops.set k .resetting := List.mem_set hlt _
  refine { h with held := nofun, released := fun _ hlost => ⟨hlost, fun _ => hmem⟩,
                  stopped := ?_, exchanging := ?_, requested := fun _ _ _ => rfl,
                  finished := fun _ => rfl, stopping := ?_,
                  asked := fun _ => h.exchanging (List.mem_of_getElem? hk) }
  · intro hstopped
    obtain ⟨-, hguard, hplacing⟩ := h.stopped hstopped
    exact ⟨rfl, hguard, hplacing⟩
  · intro _
    exact h.exchanging (List.mem_of_getElem? hk)
  · intro j hmem
    obtain ⟨other, hother, hne⟩ := h.stopping j hmem
    by_cases hkj : k = j
    · subst hkj
      exact ⟨.resetting, List.getElem?_set_self hlt, nofun⟩
    · exact ⟨other, (List.getElem?_set_ne hkj).trans hother, hne⟩

/-- The reset of the guard. -/
theorem Accounted.resets (h : s.Accounted) (hk : s.stops[k]? = some .resetting) :
    (s.setStop k .done).resetGuard.Accounted := by
  have hlt := (List.getElem?_eq_some_iff.mp hk).1
  have hrequested := h.requested _ (List.mem_of_getElem? hk) (.inl rfl)
  have hexchanging : .exchanging ∈ s.stops.set k .done → s.started = true := fun hmem =>
    h.exchanging ((List.mem_or_eq_of_mem_set hmem).resolve_right nofun)
  have hstopping : ∀ j, .stopping j ∈ s.workers →
      ∃ call, (s.stops.set k .done)[j]? = some call ∧ call ≠ .ignored := by
    intro j hmem
    obtain ⟨other, hother, hne⟩ := h.stopping j hmem
    by_cases hkj : k = j
    · subst hkj
      exact ⟨.done, List.getElem?_set_self hlt, nofun⟩
    · exact ⟨other, (List.getElem?_set_ne hkj).trans hother, hne⟩
  unfold resetGuard
  split
  · next hguard =>
    have hguard : s.workGuard = true := hguard
    have hwork := h.outstanding
    rw [hguard, Bool.toNat_true] at hwork
    obtain ⟨hstarted, hplacing⟩ := h.guarded hguard
    refine { h with outstanding := ?_, guarded := nofun, held := ?_,
                    released := fun _ _ => ⟨hplacing, nofun⟩,
                    stopped := fun _ => ⟨hrequested, rfl, hplacing⟩, idle := ?_,
                    exchanging := hexchanging, requested := fun _ _ _ => hrequested,
                    stopping := hstopping }
    · show s.outstanding - 1 = s.handlers.countP isLeft + 0
      omega
    · intro hnot
      rw [show s.stopRequested = false from hnot] at hrequested
      cases hrequested
    · intro _ _ hzero
      have hone : s.outstanding = 1 := by
        have hzero : s.outstanding - 1 = 0 := hzero
        omega
      show (s.stopped || s.outstanding == 1) = true
      rw [hone]
      exact Bool.or_true _
  · next hguard =>
    -- the guard was not there yet, or is gone
    have hguard : s.workGuard ≠ true := hguard
    refine { h with released := fun hrequested hlost => ?_, exchanging := hexchanging,
                    requested := fun _ _ _ => hrequested, stopping := hstopping }
    exact ⟨(h.released hrequested hlost).1, fun hheld => absurd hheld hguard⟩

/-- `start` has set `started_`. -/
theorem Accounted.starts (h : s.Accounted) (hfirst : s.started ≠ true) :
    ({ s with started := true, placing := true } : AsioRuntime).Accounted := by
  have hnot : s.stopRequested ≠ true := fun hrequested => hfirst (h.asked hrequested)
  exact { h with
    workers := fun hne => absurd (h.workers hne).1 hfirst
    guarded := fun hguard => absurd (h.guarded hguard).1 hfirst
    held := nofun
    released := fun hrequested => absurd hrequested hnot
    stopped := fun hstopped => absurd (h.stopped hstopped).1 hnot
    idle := nofun
    exchanging := fun _ => rfl
    placing := fun _ => rfl
    asked := fun _ => rfl }

theorem Accounted.emplaces (h : s.Accounted) (hplacing : s.placing = true) :
    ({ s with placing := false, workGuard := true, outstanding := s.outstanding + 1 } :
      AsioRuntime).Accounted := by
  have hguard : s.workGuard = false := by
    cases hguard : s.workGuard with
    | false => rfl
    | true =>
      rw [(h.guarded hguard).2] at hplacing
      cases hplacing
  have hwork := h.outstanding
  refine { h with
    outstanding := ?_
    workers := fun hne => ⟨(h.workers hne).1, rfl⟩
    guarded := fun _ => ⟨h.placing hplacing, rfl⟩
    held := fun _ _ _ => rfl
    released := fun hrequested hlost => ?_
    stopped := fun hstopped => ?_
    idle := fun _ _ hzero => nomatch hzero
    placing := nofun }
  · show s.outstanding + 1 = s.handlers.countP isLeft + 1
    rw [hwork, hguard]
    rfl
  · rw [(h.released hrequested hlost).1] at hplacing
    cases hplacing
  · rw [(h.stopped hstopped).2.2] at hplacing
    cases hplacing

theorem Accounted.spawns (h : s.Accounted) (hstarted : s.started = true)
    (hplacing : s.placing = false) (hroom : s.workers.length < s.threadCount) :
    ({ s with workers := s.workers ++ [.entering] } : AsioRuntime).Accounted := by
  refine { h with
    pairs := fun w i => ?_
    threads := ?_
    workers := fun _ => ⟨hstarted, hplacing⟩
    finished := fun hmem => ?_
    stopping := fun k hmem => ?_ }
  · show (s.workers ++ [WorkerStage.entering])[w]? = _ ↔ s.handlers[i]? = _
    rw [← h.pairs w i]
    grind
  · show (s.workers ++ [WorkerStage.entering]).length ≤ s.threadCount
    rw [List.length_append]
    exact hroom
  · refine h.finished ((List.mem_append.mp hmem).resolve_right fun hmem => ?_)
    cases List.mem_singleton.mp hmem
  · refine h.stopping k ((List.mem_append.mp hmem).resolve_right fun hmem => ?_)
    cases List.mem_singleton.mp hmem

/-- A context that a worker enters without work has stopped before. -/
theorem Accounted.enters (h : s.Accounted) (hw : s.workers[w]? = some .entering) :
    (s.stopped || s.outstanding == 0) = s.stopped := by
  cases hstopped : s.stopped with
  | true => rfl
  | false =>
    obtain ⟨hstarted, hplacing⟩ := h.of_worker hw
    have hwork : s.outstanding ≠ 0 := fun hzero => by
      rw [h.idle hstarted hplacing hzero] at hstopped
      cases hstopped
    simpa using hwork

/-- **Step lemma.** -/
theorem Accounted.step (h : s.Accounted) (hstep : s.step e = some s') :
    Proper s e s' ∧ s'.Accounted := by
  have hsame : ∀ {p : Prop}, s.stopped = false → s.stopped = true → p := fun hnot hstopped => by
    rw [hnot] at hstopped
    cases hstopped
  cases e with
  | start =>
    simp only [AsioRuntime.step] at hstep
    split at hstep
    · obtain rfl := Option.some.inj hstep
      exact ⟨⟨hsame, nofun, fun _ => id⟩, h⟩
    · next hfirst =>
      obtain rfl := Option.some.inj hstep
      exact ⟨⟨hsame, nofun, fun _ => id⟩, h.starts hfirst⟩
  | emplace =>
    simp only [AsioRuntime.step] at hstep
    split at hstep
    · next hplacing =>
      obtain rfl := Option.some.inj hstep
      exact ⟨⟨hsame, nofun, fun _ => id⟩, h.emplaces hplacing⟩
    · cases hstep
  | spawn =>
    simp only [AsioRuntime.step] at hstep
    split at hstep
    · next hroom =>
      obtain rfl := Option.some.inj hstep
      obtain ⟨hstarted, hplacing, hroom⟩ := hroom
      exact ⟨⟨hsame, nofun, fun _ => id⟩, h.spawns hstarted (by simpa using hplacing) hroom⟩
    · cases hstep
  | enter w =>
    simp only [AsioRuntime.step] at hstep
    split at hstep
    · next hw =>
      rw [h.enters hw] at hstep
      obtain rfl := Option.some.inj hstep
      exact ⟨⟨hsame, nofun, fun _ => id⟩, h.setWorker hw nofun nofun nofun nofun⟩
    · cases hstep
  | begin =>
    obtain rfl := Option.some.inj hstep
    refine ⟨⟨hsame, nofun, fun i hi => ?_⟩, h.begins rfl nofun⟩
    exact (List.getElem?_append_left (List.getElem?_eq_some_iff.mp hi).1).trans hi
  | post =>
    obtain rfl := Option.some.inj hstep
    refine ⟨⟨hsame, nofun, fun i hi => ?_⟩, h.begins rfl nofun⟩
    exact (List.getElem?_append_left (List.getElem?_eq_some_iff.mp hi).1).trans hi
  | complete i =>
    simp only [AsioRuntime.step] at hstep
    split at hstep
    · next hi =>
      obtain rfl := Option.some.inj hstep
      refine ⟨⟨hsame, nofun, fun j hj => ?_⟩, h.completes hi⟩
      show (s.handlers.set i .ready)[j]? = _
      grind
    · cases hstep
  | take w i =>
    simp only [AsioRuntime.step] at hstep
    split at hstep
    · next htake =>
      obtain ⟨hw, -, hi⟩ := htake
      obtain rfl := Option.some.inj hstep
      refine ⟨⟨hsame, nofun, fun j hj => ?_⟩, h.takes hw hi⟩
      show (s.handlers.set i (.executing w))[j]? = _
      grind
    · cases hstep
  | finish w throws =>
    simp only [AsioRuntime.step] at hstep
    split at hstep
    · next i hw =>
      have hcount := countP_finish ((h.pairs w i).mp hw)
      have hwork := h.outstanding
      have honce : ∀ j : Nat, s.handlers[j]? = some HandlerStage.done →
          (s.handlers.set i .done)[j]? = some HandlerStage.done := by
        intro j hj
        grind
      -- the last work that is finished
      have hstops : s.stopped = false → (s.stopped || s.outstanding == 1) = true →
          ∀ handler ∈ s.handlers.set i .done, handler = .done := by
        intro hnot hnow
        rw [hnot, Bool.false_or, beq_iff_eq] at hnow
        exact done_of_countP (by omega)
      split at hstep
      · obtain rfl := Option.some.inj hstep
        refine ⟨⟨hstops, nofun, honce⟩, ?_⟩
        have hasked := h.callsStop.finishes hw (.stopping s.stops.length) nofun nofun
          (fun k hk => ⟨.loading, ?_, nofun⟩)
        · exact hasked
        · obtain rfl := WorkerStage.stopping.inj hk
          exact List.getElem?_concat_length
      · obtain rfl := Option.some.inj hstep
        exact ⟨⟨hstops, nofun, honce⟩, h.finishes hw .running nofun nofun nofun⟩
    · cases hstep
  | leave w =>
    simp only [AsioRuntime.step] at hstep
    split at hstep
    · next hleave =>
      obtain ⟨hw, hstopped⟩ := hleave
      obtain rfl := Option.some.inj hstep
      exact ⟨⟨hsame, fun _ _ => hstopped, fun _ => id⟩,
        h.setWorker hw nofun nofun (fun _ => (h.stopped hstopped).1) nofun⟩
    · cases hstep
  | callStop =>
    obtain rfl := Option.some.inj hstep
    exact ⟨⟨hsame, nofun, fun _ => id⟩, h.callsStop⟩
  | advance k =>
    simp only [AsioRuntime.step] at hstep
    split at hstep
    · next hk =>
      obtain rfl := Option.some.inj hstep
      refine ⟨⟨hsame, nofun, fun _ => id⟩, h.setStop hk nofun ?_ ?_ ?_⟩ <;> split <;> simp_all
    · next hk =>
      split at hstep
      · next hrequested =>
        obtain rfl := Option.some.inj hstep
        exact ⟨⟨hsame, nofun, fun _ => id⟩, h.setStop hk nofun nofun (fun _ => hrequested) nofun⟩
      · obtain rfl := Option.some.inj hstep
        exact ⟨⟨hsame, nofun, fun _ => id⟩, h.exchanges hk⟩
    · next hk =>
      obtain rfl := Option.some.inj hstep
      have hwork := h.outstanding
      refine ⟨⟨?_, nofun, ?_⟩, h.resets hk⟩ <;> unfold resetGuard <;> split
      · next hguard =>
        -- the guard was the last work
        intro hnot hnow
        rw [show s.workGuard = true from hguard, Bool.toNat_true] at hwork
        have hnow : (s.stopped || s.outstanding == 1) = true := hnow
        rw [hnot, Bool.false_or, beq_iff_eq] at hnow
        exact done_of_countP (show s.handlers.countP isLeft = 0 by omega)
      · exact hsame
      · exact fun _ => id
      · exact fun _ => id
    · cases hstep
  | comeBack w =>
    simp only [AsioRuntime.step] at hstep
    split at hstep
    · next k hw =>
      split at hstep
      · next hk =>
        obtain rfl := Option.some.inj hstep
        exact ⟨⟨hsame, nofun, fun _ => id⟩, h.setWorker hw nofun nofun
          (fun _ => h.requested _ (List.mem_of_getElem? hk) (.inr rfl)) nofun⟩
      · cases hstep
    · cases hstep

/-- **All handlers run before the context stops.** In every run of any calls, operations and
handlers, `start` and `requestStop` in any order: a handler is run by one worker at a time, and not
again when it is done; the context counts the handlers that are not done, and the guard; it stops
only when no handler is left, and not before `requestStop`; and a worker leaves it only then, or
when a handler has thrown. -/
theorem handlers_run_before_stop (threadCount : Nat) (events : List Event) :
    Machine.Always AsioRuntime.step Accounted { threadCount := threadCount } events ∧
      Machine.EachStep AsioRuntime.step Proper { threadCount := threadCount } events := by
  have hinit := accounted_init threadCount
  constructor
  · exact Machine.always_of_invariant Accounted (fun _ h => h)
      (fun _ _ _ h hstep => (h.step hstep).2) events hinit
  · apply Machine.eachStep_of_invariant Accounted _ events hinit
    exact fun s e s' h hstep => h.step hstep

/-! ### `join` returns -/

/-- No call from outside, no new work, and no handler that throws. -/
def Internal : Event → Prop
  | .start | .begin | .post | .callStop | .finish _ true => False
  | _ => True

def workerWeight : WorkerStage → Nat
  | .entering | .stopping _ => 2
  | .running | .executing _ => 1
  | .finished => 0

def handlerWeight : HandlerStage → Nat
  | .pending => 3
  | .ready => 2
  | .executing _ => 1
  | .done => 0

def stopWeight : StopCall → Nat
  | .loading => 3
  | .exchanging => 2
  | .resetting => 1
  | .done | .ignored => 0

/-- How many steps are left. -/
def remaining (s : AsioRuntime) : Nat :=
  s.placing.toNat + 3 * (s.threadCount - s.workers.length) + (s.workers.map workerWeight).sum +
    (s.handlers.map handlerWeight).sum + (s.stops.map stopWeight).sum

/-- The worker has not come to a handler that throws. -/
def isAlive : WorkerStage → Bool
  | .entering | .running | .executing _ => true
  | _ => false

/-- All threads are there, and have returned. -/
def Joined (s : AsioRuntime) : Prop :=
  s.workers.length = s.threadCount ∧ ∀ worker ∈ s.workers, worker = .finished

/-- What holds on the way to the end. -/
structure Ending (before s : AsioRuntime) : Prop where
  accounted : s.Accounted
  started : s.started = true
  requested : s.stopRequested = true
  placed : s.guardLost = false
  threads : s.threadCount = before.threadCount
  /-- The context has stopped on the way only. -/
  natural : before.stopped = false → s.stopped = true → ∀ handler ∈ s.handlers, handler = .done
  alive : (∃ worker ∈ before.workers, isAlive worker = true) →
    s.stopped = true ∨ ∃ worker ∈ s.workers, isAlive worker = true

/-- The end can come nearer. -/
def GoesOn (before s : AsioRuntime) : Prop :=
  ∃ es s', Machine.run AsioRuntime.step s es = some s' ∧ (∀ e ∈ es, Internal e) ∧
    Ending before s' ∧ s'.remaining < s.remaining

/-- What the internal steps do not change. -/
theorem frame (hrequested : s.stopRequested = true) (hinternal : Internal e)
    (hstep : s.step e = some s') :
    s'.started = s.started ∧ s'.stopRequested = true ∧ s'.guardLost = s.guardLost ∧
      s'.threadCount = s.threadCount := by
  have hreset : ∀ t : AsioRuntime, t.resetGuard.started = t.started ∧
      t.resetGuard.stopRequested = t.stopRequested ∧ t.resetGuard.guardLost = t.guardLost ∧
      t.resetGuard.threadCount = t.threadCount := by
    intro t
    unfold resetGuard
    split <;> exact ⟨rfl, rfl, rfl, rfl⟩
  unfold AsioRuntime.step at hstep
  cases e with
  | start => cases hinternal
  | begin => cases hinternal
  | post => cases hinternal
  | callStop => cases hinternal
  | advance k =>
    have hreset := hreset (s.setStop k .done)
    grind [AsioRuntime.setStop]
  | _ => grind [AsioRuntime.setWorker, workFinished]

/-- When all handlers are done there is nothing to do about handlers. -/
theorem Accounted.handlers_of_done (h : s.Accounted)
    (hdone : ∀ handler ∈ s.handlers, handler = .done) (hinternal : Internal e)
    (hstep : s.step e = some s') : s'.handlers = s.handlers := by
  have hnone : ∀ (i : Nat) (stage : HandlerStage), s.handlers[i]? = some stage → stage = .done :=
    fun i stage hi => hdone stage (List.mem_of_getElem? hi)
  unfold AsioRuntime.step at hstep
  cases e with
  | start => cases hinternal
  | begin => cases hinternal
  | post => cases hinternal
  | callStop => cases hinternal
  | complete i => grind
  | take w i => grind
  | finish w throws =>
    -- a worker that runs a handler has one that is not done
    have hpairs := h.pairs w
    grind
  | advance k => grind [resetGuard, workFinished, AsioRuntime.setStop]
  | _ => grind [AsioRuntime.setWorker]

theorem exists_alive_set {workers : List WorkerStage} (hw : workers[w]? = some old)
    (new : WorkerStage) (hnew : isAlive new = true ∨ isAlive old = false)
    (halive : ∃ worker ∈ workers, isAlive worker = true) :
    ∃ worker ∈ workers.set w new, isAlive worker = true := by
  obtain ⟨worker, hmem, halive⟩ := halive
  obtain ⟨v, hv⟩ := List.mem_iff_getElem?.mp hmem
  by_cases hwv : w = v
  · subst hwv
    obtain rfl := Option.some.inj (hw.symm.trans hv)
    rcases hnew with hnew | hold
    · exact ⟨new, List.mem_set (List.getElem?_eq_some_iff.mp hw).1 new, hnew⟩
    · rw [hold] at halive
      cases halive
  · exact ⟨worker, List.mem_of_getElem? ((List.getElem?_set_ne hwv).trans hv), halive⟩

theorem stopped_step (hstopped : s.stopped = true) (hstep : s.step e = some s') :
    s'.stopped = true := by
  unfold AsioRuntime.step at hstep
  cases e <;> grind [resetGuard, workFinished, AsioRuntime.setStop, AsioRuntime.setWorker]

/-- A worker stays until the context has stopped. -/
theorem alive_step (hinternal : Internal e) (hstep : s.step e = some s')
    (halive : ∃ worker ∈ s.workers, isAlive worker = true) :
    s'.stopped = true ∨ ∃ worker ∈ s'.workers, isAlive worker = true := by
  simp only [AsioRuntime.step] at hstep
  cases e with
  | start => cases hinternal
  | begin => cases hinternal
  | post => cases hinternal
  | callStop => cases hinternal
  | advance k => grind [resetGuard, workFinished, AsioRuntime.setStop]
  | emplace => grind
  | complete i => grind
  | spawn => grind
  | enter w =>
    simp only at hstep
    split at hstep
    · next hw =>
      obtain rfl := Option.some.inj hstep
      exact .inr (exists_alive_set hw .running (.inl rfl) halive)
    · cases hstep
  | take w i =>
    simp only at hstep
    split at hstep
    · next htake =>
      obtain rfl := Option.some.inj hstep
      exact .inr (exists_alive_set htake.1 (.executing i) (.inl rfl) halive)
    · cases hstep
  | finish w throws =>
    cases throws with
    | true => cases hinternal
    | false =>
      simp only [Bool.false_eq_true, if_false] at hstep
      split at hstep
      · next i hw =>
        obtain rfl := Option.some.inj hstep
        exact .inr (exists_alive_set hw .running (.inl rfl) halive)
      · cases hstep
  | leave w =>
    simp only at hstep
    split at hstep
    · next hleave =>
      obtain rfl := Option.some.inj hstep
      exact .inl hleave.2
    · cases hstep
  | comeBack w =>
    simp only at hstep
    split at hstep
    · next k hw =>
      split at hstep
      · obtain rfl := Option.some.inj hstep
        exact .inr (exists_alive_set hw .finished (.inr rfl) halive)
      · cases hstep
    · cases hstep

variable {before : AsioRuntime}

theorem Ending.step (h : Ending before s) (hinternal : Internal e) (hstep : s.step e = some s') :
    Ending before s' := by
  obtain ⟨hproper, haccounted⟩ := h.accounted.step hstep
  obtain ⟨hstarted, hrequested, hlost, hthreads⟩ := frame h.requested hinternal hstep
  refine ⟨haccounted, hstarted.trans h.started, hrequested, hlost.trans h.placed,
    hthreads.trans h.threads, fun hbefore hstopped => ?_, fun hbefore => ?_⟩
  · by_cases hearlier : s.stopped = true
    · have hdone := h.natural hbefore hearlier
      rw [h.accounted.handlers_of_done hdone hinternal hstep]
      exact hdone
    · exact hproper.stops (by simpa using hearlier) hstopped
  · rcases h.alive hbefore with hstopped | halive
    · exact .inl (stopped_step hstopped hstep)
    · exact alive_step hinternal hstep halive

theorem Ending.goes (h : Ending before s) (e : Event) (s' : AsioRuntime) (hinternal : Internal e)
    (hstep : s.step e = some s') (hless : s'.remaining < s.remaining) : GoesOn before s := by
  refine ⟨[e], s', ?_, List.forall_mem_singleton.mpr hinternal, h.step hinternal hstep, hless⟩
  rw [Machine.run, hstep]
  rfl

/-- A call of `requestStop` comes to its end. -/
theorem Ending.advances (h : Ending before s) {call : StopCall} (hk : s.stops[k]? = some call)
    (hopen : stopWeight call ≠ 0) : GoesOn before s := by
  have hless : ∀ (t : AsioRuntime) (next : StopCall), t.stops = s.stops.set k next →
      t.placing = s.placing → t.threadCount = s.threadCount → t.workers = s.workers →
      t.handlers = s.handlers → stopWeight next < stopWeight call →
      t.remaining < s.remaining := by
    intro t next hstops hplacing hthreads hworkers hhandlers hweight
    have hsum := Roster.sum_set stopWeight hk next
    unfold remaining
    rw [hstops, hplacing, hthreads, hworkers, hhandlers]
    omega
  cases call with
  | loading =>
    refine h.goes (.advance k) (s.setStop k .exchanging) trivial ?_
      (hless _ .exchanging rfl rfl rfl rfl rfl (by decide))
    simp [AsioRuntime.step, hk, h.started]
  | exchanging =>
    refine h.goes (.advance k) (s.setStop k .done) trivial ?_
      (hless _ .done rfl rfl rfl rfl rfl (by decide))
    simp [AsioRuntime.step, hk, h.requested]
  | resetting =>
    have hreset : (s.setStop k .done).resetGuard.remaining < s.remaining := by
      unfold resetGuard
      split <;> exact hless _ .done rfl rfl rfl rfl rfl (by decide)
    refine h.goes (.advance k) _ trivial ?_ hreset
    simp [AsioRuntime.step, hk]
  | done => exact absurd rfl hopen
  | ignored => exact absurd rfl hopen

/-- A worker goes to a later stage, or its handler does. -/
theorem remaining_set {t : AsioRuntime} (hw : s.workers[w]? = some old) (new : WorkerStage)
    (hworkers : t.workers = s.workers.set w new)
    (hhandlers : (t.handlers.map handlerWeight).sum + workerWeight new <
      (s.handlers.map handlerWeight).sum + workerWeight old)
    (hplacing : t.placing = s.placing) (hthreads : t.threadCount = s.threadCount)
    (hstops : t.stops = s.stops) : t.remaining < s.remaining := by
  have hsum := Roster.sum_set workerWeight hw new
  unfold remaining
  rw [hstops, hplacing, hthreads, hworkers, List.length_set]
  omega

/-- A worker runs its handler to the end. -/
theorem Ending.finishes (h : Ending before s) (hw : s.workers[w]? = some (.executing i)) :
    GoesOn before s := by
  have hsum := Roster.sum_set handlerWeight ((h.accounted.pairs w i).mp hw) .done
  refine h.goes (.finish w false) (({ s with handlers := s.handlers.set i .done } :
    AsioRuntime).workFinished.setWorker w .running) trivial ?_
    (remaining_set hw .running rfl ?_ rfl rfl rfl)
  · simp [AsioRuntime.step, hw]
  · show ((s.handlers.set i .done).map handlerWeight).sum + 1 < _ + 1
    simp only [handlerWeight] at hsum
    omega

/-- A worker that is in `run` has something to do. -/
theorem Ending.runs (h : Ending before s) (hw : s.workers[w]? = some .running)
    (hcalls : ∀ call ∈ s.stops, stopWeight call = 0) : GoesOn before s := by
  by_cases hstopped : s.stopped = true
  · refine h.goes (.leave w) (s.setWorker w .finished) trivial ?_
      (remaining_set hw .finished rfl (by simp [workerWeight, AsioRuntime.setWorker]) rfl
        rfl rfl)
    simp [AsioRuntime.step, hw, hstopped]
  · -- there is no guard, so there is a handler
    obtain ⟨hstarted, hplacing⟩ := h.accounted.of_worker hw
    have hguard : s.workGuard = false := by
      cases hguard : s.workGuard with
      | false => rfl
      | true =>
        have hmem := (h.accounted.released h.requested h.placed).2 hguard
        exact absurd (hcalls _ hmem) (by decide)
    have hwork := h.accounted.outstanding
    have hleft : 0 < s.handlers.countP isLeft := by
      rw [hguard, Bool.toNat_false, Nat.add_zero] at hwork
      rw [← hwork]
      exact Nat.pos_of_ne_zero fun hzero => hstopped (h.accounted.idle hstarted hplacing hzero)
    obtain ⟨handler, hmem, hhandler⟩ := List.countP_pos_iff.mp hleft
    obtain ⟨i, hi⟩ := List.mem_iff_getElem?.mp hmem
    cases handler with
    | pending =>
      have hsum := Roster.sum_set handlerWeight hi .ready
      refine h.goes (.complete i) { s with handlers := s.handlers.set i .ready } trivial ?_
        ?_
      · simp [AsioRuntime.step, hi]
      · simp only [handlerWeight] at hsum
        unfold remaining
        show _ + ((s.handlers.set i .ready).map handlerWeight).sum + _ < _
        simp only
        omega
    | ready =>
      have hsum := Roster.sum_set handlerWeight hi (.executing w)
      refine h.goes (.take w i) { s.setWorker w (.executing i) with
        handlers := s.handlers.set i (.executing w) } trivial ?_
        (remaining_set hw (.executing i) rfl ?_ rfl rfl rfl)
      · simp [AsioRuntime.step, hw, hi, hstopped]
      · show ((s.handlers.set i (.executing w)).map handlerWeight).sum + 1 < _ + 1
        simp only [handlerWeight] at hsum
        omega
    | executing v => exact h.finishes ((h.accounted.pairs v i).mpr hi)
    | done => cases hhandler

/-- **As long as a worker has not returned, something can go on.** -/
theorem Ending.progress (h : Ending before s) (hbusy : ¬ Joined s) : GoesOn before s := by
  have hplacing := (h.accounted.released h.requested h.placed).1
  by_cases hroom : s.workers.length < s.threadCount
  · refine h.goes .spawn { s with workers := s.workers ++ [.entering] } trivial ?_ ?_
    · simp [AsioRuntime.step, h.started, hplacing, hroom]
    · unfold remaining
      simp only [List.length_append, List.length_singleton, List.map_append, List.sum_append,
        List.map_singleton, List.sum_singleton, workerWeight]
      omega
  by_cases hcalls : ∀ call ∈ s.stops, stopWeight call = 0
  · have hlength : s.workers.length = s.threadCount :=
      Nat.le_antisymm h.accounted.threads (Nat.not_lt.mp hroom)
    obtain ⟨worker, hmem, hworker⟩ : ∃ worker ∈ s.workers, worker ≠ .finished := by
      by_contra hnone
      refine hbusy ⟨hlength, fun worker hmem => ?_⟩
      by_contra hne
      exact hnone ⟨worker, hmem, hne⟩
    obtain ⟨w, hw⟩ := List.mem_iff_getElem?.mp hmem
    cases worker with
    | entering =>
      refine h.goes (.enter w) { s.setWorker w .running with
        stopped := s.stopped || s.outstanding == 0 } trivial ?_
        (remaining_set hw .running rfl ?_ rfl rfl rfl)
      · simp [AsioRuntime.step, hw]
      · exact Nat.lt_succ_self _
    | running => exact h.runs hw hcalls
    | executing i => exact h.finishes hw
    | stopping k =>
      obtain ⟨call, hk, hne⟩ := h.accounted.stopping k hmem
      have hdone : call = .done := by
        have hzero := hcalls call (List.mem_of_getElem? hk)
        cases call with
        | done => rfl
        | ignored => exact absurd rfl hne
        | _ => cases hzero
      subst hdone
      refine h.goes (.comeBack w) (s.setWorker w .finished) trivial ?_
        (remaining_set hw .finished rfl ?_ rfl rfl rfl)
      · simp [AsioRuntime.step, hw, hk]
      · show _ + 0 < _ + 2
        simp only [AsioRuntime.setWorker]
        omega
    | finished => exact absurd rfl hworker
  · obtain ⟨call, hmem, hopen⟩ : ∃ call ∈ s.stops, stopWeight call ≠ 0 := by
      simpa only [not_forall, exists_prop] using hcalls
    obtain ⟨k, hk⟩ := List.mem_iff_getElem?.mp hmem
    exact h.advances hk hopen

/-- **`join` returns.** Wherever a run has come to, when `requestStop` was called, and not first
while `start` is between its exchange and `emplace`: with no more calls and no new work, and when no
more handlers throw, some steps lead on to a state in which all threads have returned.  If the
context had not stopped and a worker was left, all handlers have run by then. -/
theorem join_returns (threadCount : Nat) (events : List Event) :
    ∀ s ∈ Machine.run AsioRuntime.step { threadCount := threadCount } events,
      s.stopRequested = true → s.guardLost = false →
        ∃ more s', Machine.run AsioRuntime.step s more = some s' ∧ (∀ e ∈ more, Internal e) ∧
          Joined s' ∧ s'.threadCount = s.threadCount ∧
          (s.stopped = false → (∃ worker ∈ s.workers, isAlive worker = true) →
            ∀ handler ∈ s'.handlers, handler = .done) := by
  intro s hs hrequested hplaced
  have haccounted := (Machine.always_of_invariant Accounted (fun _ h => h)
    (fun _ _ _ h hstep => (h.step hstep).2) events (accounted_init threadCount)).last s hs
  have hending : Ending s s :=
    { accounted := haccounted
      started := haccounted.asked hrequested
      requested := hrequested
      placed := hplaced
      threads := rfl
      natural := fun hnot hstopped => absurd hstopped (by rw [hnot]; exact Bool.false_ne_true)
      alive := fun halive => .inr halive }
  obtain ⟨more, s', hrun, hinternal, hending', hjoined⟩ :=
    Machine.exists_run_of_measure (Ending s) Joined Internal remaining
      (fun s' h hbusy => h.progress hbusy) hending
  refine ⟨more, s', hrun, hinternal, hjoined, hending'.threads, fun hbefore halive => ?_⟩
  refine hending'.natural hbefore ((hending'.alive halive).resolve_right ?_)
  rintro ⟨worker, hmem, hworker⟩
  rw [hjoined.2 worker hmem] at hworker
  cases hworker

/-- A handler throws, and another one is left. -/
theorem join_returns_throw :
    ∃ s, Machine.run AsioRuntime.step { threadCount := 2 }
        [.post, .post, .start, .emplace, .spawn, .spawn, .enter 0, .take 0 1, .finish 0 true,
          .advance 0, .advance 0] = some s ∧
      ∃ more s', Machine.run AsioRuntime.step s more = some s' ∧ (∀ e ∈ more, Internal e) ∧
        Joined s' ∧ s'.threadCount = s.threadCount ∧
        (s.stopped = false → (∃ worker ∈ s.workers, isAlive worker = true) →
          ∀ handler ∈ s'.handlers, handler = .done) :=
  ⟨_, rfl, join_returns 2 [.post, .post, .start, .emplace, .spawn, .spawn, .enter 0, .take 0 1,
    .finish 0 true, .advance 0, .advance 0] _ rfl rfl rfl⟩

end AsioRuntime
end PulseGate
