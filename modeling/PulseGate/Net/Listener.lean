import PulseGate.Lib.Machine

namespace PulseGate

/-!
# The listener

`listener.cpp`: the accept loop, with its retry timer, and `stop`.  All of it runs on one strand;
what `accept` and the session factory do, and when `stop` is called, is an input.

An operation that is cancelled completes with `operation_aborted`; one that has completed before
does not, and its handler may run after `stopInExecutor`.

* `connections_handed_on` — in every run each connection that is accepted goes to the session
  factory once, in order, and after `stop` there is at most one more; every exception is reported
  once;
* `listener_goes_on` — the loop comes back to `accept` after any error, until `stop`, and then it
  ends.
-/

namespace Listener

/-- How `async_accept` completes. -/
inductive AcceptResult
  | socket (id : Nat)
  | operationAborted
  | otherError
  deriving DecidableEq, Repr

/-- What a call of the session factory does; `on_error_` is called for an exception. -/
inductive FactoryResult
  | returns
  | throws
  /-- `on_error_` throws too. -/
  | throwsTwice
  deriving DecidableEq, Repr

/-- Where `acceptLoop` is. -/
inductive LoopStage
  | notStarted
  /-- At the test of `stopping_`. -/
  | testing
  /-- In `async_accept`. -/
  | accepting
  | accepted (result : AcceptResult)
  /-- In `async_wait` of the retry timer. -/
  | waiting
  | woken
  /-- It has returned. -/
  | ended
  /-- It has thrown; the handler that `start` gave is about to run. -/
  | thrown
  | failed
  deriving DecidableEq, Repr

inductive ErrorReport
  | sessionFactory
  | acceptLoop
  deriving DecidableEq, Repr

end Listener

/-- A listener, with the connections there were. -/
structure Listener where
  started : Bool := false
  stopping : Bool := false
  stage : Listener.LoopStage := .notStarted
  /-- What `async_accept` gave, in its order. -/
  arrived : List Nat := []
  /-- What the session factory was called with, and how often since `stop`. -/
  handed : List Nat := []
  handedStopping : Nat := 0
  reports : List Listener.ErrorReport := []
  deriving DecidableEq, Repr

namespace Listener

inductive Event
  | start
  | stop
  /-- The test of the loop; the new socket may not be there to be had. -/
  | test (throws : Bool)
  | accept (result : AcceptResult)
  /-- The loop goes on after `async_accept`. -/
  | resume (factory : FactoryResult)
  | expire
  | wake
  /-- The handler of the coroutine runs. -/
  | report
  deriving DecidableEq, Repr

/-- The completion of the operation that `stopInExecutor` cancels. -/
def cancelled : LoopStage → LoopStage
  | .accepting => .accepted .operationAborted
  | .waiting => .woken
  | stage => stage

def stopInExecutor (s : Listener) : Listener :=
  if s.stopping then s else { s with stopping := true, stage := cancelled s.stage }

def step (s : Listener) : Event → Option Listener
  | .start =>
    if s.started ∨ s.stopping then some s else some { s with started := true, stage := .testing }
  | .stop => some s.stopInExecutor
  | .test throws =>
    if s.stage = .testing then
      if s.stopping then some { s with stage := .ended }
      else if throws then some { s with stage := .thrown }
      else some { s with stage := .accepting }
    else none
  | .accept result =>
    if s.stage = .accepting then
      match result with
      | .socket id =>
        some { s with stage := .accepted (.socket id), arrived := s.arrived ++ [id] }
      | result => some { s with stage := .accepted result }
    else none
  | .resume factory =>
    match s.stage with
    | .accepted .operationAborted =>
      if s.stopping then some { s with stage := .ended } else some { s with stage := .waiting }
    | .accepted .otherError => some { s with stage := .waiting }
    | .accepted (.socket id) =>
      let s := { s with
        handed := s.handed ++ [id]
        handedStopping := s.handedStopping + s.stopping.toNat }
      match factory with
      | .returns => some { s with stage := .testing }
      | .throws => some { s with stage := .testing, reports := s.reports ++ [.sessionFactory] }
      | .throwsTwice => some { s with stage := .thrown, reports := s.reports ++ [.sessionFactory] }
    | _ => none
  | .expire => if s.stage = .waiting then some { s with stage := .woken } else none
  | .wake =>
    if s.stage = .woken then
      if s.stopping then some { s with stage := .ended } else some { s with stage := .testing }
    else none
  | .report =>
    if s.stage = .thrown then
      some { { s with stage := .failed }.stopInExecutor with
        reports := s.reports ++ [.acceptLoop] }
    else none

/-! ### Connections -/

/-- A connection that is accepted and not handed on. -/
def between : LoopStage → List Nat
  | .accepted (.socket id) => [id]
  | _ => []

structure Accounted (s : Listener) : Prop where
  /-- None is lost, and none is handed on twice. -/
  handed : s.arrived = s.handed ++ between s.stage
  running : s.stopping = false → s.handedStopping = 0
  /-- The last connection was accepted before the acceptor was closed. -/
  last : s.stopping = true → s.handedStopping + (between s.stage).length ≤ 1 ∧
    s.stage ≠ .accepting
  /-- The loop does not end by itself. -/
  ended : s.stage = .ended ∨ s.stage = .failed → s.stopping = true
  started : s.stage ≠ .notStarted ↔ s.started = true

/-- An exception of the loop is reported once, when it has failed. -/
def Reported (s : Listener) : Prop :=
  s.reports.count .acceptLoop = if s.stage = .failed then 1 else 0

/-- What a step does not do. -/
structure Proper (s : Listener) (e : Event) (s' : Listener) : Prop where
  /-- Nothing but the loop calls the session factory, one connection at a time. -/
  hands : s'.handed = s.handed ∨
    ∃ id factory, e = .resume factory ∧ s.stage = .accepted (.socket id) ∧
      s'.handed = s.handed ++ [id]
  /-- An exception of the session factory is reported, and the loop goes on. -/
  survives : e = .resume .throws → s.stage ≠ .accepted .operationAborted →
    s'.stage = .testing ∨ s'.stage = .waiting
  stopping : s.stopping = true → s'.stopping = true

/-- What a step reports: an exception of the session factory where it was called, and the one that
has ended the loop. -/
def reported (s : Listener) : Event → List ErrorReport
  | .resume .throws | .resume .throwsTwice =>
    if between s.stage = [] then [] else [.sessionFactory]
  | .report => [.acceptLoop]
  | _ => []

def Reports (s : Listener) (e : Event) (s' : Listener) : Prop :=
  s'.reports = s.reports ++ reported s e

theorem accounted_init : Accounted {} where
  handed := rfl
  running _ := rfl
  last h := by cases h
  ended h := by rcases h with h | h <;> cases h
  started := iff_of_false (fun h => h rfl) nofun

variable {s s' : Listener} {e : Event}

theorem between_cancelled (stage : LoopStage) : between (cancelled stage) = between stage := by
  cases stage <;> rfl

theorem Accounted.stops (h : s.Accounted) : s.stopInExecutor.Accounted := by
  unfold stopInExecutor
  split
  · exact h
  next hrunning =>
  have hzero := h.running (by simpa using hrunning)
  have hlength : (between s.stage).length ≤ 1 := by
    unfold between
    split <;> simp
  obtain ⟨hhanded, -, -, hended, hstarted⟩ := h
  refine ⟨?_, nofun, fun _ => ⟨?_, ?_⟩, fun _ => rfl, Iff.trans (not_congr ?_) hstarted⟩
  · rw [hhanded, between_cancelled]
  · show s.handedStopping + (between (cancelled s.stage)).length ≤ 1
    rw [hzero, between_cancelled]
    omega
  · show cancelled s.stage ≠ .accepting
    cases s.stage <;> exact nofun
  · show cancelled s.stage = .notStarted ↔ s.stage = .notStarted
    cases s.stage <;> simp [cancelled]

/-- The loop goes to a place where it holds no connection. -/
theorem Accounted.goes (h : s.Accounted) {stage : LoopStage} (hbetween : between s.stage = [])
    (hbetween' : between stage = []) (hstarted : s.started = true) (hne : stage ≠ .notStarted)
    (haccepting : s.stopping = true → stage ≠ .accepting)
    (hended : stage = .ended ∨ stage = .failed → s.stopping = true) :
    ({ s with stage := stage } : Listener).Accounted where
  handed := by
    show s.arrived = s.handed ++ between stage
    rw [h.handed, hbetween, hbetween']
  running := h.running
  last hstopping := by
    obtain ⟨hone, -⟩ := h.last hstopping
    rw [hbetween] at hone
    exact ⟨by rw [hbetween']; exact hone, haccepting hstopping⟩
  ended := hended
  started := iff_of_true hne hstarted

/-- The loop hands a connection on. -/
theorem Accounted.hands (h : s.Accounted) {id : Nat} (hstage : s.stage = .accepted (.socket id))
    {stage : LoopStage} (hgoes : stage = .testing ∨ stage = .thrown) (reports : List ErrorReport) :
    ({ s with
        handed := s.handed ++ [id]
        handedStopping := s.handedStopping + s.stopping.toNat
        stage := stage
        reports := reports } : Listener).Accounted := by
  have hone : (between s.stage).length = 1 := by
    rw [hstage]
    rfl
  have hbetween : between stage = [] := by
    rcases hgoes with rfl | rfl <;> rfl
  refine ⟨?_, fun hrunning => ?_, fun hstopping => ⟨?_, ?_⟩, fun hended => ?_, iff_of_true ?_ ?_⟩
  · show s.arrived = s.handed ++ [id] ++ between stage
    rw [h.handed, hstage, hbetween, List.append_nil]
    rfl
  · show s.handedStopping + s.stopping.toNat = 0
    rw [h.running hrunning, show s.stopping = false from hrunning]
    rfl
  · show s.handedStopping + s.stopping.toNat + (between stage).length ≤ 1
    have hlast := (h.last hstopping).1
    rw [hbetween, show s.stopping = true from hstopping]
    simp only [Bool.toNat_true, List.length_nil]
    omega
  · rcases hgoes with rfl | rfl <;> exact nofun
  · rcases hgoes with rfl | rfl <;> rcases hended with h | h <;> cases h
  · rcases hgoes with rfl | rfl <;> exact nofun
  · exact h.started.mp (by rw [hstage]; exact nofun)

/-- **Step lemma.** -/
theorem Accounted.step (h : s.Accounted) (hstep : s.step e = some s') :
    Proper s e s' ∧ s'.Accounted := by
  have hstarted : ∀ stage, s.stage = stage → stage ≠ .notStarted → s.started = true :=
    fun stage hstage hne => h.started.mp (hstage ▸ hne)
  cases e with
  | start =>
    simp only [Listener.step] at hstep
    split at hstep
    · obtain rfl := Option.some.inj hstep
      exact ⟨⟨.inl rfl, nofun, id⟩, h⟩
    · next hfirst =>
      obtain rfl := Option.some.inj hstep
      rw [not_or] at hfirst
      have hnot : s.stage = .notStarted := by
        by_contra hne
        exact hfirst.1 (h.started.mp hne)
      refine ⟨⟨.inl rfl, nofun, id⟩, ?_⟩
      refine ⟨?_, h.running, fun hstopping => absurd hstopping hfirst.2, nofun,
        iff_of_true nofun rfl⟩
      show s.arrived = s.handed ++ between .testing
      rw [h.handed, hnot]
      rfl
  | stop =>
    obtain rfl := Option.some.inj hstep
    refine ⟨⟨.inl ?_, nofun, fun hstopping => ?_⟩, h.stops⟩
    · unfold stopInExecutor
      split <;> rfl
    · rw [stopInExecutor, if_pos hstopping]
      exact hstopping
  | test throws =>
    simp only [Listener.step] at hstep
    split at hstep
    · next hstage =>
      have hbetween : between s.stage = [] := by rw [hstage]; rfl
      have hstart := hstarted _ hstage nofun
      split at hstep
      · next hstopping =>
        obtain rfl := Option.some.inj hstep
        exact ⟨⟨.inl rfl, nofun, id⟩, h.goes hbetween rfl hstart nofun (fun _ => nofun)
          fun _ => hstopping⟩
      next hrunning =>
      split at hstep
      · obtain rfl := Option.some.inj hstep
        exact ⟨⟨.inl rfl, nofun, id⟩, h.goes hbetween rfl hstart nofun (fun _ => nofun) nofun⟩
      · obtain rfl := Option.some.inj hstep
        exact ⟨⟨.inl rfl, nofun, id⟩, h.goes hbetween rfl hstart nofun
          (fun hstopping => absurd hstopping hrunning) nofun⟩
    · cases hstep
  | accept result =>
    simp only [Listener.step] at hstep
    split at hstep
    · next hstage =>
      have hbetween : between s.stage = [] := by rw [hstage]; rfl
      have hstart := hstarted _ hstage nofun
      have hrunning : s.stopping ≠ true := fun hstopping => (h.last hstopping).2 hstage
      cases result with
      | socket id =>
        obtain rfl := Option.some.inj hstep
        refine ⟨⟨.inl rfl, nofun, fun hstopping => hstopping⟩, ?_, h.running,
          fun hstopping => absurd hstopping hrunning, nofun,
          iff_of_true nofun hstart⟩
        show s.arrived ++ [id] = s.handed ++ [id]
        rw [h.handed, hbetween, List.append_nil]
      | _ =>
        obtain rfl := Option.some.inj hstep
        exact ⟨⟨.inl rfl, nofun, fun hstopping => hstopping⟩,
          h.goes hbetween rfl hstart nofun (fun _ => nofun) nofun⟩
    · cases hstep
  | resume factory =>
    simp only [Listener.step] at hstep
    split at hstep
    · next hstage =>
      have hbetween : between s.stage = [] := by rw [hstage]; rfl
      have hstart := hstarted _ hstage nofun
      split at hstep
      · next hstopping =>
        obtain rfl := Option.some.inj hstep
        exact ⟨⟨.inl rfl, fun _ hne => absurd hstage hne, fun hstopping => hstopping⟩,
          h.goes hbetween rfl hstart nofun (fun _ => nofun) fun _ => hstopping⟩
      · obtain rfl := Option.some.inj hstep
        exact ⟨⟨.inl rfl, fun _ hne => absurd hstage hne, fun hstopping => hstopping⟩,
          h.goes hbetween rfl hstart nofun (fun _ => nofun) nofun⟩
    · next hstage =>
      have hbetween : between s.stage = [] := by rw [hstage]; rfl
      obtain rfl := Option.some.inj hstep
      exact ⟨⟨.inl rfl, fun _ _ => .inr rfl, fun hstopping => hstopping⟩,
        h.goes hbetween rfl (hstarted _ hstage nofun) nofun (fun _ => nofun) nofun⟩
    · next id hstage =>
      -- the factory is called
      cases factory with
      | returns =>
        obtain rfl := Option.some.inj hstep
        exact ⟨⟨.inr ⟨id, _, rfl, hstage, rfl⟩, nofun, fun hstopping => hstopping⟩,
          h.hands hstage (.inl rfl) _⟩
      | throws =>
        obtain rfl := Option.some.inj hstep
        exact ⟨⟨.inr ⟨id, _, rfl, hstage, rfl⟩, fun _ _ => .inl rfl, fun hstopping => hstopping⟩,
          h.hands hstage (.inl rfl) _⟩
      | throwsTwice =>
        obtain rfl := Option.some.inj hstep
        exact ⟨⟨.inr ⟨id, _, rfl, hstage, rfl⟩, nofun, fun hstopping => hstopping⟩,
          h.hands hstage (.inr rfl) _⟩
    · cases hstep
  | expire =>
    simp only [Listener.step] at hstep
    split at hstep
    · next hstage =>
      have hbetween : between s.stage = [] := by rw [hstage]; rfl
      obtain rfl := Option.some.inj hstep
      exact ⟨⟨.inl rfl, nofun, fun hstopping => hstopping⟩,
        h.goes hbetween rfl (hstarted _ hstage nofun) nofun (fun _ => nofun) nofun⟩
    · cases hstep
  | wake =>
    simp only [Listener.step] at hstep
    split at hstep
    · next hstage =>
      have hbetween : between s.stage = [] := by rw [hstage]; rfl
      have hstart := hstarted _ hstage nofun
      split at hstep
      · next hstopping =>
        obtain rfl := Option.some.inj hstep
        exact ⟨⟨.inl rfl, nofun, fun hstopping => hstopping⟩,
          h.goes hbetween rfl hstart nofun (fun _ => nofun) fun _ => hstopping⟩
      · obtain rfl := Option.some.inj hstep
        exact ⟨⟨.inl rfl, nofun, fun hstopping => hstopping⟩,
          h.goes hbetween rfl hstart nofun (fun _ => nofun) nofun⟩
    · cases hstep
  | report =>
    simp only [Listener.step] at hstep
    split at hstep
    · next hstage =>
      have hbetween : between s.stage = [] := by rw [hstage]; rfl
      have hsame : ({ s with stage := .failed } : Listener).stopInExecutor =
          { s with stage := .failed, stopping := true } := by
        unfold stopInExecutor
        split
        · next hstopping =>
          rw [← show s.stopping = true from hstopping]
        · rfl
      rw [hsame] at hstep
      obtain rfl := Option.some.inj hstep
      refine ⟨⟨.inl rfl, nofun, fun _ => rfl⟩, ?_, nofun, fun _ => ⟨?_, nofun⟩, fun _ => rfl,
        iff_of_true nofun (hstarted _ hstage nofun)⟩
      · show s.arrived = s.handed ++ []
        rw [h.handed, hbetween]
      · show s.handedStopping + 0 ≤ 1
        cases hstopping : s.stopping with
        | false => rw [h.running hstopping]; exact Nat.zero_le 1
        | true =>
          have hlast := (h.last hstopping).1
          rw [hbetween] at hlast
          exact hlast
    · cases hstep

theorem reports_stopInExecutor (s : Listener) : s.stopInExecutor.reports = s.reports := by
  unfold stopInExecutor
  split <;> rfl

theorem reports_step (hstep : s.step e = some s') : Reports s e s' := by
  unfold Reports
  cases e with
  | start =>
    simp only [Listener.step] at hstep
    split at hstep <;> simp [← Option.some.inj hstep, reported]
  | stop => simp [← Option.some.inj hstep, reports_stopInExecutor, reported]
  | test throws =>
    simp only [Listener.step, Option.ite_none_right_eq_some] at hstep
    obtain ⟨hstage, hgoes⟩ := hstep
    split at hgoes
    · simp [← Option.some.inj hgoes, reported]
    · split at hgoes <;> simp [← Option.some.inj hgoes, reported]
  | accept result =>
    simp only [Listener.step, Option.ite_none_right_eq_some] at hstep
    obtain ⟨hstage, hgoes⟩ := hstep
    cases result <;> simp [← Option.some.inj hgoes, reported]
  | resume factory =>
    simp only [Listener.step] at hstep
    split at hstep
    · next hstage =>
      split at hstep <;> cases factory <;>
        simp [← Option.some.inj hstep, reported, hstage, between]
    · next hstage => cases factory <;> simp [← Option.some.inj hstep, reported, hstage, between]
    · next hstage => cases factory <;> simp [← Option.some.inj hstep, reported, hstage, between]
    · cases hstep
  | expire =>
    simp only [Listener.step, Option.ite_none_right_eq_some] at hstep
    simp [← Option.some.inj hstep.2, reported]
  | wake =>
    simp only [Listener.step, Option.ite_none_right_eq_some] at hstep
    obtain ⟨hstage, hgoes⟩ := hstep
    split at hgoes <;> simp [← Option.some.inj hgoes, reported]
  | report =>
    simp only [Listener.step, Option.ite_none_right_eq_some] at hstep
    simp [← Option.some.inj hstep.2, reported]

theorem count_reported (s : Listener) (he : e ≠ .report) :
    (reported s e).count .acceptLoop = 0 := by
  unfold reported
  split
  · split <;> rfl
  · split <;> rfl
  · exact absurd rfl he
  · rfl

/-- Only the handler of the coroutine brings the loop to its failure. -/
theorem failed_iff (h : s.Accounted) (hstep : s.step e = some s') (he : e ≠ .report) :
    s'.stage = .failed ↔ s.stage = .failed := by
  cases e with
  | report => exact absurd rfl he
  | start =>
    simp only [Listener.step] at hstep
    split at hstep
    · rw [Option.some.inj hstep]
    · next hfirst =>
      rw [not_or] at hfirst
      have hnot : s.stage = .notStarted := by
        by_contra hne
        exact hfirst.1 (h.started.mp hne)
      obtain rfl := Option.some.inj hstep
      simp [hnot]
  | stop =>
    obtain rfl := Option.some.inj hstep
    unfold stopInExecutor
    split
    · rfl
    · cases hstage : s.stage <;> simp [cancelled]
  | test throws =>
    simp only [Listener.step, Option.ite_none_right_eq_some] at hstep
    obtain ⟨hstage, hgoes⟩ := hstep
    split at hgoes
    · simp [← Option.some.inj hgoes, hstage]
    · split at hgoes <;> simp [← Option.some.inj hgoes, hstage]
  | accept result =>
    simp only [Listener.step, Option.ite_none_right_eq_some] at hstep
    obtain ⟨hstage, hgoes⟩ := hstep
    cases result <;> simp [← Option.some.inj hgoes, hstage]
  | resume factory =>
    simp only [Listener.step] at hstep
    split at hstep
    · next hstage => split at hstep <;> simp [← Option.some.inj hstep, hstage]
    · next hstage => simp [← Option.some.inj hstep, hstage]
    · next hstage => cases factory <;> simp [← Option.some.inj hstep, hstage]
    · cases hstep
  | expire =>
    simp only [Listener.step, Option.ite_none_right_eq_some] at hstep
    obtain ⟨hstage, hgoes⟩ := hstep
    simp [← Option.some.inj hgoes, hstage]
  | wake =>
    simp only [Listener.step, Option.ite_none_right_eq_some] at hstep
    obtain ⟨hstage, hgoes⟩ := hstep
    split at hgoes <;> simp [← Option.some.inj hgoes, hstage]

/-- **Step lemma.** -/
theorem Reported.step (h : s.Reported) (haccounted : s.Accounted)
    (hstep : s.step e = some s') : s'.Reported := by
  unfold Reported at h ⊢
  by_cases he : e = .report
  · subst he
    simp only [Listener.step, Option.ite_none_right_eq_some] at hstep
    obtain ⟨hstage, hgoes⟩ := hstep
    have hfailed : ({ s with stage := .failed } : Listener).stopInExecutor.stage = .failed := by
      unfold stopInExecutor
      split <;> rfl
    rw [hstage, if_neg (by decide)] at h
    rw [← Option.some.inj hgoes]
    simp [hfailed, h]
  · rw [show s'.reports = _ from reports_step hstep, List.count_append, count_reported s he, h]
    simp only [failed_iff haccounted hstep he, Nat.add_zero]

/-- **Connections are handed on.** In every run of the listener the session factory is called for
the connections that `async_accept` gives, each once and in their order; the loop goes on after an
exception of the factory, and ends only when it is told to stop, or throws; each exception of the
factory is reported once, and so is the one that ends the loop, and nothing else; and after `stop`
the factory is called once at most, for a connection that was accepted before. -/
theorem connections_handed_on (events : List Event) :
    Machine.Always Listener.step (fun s => Accounted s ∧ s.Reported) {} events ∧
      Machine.EachStep Listener.step (fun s e s' => Proper s e s' ∧ Reports s e s') {}
        events := by
  constructor
  · exact Machine.always_of_invariant (fun s => Accounted s ∧ s.Reported) (fun _ h => h)
      (fun _ _ _ h hstep => ⟨(h.1.step hstep).2, h.2.step h.1 hstep⟩) events
      ⟨accounted_init, rfl⟩
  · apply Machine.eachStep_of_invariant Accounted _ events accounted_init
    intro s e s' h hstep
    obtain ⟨hproper, h'⟩ := h.step hstep
    exact ⟨⟨hproper, reports_step hstep⟩, h'⟩

/-! ### The loop goes on -/

/-- No call from outside, no connection, and nothing that throws on the way. -/
def Internal : Event → Prop
  | .start | .stop | .accept _ | .test true | .resume .throwsTwice => False
  | _ => True

/-- How many stages there are before `async_accept`, or before the end. -/
def remaining : LoopStage → Nat
  | .accepted (.socket _) | .woken => 2
  | .accepted _ => 4
  | .waiting => 3
  | .testing | .thrown => 1
  | _ => 0

/-- The loop has nothing to do until a connection comes, or never again. -/
def Resting (s : Listener) : Prop :=
  s.stage = .accepting ∨ s.stage = .ended ∨ s.stage = .failed

/-- What the loop keeps on its way. -/
structure Going (before s : Listener) : Prop where
  accounted : s.Accounted
  started : s.started = true
  stopping : s.stopping = before.stopping
  thrown : s.stopping = true ∨ s.stage ≠ .thrown

/-- The loop can come nearer to its rest. -/
def GoesOn (before s : Listener) : Prop :=
  ∃ es s', Machine.run Listener.step s es = some s' ∧ (∀ e ∈ es, Internal e) ∧ Going before s' ∧
    remaining s'.stage < remaining s.stage

variable {before : Listener}

theorem Going.goes (h : Going before s) (e : Event) (s' : Listener) (stage : LoopStage)
    (hinternal : Internal e) (hstep : s.step e = some s')
    (hsame : s'.started = s.started ∧ s'.stopping = s.stopping ∧ s'.stage = stage)
    (hthrown : stage ≠ .thrown) (hless : remaining stage < remaining s.stage) :
    GoesOn before s := by
  obtain ⟨hstarted, hstopping, rfl⟩ := hsame
  refine ⟨[e], s', ?_, List.forall_mem_singleton.mpr hinternal, ⟨(h.accounted.step hstep).2,
    hstarted.trans h.started, hstopping.trans h.stopping, .inr hthrown⟩, hless⟩
  rw [Machine.run, hstep]
  rfl

/-- **As long as the loop does not rest, it can go on.** -/
theorem Going.progress (h : Going before s) (hbusy : ¬ Resting s) : GoesOn before s := by
  cases hstage : s.stage with
  | notStarted => exact absurd hstage (h.accounted.started.mpr h.started)
  | testing =>
    cases hstopping : s.stopping with
    | true =>
      refine h.goes (.test false) { s with stage := .ended } .ended trivial ?_
        ⟨rfl, rfl, rfl⟩ nofun (by rw [hstage]; decide)
      simp [Listener.step, hstage, hstopping]
    | false =>
      refine h.goes (.test false) { s with stage := .accepting } .accepting trivial ?_
        ⟨rfl, rfl, rfl⟩ nofun (by rw [hstage]; decide)
      simp [Listener.step, hstage, hstopping]
  | accepted result =>
    cases result with
    | socket id =>
      refine h.goes (.resume .returns) { s with
          stage := .testing
          handed := s.handed ++ [id]
          handedStopping := s.handedStopping + s.stopping.toNat } .testing trivial ?_
        ⟨rfl, rfl, rfl⟩ nofun (by rw [hstage]; exact Nat.lt_succ_self 1)
      simp [Listener.step, hstage]
    | operationAborted =>
      cases hstopping : s.stopping with
      | true =>
        refine h.goes (.resume .returns) { s with stage := .ended } .ended trivial ?_
          ⟨rfl, rfl, rfl⟩ nofun (by rw [hstage]; decide)
        simp [Listener.step, hstage, hstopping]
      | false =>
        refine h.goes (.resume .returns) { s with stage := .waiting } .waiting trivial ?_
          ⟨rfl, rfl, rfl⟩ nofun (by rw [hstage]; decide)
        simp [Listener.step, hstage, hstopping]
    | otherError =>
      refine h.goes (.resume .returns) { s with stage := .waiting } .waiting trivial ?_
        ⟨rfl, rfl, rfl⟩ nofun (by rw [hstage]; decide)
      simp [Listener.step, hstage]
  | waiting =>
    refine h.goes .expire { s with stage := .woken } .woken trivial ?_ ⟨rfl, rfl, rfl⟩ nofun
      (by rw [hstage]; decide)
    simp [Listener.step, hstage]
  | woken =>
    cases hstopping : s.stopping with
    | true =>
      refine h.goes .wake { s with stage := .ended } .ended trivial ?_ ⟨rfl, rfl, rfl⟩ nofun
        (by rw [hstage]; decide)
      simp [Listener.step, hstage, hstopping]
    | false =>
      refine h.goes .wake { s with stage := .testing } .testing trivial ?_ ⟨rfl, rfl, rfl⟩ nofun
        (by rw [hstage]; decide)
      simp [Listener.step, hstage, hstopping]
  | thrown =>
    -- only a loop that was told to stop has come here
    have hstopping : s.stopping = true := h.thrown.resolve_right (not_not.mpr hstage)
    refine h.goes .report { s with stage := .failed, reports := s.reports ++ [.acceptLoop] } .failed
      trivial ?_ ⟨rfl, rfl, rfl⟩ nofun (by rw [hstage]; decide)
    simp [Listener.step, hstage, stopInExecutor, hstopping]
  | accepting => exact absurd (.inl hstage) hbusy
  | ended => exact absurd (.inr (.inl hstage)) hbusy
  | failed => exact absurd (.inr (.inr hstage)) hbusy

/-- **The listener goes on.** Wherever a run has come to, after any errors of `async_accept` and
exceptions of the factory, the loop of a listener that was started, and is not about to report an
exception of its own, can come back to `async_accept` with nothing but its timer, and the acceptor
is open; once it was told to stop, it can come to its end in the same way. -/
theorem listener_goes_on (events : List Event) :
    ∀ s ∈ Machine.run Listener.step {} events, s.started = true →
      s.stopping = true ∨ s.stage ≠ .thrown →
        ∃ more s', Machine.run Listener.step s more = some s' ∧ (∀ e ∈ more, Internal e) ∧
          s'.stopping = s.stopping ∧
          if s.stopping then s'.stage = .ended ∨ s'.stage = .failed
          else s'.stage = .accepting := by
  intro s hs hstarted hthrown
  have haccounted := (Machine.always_of_invariant Accounted (fun _ h => h)
    (fun _ _ _ h hstep => (h.step hstep).2) events accounted_init).last s hs
  obtain ⟨more, s', hrun, hinternal, hgoing, hrests⟩ :=
    Machine.exists_run_of_measure (Going s) Resting Internal (fun s => remaining s.stage)
      (fun s h hbusy => h.progress hbusy) ⟨haccounted, hstarted, rfl, hthrown⟩
  refine ⟨more, s', hrun, hinternal, hgoing.stopping, ?_⟩
  rw [← hgoing.stopping]
  cases hstopping : s'.stopping with
  | true =>
    rw [if_pos rfl]
    exact hrests.resolve_left (hgoing.accounted.last hstopping).2
  | false =>
    rw [if_neg Bool.false_ne_true]
    refine hrests.resolve_right fun hended => ?_
    rw [hgoing.accounted.ended hended] at hstopping
    cases hstopping

/-- After an error of `async_accept` the timer leads back to it, and to the end of the loop when
`stop` is called while the timer runs. -/
theorem listener_goes_on_retry :
    (∃ s more s', Machine.run Listener.step {} [.start, .test false, .accept .otherError] = some s ∧
      Machine.run Listener.step s more = some s' ∧ (∀ e ∈ more, Internal e) ∧
        s'.stage = .accepting) ∧
    ∃ s more s', Machine.run Listener.step {}
        [.start, .test false, .accept .otherError, .resume .returns, .stop] = some s ∧
      Machine.run Listener.step s more = some s' ∧ (∀ e ∈ more, Internal e) ∧
        (s'.stage = .ended ∨ s'.stage = .failed) := by
  constructor
  · obtain ⟨more, s', hrun, hinternal, -, hend⟩ :=
      listener_goes_on [.start, .test false, .accept .otherError] _ rfl rfl (.inr (by decide))
    exact ⟨_, more, s', rfl, hrun, hinternal, hend⟩
  · obtain ⟨more, s', hrun, hinternal, -, hend⟩ :=
      listener_goes_on [.start, .test false, .accept .otherError, .resume .returns, .stop] _ rfl rfl
        (.inl rfl)
    exact ⟨_, more, s', rfl, hrun, hinternal, hend⟩

end Listener
end PulseGate
