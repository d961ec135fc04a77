import PulseGate.Http.AsyncLogger
import PulseGate.Lib.Loop
import PulseGate.Lib.Monitor

namespace PulseGate

/-!
# The end of the thread of the access log

The destructor of `AsyncLogger` requests the stop and notifies the thread, and then joins it.  It
does so without the mutex, so that both may happen after the thread has found nothing to do and
before it is parked: the notification wakes nobody, and the thread sleeps on.  A call of
`logAccess` appends and notifies while it holds the mutex.

The steps of `AsyncLogger` are divided here at the accesses to the mutex and the condition
variable.

* `refines` — a step is one of `AsyncLogger` or none;
* `Inv.step` — an entry that is appended is never slept through;
* `lost_iff` — in which runs no state is reached where the stop is slept through;
* `lost_blocks` — from such a state the destructor does not return.
-/

namespace AsyncLogger

/-- Not done while the thread or a call holds the mutex. -/
def Event.Unlocked : Event → Prop
  | .enter _ | .wake => False
  | _ => True

/-- What no event changes back. -/
structure Kept (s s' : AsyncLogger) : Prop where
  config_eq : s'.config = s.config
  stopped : s.stopRequested = true → s'.stopRequested = true

/-- What stays as it is without the mutex. -/
structure Aside (s s' : AsyncLogger) : Prop where
  queue_eq : s'.queue = s.queue
  waiting : s.worker = .Waiting → s'.worker = .Waiting
  calls : s.calls <+: s'.calls

variable {s s' : AsyncLogger} {e : Event}

theorem enqueue_kept (s : AsyncLogger) (entry : RequestLog) : Kept s (s.enqueue entry) := by
  unfold enqueue
  split <;> exact ⟨rfl, id⟩

theorem enqueue_worker (s : AsyncLogger) (entry : RequestLog) :
    (s.enqueue entry).worker = s.worker := by
  unfold enqueue
  split <;> rfl

theorem Moves.kept (h : Moves s e s') : Kept s s' := by
  cases h with
  | @entered i entry =>
    have hkept := enqueue_kept { s with calls := s.calls.eraseIdx i } entry
    exact ⟨hkept.config_eq, hkept.stopped⟩
  | stops => exact ⟨rfl, fun _ => rfl⟩
  | _ => exact ⟨rfl, id⟩

theorem Moves.aside (h : Moves s e s') (hunlocked : e.Unlocked) : Aside s s' := by
  cases h with
  | called => exact ⟨rfl, id, List.prefix_append _ _⟩
  | entered => exact hunlocked.elim
  | popped => exact hunlocked.elim
  | exited => exact hunlocked.elim
  | waits => exact hunlocked.elim
  | formats hworker =>
    -- the thread has an entry, so that it does not wait
    exact ⟨rfl, fun hwaiting => absurd (hworker.symm.trans hwaiting) (by rintro ⟨⟩),
      List.prefix_refl _⟩
  | sinks => exact ⟨rfl, fun _ => rfl, List.prefix_refl _⟩
  | _ => exact ⟨rfl, id, List.prefix_refl _⟩

theorem Moves.calls_eq (h : Moves s e s') (hunlocked : e.Unlocked)
    (hcall : ∀ entry, e ≠ .call entry) : s'.calls = s.calls := by
  cases h with
  | called entry => exact absurd rfl (hcall entry)
  | entered => exact hunlocked.elim
  | _ => rfl

/-- A call that has the mutex leaves the thread where it is. -/
theorem Moves.worker_of_enter {i : Nat} (h : Moves s (.enter i) s') : s'.worker = s.worker := by
  cases h with
  | entered => exact enqueue_worker _ _

end AsyncLogger

/-- The logger with its mutex and its condition variable. -/
structure LoggerThreads where
  logger : AsyncLogger
  monitor : Monitor := {}
  /-- The destructor has notified the thread. -/
  notified : Bool := false
  deriving DecidableEq, Repr

namespace LoggerThreads

/-- The logger that the constructor has made, and its thread at the start of `run`. -/
def create (config : LoggerConfig) : Except Exception LoggerThreads :=
  (AsyncLogger.create config).map fun logger => { logger := logger }

inductive Event
  /-- A call of `logAccess` reads the level. -/
  | call (entry : RequestLog)
  /-- The call at index `i` takes the mutex, and appends its entry or drops it. -/
  | enter (i : Nat)
  /-- The call that has the mutex notifies the thread. -/
  | notifyOne
  /-- It returns. -/
  | leave
  | storeLevel (level : LogLevel)
  | storeJson (json : Bool)
  /-- The thread takes the mutex, at first or in `wake_.wait`. -/
  | lock
  /-- It evaluates the predicate. -/
  | test
  /-- It releases the mutex and is parked. -/
  | park
  /-- It wakes without a notification. -/
  | wake
  /-- It leaves the critical section, with an entry or at the end of `run`. -/
  | take
  | format
  | sink
  /-- The steps of the destructor. -/
  | requestStop
  | notifyAll
  | join
  deriving DecidableEq, Repr

/-- A step of the logger that needs no mutex. -/
def log (s : LoggerThreads) (e : AsyncLogger.Event) : Option LoggerThreads :=
  (s.logger.step e).map fun logger => { s with logger := logger }

/-- A step of the mutex and the condition variable. -/
def sync (s : LoggerThreads) (op : Monitor.Op) : Option LoggerThreads :=
  (s.monitor.step op).map fun monitor => { s with monitor := monitor }

/-- The queue has room for an entry. -/
def hasRoom (s : LoggerThreads) : Bool :=
  decide (s.logger.queue.length < s.logger.config.queueCapacity)

/-- What `run` waits for. -/
def predicate (s : LoggerThreads) : Bool := s.logger.stopRequested || !s.logger.queue.isEmpty

def step (s : LoggerThreads) : Event → Option LoggerThreads
  | .call entry => s.log (.call entry)
  | .enter i => (s.sync (.enter s.hasRoom)).bind fun s => s.log (.enter i)
  | .notifyOne => s.sync .tell
  | .leave => s.sync .leave
  | .storeLevel level => s.log (.storeLevel level)
  | .storeJson json => s.log (.storeJson json)
  | .lock => if s.logger.worker = .Waiting then s.sync .lock else none
  | .test => s.sync (.test s.predicate)
  | .park => s.sync .park
  | .wake => s.sync .wake
  | .take => (s.sync .release).bind fun s => s.log .wake
  | .format => s.log .format
  | .sink => s.log .sink
  | .requestStop => s.log .destroy
  | .notifyAll =>
    -- `notify_all` in the destructor, after `request_stop`
    if s.logger.stopRequested = true ∧ s.notified = false then
      { s with notified := true }.sync .notify
    else none
  | .join => if s.notified then s.log .join else none

/-! ### What a step does -/

/-- The event of the logger in a step that does not touch the mutex. -/
def Event.logged : Event → Option AsyncLogger.Event
  | .call entry => some (.call entry)
  | .storeLevel level => some (.storeLevel level)
  | .storeJson json => some (.storeJson json)
  | .format => some .format
  | .sink => some .sink
  | .requestStop => some .destroy
  | .join => some .join
  | _ => none

/-- The operation in a step that is only one of the mutex or the condition variable. -/
def Event.op : Event → Option Monitor.Op
  | .notifyOne => some .tell
  | .leave => some .leave
  | .lock => some .lock
  | .park => some .park
  | .wake => some .wake
  | _ => none

theorem unlocked_of_logged {e : Event} {e' : AsyncLogger.Event} (h : e.logged = some e') :
    e'.Unlocked := by
  cases e <;> cases h <;> trivial

/-- What a step does, one constructor for each way it can go. -/
inductive Moves (s : LoggerThreads) : Event → LoggerThreads → Prop
  | logs {e : Event} {e' : AsyncLogger.Event} {logger : AsyncLogger} (hlogged : e.logged = some e')
    (hstep : s.logger.step e' = some logger) : Moves s e { s with logger := logger }
  | syncs {e : Event} {op : Monitor.Op} {monitor : Monitor} (hop : e.op = some op)
    (hmonitor : s.monitor.Moves op monitor)
    (hworker : op = .lock → s.logger.worker = .Waiting) : Moves s e { s with monitor := monitor }
  | tests {monitor : Monitor} (hmonitor : s.monitor.Moves (.test s.predicate) monitor) :
    Moves s .test { s with monitor := monitor }
  | enters {i : Nat} {monitor : Monitor} {logger : AsyncLogger}
    (hmonitor : s.monitor.Moves (.enter s.hasRoom) monitor)
    (hstep : s.logger.step (.enter i) = some logger) :
    Moves s (.enter i) { s with monitor := monitor, logger := logger }
  | takes {monitor : Monitor} {logger : AsyncLogger}
    (hmonitor : s.monitor.Moves .release monitor) (hstep : s.logger.step .wake = some logger) :
    Moves s .take { s with monitor := monitor, logger := logger }
  | notifies {monitor : Monitor} (hstop : s.logger.stopRequested = true)
    (hfirst : s.notified = false) (hmonitor : s.monitor.Moves .notify monitor) :
    Moves s .notifyAll { s with monitor := monitor, notified := true }

variable {config : LoggerConfig} {s s' : LoggerThreads} {e : Event}

theorem log_eq_some {e' : AsyncLogger.Event} (h : s.log e' = some s') :
    ∃ logger, s.logger.step e' = some logger ∧ s' = { s with logger := logger } := by
  obtain ⟨logger, hlogger, rfl⟩ := Option.map_eq_some_iff.mp h
  exact ⟨logger, hlogger, rfl⟩

theorem sync_eq_some {op : Monitor.Op} (h : s.sync op = some s') :
    ∃ monitor, s.monitor.Moves op monitor ∧ s' = { s with monitor := monitor } := by
  obtain ⟨monitor, hmonitor, rfl⟩ := Option.map_eq_some_iff.mp h
  exact ⟨monitor, Monitor.moves_of_step hmonitor, rfl⟩

theorem moves_of_log {e' : AsyncLogger.Event} (hlogged : e.logged = some e')
    (h : s.log e' = some s') : Moves s e s' := by
  obtain ⟨logger, hlogger, rfl⟩ := log_eq_some h
  exact .logs hlogged hlogger

theorem moves_of_sync {op : Monitor.Op} (hop : e.op = some op) (h : s.sync op = some s')
    (hworker : op = .lock → s.logger.worker = .Waiting) : Moves s e s' := by
  obtain ⟨monitor, hmonitor, rfl⟩ := sync_eq_some h
  exact .syncs hop hmonitor hworker

theorem moves_of_step (hstep : step s e = some s') : Moves s e s' := by
  cases e with
  | call entry => exact moves_of_log rfl hstep
  | storeLevel level => exact moves_of_log rfl hstep
  | storeJson json => exact moves_of_log rfl hstep
  | format => exact moves_of_log rfl hstep
  | sink => exact moves_of_log rfl hstep
  | requestStop => exact moves_of_log rfl hstep
  | join =>
    obtain ⟨_, hlog⟩ := Option.ite_none_right_eq_some.mp hstep
    exact moves_of_log rfl hlog
  | notifyOne => exact moves_of_sync rfl hstep (by rintro ⟨⟩)
  | leave => exact moves_of_sync rfl hstep (by rintro ⟨⟩)
  | park => exact moves_of_sync rfl hstep (by rintro ⟨⟩)
  | wake => exact moves_of_sync rfl hstep (by rintro ⟨⟩)
  | lock =>
    obtain ⟨hworker, hsync⟩ := Option.ite_none_right_eq_some.mp hstep
    exact moves_of_sync rfl hsync fun _ => hworker
  | test =>
    obtain ⟨monitor, hmonitor, rfl⟩ := sync_eq_some hstep
    exact .tests hmonitor
  | enter i =>
    obtain ⟨s₁, hsync, hlog⟩ := Option.bind_eq_some_iff.mp hstep
    obtain ⟨monitor, hmonitor, rfl⟩ := sync_eq_some hsync
    obtain ⟨logger, hlogger, rfl⟩ := log_eq_some hlog
    exact .enters hmonitor hlogger
  | take =>
    obtain ⟨s₁, hsync, hlog⟩ := Option.bind_eq_some_iff.mp hstep
    obtain ⟨monitor, hmonitor, rfl⟩ := sync_eq_some hsync
    obtain ⟨logger, hlogger, rfl⟩ := log_eq_some hlog
    exact .takes hmonitor hlogger
  | notifyAll =>
    obtain ⟨hguard, hsync⟩ := Option.ite_none_right_eq_some.mp hstep
    obtain ⟨monitor, hmonitor, rfl⟩ := sync_eq_some hsync
    exact .notifies hguard.1 hguard.2 hmonitor

/-- **A step is one of the logger, or leaves it as it is.** -/
theorem refines (hstep : step s e = some s') :
    s'.logger = s.logger ∨ ∃ e', s.logger.step e' = some s'.logger := by
  cases moves_of_step hstep with
  | logs _ hlogger => exact .inr ⟨_, hlogger⟩
  | enters _ hlogger => exact .inr ⟨_, hlogger⟩
  | takes _ hlogger => exact .inr ⟨_, hlogger⟩
  | syncs => exact .inl rfl
  | tests => exact .inl rfl
  | notifies => exact .inl rfl

/-- So the entries are delivered in their order, as those of `AsyncLogger` are. -/
theorem always_faithful (hcreate : create config = .ok s) (events : List Event) :
    Machine.Always step (fun s => AsyncLogger.Faithful config s.logger) s events := by
  obtain ⟨logger, hlogger, rfl⟩ := Loop.map_eq_ok.mp hcreate
  apply Machine.always_of_refines LoggerThreads.logger (fun _ _ _ => refines)
  intro events'
  apply Machine.always_of_invariant (AsyncLogger.Inv config) (fun _ h => h.faithful) ?_ events'
    (AsyncLogger.inv_create hlogger)
  exact fun _ _ _ h hstep => h.step (AsyncLogger.moves_of_step hstep)

/-! ### The entries are not slept through -/

structure Inv (s : LoggerThreads) : Prop where
  capacity : 0 < s.logger.config.queueCapacity
  held : s.monitor.Held
  /-- While the thread sleeps, the queue is empty or the thread is about to be notified. -/
  aware : s.monitor.Aware (s.logger.queue ≠ [])
  working : s.monitor.place ≠ .Outside → s.logger.worker = .Waiting
  stopped : s.notified = true → s.logger.stopRequested = true

theorem inv_create (hcreate : create config = .ok s) : Inv s := by
  obtain ⟨logger, hlogger, rfl⟩ := Loop.map_eq_ok.mp hcreate
  unfold AsyncLogger.create at hlogger
  split at hlogger
  · cases hlogger
  · next hcapacity =>
    obtain rfl := Except.ok.inj hlogger
    exact
      { capacity := Nat.pos_of_ne_zero hcapacity
        held := False.elim
        aware := False.elim
        working := fun hinside => absurd rfl hinside
        stopped := by rintro ⟨⟩ }

/-- An operation on the mutex or the condition variable alone changes no predicate. -/
theorem allows_of_op {p : Prop} {op : Monitor.Op} (hop : e.op = some op) : op.Allows p p := by
  cases e <;> cases hop <;> exact id

theorem ne_nil_of_full (h : Inv s) (hroom : s.hasRoom = false) : s.logger.queue ≠ [] := by
  intro hqueue
  have hcapacity := h.capacity
  have hfull := of_decide_eq_false hroom
  rw [hqueue, List.length_nil] at hfull
  exact hfull hcapacity

/-- **Step lemma.** -/
theorem Inv.step (h : Inv s) (hmoves : Moves s e s') : Inv s' := by
  cases hmoves with
  | logs hlogged hlogger =>
    have hmoves := AsyncLogger.moves_of_step hlogger
    have hkept := hmoves.kept
    have haside := hmoves.aside (unlocked_of_logged hlogged)
    exact
      { capacity := hkept.config_eq ▸ h.capacity
        held := h.held
        aware := fun hasleep hqueue => h.aware hasleep (haside.queue_eq ▸ hqueue)
        working := fun hinside => haside.waiting (h.working hinside)
        stopped := fun hnotified => hkept.stopped (h.stopped hnotified) }
  | @syncs _ op monitor hop hmonitor hworker =>
    exact
      { h with
        held := h.held.step hmonitor
        aware := h.aware.step h.held hmonitor (allows_of_op hop)
        working := by
          intro hinside
          by_cases hlock : op = .lock
          · exact hworker hlock
          · exact h.working (hmonitor.inside_before hlock hinside) }
  | tests hmonitor =>
    have hallows : (Monitor.Op.test s.predicate).Allows (s.logger.queue ≠ [])
        (s.logger.queue ≠ []) := by
      intro hqueue
      simp [predicate, hqueue]
    exact
      { h with
        held := h.held.step hmonitor
        aware := h.aware.step h.held hmonitor hallows
        working := fun hinside => h.working (hmonitor.inside_before (by rintro ⟨⟩) hinside) }
  | @enters i monitor logger hmonitor hlogger =>
    have hmoves := AsyncLogger.moves_of_step hlogger
    have hkept := hmoves.kept
    -- a call that finds no room owes nothing, but then the queue is not empty
    have hallows : (Monitor.Op.enter s.hasRoom).Allows (s.logger.queue ≠ [])
        (logger.queue ≠ []) := by
      intro _
      cases hroom : s.hasRoom with
      | true => exact .inr rfl
      | false => exact .inl (ne_nil_of_full h hroom)
    exact
      { capacity := hkept.config_eq ▸ h.capacity
        held := h.held.step hmonitor
        aware := h.aware.step h.held hmonitor hallows
        working := by
          intro hinside
          have hwaiting := h.working (hmonitor.inside_before (by rintro ⟨⟩) hinside)
          exact hmoves.worker_of_enter.trans hwaiting
        stopped := fun hnotified => hkept.stopped (h.stopped hnotified) }
  | takes hmonitor hlogger =>
    have hkept := (AsyncLogger.moves_of_step hlogger).kept
    cases hmonitor with
    | releases =>
      exact
        { capacity := hkept.config_eq ▸ h.capacity
          held := False.elim
          aware := False.elim
          working := fun hinside => absurd rfl hinside
          stopped := fun hnotified => hkept.stopped (h.stopped hnotified) }
  | notifies hstop _ hmonitor =>
    exact
      { h with
        held := h.held.step hmonitor
        aware := h.aware.step h.held hmonitor id
        working := fun hinside => h.working (hmonitor.inside_before (by rintro ⟨⟩) hinside)
        stopped := fun _ => hstop }

/-! ### The stop may be slept through -/

/-- A call of `logAccess` is on its way to its notification. -/
def Pending (s : LoggerThreads) : Prop :=
  s.logger.calls ≠ [] ∨ s.monitor.holder = .Other true

/-- The destructor has requested the stop and notified, the thread sleeps all the same, and
    nobody is going to notify it. -/
def Lost (s : LoggerThreads) : Prop :=
  s.notified = true ∧ s.monitor.place.Asleep ∧ ¬ s.Pending

instance decidablePending (s : LoggerThreads) : Decidable s.Pending :=
  inferInstanceAs (Decidable (_ ∨ _))

instance decidableLost (s : LoggerThreads) : Decidable s.Lost :=
  inferInstanceAs (Decidable (_ ∧ _))

/-- The destructor does not notify between the test of the thread and its parking, unless a call
    is still to notify it. -/
def NotifiedInTime (s : LoggerThreads) (e : Event) (_ : LoggerThreads) : Prop :=
  e = .notifyAll → s.monitor.place = .Parking → s.Pending

instance decidableNotifiedInTime (s : LoggerThreads) (e : Event) (s' : LoggerThreads) :
    Decidable (NotifiedInTime s e s') :=
  inferInstanceAs (Decidable (_ → _ → _))

/-- **Only `notifyAll` can be too early.** -/
theorem lost_before (h : Inv s) (hmoves : Moves s e s') (hintime : NotifiedInTime s e s')
    (hlost : Lost s') : Lost s := by
  obtain ⟨hnotified, hasleep, hpending⟩ := hlost
  cases hmoves with
  | logs hlogged hlogger =>
    have haside := (AsyncLogger.moves_of_step hlogger).aside (unlocked_of_logged hlogged)
    refine ⟨hnotified, hasleep, fun hbefore => hpending ?_⟩
    apply hbefore.imp_left
    rintro hcalls hnil
    have hprefix : s.logger.calls <+: [] := hnil ▸ haside.calls
    exact hcalls (List.prefix_nil.mp hprefix)
  | @syncs _ op monitor hop hmonitor hworker =>
    have hbefore := hmonitor.asleep_before (by rintro rfl; cases e <;> cases hop) hasleep
    refine ⟨hnotified, hbefore, fun hpending' => hpending (hpending'.imp_right ?_)⟩
    apply hmonitor.owes h.held
    -- a notification would have woken the thread
    rintro rfl
    have hheld := h.held
    cases hmonitor with
    | tells hholder =>
      have hplace := Monitor.Place.asleep_notified.mp hasleep
      exact absurd ((hheld (hplace ▸ trivial)).symm.trans hholder) (by decide)
  | tests hmonitor =>
    -- after the stop is requested the test does not fail
    have hpredicate : s.predicate = true := by
      rw [predicate, h.stopped hnotified]
      rfl
    rw [hpredicate] at hmonitor
    cases hmonitor with
    | tests => exact hasleep.elim
  | enters hmonitor hlogger =>
    -- a call that does not find the queue full notifies, and a full queue is not slept through
    have hbefore := hmonitor.asleep_before (by rintro ⟨⟩) hasleep
    cases hmonitor with
    | enters hholder =>
      cases hroom : s.hasRoom with
      | true => exact absurd (.inr (congrArg Monitor.Holder.Other hroom)) hpending
      | false =>
        have hdue := h.aware hbefore (ne_nil_of_full h hroom)
        exact absurd (hholder.symm.trans hdue) (by decide)
  | takes hmonitor =>
    cases hmonitor with
    | releases => exact hasleep.elim
  | notifies _ _ hmonitor =>
    cases hmonitor with
    | notifies =>
      have hplace := Monitor.Place.asleep_notified.mp hasleep
      exact absurd (hintime rfl hplace) hpending

/-- A notification that comes too early is lost. -/
theorem lost_of_early (hstep : step s e = some s') (hearly : ¬ NotifiedInTime s e s') :
    Lost s' := by
  obtain ⟨rfl, hrest⟩ := Classical.not_imp.mp hearly
  obtain ⟨hplace, hpending⟩ := Classical.not_imp.mp hrest
  obtain ⟨hguard, hsync⟩ := Option.ite_none_right_eq_some.mp hstep
  obtain ⟨monitor, hmonitor, rfl⟩ := sync_eq_some hsync
  cases hmonitor with
  | notifies => exact ⟨rfl, Monitor.Place.asleep_notified.mpr hplace, hpending⟩

/-- **When the stop is not slept through.** In the runs where the destructor does not notify the
    thread between its test and its parking, and in no others, the thread never sleeps after the
    notification with none to come. -/
theorem lost_iff (hcreate : create config = .ok s) (events : List Event) :
    Machine.Always step (fun s => ¬ Lost s) s events ↔
      Machine.EachStep step NotifiedInTime s events := by
  have hfresh : ¬ Lost s := by
    obtain ⟨logger, _, rfl⟩ := Loop.map_eq_ok.mp hcreate
    rintro ⟨⟨⟩, _⟩
  apply Machine.always_iff_eachStep Inv ?_ ?_ events (inv_create hcreate) hfresh
  · intro s e s' h hnot hintime hstep
    have hmoves := moves_of_step hstep
    exact ⟨h.step hmoves, fun hlost => hnot (lost_before h hmoves hintime hlost)⟩
  · intro s e s' _ _ hearly hstep hnot
    exact hnot (lost_of_early hstep hearly)

/-- The logger of the default configuration, before any call. -/
def idle : LoggerThreads :=
  { logger := { config := {}, level := .Info, json := true } }

theorem create_idle : create {} = .ok idle := rfl

/-- The thread has nothing to do, and the destructor notifies it before it is parked. -/
def earlyStop : List Event := [.lock, .test, .requestStop, .notifyAll, .park]

theorem earlyStop_lost : ¬ Machine.Always step (fun s => ¬ Lost s) idle earlyStop := by
  decide

/-- It is parked when the destructor notifies it. -/
def timelyStop : List Event :=
  [.lock, .test, .park, .requestStop, .notifyAll, .lock, .test, .take, .join]

theorem lost_iff_timelyStop :
    Machine.Always step (fun s => ¬ Lost s) idle timelyStop ∧
      (Machine.run step idle timelyStop).map (·.logger.destroyed) = some true :=
  ⟨(lost_iff create_idle timelyStop).mpr (by decide), by decide⟩

/-! ### The destructor does not return -/

/-- No new call, and no wake-up without a notification. -/
def Undisturbed (_ : LoggerThreads) (e : Event) (_ : LoggerThreads) : Prop :=
  e ≠ .wake ∧ ∀ entry, e ≠ .call entry

theorem Lost.kept (hlost : Lost s) (hmoves : Moves s e s') (hundisturbed : Undisturbed s e s') :
    Lost s' := by
  obtain ⟨hnotified, hasleep, hpending⟩ := hlost
  obtain ⟨hcalls, hholder⟩ := not_or.mp hpending
  have hnocall : s.logger.calls = [] := not_not.mp hcalls
  cases hmoves with
  | @logs _ e' logger hlogged hlogger =>
    have hcall : ∀ entry, e' ≠ .call entry := by
      rintro entry rfl
      have := hundisturbed.2 entry
      cases e <;> cases hlogged
      exact this rfl
    have hsame := (AsyncLogger.moves_of_step hlogger).calls_eq (unlocked_of_logged hlogged) hcall
    exact ⟨hnotified, hasleep, not_or.mpr ⟨not_not.mpr (hsame.trans hnocall), hholder⟩⟩
  | @syncs _ op monitor hop hmonitor hworker =>
    have hwakes : ¬ op.Wakes := by
      intro hwakes
      cases e <;> cases hop
      case notifyOne =>
        cases hmonitor with
        | tells howes => exact hholder howes
      case wake => exact hundisturbed.1 rfl
      all_goals exact hwakes
    have henter : ∀ owes, op ≠ .enter owes := by
      rintro owes rfl
      cases e <;> cases hop
    exact ⟨hnotified, hmonitor.asleep hwakes hasleep,
      not_or.mpr ⟨hcalls, fun howes => hholder (hmonitor.owes_before henter howes)⟩⟩
  | tests hmonitor =>
    exact ⟨hnotified, hmonitor.asleep id hasleep,
      not_or.mpr ⟨hcalls, fun howes => hholder (hmonitor.owes_before (by rintro _ ⟨⟩) howes)⟩⟩
  | enters _ hlogger =>
    -- no call is on its way
    cases AsyncLogger.moves_of_step hlogger with
    | entered hentry =>
      rw [hnocall] at hentry
      cases hentry
  | takes hmonitor =>
    have hafter := hmonitor.asleep id hasleep
    cases hmonitor with
    | releases => exact hafter.elim
  | notifies _ hfirst => exact absurd (hfirst.symm.trans hnotified) (by decide)

theorem Lost.ne_join (hlost : Lost s) (h : Inv s) (hstep : step s e = some s') : e ≠ .join := by
  rintro rfl
  obtain ⟨_, hlog⟩ := Option.ite_none_right_eq_some.mp hstep
  obtain ⟨logger, hlogger, _⟩ := log_eq_some hlog
  have hwaiting : s.logger.worker = .Waiting := by
    apply h.working
    intro hplace
    exact (hplace ▸ hlost.2.1 : Monitor.Place.Outside.Asleep).elim
  simp [AsyncLogger.step, hwaiting] at hlogger

/-- **The destructor blocks for ever.** After a run that has lost the notification, the thread is
    not joined unless it wakes by accident or a call is made of the logger that is destroyed. -/
theorem lost_blocks (hcreate : create config = .ok s) {events : List Event}
    (hrun : Machine.run step s events = some s') (hlost : Lost s') {rest : List Event}
    (hundisturbed : Machine.EachStep step Undisturbed s' rest) :
    Machine.EachStep step (fun _ e _ => e ≠ .join) s' rest := by
  have hinv : Inv s' := by
    have halways : Machine.Always step Inv s events :=
      Machine.always_of_invariant Inv (fun _ h => h)
        (fun _ _ _ h hstep => h.step (moves_of_step hstep)) events (inv_create hcreate)
    exact halways.last s' hrun
  apply Machine.eachStep_of_eachStep (fun s => Inv s ∧ Lost s) ?_ ⟨hinv, hlost⟩ hundisturbed
  rintro s e s' ⟨h, hlost⟩ hok hstep
  have hmoves := moves_of_step hstep
  exact ⟨hlost.ne_join h hstep, h.step hmoves, hlost.kept hmoves hok⟩

end LoggerThreads
end PulseGate
