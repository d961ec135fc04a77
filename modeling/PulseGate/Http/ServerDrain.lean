import PulseGate.Lib.BoundedCounter
import PulseGate.Http.ServerSteps

namespace PulseGate

/-!
# Draining the server is safe

Any number of threads may call `beginDrain` and `stop`, while connections are accepted and
sessions close; one of them starts the drain, and the drain timer starts a second chain of
checks.  `drain_safe` says what holds however their steps are interleaved:

* the registry holds no more sessions than its limit, and admits none once it drains;
* once the drain timer is set every session was asked to drain, or is Closed;
* the callback is called once at most, with no session registered, and hears that the sessions
  drained only if the drain timer has stopped none of them.

The invariant says of every thread what it may rely on where it is (`ServerThread.Fits`).
-/

/-- The sessions the thread is to stop because the drain timer has expired. -/
def ServerThread.forces : ServerThread → List SessionId
  | .forcing .graceTimer sessions => sessions
  | _ => []

/-- The thread has won the exchange of `drain_finished_`. -/
def ServerThread.finishes : ServerThread → Bool
  | .cancelling _ | .completing _ => true
  | _ => false

namespace HttpServer

/-! ### The property -/

structure DrainSafe (maximum : Nat) (s : HttpServer) : Prop where
  limit : s.registry.sessions.length ≤ maximum
  /-- `beginDrain` has asked the sessions by the time it sets its timer. -/
  requested : s.drainTimer ≠ .unset → ∀ (id : SessionId) (c : Connection),
    s.connections[id]? = some c → c.added = true →
      id ∈ s.drainRequests ∨ c.session.state = .Closed
  once : s.completions.length ≤ 1
  empty : ∀ completion ∈ s.completions, completion.2 = []
  drained : ∀ completion ∈ s.completions, completion.1 = true →
    ∀ stopped ∈ s.forcedStops, stopped.1 ≠ .graceTimer

/-- A registry that drains goes on to, and admits nobody. -/
def DrainAdmitsNone (s t : HttpServer) : Prop :=
  s.registry.draining = true → t.registry.draining = true ∧ s.AdmitsNone t

/-! ### The invariant -/

/-- The drain timer has stopped no session, and is not about to. -/
def NoneForced (s : HttpServer) : Prop :=
  (∀ stopped ∈ s.forcedStops, stopped.1 ≠ .graceTimer) ∧ ∀ thread ∈ s.threads, thread.forces = []

/-- The registry drains. -/
def Drains (s : HttpServer) : Prop := s.draining = true ∧ s.registry.draining = true

/-- The registry has drained, and in time if `drained` says so. -/
def Emptied (s : HttpServer) (drained : Bool) : Prop :=
  s.Drains ∧ s.registry.sessions = [] ∧ (drained = true → s.NoneForced)

end HttpServer

/-- What a thread may rely on where it is. -/
def ServerThread.Fits (s : HttpServer) : ServerThread → Prop
  | .marking .beginDrain => s.draining = true
  | .listing .beginDrain => s.Drains
  | .requesting .beginDrain pending =>
    s.Drains ∧ ∀ id ∈ s.registry.sessions, id ∈ s.drainRequests ∨ id ∈ pending
  | .arming => s.Drains ∧ ∀ id ∈ s.registry.sessions, id ∈ s.drainRequests
  | .checking | .sizing | .polling | .expiring => s.Drains
  | .reading => s.Drains ∧ s.registry.sessions = []
  | .finishing drained | .cancelling drained | .completing drained => s.Emptied drained
  | .forceListing .graceTimer | .forcing .graceTimer _ => s.Drains ∧ s.drainDeadlineExpired = true
  | .claiming _ | .marking .stop | .listing .stop | .requesting .stop _ | .forceListing .stop
  | .forcing .stop _ | .returned => True

namespace HttpServer

variable {s t : HttpServer} {maximum : Nat}

structure DrainInv (maximum : Nat) (s : HttpServer) : Prop where
  maximumSessions : s.registry.maximumSessions = maximum
  limit : s.registry.sessions.length ≤ maximum
  idle : s.draining = false →
    s.drainFinished = false ∧ s.drainDeadlineExpired = false ∧ s.drainTimer = .unset
  armed : s.drainTimer ≠ .unset →
    s.registry.draining = true ∧ ∀ id ∈ s.registry.sessions, id ∈ s.drainRequests
  forced : s.drainDeadlineExpired = false → s.NoneForced
  finishers : s.completions.length + s.threads.countP (·.finishes) ≤
    if s.drainFinished then 1 else 0
  threads : ∀ thread ∈ s.threads, thread.Fits s
  completions : ∀ completion ∈ s.completions, completion.2 = [] ∧ s.Emptied completion.1

theorem DrainInv.safe (h : s.DrainInv maximum) (hinv : s.Inv) : s.DrainSafe maximum := by
  refine ⟨h.limit, fun htimer id c hc hadded => ?_, ?_, fun p hp => (h.completions p hp).1,
    fun p hp hdrained => ((h.completions p hp).2.2.2 hdrained).1⟩
  · have hold := hinv.accounts id c hc
    by_cases hid : id ∈ s.registry.sessions
    · exact .inl ((h.armed htimer).2 id hid)
    -- it was taken from the registry, which is done when it is Closed
    · right
      rw [hold.registered] at hid
      have hremoved : c.removed ≠ 0 := fun hzero => hid ⟨hadded, hzero⟩
      have hremovals := hold.closeInv.recorded.2.2.1
      rw [← hold.closeInv.recorded.2.1]
      by_contra hrecorded
      rw [if_neg hrecorded] at hremovals
      have hcalls := hold.calls
      unfold Connection.CloseCalls at hcalls
      split at hcalls <;> omega
  · have hfinishers := h.finishers
    split at hfinishers <;> omega

theorem create_drainInv {limits : SessionLimits} (h : create limits = .ok s) :
    s.DrainInv limits.maxConnections := by
  unfold create SessionRegistry.create at h
  split at h
  · cases h
  · obtain rfl := Except.ok.inj h
    have hnone {α : Type} {p : α → Prop} : ∀ a ∈ ([] : List α), p a :=
      fun a ha => absurd ha List.not_mem_nil
    exact ⟨rfl, Nat.zero_le _, fun _ => ⟨rfl, rfl, rfl⟩, fun htimer => absurd rfl htimer,
      fun _ => ⟨hnone, hnone⟩, Nat.zero_le _, hnone, hnone⟩

/-! ### What goes on to hold -/

/-- The ways the state changes that a thread relies on. -/
structure Advances (s t : HttpServer) : Prop where
  draining : s.draining = true → t.draining = true
  registry : s.registry.draining = true →
    t.registry.draining = true ∧ ∀ id ∈ t.registry.sessions, id ∈ s.registry.sessions
  requests : ∀ id ∈ s.drainRequests, id ∈ t.drainRequests
  expired : s.draining = true → s.drainDeadlineExpired = true → t.drainDeadlineExpired = true
  forced : s.registry.sessions = [] → s.NoneForced → t.NoneForced

theorem Drains.advances (h : s.Drains) (hadvances : s.Advances t) : t.Drains :=
  ⟨hadvances.draining h.1, (hadvances.registry h.2).1⟩

theorem Emptied.advances {drained : Bool} (h : s.Emptied drained) (hadvances : s.Advances t) :
    t.Emptied drained := by
  obtain ⟨hdrains, hempty, hnone⟩ := h
  refine ⟨hdrains.advances hadvances, ?_, fun hdrained => hadvances.forced hempty (hnone hdrained)⟩
  rw [List.eq_nil_iff_forall_not_mem]
  intro id hid
  have hbefore := (hadvances.registry hdrains.2).2 id hid
  rw [hempty] at hbefore
  exact List.not_mem_nil hbefore

theorem ServerThread.Fits.advances {thread : ServerThread} (h : thread.Fits s)
    (hadvances : s.Advances t) : thread.Fits t := by
  cases thread
  case marking caller =>
    cases caller with
    | beginDrain => exact hadvances.draining h
    | stop => trivial
  case listing caller =>
    cases caller with
    | beginDrain => exact Drains.advances h hadvances
    | stop => trivial
  case requesting caller pending =>
    cases caller with
    | beginDrain =>
      obtain ⟨hdrains, hall⟩ := h
      refine ⟨hdrains.advances hadvances, fun id hid => ?_⟩
      -- a draining registry does not grow: the session was there before
      rcases hall id ((hadvances.registry hdrains.2).2 id hid) with hdone | hpending
      · exact .inl (hadvances.requests id hdone)
      · exact .inr hpending
    | stop => trivial
  case arming =>
    obtain ⟨hdrains, hall⟩ := h
    exact ⟨hdrains.advances hadvances, fun id hid =>
      hadvances.requests id (hall id ((hadvances.registry hdrains.2).2 id hid))⟩
  case checking | sizing | polling | expiring => exact Drains.advances h hadvances
  case reading =>
    have hempty : s.Emptied false := ⟨h.1, h.2, nofun⟩
    exact ⟨(hempty.advances hadvances).1, (hempty.advances hadvances).2.1⟩
  case finishing | cancelling | completing => exact Emptied.advances h hadvances
  case forceListing caller | forcing caller _ =>
    cases caller with
    | graceTimer => exact ⟨Drains.advances h.1 hadvances, hadvances.expired h.1.1 h.2⟩
    | stop => trivial
  case claiming | returned => trivial

/-! ### The connections -/

/-- What accepting and closing connections leaves as it is. -/
structure SameDrain (s t : HttpServer) : Prop where
  maximumSessions : t.registry.maximumSessions = s.registry.maximumSessions
  registry : t.registry.draining = s.registry.draining
  draining : t.draining = s.draining
  finished : t.drainFinished = s.drainFinished
  expired : t.drainDeadlineExpired = s.drainDeadlineExpired
  timer : t.drainTimer = s.drainTimer
  threads : t.threads = s.threads
  requests : t.drainRequests = s.drainRequests
  stops : t.forcedStops = s.forcedStops
  completions : t.completions = s.completions

/-- The registry loses sessions, or admits one while it does not drain. -/
inductive RegistryStep (s t : HttpServer) : Prop
  | shrinks (sessions : t.registry.sessions.Sublist s.registry.sessions) (none : s.AdmitsNone t)
  | admits (draining : s.registry.draining = false)
      (room : s.registry.sessions.length < s.registry.maximumSessions)
      (length : t.registry.sessions.length = s.registry.sessions.length + 1)

theorem SameDrain.advances (h : s.SameDrain t) (hregistry : s.RegistryStep t) : s.Advances t where
  draining hdraining := by rw [h.draining, hdraining]
  registry hdraining := by
    refine ⟨by rw [h.registry, hdraining], ?_⟩
    cases hregistry with
    | shrinks hsessions => exact fun id hid => hsessions.subset hid
    | admits hnot =>
      rw [hdraining] at hnot
      cases hnot
  requests id hid := by rw [h.requests]; exact hid
  expired _ hexpired := by rw [h.expired, hexpired]
  forced _ hnone := by
    rw [NoneForced, h.stops, h.threads]
    exact hnone

theorem DrainInv.same (h : s.DrainInv maximum) (hsame : s.SameDrain t)
    (hregistry : s.RegistryStep t) : t.DrainInv maximum := by
  have hadvances := hsame.advances hregistry
  refine ⟨hsame.maximumSessions.trans h.maximumSessions, ?_, ?_, fun htimer => ?_,
    fun hexpired => ?_, ?_, fun thread hthread => ?_, fun p hp => ?_⟩
  · cases hregistry with
    | shrinks hsessions => exact hsessions.length_le.trans h.limit
    | admits _ hroom hlength =>
      rw [hlength, ← h.maximumSessions]
      exact hroom
  · rw [hsame.draining, hsame.finished, hsame.expired, hsame.timer]
    exact h.idle
  · rw [hsame.timer] at htimer
    obtain ⟨hdraining, hall⟩ := h.armed htimer
    obtain ⟨hdraining', hsessions⟩ := hadvances.registry hdraining
    exact ⟨hdraining', fun id hid => hadvances.requests id (hall id (hsessions id hid))⟩
  · rw [hsame.expired] at hexpired
    rw [NoneForced, hsame.stops, hsame.threads]
    exact h.forced hexpired
  · rw [hsame.completions, hsame.threads, hsame.finished]
    exact h.finishers
  · rw [hsame.threads] at hthread
    exact ServerThread.Fits.advances (h.threads thread hthread) hadvances
  · rw [hsame.completions] at hp
    exact ⟨(h.completions p hp).1, (h.completions p hp).2.advances hadvances⟩

theorem admitsNone_of_modify {id : SessionId} {f : Connection → Connection}
    (hconnections : t.connections = s.connections.modify id f)
    (hadded : ∀ c, (f c).added = c.added) : s.AdmitsNone t := by
  rintro j ⟨c, hc, hc'⟩
  rw [hconnections, List.getElem?_modify] at hc
  obtain ⟨d, hd, rfl⟩ := Option.map_eq_some_iff.mp hc
  refine ⟨d, hd, ?_⟩
  split at hc'
  · rw [hadded] at hc'
    exact hc'
  · exact hc'

theorem connect_same (hstep : s.connect = some t) : s.SameDrain t ∧ s.RegistryStep t := by
  simp only [connect, Option.ite_none_right_eq_some] at hstep
  obtain ⟨-, hstep⟩ := hstep
  split at hstep
  · obtain rfl := Option.some.inj hstep
    exact ⟨⟨rfl, rfl, rfl, rfl, rfl, rfl, rfl, rfl, rfl, rfl⟩,
      .shrinks (List.Sublist.refl _) fun _ hadded => hadded⟩
  · obtain rfl := Option.some.inj hstep
    refine ⟨⟨rfl, rfl, rfl, rfl, rfl, rfl, rfl, rfl, rfl, rfl⟩,
      .shrinks (List.Sublist.refl _) ?_⟩
    rintro j ⟨c, hc, hadded⟩
    change (s.connections ++ [_])[j]? = some c at hc
    by_cases hj : j < s.connections.length
    · rw [List.getElem?_append_left hj] at hc
      exact ⟨c, hc, hadded⟩
    -- the new connection was not admitted
    · rw [List.getElem?_append_right (Nat.le_of_not_lt hj)] at hc
      rw [List.mem_singleton.mp (List.mem_of_getElem? hc)] at hadded
      cases hadded

theorem runCallback_same (h : s.Inv) (hstep : s.runCallback = some t) :
    s.SameDrain t ∧ s.RegistryStep t := by
  obtain ⟨id, hcase⟩ := runCallback_cases h hstep
  cases hcase with
  | admitted hpoint hopen hroom heq =>
    subst heq
    refine ⟨⟨rfl, rfl, rfl, rfl, rfl, rfl, rfl, rfl, rfl, rfl⟩, .admits hopen hroom ?_⟩
    simp [update]
  | refused hpoint heq | rejected hpoint heq =>
    subst heq
    exact ⟨⟨rfl, rfl, rfl, rfl, rfl, rfl, rfl, rfl, rfl, rfl⟩,
      .shrinks (List.Sublist.refl _) fun _ hadded => hadded⟩
  | counted hpoint heq | started hpoint heq =>
    subst heq
    exact ⟨⟨rfl, rfl, rfl, rfl, rfl, rfl, rfl, rfl, rfl, rfl⟩,
      .shrinks (List.Sublist.refl _) (admitsNone_of_modify rfl fun _ => rfl)⟩

theorem runCoroutine_same {id : SessionId} {now : Int} {e : SessionEvent}
    (hstep : s.runCoroutine id now e = some t) : s.SameDrain t ∧ s.RegistryStep t := by
  obtain ⟨c, session, -, -, -, -, rfl⟩ := runCoroutine_cases hstep
  exact ⟨⟨rfl, rfl, rfl, rfl, rfl, rfl, rfl, rfl, rfl, rfl⟩,
    .shrinks (List.Sublist.refl _) (admitsNone_of_modify rfl fun _ => rfl)⟩

theorem runRequest_same {id : SessionId} (hstep : s.runRequest id = some t) :
    s.SameDrain t ∧ s.RegistryStep t := by
  obtain ⟨c, request, requests, session, -, -, -, -, rfl⟩ := runRequest_cases hstep
  exact ⟨⟨rfl, rfl, rfl, rfl, rfl, rfl, rfl, rfl, rfl, rfl⟩,
    .shrinks (List.Sublist.refl _) (admitsNone_of_modify rfl fun _ => rfl)⟩

/-- The gauge is read by nobody here, whatever it shows. -/
theorem gauge_same (gauge : Nat) (id : SessionId) {f : Connection → Connection}
    (hadded : ∀ c, (f c).added = c.added) :
    s.SameDrain (HttpServer.update { s with activeConnections := gauge } id f) ∧
      s.RegistryStep (HttpServer.update { s with activeConnections := gauge } id f) :=
  ⟨⟨rfl, rfl, rfl, rfl, rfl, rfl, rfl, rfl, rfl, rfl⟩,
    .shrinks (List.Sublist.refl _) (admitsNone_of_modify rfl hadded)⟩

theorem runClosing_same {id : SessionId} (h : s.Inv) (hstep : s.runClosing id = some t) :
    s.SameDrain t ∧ s.RegistryStep t := by
  obtain ⟨c, -, hcase⟩ := runClosing_cases h hstep
  cases hcase with
  | removed reason hdue hregistered heq =>
    subst heq
    exact ⟨⟨rfl, rfl, rfl, rfl, rfl, rfl, rfl, rfl, rfl, rfl⟩,
      .shrinks List.erase_sublist (admitsNone_of_modify rfl fun _ => rfl)⟩
  | counted hdue heq =>
    rw [heq]
    exact gauge_same _ id fun _ => rfl

theorem release_same {id : SessionId} (hstep : s.release id = some t) :
    s.SameDrain t ∧ s.RegistryStep t := by
  obtain ⟨c, -, -, -, -, rfl⟩ := release_cases hstep
  exact ⟨⟨rfl, rfl, rfl, rfl, rfl, rfl, rfl, rfl, rfl, rfl⟩,
    .shrinks (List.Sublist.refl _) (admitsNone_of_modify rfl fun _ => rfl)⟩

/-! ### The threads -/

/-- A new thread, that has done nothing yet. -/
theorem DrainInv.spawn (h : s.DrainInv maximum) (thread : ServerThread) (hfits : thread.Fits s)
    (hfinishes : thread.finishes = false) (hforces : thread.forces = []) :
    (s.spawn thread).DrainInv maximum := by
  have hnone (hold : s.NoneForced) : (s.spawn thread).NoneForced := by
    refine ⟨hold.1, fun other hother => ?_⟩
    rcases List.mem_append.mp hother with hother | hother
    · exact hold.2 other hother
    · rw [List.mem_singleton.mp hother]
      exact hforces
  have hadvances : s.Advances (s.spawn thread) :=
    ⟨fun hd => hd, fun hd => ⟨hd, fun _ hid => hid⟩, fun _ hid => hid, fun _ hd => hd,
      fun _ hold => hnone hold⟩
  refine ⟨h.maximumSessions, h.limit, h.idle, h.armed, fun hexpired => hnone (h.forced hexpired),
    ?_, fun other hother => ?_, fun p hp => ?_⟩
  · show _ + (s.threads ++ [thread]).countP _ ≤ _
    rw [List.countP_append, List.countP_singleton, hfinishes]
    exact h.finishers
  · rcases List.mem_append.mp hother with hother | hother
    · exact ServerThread.Fits.advances (h.threads other hother) hadvances
    · rw [List.mem_singleton.mp hother]
      exact ServerThread.Fits.advances hfits hadvances
  · exact ⟨(h.completions p hp).1, (h.completions p hp).2.advances hadvances⟩

variable {i : Nat} {thread next : ServerThread}

/-- A thread goes on, and what it relies on then holds. -/
theorem DrainInv.moves (h : s.DrainInv maximum) (hthread : s.threads[i]? = some thread)
    (hfits : next.Fits s)
    (hfinishers : s.completions.length + s.threads.countP (·.finishes) + next.finishes.toNat ≤
      thread.finishes.toNat + if s.drainFinished then 1 else 0)
    (hforces : ∀ id ∈ next.forces, id ∈ thread.forces ∨ id ∈ s.registry.sessions)
    (hexpired : s.drainDeadlineExpired = false → next.forces = []) :
    DrainInv maximum { s with threads := s.threads.set i next } := by
  have hnone (hnext : next.forces = []) (hold : s.NoneForced) :
      NoneForced { s with threads := s.threads.set i next } := by
    refine ⟨hold.1, fun other hother => ?_⟩
    rcases List.mem_or_eq_of_mem_set hother with hother | rfl
    · exact hold.2 other hother
    · exact hnext
  have hadvances : s.Advances { s with threads := s.threads.set i next } := by
    refine ⟨fun hd => hd, fun hd => ⟨hd, fun _ hid => hid⟩, fun _ hid => hid, fun _ hd => hd,
      fun hempty hold => hnone ?_ hold⟩
    -- the thread had nothing left to stop, and the registry holds nothing either
    rw [List.eq_nil_iff_forall_not_mem]
    intro id hid
    rcases hforces id hid with hbefore | hregistered
    · rw [hold.2 thread (List.mem_of_getElem? hthread)] at hbefore
      exact List.not_mem_nil hbefore
    · rw [hempty] at hregistered
      exact List.not_mem_nil hregistered
  refine ⟨h.maximumSessions, h.limit, h.idle, h.armed,
    fun hnot => hnone (hexpired hnot) (h.forced hnot), ?_, fun other hother => ?_, fun p hp => ?_⟩
  · have hcount := BoundedCounter.countP_set (·.finishes) hthread next
    show s.completions.length + (s.threads.set i next).countP _ ≤ if s.drainFinished then 1 else 0
    omega
  · rcases List.mem_or_eq_of_mem_set hother with hother | rfl
    · exact ServerThread.Fits.advances (h.threads other hother) hadvances
    · exact ServerThread.Fits.advances hfits hadvances
  · exact ⟨(h.completions p hp).1, (h.completions p hp).2.advances hadvances⟩

/-- The usual move, of a thread that neither finishes the drain nor stops sessions. -/
theorem DrainInv.movesOn (h : s.DrainInv maximum) (hthread : s.threads[i]? = some thread)
    (hfits : next.Fits s) (hfinishes : next.finishes = false) (hforces : next.forces = []) :
    DrainInv maximum { s with threads := s.threads.set i next } := by
  refine h.moves hthread hfits ?_ (fun id hid => ?_) fun _ => hforces
  · rw [hfinishes]
    exact h.finishers.trans (Nat.le_add_left _ _)
  · rw [hforces] at hid
    exact absurd hid List.not_mem_nil

/-- The flags, the timer and the logs change, while the thread is where it was. -/
theorem DrainInv.flags (h : s.DrainInv maximum) (hsame : s.SameSessions t)
    (hcompletions : t.completions = s.completions) (hadvances : s.Advances t)
    (hidle : t.draining = false →
      t.drainFinished = false ∧ t.drainDeadlineExpired = false ∧ t.drainTimer = .unset)
    (harmed : t.drainTimer ≠ .unset →
      t.registry.draining = true ∧ ∀ id ∈ t.registry.sessions, id ∈ t.drainRequests)
    (hforced : t.drainDeadlineExpired = false → t.NoneForced)
    (hfinished : s.drainFinished = true → t.drainFinished = true) : t.DrainInv maximum := by
  refine ⟨hsame.maximumSessions.trans h.maximumSessions, ?_, hidle, harmed, hforced, ?_,
    fun other hother => ?_, fun p hp => ?_⟩
  · rw [hsame.sessions]
    exact h.limit
  · have hfinishers := h.finishers
    rw [hcompletions, hsame.threads]
    cases hold : s.drainFinished with
    | true =>
      rw [hfinished hold]
      rw [hold] at hfinishers
      exact hfinishers
    | false =>
      rw [hold] at hfinishers
      exact hfinishers.trans (Nat.zero_le _)
  · rw [hsame.threads] at hother
    exact ServerThread.Fits.advances (h.threads other hother) hadvances
  · rw [hcompletions] at hp
    exact ⟨(h.completions p hp).1, (h.completions p hp).2.advances hadvances⟩

/-- The thread calls the callback, and returns. -/
theorem DrainInv.completes {drained : Bool} (h : s.DrainInv maximum)
    (hthread : s.threads[i]? = some (.completing drained)) :
    DrainInv maximum
      { s with completions := (drained, s.registry.sessions) :: s.completions,
               threads := s.threads.set i .returned } := by
  have hemptied : s.Emptied drained := h.threads _ (List.mem_of_getElem? hthread)
  have hmoved : DrainInv maximum { s with threads := s.threads.set i .returned } :=
    h.movesOn hthread trivial rfl rfl
  refine ⟨hmoved.maximumSessions, hmoved.limit, hmoved.idle, hmoved.armed, hmoved.forced, ?_,
    fun other hother => ?_, fun p hp => ?_⟩
  · -- the thread that completes was counted among the finishers
    have hcount := BoundedCounter.countP_set (·.finishes) hthread .returned
    have hfinishers := h.finishers
    show s.completions.length + 1 + (s.threads.set i .returned).countP _ ≤
      if s.drainFinished then 1 else 0
    change _ + 1 = _ + 0 at hcount
    omega
  · exact ServerThread.Fits.advances (hmoved.threads other hother)
      ⟨fun hd => hd, fun hd => ⟨hd, fun _ hid => hid⟩, fun _ hid => hid, fun _ hd => hd,
        fun _ hnone => hnone⟩
  · have hnone (hold : s.NoneForced) : NoneForced
        { s with completions := (drained, s.registry.sessions) :: s.completions,
                 threads := s.threads.set i .returned } := by
      refine ⟨hold.1, fun other hother => ?_⟩
      rcases List.mem_or_eq_of_mem_set hother with hother | rfl
      · exact hold.2 other hother
      · rfl
    rcases List.mem_cons.mp hp with rfl | hp
    · exact ⟨hemptied.2.1, hemptied.1, hemptied.2.1, fun hdrained => hnone (hemptied.2.2 hdrained)⟩
    · obtain ⟨hempty, hdrains, hsessions, hforced⟩ := h.completions p hp
      exact ⟨hempty, hdrains, hsessions, fun hdrained => hnone (hforced hdrained)⟩

theorem runThread_drainInv (hinv : s.Inv) (h : s.DrainInv maximum)
    (hthread : s.threads[i]? = some thread) :
    DrainInv maximum { (s.runThread thread).1 with
      threads := s.threads.set i (s.runThread thread).2 } := by
  have hfits := h.threads thread (List.mem_of_getElem? hthread)
  have hsame := (runThread_cases hinv thread).1
  have hkeep : s.Advances s :=
    ⟨fun hd => hd, fun hd => ⟨hd, fun _ hid => hid⟩, fun _ hid => hid, fun _ hd => hd,
      fun _ hnone => hnone⟩
  cases thread
  case claiming onComplete =>
    simp only [runThread] at hsame ⊢
    split at hsame
    · next hdraining =>
      rw [if_pos hdraining]
      exact h.movesOn hthread trivial rfl rfl
    · next hdraining =>
      rw [if_neg hdraining]
      have hidle := h.idle (Bool.eq_false_iff.mpr hdraining)
      have hflags : DrainInv maximum
          { s with draining := true, drainFinished := false, drainDeadlineExpired := false,
                   onDrainComplete := onComplete } := by
        refine h.flags hsame rfl ?_ (by rintro ⟨⟩) (fun htimer => h.armed htimer)
          (fun _ => h.forced hidle.2.1) fun hfinished => ?_
        · exact ⟨fun _ => rfl, hkeep.registry, hkeep.requests,
            fun hd => absurd hd hdraining, hkeep.forced⟩
        · rw [hidle.1] at hfinished
          cases hfinished
      exact hflags.movesOn hthread rfl rfl rfl
  case marking caller =>
    have hflags : DrainInv maximum
        { s with registry := { s.registry with draining := true } } := by
      refine h.flags hsame rfl ?_ h.idle (fun htimer => ⟨rfl, (h.armed htimer).2⟩) h.forced
        fun hfinished => hfinished
      exact ⟨hkeep.draining, fun _ => ⟨rfl, fun _ hid => hid⟩, hkeep.requests, hkeep.expired,
        hkeep.forced⟩
    refine hflags.movesOn hthread ?_ rfl rfl
    cases caller with
    | beginDrain => exact ⟨hfits, rfl⟩
    | stop => trivial
  case listing caller =>
    simp only [runThread, hinv.prune_eq]
    refine h.movesOn hthread ?_ rfl rfl
    cases caller with
    | beginDrain => exact ⟨hfits, fun id hid => .inr hid⟩
    | stop => trivial
  case requesting caller pending =>
    cases pending with
    | nil =>
      cases caller with
      | beginDrain =>
        refine h.movesOn hthread ⟨hfits.1, fun id hid => ?_⟩ rfl rfl
        exact (hfits.2 id hid).resolve_right List.not_mem_nil
      | stop => exact h.movesOn hthread trivial rfl rfl
    | cons id pending =>
      have hflags : DrainInv maximum
          ({ s with drainRequests := id :: s.drainRequests }.post id .drain) := by
        refine h.flags hsame rfl ?_ h.idle (fun htimer => ?_) h.forced fun hfinished => hfinished
        · exact ⟨hkeep.draining, hkeep.registry, fun _ hj => List.mem_cons_of_mem _ hj,
            hkeep.expired, hkeep.forced⟩
        · exact ⟨(h.armed htimer).1, fun j hj => List.mem_cons_of_mem _ ((h.armed htimer).2 j hj)⟩
      refine hflags.movesOn hthread ?_ rfl rfl
      cases caller with
      | beginDrain =>
        refine ⟨hfits.1, fun j hj => ?_⟩
        rcases hfits.2 j hj with hdone | hpending
        · exact .inl (List.mem_cons_of_mem _ hdone)
        · rcases List.mem_cons.mp hpending with rfl | hpending
          · exact .inl List.mem_cons_self
          · exact .inr hpending
      | stop => trivial
  case arming =>
    have hflags : DrainInv maximum { s with drainTimer := .armed } := by
      refine h.flags hsame rfl ⟨hkeep.draining, hkeep.registry, hkeep.requests, hkeep.expired,
        hkeep.forced⟩ (fun hnot => ?_) (fun _ => ⟨hfits.1.2, hfits.2⟩) h.forced
        fun hfinished => hfinished
      exact absurd (hfits.1.1.symm.trans hnot) (by rintro ⟨⟩)
    exact hflags.movesOn hthread hfits.1 rfl rfl
  case checking =>
    simp only [runThread]
    split
    · exact h.movesOn hthread trivial rfl rfl
    · exact h.movesOn hthread hfits rfl rfl
  case sizing =>
    simp only [runThread, hinv.prune_eq]
    split
    · next hempty => exact h.movesOn hthread ⟨hfits, hempty⟩ rfl rfl
    · exact h.movesOn hthread hfits rfl rfl
  case polling => exact h.movesOn hthread hfits rfl rfl
  case reading =>
    refine h.movesOn hthread ⟨hfits.1, hfits.2, fun hdrained => h.forced ?_⟩ rfl rfl
    simpa using hdrained
  case finishing drained =>
    simp only [runThread] at hsame ⊢
    split at hsame
    · next hfinished =>
      rw [if_pos hfinished]
      exact h.movesOn hthread trivial rfl rfl
    · next hfinished =>
      rw [if_neg hfinished]
      have hflags : DrainInv maximum { s with drainFinished := true } := by
        refine h.flags hsame rfl ⟨hkeep.draining, hkeep.registry, hkeep.requests, hkeep.expired,
          hkeep.forced⟩ (fun hnot => ?_) h.armed h.forced fun _ => rfl
        exact absurd (hfits.1.1.symm.trans hnot) (by rintro ⟨⟩)
      refine hflags.moves hthread hfits ?_ (fun _ hid => absurd hid List.not_mem_nil) fun _ => rfl
      -- nobody had won the exchange before
      have hfinishers := h.finishers
      rw [if_neg hfinished] at hfinishers
      exact Nat.succ_le_succ hfinishers
  case cancelling drained =>
    have hflags : DrainInv maximum
        { s with drainTimer := if s.drainTimer = .armed then .cancelled else s.drainTimer } := by
      refine h.flags hsame rfl ⟨hkeep.draining, hkeep.registry, hkeep.requests, hkeep.expired,
        hkeep.forced⟩ (fun hnot => ?_) (fun htimer => h.armed fun hunset => ?_) h.forced
        fun hfinished => hfinished
      · obtain ⟨hfinished, hexpired, htimer⟩ := h.idle hnot
        exact ⟨hfinished, hexpired, by simp [htimer]⟩
      · exact htimer (by simp [hunset])
    refine hflags.moves hthread hfits ?_ (fun _ hid => absurd hid List.not_mem_nil) fun _ => rfl
    have hfinishers := h.finishers
    show _ + 1 ≤ 1 + _
    rw [Nat.add_comm 1]
    exact Nat.succ_le_succ hfinishers
  case completing drained =>
    simp only [runThread]
    split
    · exact h.completes hthread
    · exact h.movesOn hthread trivial rfl rfl
  case expiring =>
    have hflags : DrainInv maximum { s with drainDeadlineExpired := true } := by
      refine h.flags hsame rfl ⟨hkeep.draining, hkeep.registry, hkeep.requests, fun _ _ => rfl,
        hkeep.forced⟩ (fun hnot => ?_) h.armed (by rintro ⟨⟩) fun hfinished => hfinished
      exact absurd (hfits.1.symm.trans hnot) (by rintro ⟨⟩)
    exact hflags.movesOn hthread ⟨hfits, rfl⟩ rfl rfl
  case forceListing caller =>
    simp only [runThread, hinv.prune_eq]
    cases caller with
    | graceTimer =>
      refine h.moves hthread hfits (h.finishers.trans (Nat.le_add_left _ _))
        (fun id hid => .inr hid) fun hnot => ?_
      exact absurd (hfits.2.symm.trans hnot) (by rintro ⟨⟩)
    | stop => exact h.movesOn hthread trivial rfl rfl
  case forcing caller pending =>
    cases pending with
    | nil =>
      cases caller with
      | graceTimer => exact h.movesOn hthread hfits.1 rfl rfl
      | stop => exact h.movesOn hthread trivial rfl rfl
    | cons id pending =>
      have hnone (hnot : caller ≠ .graceTimer) (hold : s.NoneForced) :
          NoneForced ({ s with forcedStops := (caller, id) :: s.forcedStops }.post id .stop) := by
        refine ⟨fun p hp => ?_, hold.2⟩
        rcases List.mem_cons.mp hp with rfl | hp
        · exact hnot
        · exact hold.1 p hp
      have hflags : DrainInv maximum
          ({ s with forcedStops := (caller, id) :: s.forcedStops }.post id .stop) := by
        refine h.flags hsame rfl ⟨hkeep.draining, hkeep.registry, hkeep.requests, hkeep.expired,
          fun _ hold => hnone ?_ hold⟩ h.idle h.armed (fun hnot => hnone ?_ (h.forced hnot))
          fun hfinished => hfinished
        -- a session that is about to be stopped is among those that are forced
        · rintro rfl
          have hthis := hold.2 _ (List.mem_of_getElem? hthread)
          cases hthis
        · rintro rfl
          exact absurd (hfits.2.symm.trans hnot) (by rintro ⟨⟩)
      cases caller with
      | graceTimer =>
        refine hflags.moves hthread hfits (h.finishers.trans (Nat.le_add_left _ _))
          (fun j hj => .inl (List.mem_cons_of_mem _ hj)) fun hnot => ?_
        exact absurd (hfits.2.symm.trans hnot) (by rintro ⟨⟩)
      | stop => exact hflags.movesOn hthread trivial rfl rfl
  case returned => exact h.movesOn hthread trivial rfl rfl

/-- No thread makes the registry stop draining. -/
theorem runThread_draining (h : s.Inv) (thread : ServerThread)
    (hdraining : s.registry.draining = true) :
    (s.runThread thread).1.registry.draining = true := by
  cases thread
  case marking => rfl
  case claiming | finishing | completing =>
    simp only [runThread]
    split <;> exact hdraining
  case listing | forceListing | sizing =>
    simp only [runThread, h.prune_eq]
    exact hdraining
  case requesting caller pending | forcing caller pending =>
    cases pending with
    | nil => cases caller <;> exact hdraining
    | cons id pending => exact hdraining
  all_goals exact hdraining

/-! ### Every run -/

/-- What holds in every state. -/
structure ServerInv (maximum : Nat) (s : HttpServer) : Prop where
  inv : s.Inv
  drain : s.DrainInv maximum

/-- A step that accepts or closes connections, or one of the threads. -/
theorem step_drain {e : ServerEvent} (h : s.ServerInv maximum) (hstep : s.step e = some t) :
    s.DrainAdmitsNone t ∧ t.DrainInv maximum := by
  -- the steps of the connections leave the drain as it is
  have hconnections (hcase : s.SameDrain t ∧ s.RegistryStep t) :
      s.DrainAdmitsNone t ∧ t.DrainInv maximum := by
    obtain ⟨hsame, hregistry⟩ := hcase
    refine ⟨fun hdraining => ⟨by rw [hsame.registry, hdraining], ?_⟩, h.drain.same hsame hregistry⟩
    cases hregistry with
    | shrinks _ hnone => exact hnone
    | admits hnot => exact absurd (hdraining.symm.trans hnot) (by rintro ⟨⟩)
  cases e with
  | connected => exact hconnections (connect_same hstep)
  | callback => exact hconnections (runCallback_same h.inv hstep)
  | coroutine id now e => exact hconnections (runCoroutine_same hstep)
  | request id => exact hconnections (runRequest_same hstep)
  | closing id => exact hconnections (runClosing_same h.inv hstep)
  | released id => exact hconnections (release_same hstep)
  | beginDrain grace onComplete =>
    obtain rfl := Option.some.inj hstep
    split
    · exact ⟨fun hdraining => ⟨hdraining, fun _ hadded => hadded⟩, h.drain⟩
    · exact ⟨fun hdraining => ⟨hdraining, fun _ hadded => hadded⟩, h.drain.spawn _ trivial rfl rfl⟩
  | stop =>
    obtain rfl := Option.some.inj hstep
    exact ⟨fun hdraining => ⟨hdraining, fun _ hadded => hadded⟩, h.drain.spawn _ trivial rfl rfl⟩
  | thread i =>
    obtain ⟨thread, hthread, rfl⟩ := Option.map_eq_some_iff.mp hstep
    refine ⟨fun hdraining => ⟨?_, ?_⟩, runThread_drainInv h.inv h.drain hthread⟩
    · exact runThread_draining h.inv thread hdraining
    · cases (runThread_cases h.inv thread).2.1 with
      | none hconnections =>
        rintro j ⟨c, hc, hadded⟩
        exact ⟨c, hconnections ▸ hc, hadded⟩
      | one id request _ hconnections => exact admitsNone_of_modify hconnections fun _ => rfl
  | graceExpired =>
    simp only [step, Option.ite_none_right_eq_some, Option.some.injEq] at hstep
    obtain ⟨harmed, rfl⟩ := hstep
    -- the timer is armed by a drain only
    have hdrains : s.Drains := by
      refine ⟨?_, (h.drain.armed (by rw [harmed]; rintro ⟨⟩)).1⟩
      by_contra hnot
      exact absurd ((h.drain.idle (Bool.eq_false_iff.mpr hnot)).2.2.symm.trans harmed)
        (by rintro ⟨⟩)
    have hexpired : DrainInv maximum { s with drainTimer := .expired } := by
      refine h.drain.flags ⟨rfl, rfl, rfl, rfl, rfl, rfl⟩ rfl
        ⟨fun hd => hd, fun hd => ⟨hd, fun _ hid => hid⟩, fun _ hid => hid, fun _ hd => hd,
          fun _ hnone => hnone⟩
        (fun hnot => absurd (hdrains.1.symm.trans hnot) (by rintro ⟨⟩))
        (fun _ => h.drain.armed (by rw [harmed]; rintro ⟨⟩)) h.drain.forced
        fun hfinished => hfinished
    exact ⟨fun hdraining => ⟨hdraining, fun _ hadded => hadded⟩,
      hexpired.spawn .expiring hdrains rfl rfl⟩

/-- **Safe drains.** However accepting, closing, draining, stopping and the timers are
interleaved, the registry keeps to its limit and admits no session once it drains, the sessions
are asked to drain, and the callback is called at most once, when none is left, and told the
truth. -/
theorem drain_safe {limits : SessionLimits} (hcreate : create limits = .ok s)
    (es : List ServerEvent) :
    Machine.Always step (DrainSafe limits.maxConnections) s es ∧
      Machine.EachStep step (fun s _ t => s.DrainAdmitsNone t) s es := by
  have h : s.ServerInv limits.maxConnections := ⟨create_inv hcreate, create_drainInv hcreate⟩
  constructor
  · refine Machine.always_of_invariant (ServerInv limits.maxConnections) ?_ ?_ es h
    · exact fun s h => h.drain.safe h.inv
    · exact fun s e t h hstep => ⟨step_inv h.inv hstep, (step_drain h hstep).2⟩
  · refine Machine.eachStep_of_invariant (ServerInv limits.maxConnections) ?_ es h
    intro s e t h hstep
    obtain ⟨hadmits, hdrain⟩ := step_drain h hstep
    exact ⟨hadmits, step_inv h.inv hstep, hdrain⟩

/-- A session waits for its client when the server drains, and the callback hears of it. -/
def drainedInTime : List ServerEvent :=
  [.connected, .callback, .callback, .callback, .coroutine 0 0 .started, .beginDrain 1000 true,
    .thread 0, .thread 0, .thread 0, .thread 0, .request 0, .closing 0, .closing 0, .thread 0,
    .thread 0, .thread 0, .thread 0, .thread 0, .thread 0, .thread 0, .thread 0]

theorem drain_safe_drainedInTime :
    ∃ s, create smallReads = .ok s ∧
      (Machine.run step s drainedInTime).map (·.completions) = some [(true, [])] ∧
      Machine.Always step (DrainSafe smallReads.maxConnections) s drainedInTime ∧
      Machine.EachStep step (fun s _ t => s.DrainAdmitsNone t) s drainedInTime := by
  obtain ⟨s, hcreate, hend⟩ : ∃ s, create smallReads = .ok s ∧
      (Machine.run step s drainedInTime).map (·.completions) = some [(true, [])] :=
    ⟨_, rfl, by decide +kernel⟩
  exact ⟨s, hcreate, hend, drain_safe hcreate drainedInTime⟩

end HttpServer
end PulseGate
