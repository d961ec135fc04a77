import PulseGate.Http.HttpSession

namespace PulseGate

/-!
# The server and its sessions

`SessionRegistry` and `HttpServer` of `http_server.cpp` with the sessions of all connections, for
any number of threads.  A step is what one thread does at once: a section under the mutex of the
registry, one access to an atomic, what the executor of one session does between two
suspensions.  `closeInExecutor` removes the session from the registry and then counts the closed
connection, which other threads see as two steps: they are due after the step of the session.
As in `HttpSession`, handlers are assumed to return on the executor of their session, so that
two calls of `closeInExecutor` do not overlap.

The accept loop calls the accept callback for one connection at a time.  `beginDrain` and `stop`
may be called any number of times.
-/

/-- A session's place among the connections.  The source counts from 1. -/
abbrev SessionId := Nat

structure SessionRegistry where
  maximumSessions : Nat
  draining : Bool := false
  sessions : List SessionId := []
  /-- The reasons that were counted, the latest first. -/
  closedCounts : List StopReason := []
  positive : maximumSessions ≠ 0

namespace SessionRegistry

/-- The constructor. -/
def create (maximumSessions : Nat) : Except Exception SessionRegistry :=
  if h : maximumSessions = 0 then .error .InvalidArgument
  else .ok { maximumSessions := maximumSessions, positive := h }

/-- `pruneExpiredLocked`; `alive` are the sessions whose weak pointers are not expired. -/
def pruneExpired (r : SessionRegistry) (alive : SessionId → Bool) : SessionRegistry :=
  { r with sessions := r.sessions.filter alive }

def tryAdd (r : SessionRegistry) (alive : SessionId → Bool) (id : SessionId) :
    Bool × SessionRegistry :=
  let r := r.pruneExpired alive
  if r.draining ∨ r.maximumSessions ≤ r.sessions.length then (false, r)
  else if id ∈ r.sessions then (false, r)
  else (true, { r with sessions := r.sessions ++ [id] })

def recordRejected (r : SessionRegistry) (reason : StopReason) : SessionRegistry :=
  { r with closedCounts := reason :: r.closedCounts }

def remove (r : SessionRegistry) (id : SessionId) (reason : StopReason) : SessionRegistry :=
  if id ∈ r.sessions then
    { r with sessions := r.sessions.erase id, closedCounts := reason :: r.closedCounts }
  else r

end SessionRegistry

/-! ### Connections -/

/-- A handler that is posted to the executor of a session. -/
inductive SessionRequest
  | drain
  | stop
  deriving DecidableEq, Repr

def SessionRequest.event : SessionRequest → SessionEvent
  | .drain => .drained
  | .stop => .stopped

/-- What `closeInExecutor` has still to call. -/
inductive CloseCall
  /-- `registry_->remove`. -/
  | remove (reason : StopReason)
  /-- `connectionClosed`. -/
  | count
  deriving DecidableEq, Repr

structure Connection where
  session : HttpSession
  /-- The coroutine was spawned. -/
  launched : Bool := false
  /-- The handlers that are posted, the oldest first. -/
  requests : List SessionRequest := []
  due : Option CloseCall := none
  /-- No shared pointer to the session is left. -/
  expired : Bool := false
  /-- `tryAdd` has admitted the session. -/
  added : Bool := false
  /-- The calls of `connectionAccepted`. -/
  accepted : Nat := 0
  /-- The removals the registry has counted. -/
  removed : Nat := 0
  /-- The calls of `connectionClosed`. -/
  closed : Nat := 0

/-- The session has taken a step; if it has closed, the calls of `closeInExecutor` are due. -/
def Connection.stepped (c : Connection) (session : HttpSession) : Connection :=
  { c with
    session := session
    due :=
      if c.session.removals.length < session.removals.length then
        session.removals.head?.map .remove
      else none }

/-- How far the accept callback has come. -/
inductive CallbackPoint
  | adding
  | counting
  | starting
  | rejecting
  deriving DecidableEq, Repr

/-! ### Threads -/

/-- Who has called `SessionRegistry::beginDrain`. -/
inductive DrainCaller
  | beginDrain
  | stop
  deriving DecidableEq, Repr

/-- Who has called `SessionRegistry::forceCloseAll`. -/
inductive ForceCaller
  | graceTimer
  | stop
  deriving DecidableEq, Repr

/-- Where a thread is in `beginDrain`, `stop`, `checkDrain` or the handler of the drain timer. -/
inductive ServerThread
  /-- Before the exchange of `draining_`. -/
  | claiming (onComplete : Bool)
  /-- In `SessionRegistry::beginDrain`: before the flag, before `liveSessions`, and with the
      sessions that are still to be asked. -/
  | marking (caller : DrainCaller)
  | listing (caller : DrainCaller)
  | requesting (caller : DrainCaller) (sessions : List SessionId)
  /-- Before the drain timer is set. -/
  | arming
  /-- In `checkDrain`: before `drain_finished_`, before `size`, at the poll timer, and before
      `drain_deadline_expired_`. -/
  | checking
  | sizing
  | polling
  | reading
  /-- In `finishDrain`: before the exchange of `drain_finished_`, before the timer is cancelled,
      and before the callback. -/
  | finishing (drained : Bool)
  | cancelling (drained : Bool)
  | completing (drained : Bool)
  /-- In the handler of the drain timer, before `drain_deadline_expired_`. -/
  | expiring
  /-- In `SessionRegistry::forceCloseAll`: before `liveSessions`, and with the sessions that are
      still to be stopped. -/
  | forceListing (caller : ForceCaller)
  | forcing (caller : ForceCaller) (sessions : List SessionId)
  | returned
  deriving DecidableEq, Repr

/-- The sessions a thread holds shared pointers to. -/
def ServerThread.held : ServerThread → List SessionId
  | .requesting _ sessions | .forcing _ sessions => sessions
  | _ => []

inductive DrainTimer
  | unset
  | armed
  /-- It has expired, and its handler is to run. -/
  | expired
  | cancelled
  deriving DecidableEq, Repr

structure HttpServer where
  limits : SessionLimits
  registry : SessionRegistry
  /-- `active_connections_`. -/
  activeConnections : Nat := 0
  connections : List Connection := []
  /-- The connection the accept callback has been called for. -/
  callback : Option (SessionId × CallbackPoint) := none
  draining : Bool := false
  drainFinished : Bool := false
  drainDeadlineExpired : Bool := false
  /-- `on_drain_complete_` holds a function. -/
  onDrainComplete : Bool := false
  drainTimer : DrainTimer := .unset
  threads : List ServerThread := []
  /-- The sessions whose `beginDrain` was called. -/
  drainRequests : List SessionId := []
  /-- The sessions whose `stop` was called, and by whom. -/
  forcedStops : List (ForceCaller × SessionId) := []
  /-- The calls of `on_drain_complete_`, with the sessions that were registered then. -/
  completions : List (Bool × List SessionId) := []

inductive ServerEvent
  /-- A socket is accepted: an id is drawn and a session constructed. -/
  | connected
  /-- The accept callback goes on. -/
  | callback
  /-- The executor of a session runs its coroutine or its deadline. -/
  | coroutine (id : SessionId) (now : Int) (e : SessionEvent)
  /-- The executor of a session runs the oldest handler that is posted. -/
  | request (id : SessionId)
  /-- `closeInExecutor` goes on. -/
  | closing (id : SessionId)
  /-- The last shared pointer to a session is gone. -/
  | released (id : SessionId)
  /-- `HttpServer::beginDrain` is called. -/
  | beginDrain (grace : Int) (onComplete : Bool)
  /-- `HttpServer::stop` is called. -/
  | stop
  | thread (i : Nat)
  | graceExpired
  deriving DecidableEq, Repr

namespace HttpServer

/-- The constructor, as far as the sessions are concerned. -/
def create (limits : SessionLimits) : Except Exception HttpServer :=
  (SessionRegistry.create limits.maxConnections).map fun registry =>
    { limits := limits, registry := registry }

/-- The weak pointer to the session is not expired. -/
def alive (s : HttpServer) (id : SessionId) : Bool := s.connections[id]?.any (!·.expired)

def update (s : HttpServer) (id : SessionId) (f : Connection → Connection) : HttpServer :=
  { s with connections := s.connections.modify id f }

/-! ### The accept callback -/

/-- `connectionAccepted`. -/
def connectionAccepted (s : HttpServer) (id : SessionId) : HttpServer :=
  { s with activeConnections := (s.activeConnections + 1) % sizeModulus }.update id fun c =>
    { c with accepted := c.accepted + 1 }

/-- The ids have 64 bits; where a session cannot be constructed, the accept loop goes on. -/
def connect (s : HttpServer) : Option HttpServer :=
  if s.callback = none ∧ s.connections.length + 1 < sizeModulus then
    match HttpSession.create s.limits with
    | .error _ => some s
    | .ok session =>
      some { s with connections := s.connections ++ [{ session := session }],
                    callback := some (s.connections.length, .adding) }
  else none

def runCallback (s : HttpServer) : Option HttpServer :=
  s.callback.map fun
    | (id, .adding) =>
      let (added, registry) := s.registry.tryAdd s.alive id
      if added then
        { s with registry := registry, callback := some (id, .counting) }.update id fun c =>
          { c with added := true }
      else { s with registry := registry, callback := some (id, .rejecting) }
    | (id, .counting) => { s with callback := some (id, .starting) }.connectionAccepted id
    | (id, .starting) =>
      { s with callback := none }.update id fun c => { c with launched := true }
    | (_, .rejecting) =>
      { s with callback := none, registry := s.registry.recordRejected .ResourceLimit }

/-! ### The sessions -/

/-- An event of the session's coroutine, its handler or its deadline. -/
def ownEvent : SessionEvent → Bool
  | .stopped | .drained => false
  | _ => true

def runCoroutine (s : HttpServer) (id : SessionId) (now : Int) (e : SessionEvent) :
    Option HttpServer :=
  s.connections[id]?.bind fun c =>
    if c.launched ∧ c.due = none ∧ ownEvent e then
      (c.session.step (now, e)).map fun session => s.update id fun c => c.stepped session
    else none

def runRequest (s : HttpServer) (id : SessionId) : Option HttpServer :=
  s.connections[id]?.bind fun c =>
    match c.due, c.requests with
    | none, request :: requests =>
      -- these two come at any time, and no clock is read
      (c.session.step (0, request.event)).map fun session =>
        s.update id fun c => { c with requests := requests }.stepped session
    | _, _ => none

/-- `registry_->remove`, and then `connectionClosed`. -/
def runClosing (s : HttpServer) (id : SessionId) : Option HttpServer :=
  s.connections[id]?.bind fun c =>
    match c.due with
    | some (.remove reason) =>
      some ({ s with registry := s.registry.remove id reason }.update id fun c =>
        { c with due := some .count,
                 removed := if id ∈ s.registry.sessions then c.removed + 1 else c.removed })
    | some .count =>
      some ({ s with activeConnections :=
                (s.activeConnections + sizeModulus - 1) % sizeModulus }.update id fun c =>
        { c with due := none, closed := c.closed + 1 })
    | none => none

/-- The accept callback, the coroutine, the handlers that are posted and the threads hold the
    session. -/
def release (s : HttpServer) (id : SessionId) : Option HttpServer :=
  s.connections[id]?.bind fun c =>
    if s.callback.all (·.1 ≠ id) ∧ c.requests = [] ∧ c.due = none ∧
        (c.launched → c.session.point = .finished) ∧ ∀ thread ∈ s.threads, id ∉ thread.held then
      some (s.update id fun c => { c with expired := true })
    else none

/-- `dispatch` to the executor of the session. -/
def post (s : HttpServer) (id : SessionId) (request : SessionRequest) : HttpServer :=
  s.update id fun c => { c with requests := c.requests ++ [request] }

/-! ### The threads -/

/-- `liveSessions` and `size` drop what is expired. -/
def prune (s : HttpServer) : HttpServer :=
  { s with registry := s.registry.pruneExpired s.alive }

/-- What a thread does next, and where it is then. -/
def runThread (s : HttpServer) : ServerThread → HttpServer × ServerThread
  | .claiming onComplete =>
    if s.draining then (s, .returned)
    else
      -- nothing reads these before the first check
      ({ s with draining := true, drainFinished := false, drainDeadlineExpired := false,
                onDrainComplete := onComplete }, .marking .beginDrain)
  | .marking caller =>
    ({ s with registry := { s.registry with draining := true } }, .listing caller)
  | .listing caller => (s.prune, .requesting caller s.prune.registry.sessions)
  | .requesting caller (id :: sessions) =>
    ({ s with drainRequests := id :: s.drainRequests }.post id .drain, .requesting caller sessions)
  | .requesting .beginDrain [] => (s, .arming)
  | .requesting .stop [] => (s, .forceListing .stop)
  | .arming => ({ s with drainTimer := .armed }, .checking)
  | .checking => (s, if s.drainFinished then .returned else .sizing)
  | .sizing => (s.prune, if s.prune.registry.sessions = [] then .reading else .polling)
  | .polling => (s, .checking)
  | .reading => (s, .finishing !s.drainDeadlineExpired)
  | .finishing drained =>
    if s.drainFinished then (s, .returned)
    else ({ s with drainFinished := true }, .cancelling drained)
  | .cancelling drained =>
    ({ s with drainTimer := if s.drainTimer = .armed then .cancelled else s.drainTimer },
      .completing drained)
  | .completing drained =>
    (if s.onDrainComplete then
        { s with completions := (drained, s.registry.sessions) :: s.completions }
      else s, .returned)
  | .expiring => ({ s with drainDeadlineExpired := true }, .forceListing .graceTimer)
  | .forceListing caller => (s.prune, .forcing caller s.prune.registry.sessions)
  | .forcing caller (id :: sessions) =>
    ({ s with forcedStops := (caller, id) :: s.forcedStops }.post id .stop,
      .forcing caller sessions)
  | .forcing .graceTimer [] => (s, .checking)
  | .forcing .stop [] => (s, .returned)
  | .returned => (s, .returned)

def spawn (s : HttpServer) (thread : ServerThread) : HttpServer :=
  { s with threads := s.threads ++ [thread] }

/-! ### One event -/

/-- One event; `none` when it is not enabled. -/
def step (s : HttpServer) : ServerEvent → Option HttpServer
  | .connected => s.connect
  | .callback => s.runCallback
  | .coroutine id now e => s.runCoroutine id now e
  | .request id => s.runRequest id
  | .closing id => s.runClosing id
  | .released id => s.release id
  | .beginDrain grace onComplete =>
    -- the grace period must be positive
    some (if grace ≤ 0 then s else s.spawn (.claiming onComplete))
  | .stop => some (s.spawn (.marking .stop))
  | .thread i =>
    s.threads[i]?.map fun thread =>
      let (t, next) := s.runThread thread
      { t with threads := s.threads.set i next }
  | .graceExpired =>
    if s.drainTimer = .armed then some ({ s with drainTimer := .expired }.spawn .expiring)
    else none

end HttpServer
end PulseGate
