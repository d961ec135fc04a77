import PulseGate.Lib.Machine
import PulseGate.Cpp
import PulseGate.Http.CircuitBreaker
import Mathlib.Data.List.Perm.Basic

namespace PulseGate

/-!
# The connection pool of one upstream endpoint

`UpstreamLease`, `UpstreamPoolPolicy` and `UpstreamPool` of `upstream_pool.cpp`.  A
connection record has one holder at a time — the source moves its `shared_ptr`, and never
copies it — so holders carry the record itself here.

`PoolSystem` is the pool together with everything that can hold one of its connections: the
lease objects of the callers, the replies on their way to a caller's executor, and the
messages posted to the pool's strand.  The strand runs the messages one at a time; the
system lets it pick any of them, and time, timers and callers move between any two steps.

The ids and counters are natural numbers, except that `--busy_` wraps around at zero as it
does on a `std::size_t`.  A step reads the clock once.
-/

structure PoolLimits where
  maxConnections : Nat := 16
  maxIdleConnections : Nat := 8
  maxReuses : Nat := 100
  maxWaiters : Nat := 64
  /-- The three durations are in milliseconds. -/
  acquireTimeout : Int := 1000
  idleTimeout : Int := 60000
  maxLifetime : Int := 300000
  deriving DecidableEq, Repr

/-- The limits the constructor of `UpstreamPoolPolicy` accepts. -/
def PoolLimits.Accepted (l : PoolLimits) : Prop :=
  l.maxConnections ≠ 0 ∧ l.maxIdleConnections ≠ 0 ∧ l.maxIdleConnections ≤ l.maxConnections ∧
    l.maxReuses ≠ 0 ∧ 0 < l.idleTimeout ∧ 0 < l.maxLifetime

instance PoolLimits.decidableAccepted (l : PoolLimits) : Decidable l.Accepted :=
  inferInstanceAs (Decidable (_ ∧ _ ∧ _ ∧ _ ∧ _ ∧ _))

structure UpstreamConnectionRecord where
  id : Nat
  reuseCount : Nat
  createdAt : Int
  lastUsedAt : Int
  isOpen : Bool
  deriving DecidableEq, Repr

/-! ### Leases -/

/-- A lease object; `owner` says that its weak reference to the pool is set. -/
structure UpstreamLease where
  connection : Option UpstreamConnectionRecord := none
  owner : Bool := false
  explicitlyReturned : Bool := false
  deriving DecidableEq, Repr

namespace UpstreamLease

def valid (l : UpstreamLease) : Bool := l.connection.isSome

/-- What is left of a lease object whose contents were moved away. -/
def movedFrom : UpstreamLease := { explicitlyReturned := true }

def attachOwner (l : UpstreamLease) : UpstreamLease := { l with owner := true }

def markReturned (l : UpstreamLease) : UpstreamLease :=
  { l with explicitlyReturned := true, owner := false }

/-- `UpstreamLease::abandon`: the connection it posts to the pool's strand, if any. -/
def abandon (l : UpstreamLease) : Option UpstreamConnectionRecord :=
  if l.connection.isNone ∨ l.explicitlyReturned then none
  else if l.owner then l.connection
  else none

end UpstreamLease

/-! ### The policy -/

/-- The policy half of the pool; `idle` is the vector `idle_` from its back. -/
structure UpstreamPoolPolicy where
  limits : PoolLimits
  accepted : limits.Accepted
  idle : List UpstreamConnectionRecord := []
  busy : Nat := 0
  /-- It does not come round, as it would after 2^64 connections. -/
  nextId : Nat := 1

namespace UpstreamPoolPolicy

/-- `UpstreamPoolPolicy::reusable`. -/
def reusable (p : UpstreamPoolPolicy) (now : Int) (c : UpstreamConnectionRecord) : Bool :=
  c.isOpen && decide (c.reuseCount < p.limits.maxReuses) &&
    decide (now - c.createdAt < milliseconds p.limits.maxLifetime) &&
    decide (now - c.lastUsedAt < milliseconds p.limits.idleTimeout)

/-- The loop of `acquire` over `idle_`: the first reusable record from the back, and the
    records before it. -/
def popReusable (p : UpstreamPoolPolicy) (now : Int) :
    List UpstreamConnectionRecord →
      Option UpstreamConnectionRecord × List UpstreamConnectionRecord
  | [] => (none, [])
  | c :: idle => if p.reusable now c then (some c, idle) else p.popReusable now idle

/-- `UpstreamPoolPolicy::acquire`.  The record is returned as it was found; its new holder
    sets `lastUsedAt` to `now`. -/
def acquire (p : UpstreamPoolPolicy) (now : Int) :
    Option UpstreamConnectionRecord × UpstreamPoolPolicy :=
  match p.popReusable now p.idle with
  | (some found, idle) => (some found, { p with idle := idle, busy := p.busy + 1 })
  | (none, idle) =>
    -- the loop has emptied `idle_` by now
    if p.limits.maxConnections ≤ p.busy + idle.length then (none, { p with idle := idle })
    else
      (some { id := p.nextId, reuseCount := 0, createdAt := now, lastUsedAt := now,
              isOpen := true },
       { p with idle := idle, busy := p.busy + 1, nextId := p.nextId + 1 })

/-- `--busy_` on a 64-bit counter. -/
def decrement : Nat → Nat
  | 0 => sizeModulus - 1
  | n + 1 => n

/-- `UpstreamPoolPolicy::releaseReusable`. -/
def releaseReusable (p : UpstreamPoolPolicy) (lease : UpstreamLease) (now : Int) :
    UpstreamPoolPolicy :=
  match lease.connection with
  | none => p
  | some c =>
    let used := { c with reuseCount := c.reuseCount + 1, lastUsedAt := now }
    { p with busy := decrement p.busy,
             idle := if p.reusable now used ∧ p.idle.length < p.limits.maxIdleConnections
                     then used :: p.idle else p.idle }

/-- `UpstreamPoolPolicy::discard`; the record is closed and dropped with the lease. -/
def discard (p : UpstreamPoolPolicy) (lease : UpstreamLease) : UpstreamPoolPolicy :=
  match lease.connection with
  | none => p
  | some _ => { p with busy := decrement p.busy }

/-- `UpstreamPoolPolicy::pruneIdle`. -/
def pruneIdle (p : UpstreamPoolPolicy) (now : Int) : UpstreamPoolPolicy :=
  { p with idle := p.idle.filter (p.reusable now) }

/-! ### What the policy's calls do, one lemma per call -/

theorem reusable_iff (p : UpstreamPoolPolicy) (now : Int) (c : UpstreamConnectionRecord) :
    p.reusable now c = true ↔
      c.isOpen = true ∧ c.reuseCount < p.limits.maxReuses ∧
        now - c.createdAt < milliseconds p.limits.maxLifetime ∧
        now - c.lastUsedAt < milliseconds p.limits.idleTimeout := by
  simp [reusable, and_assoc]

theorem popReusable_cases (p : UpstreamPoolPolicy) (now : Int)
    (idle : List UpstreamConnectionRecord) :
    (∃ stale c rest, idle = stale ++ c :: rest ∧ p.reusable now c = true ∧
      p.popReusable now idle = (some c, rest)) ∨
    p.popReusable now idle = (none, []) := by
  induction idle with
  | nil => right; rfl
  | cons c idle ih =>
    -- `c` is handed out, or it is stale and the search goes on
    by_cases hc : p.reusable now c = true
    · left; exact ⟨[], c, idle, rfl, hc, by simp [popReusable, hc]⟩
    · rcases ih with ⟨stale, d, rest, rfl, hd, hpop⟩ | hpop
      · left; exact ⟨c :: stale, d, rest, rfl, hd, by simp [popReusable, hc, hpop]⟩
      · right; simp [popReusable, hc, hpop]

/-- The record `acquire` creates. -/
def freshRecord (p : UpstreamPoolPolicy) (now : Int) : UpstreamConnectionRecord :=
  { id := p.nextId, reuseCount := 0, createdAt := now, lastUsedAt := now, isOpen := true }

/-- `acquire` hands out an idle record, finds no capacity, or creates a record. -/
theorem acquire_cases (p : UpstreamPoolPolicy) (now : Int) :
    (∃ stale c rest, p.idle = stale ++ c :: rest ∧ p.reusable now c = true ∧
      p.acquire now = (some c, { p with idle := rest, busy := p.busy + 1 })) ∨
    (p.limits.maxConnections ≤ p.busy ∧ p.acquire now = (none, { p with idle := [] })) ∨
    (p.busy < p.limits.maxConnections ∧
      p.acquire now =
        (some (p.freshRecord now),
          { p with idle := [], busy := p.busy + 1, nextId := p.nextId + 1 })) := by
  rcases p.popReusable_cases now p.idle with ⟨stale, c, rest, hidle, hc, hpop⟩ | hpop
  · left; exact ⟨stale, c, rest, hidle, hc, by simp [acquire, hpop]⟩
  · by_cases hfull : p.limits.maxConnections ≤ p.busy
    · right; left; simp [acquire, hpop, hfull]
    · right; right
      have hroom : p.busy < p.limits.maxConnections := by omega
      simp [acquire, hpop, hfull, hroom, freshRecord]

@[simp] theorem acquire_limits (p : UpstreamPoolPolicy) (now : Int) :
    (p.acquire now).2.limits = p.limits := by
  rcases p.acquire_cases now with ⟨_, _, _, _, _, h⟩ | ⟨_, h⟩ | ⟨_, h⟩ <;> simp [h]

/-- Without capacity before the call, there is none after it either. -/
theorem acquire_none {p p' : UpstreamPoolPolicy} {now : Int} (h : p.acquire now = (none, p')) :
    p.limits.maxConnections ≤ p.busy ∧ p' = { p with idle := [] } := by
  rcases p.acquire_cases now with ⟨_, _, _, _, _, hacq⟩ | ⟨hfull, hacq⟩ | ⟨_, hacq⟩
  · simp [hacq] at h
  · rw [hacq] at h
    exact ⟨hfull, (Prod.mk.inj h).2.symm⟩
  · simp [hacq] at h

theorem acquire_some {p p' : UpstreamPoolPolicy} {now : Int} {c : UpstreamConnectionRecord}
    (h : p.acquire now = (some c, p')) : p'.busy = p.busy + 1 := by
  rcases p.acquire_cases now with ⟨_, _, _, _, _, hacq⟩ | ⟨_, hacq⟩ | ⟨_, hacq⟩
  · rw [hacq] at h
    rw [← (Prod.mk.inj h).2]
  · simp [hacq] at h
  · rw [hacq] at h
    rw [← (Prod.mk.inj h).2]

/-- A record comes back and is kept, or is dropped. -/
theorem releaseReusable_cases (p : UpstreamPoolPolicy) {lease : UpstreamLease}
    {c : UpstreamConnectionRecord} (hlease : lease.connection = some c) (now : Int) :
    (p.reusable now { c with reuseCount := c.reuseCount + 1, lastUsedAt := now } = true ∧
      p.idle.length < p.limits.maxIdleConnections ∧
      p.releaseReusable lease now =
        { p with busy := decrement p.busy,
                 idle := { c with reuseCount := c.reuseCount + 1, lastUsedAt := now } ::
                   p.idle }) ∨
    p.releaseReusable lease now = { p with busy := decrement p.busy } := by
  by_cases hkeep :
      p.reusable now { c with reuseCount := c.reuseCount + 1, lastUsedAt := now } = true ∧
        p.idle.length < p.limits.maxIdleConnections
  · left; exact ⟨hkeep.1, hkeep.2, by simp [releaseReusable, hlease, hkeep]⟩
  · right; simp only [releaseReusable, hlease, hkeep, if_false]

@[simp] theorem releaseReusable_limits (p : UpstreamPoolPolicy) (lease : UpstreamLease)
    (now : Int) : (p.releaseReusable lease now).limits = p.limits := by
  unfold releaseReusable
  split <;> rfl

/-- A call returns at most one place. -/
theorem busy_le_releaseReusable (p : UpstreamPoolPolicy) (lease : UpstreamLease) (now : Int) :
    p.busy ≤ (p.releaseReusable lease now).busy + 1 := by
  have hdec : p.busy ≤ decrement p.busy + 1 := by
    cases p.busy with
    | zero => simp
    | succ n => exact Nat.le_refl _
  unfold releaseReusable
  split
  · exact Nat.le_succ _
  · exact hdec

@[simp] theorem discard_limits (p : UpstreamPoolPolicy) (lease : UpstreamLease) :
    (p.discard lease).limits = p.limits := by
  unfold discard
  split <;> rfl

@[simp] theorem pruneIdle_limits (p : UpstreamPoolPolicy) (now : Int) :
    (p.pruneIdle now).limits = p.limits := rfl

end UpstreamPoolPolicy

/-! ### The pool, its callers and the messages between them -/

/-- How an `asyncAcquire` completes. -/
inductive AcquireError
  | Success
  | OperationAborted
  | NoBufferSpace
  | TimedOut
  deriving DecidableEq, Repr

/-- A handler posted to the pool's strand. -/
inductive PoolMessage
  | asyncAcquire (call : Nat)
  | releaseReusable (lease : UpstreamLease)
  | discard (lease : UpstreamLease)
  | discardAbandoned (connection : UpstreamConnectionRecord)
  | stop
  deriving DecidableEq, Repr

/-- The connection a message returns to the pool. -/
def PoolMessage.connection : PoolMessage → Option UpstreamConnectionRecord
  | .releaseReusable lease => lease.connection
  | .discard lease => lease.connection
  | .discardAbandoned c => some c
  | .asyncAcquire _ => none
  | .stop => none

/-- The completion of an `asyncAcquire`, posted to its caller's executor. -/
structure PoolReply where
  call : Nat
  error : AcquireError
  lease : UpstreamLease
  deriving DecidableEq, Repr

/-- What happened to the pool's connections and callers, for the statements about runs. -/
inductive PoolRecord
  /-- `connection` was handed to `call`, at time `now`; `fresh` if it was created for it. -/
  | granted (call : Nat) (connection : UpstreamConnectionRecord) (now : Int) (fresh : Bool)
  | queued (call : Nat)
  | refused (call : Nat) (error : AcquireError)
  | discarded (id : Nat)
  /-- A pointer to the waiter of `call` was read after its destruction. -/
  | destroyedRead (call : Nat)
  deriving DecidableEq, Repr

structure PoolSystem where
  policy : UpstreamPoolPolicy
  /-- The queued waiters, by the number of their `asyncAcquire` call. -/
  waiters : List Nat := []
  /-- The waiters whose timer handler has not run. -/
  timers : List Nat := []
  stopping : Bool := false
  cleanupScheduled : Bool := false
  now : Int := 0
  calls : Nat := 0
  strand : List PoolMessage := []
  replies : List PoolReply := []
  leases : List UpstreamLease := []
  /-- The latest record first. -/
  log : List PoolRecord := []

namespace PoolSystem

def init (l : { l : PoolLimits // l.Accepted }) : PoolSystem :=
  { policy := { limits := l.1, accepted := l.2 } }

def post (s : PoolSystem) (m : PoolMessage) : PoolSystem := { s with strand := s.strand ++ [m] }

/-- The destructor of a lease object. -/
def dropLease (s : PoolSystem) (lease : UpstreamLease) : PoolSystem :=
  match lease.abandon with
  | some c => s.post (.discardAbandoned c)
  | none => s

/-- The reply to `call` is posted to its caller's executor. -/
def reply (s : PoolSystem) (call : Nat) (error : AcquireError) (lease : UpstreamLease) :
    PoolSystem :=
  { s with replies := s.replies ++ [{ call := call, error := error, lease := lease }] }

def record (s : PoolSystem) (r : PoolRecord) : PoolSystem := { s with log := r :: s.log }

/-- The lease on a record that `acquire` found. -/
def leaseOn (s : PoolSystem) (found : UpstreamConnectionRecord) : UpstreamLease :=
  ({ connection := some { found with lastUsedAt := s.now } } : UpstreamLease).attachOwner

/-- The log entry for handing `found` to `call`. -/
def grantOf (s : PoolSystem) (call : Nat) (found : UpstreamConnectionRecord) : PoolRecord :=
  .granted call found s.now (decide (found.id = s.policy.nextId))

/-- `UpstreamPool::completeWaiter`. -/
def completeWaiter (s : PoolSystem) (call : Nat) (error : AcquireError)
    (lease : UpstreamLease) : PoolSystem :=
  if call ∈ s.waiters then
    { s with waiters := s.waiters.erase call }.reply call error lease
  else s.dropLease lease

/-- `UpstreamPool::satisfyOneWaiter`. -/
def satisfyOneWaiter (s : PoolSystem) : PoolSystem :=
  match s.waiters with
  | [] => s
  | call :: _ =>
    match s.policy.acquire s.now with
    | (none, policy) => { s with policy := policy }
    | (some found, policy) =>
      ({ s with policy := policy }.record (s.grantOf call found)).completeWaiter call .Success
        (s.leaseOn found)

/-- `UpstreamPool::scheduleCleanup`. -/
def scheduleCleanup (s : PoolSystem) : PoolSystem :=
  if s.stopping ∨ s.cleanupScheduled then s else { s with cleanupScheduled := true }

/-- The body `asyncAcquire` posts to the strand. -/
def runAcquire (s : PoolSystem) (call : Nat) : PoolSystem :=
  let s := s.scheduleCleanup
  if s.stopping then
    (s.record (.refused call .OperationAborted)).reply call .OperationAborted {}
  else
    match s.policy.acquire s.now with
    | (some found, policy) =>
      ({ s with policy := policy }.record (s.grantOf call found)).reply call .Success
        (s.leaseOn found)
    | (none, policy) =>
      -- no connection is free: the queue is full, or the call waits
      if s.policy.limits.maxWaiters ≤ s.waiters.length then
        ({ s with policy := policy }.record (.refused call .NoBufferSpace)).reply call
          .NoBufferSpace {}
      else
        { s with policy := policy, waiters := s.waiters ++ [call],
                 timers := s.timers ++ [call] }.record (.queued call)

/-- The body `releaseReusable` posts to the strand. -/
def runRelease (s : PoolSystem) (lease : UpstreamLease) : PoolSystem :=
  { s with policy := s.policy.releaseReusable lease.markReturned s.now }.satisfyOneWaiter

/-- The body `discard` and `discardAbandoned` post to the strand. -/
def runDiscard (s : PoolSystem) (lease : UpstreamLease) : PoolSystem :=
  match lease.connection with
  | none => { s with policy := s.policy.discard lease }
  | some c => { s with policy := s.policy.discard lease }.record (.discarded c.id)

/-- A waiter is aborted. -/
def refuse (s : PoolSystem) (call : Nat) : PoolSystem :=
  (s.record (.refused call .OperationAborted)).reply call .OperationAborted {}

/-- The loop of `stop`.  Its `completeWaiter` has the front waiter by reference: `std::erase`
    moves the next waiter into that place, and the `complete` that is called is the next
    waiter's.  Behind the last waiter the reference is to a destroyed pointer, which is taken
    to give that waiter still. -/
def abortWaiters (s : PoolSystem) : List Nat → PoolSystem
  | [] => s
  | [call] => ({ s with waiters := [] }.record (.destroyedRead call)).refuse call
  | _ :: next :: waiters =>
    ({ s with waiters := next :: waiters }.refuse next).abortWaiters (next :: waiters)

/-- The body `stop` posts to the strand. -/
def runStop (s : PoolSystem) : PoolSystem :=
  if s.stopping then s else { s with stopping := true }.abortWaiters s.waiters

/-- The strand runs one message. -/
def runMessage (s : PoolSystem) : PoolMessage → PoolSystem
  | .asyncAcquire call => s.runAcquire call
  | .releaseReusable lease => s.runRelease lease
  | .discard lease => s.runDiscard lease.markReturned
  | .discardAbandoned c => s.runDiscard { connection := some c }
  | .stop => s.runStop

/-- The handler of a waiter's timer. -/
def runTimeout (s : PoolSystem) (call : Nat) : PoolSystem :=
  { s with timers := s.timers.erase call }.completeWaiter call .TimedOut {}

/-- The handler of the cleanup timer. -/
def runCleanup (s : PoolSystem) : PoolSystem :=
  { s with cleanupScheduled := false, policy := s.policy.pruneIdle s.now }.scheduleCleanup

/-! ### What the handlers leave alone -/

section Frame

variable (s : PoolSystem) (m : PoolMessage) (call : Nat) (error : AcquireError)
  (l : UpstreamLease) (r : PoolRecord)

@[simp] theorem post_policy : (s.post m).policy = s.policy := rfl
@[simp] theorem post_waiters : (s.post m).waiters = s.waiters := rfl
@[simp] theorem post_log : (s.post m).log = s.log := rfl

@[simp] theorem reply_policy : (s.reply call error l).policy = s.policy := rfl
@[simp] theorem reply_waiters : (s.reply call error l).waiters = s.waiters := rfl
@[simp] theorem reply_log : (s.reply call error l).log = s.log := rfl

@[simp] theorem record_policy : (s.record r).policy = s.policy := rfl
@[simp] theorem record_waiters : (s.record r).waiters = s.waiters := rfl
@[simp] theorem record_log : (s.record r).log = r :: s.log := rfl

@[simp] theorem dropLease_policy : (s.dropLease l).policy = s.policy := by
  unfold dropLease
  split <;> rfl

@[simp] theorem dropLease_waiters : (s.dropLease l).waiters = s.waiters := by
  unfold dropLease
  split <;> rfl

@[simp] theorem dropLease_log : (s.dropLease l).log = s.log := by
  unfold dropLease
  split <;> rfl

@[simp] theorem completeWaiter_policy : (s.completeWaiter call error l).policy = s.policy := by
  unfold completeWaiter
  split <;> simp

@[simp] theorem completeWaiter_log : (s.completeWaiter call error l).log = s.log := by
  unfold completeWaiter
  split <;> simp

@[simp] theorem completeWaiter_waiters :
    (s.completeWaiter call error l).waiters = s.waiters.erase call := by
  unfold completeWaiter
  split
  · rfl
  · next hcall => simp [List.erase_of_not_mem hcall]

@[simp] theorem scheduleCleanup_policy : s.scheduleCleanup.policy = s.policy := by
  unfold scheduleCleanup
  split <;> rfl

@[simp] theorem scheduleCleanup_waiters : s.scheduleCleanup.waiters = s.waiters := by
  unfold scheduleCleanup
  split <;> rfl

@[simp] theorem scheduleCleanup_log : s.scheduleCleanup.log = s.log := by
  unfold scheduleCleanup
  split <;> rfl

@[simp] theorem scheduleCleanup_now : s.scheduleCleanup.now = s.now := by
  unfold scheduleCleanup
  split <;> rfl

end Frame

end PoolSystem

/-- What can happen next.  Messages, replies and lease objects are named by their place. -/
inductive PoolEvent
  | asyncAcquire
  | runMessage (message : Nat)
  | timerFires (call : Nat)
  | cleanupFires
  /-- The caller's handler runs and holds the lease of the reply. -/
  | deliver (reply : Nat)
  /-- The reply is destroyed with its lease, and its handler does not run. -/
  | dropReply (reply : Nat)
  /-- A move assignment between two lease objects. -/
  | moveLease (source target : Nat)
  | dropLease (lease : Nat)
  | releaseReusable (lease : Nat)
  | discard (lease : Nat)
  | stop
  | tick (elapsed : Nat)
  deriving DecidableEq, Repr

namespace PoolSystem

/-- One event; `none` when it names nothing that is there. -/
def step (s : PoolSystem) : PoolEvent → Option PoolSystem
  | .asyncAcquire => some ({ s with calls := s.calls + 1 }.post (.asyncAcquire s.calls))
  | .runMessage i =>
    s.strand[i]?.map fun m => { s with strand := s.strand.eraseIdx i }.runMessage m
  | .timerFires call => if call ∈ s.timers then some (s.runTimeout call) else none
  | .cleanupFires => if s.cleanupScheduled then some s.runCleanup else none
  | .deliver i =>
    s.replies[i]?.map fun r =>
      { s with replies := s.replies.eraseIdx i, leases := s.leases ++ [r.lease] }
  | .dropReply i =>
    s.replies[i]?.map fun r => { s with replies := s.replies.eraseIdx i }.dropLease r.lease
  | .moveLease i j =>
    -- a self-assignment does nothing
    if i = j then some s
    else
      s.leases[i]?.bind fun source => s.leases[j]?.map fun target =>
        { s with leases := (s.leases.set j source).set i .movedFrom }.dropLease target
  | .dropLease i =>
    s.leases[i]?.map fun lease => { s with leases := s.leases.eraseIdx i }.dropLease lease
  | .releaseReusable i =>
    s.leases[i]?.map fun lease =>
      { s with leases := s.leases.set i .movedFrom }.post (.releaseReusable lease)
  | .discard i =>
    s.leases[i]?.map fun lease =>
      { s with leases := s.leases.set i .movedFrom }.post (.discard lease)
  | .stop => some (s.post .stop)
  | .tick elapsed => some { s with now := s.now + elapsed }

end PoolSystem
end PulseGate
