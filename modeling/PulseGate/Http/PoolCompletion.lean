import PulseGate.Http.UpstreamPoolSafety
import Mathlib.Data.List.Range

namespace PulseGate

/-!
# Every acquire completes once

What the pool is for its callers is a queue: a call arrives at the strand, is answered or
waits, and a waiter is served, times out or is turned away by `stop` (`QueueStep`).  The pool
refines this queue (`queueStep_of_step`), whatever is posted, fires or is dropped in between,
unless `stop` finds two waiters or more; and the queue completes every call once.

The loop of `stop` completes the next waiter in place of each (`abortWaiters_replies`), the last
one through a destroyed pointer.

* `acquires_complete_once` — completions, their leases and their order, in exactly the runs whose
  `stop` finds nobody waiting.
-/

/-! ### The queue of the callers -/

/-- The pool as its callers see it. -/
structure AcquireQueue where
  /-- The calls that the strand has not run. -/
  arriving : List Nat
  waiters : List Nat
  stopping : Bool
  calls : Nat
  maxWaiters : Nat
  deriving DecidableEq, Repr

/-- What can happen to a queue, with the completions that are posted. -/
inductive QueueStep (q : AcquireQueue) : AcquireQueue → List PoolReply → Prop
  | unchanged : QueueStep q q []
  | arrives : QueueStep q { q with arriving := q.arriving ++ [q.calls], calls := q.calls + 1 } []
  | answered {arriving : List Nat} {r : PoolReply}
      (harriving : q.arriving.Perm (r.call :: arriving))
      (hlease : r.lease.valid = true ↔ r.error = .Success)
      (hstopping : q.stopping = true → r.error = .OperationAborted) :
      QueueStep q { q with arriving := arriving } [r]
  | queued {arriving : List Nat} {call : Nat} (harriving : q.arriving.Perm (call :: arriving))
      (hrunning : q.stopping = false) (hroom : q.waiters.length < q.maxWaiters) :
      QueueStep q { q with arriving := arriving, waiters := q.waiters ++ [call] } []
  | served {call : Nat} {rest : List Nat} {lease : UpstreamLease}
      (hfirst : q.waiters = call :: rest) (hlease : lease.valid = true) :
      QueueStep q { q with waiters := rest } [⟨call, .Success, lease⟩]
  | timedOut {call : Nat} (hcall : call ∈ q.waiters) :
      QueueStep q { q with waiters := q.waiters.erase call } [⟨call, .TimedOut, {}⟩]
  | stopped (hrunning : q.stopping = false) :
      QueueStep q { q with stopping := true, waiters := [] }
        (q.waiters.map fun call => ⟨call, .OperationAborted, {}⟩)

/-- Every call is completed once, or is on its way, or waits. -/
structure AcquireQueue.Fair (q : AcquireQueue) (posted : List PoolReply) : Prop where
  once : (posted.map (·.call) ++ q.arriving ++ q.waiters).Perm (List.range q.calls)
  leases : ∀ r ∈ posted, r.lease.valid = true ↔ r.error = .Success
  waiters : q.waiters.length ≤ q.maxWaiters
  stopped : q.stopping = true → q.waiters = []

/-- Only waiters leave the queue, or one comes to its end; a waiter that gets a lease was the
    first one. -/
structure AcquireQueue.InOrder (q q' : AcquireQueue) (new : List PoolReply) : Prop where
  waiters : q'.waiters.Sublist q.waiters ∨ ∃ call, q'.waiters = q.waiters ++ [call]
  first : ∀ r ∈ new, r.error = .Success → r.call ∈ q.waiters → q.waiters.head? = some r.call

/-- After `stop`, all that is posted is that the operation was aborted. -/
def AcquireQueue.StaysStopped (q q' : AcquireQueue) (new : List PoolReply) : Prop :=
  q.stopping = true → q'.stopping = true ∧ ∀ r ∈ new, r.error = .OperationAborted

section Queue

variable {q q' : AcquireQueue} {posted new : List PoolReply}

/-- **Step lemma** for the queue. -/
theorem QueueStep.fair (hstep : QueueStep q q' new) (h : q.Fair posted) :
    q'.Fair (posted ++ new) := by
  have hempty : ({} : UpstreamLease).valid = true ↔ False := by simp [UpstreamLease.valid]
  cases hstep with
  | unchanged =>
    rw [List.append_nil]
    exact h
  | arrives =>
    refine ⟨?_, ?_, h.waiters, h.stopped⟩
    · rw [List.append_nil, List.range_succ]
      show (posted.map _ ++ (q.arriving ++ [q.calls]) ++ q.waiters).Perm _
      have hmove : (posted.map (·.call) ++ (q.arriving ++ [q.calls]) ++ q.waiters).Perm
          ((posted.map (·.call) ++ q.arriving ++ q.waiters) ++ [q.calls]) := by
        rw [← List.append_assoc, List.append_assoc _ [q.calls], List.append_assoc _ q.waiters]
        exact List.perm_append_comm.append_left _
      exact hmove.trans (h.once.append_right _)
    · rw [List.append_nil]
      exact h.leases
  -- the call leaves the strand for the posted completions
  | @answered arriving r harriving hlease hstopping =>
    refine ⟨?_, ?_, h.waiters, h.stopped⟩
    · refine List.Perm.trans ?_ h.once
      rw [List.map_append, List.append_assoc (posted.map _)]
      exact ((harriving.symm).append_left _).append_right _
    · intro r' hr'
      rcases List.mem_append.mp hr' with hr' | hr'
      · exact h.leases r' hr'
      · rw [List.mem_singleton.mp hr']
        exact hlease
  -- it leaves the strand for the end of the queue
  | @queued arriving call harriving hrunning hroom =>
    refine ⟨?_, ?_, ?_, ?_⟩
    · refine List.Perm.trans ?_ h.once
      rw [List.append_nil, ← List.append_assoc]
      show ((posted.map _ ++ arriving) ++ q.waiters ++ [call]).Perm _
      refine List.perm_append_comm.trans ?_
      rw [← List.append_assoc, ← List.append_assoc]
      refine List.Perm.append_right q.waiters ?_
      refine List.Perm.trans ?_ (harriving.symm.append_left _)
      exact List.perm_middle.symm
    · rw [List.append_nil]
      exact h.leases
    · show (q.waiters ++ [call]).length ≤ q.maxWaiters
      rw [List.length_append]
      exact hroom
    · intro hstopping
      exact absurd (hrunning.symm.trans hstopping) Bool.false_ne_true
  -- it leaves the front of the queue
  | @served call rest lease hfirst hlease =>
    have hwaiters := h.waiters
    rw [hfirst] at hwaiters
    refine ⟨?_, ?_, Nat.le_of_succ_le hwaiters, ?_⟩
    · refine List.Perm.trans ?_ h.once
      rw [hfirst, List.map_append, List.append_assoc (posted.map _), List.append_assoc,
        List.append_assoc (posted.map _)]
      refine List.Perm.append_left _ ?_
      show (call :: (q.arriving ++ rest)).Perm _
      exact List.perm_middle.symm
    · intro r' hr'
      rcases List.mem_append.mp hr' with hr' | hr'
      · exact h.leases r' hr'
      · rw [List.mem_singleton.mp hr']
        exact iff_of_true hlease rfl
    · intro hstopping
      have hnil := h.stopped hstopping
      rw [hfirst] at hnil
      cases hnil
  -- it leaves the queue from wherever it stands
  | @timedOut call hcall =>
    refine ⟨?_, ?_, ?_, ?_⟩
    · refine List.Perm.trans ?_ h.once
      rw [List.map_append, List.append_assoc (posted.map _), List.append_assoc,
        List.append_assoc (posted.map _)]
      refine List.Perm.append_left _ ?_
      show (call :: (q.arriving ++ q.waiters.erase call)).Perm _
      exact List.perm_middle.symm.trans ((List.perm_cons_erase hcall).symm.append_left _)
    · intro r' hr'
      rcases List.mem_append.mp hr' with hr' | hr'
      · exact h.leases r' hr'
      · rw [List.mem_singleton.mp hr']
        exact iff_of_false hempty.mp (by rintro ⟨⟩)
    · exact (List.erase_sublist.length_le).trans h.waiters
    · intro hstopping
      rw [h.stopped hstopping] at hcall
      cases hcall
  | stopped hrunning =>
    refine ⟨?_, ?_, Nat.zero_le _, fun _ => rfl⟩
    · refine List.Perm.trans ?_ h.once
      rw [List.map_append, List.map_map, List.append_nil, List.append_assoc, List.append_assoc]
      refine List.Perm.append_left _ ?_
      -- every waiter is completed, in the order of the queue
      have hcalls : q.waiters.map ((·.call) ∘ fun call =>
          (⟨call, .OperationAborted, {}⟩ : PoolReply)) = q.waiters := List.map_id _
      rw [hcalls]
      exact List.perm_append_comm
    · intro r' hr'
      rcases List.mem_append.mp hr' with hr' | hr'
      · exact h.leases r' hr'
      · obtain ⟨call, -, rfl⟩ := List.mem_map.mp hr'
        exact iff_of_false hempty.mp (by rintro ⟨⟩)

/-- A call is arriving or it waits. -/
theorem AcquireQueue.Fair.not_mem_waiters (h : q.Fair posted) {call : Nat}
    (hcall : call ∈ q.arriving) : call ∉ q.waiters := by
  have hnodup := (h.once.nodup_iff.mpr List.nodup_range)
  rw [List.append_assoc] at hnodup
  exact fun hmem => (List.nodup_append.mp (List.nodup_append.mp hnodup).2.1).2.2 call hcall call
    hmem rfl

theorem QueueStep.inOrder (hstep : QueueStep q q' new) (h : q.Fair posted) :
    q.InOrder q' new := by
  cases hstep with
  | unchanged | arrives =>
    exact ⟨.inl (.refl _), fun r hr => absurd hr List.not_mem_nil⟩
  | @answered arriving r harriving hlease hstopping =>
    refine ⟨.inl (.refl _), fun r' hr' _ hmem => ?_⟩
    rw [List.mem_singleton.mp hr'] at hmem
    exact absurd hmem (h.not_mem_waiters (harriving.mem_iff.mpr List.mem_cons_self))
  | queued => exact ⟨.inr ⟨_, rfl⟩, fun r hr => absurd hr List.not_mem_nil⟩
  | @served call rest lease hfirst hlease =>
    refine ⟨.inl ?_, fun r' hr' _ _ => ?_⟩
    · rw [hfirst]
      exact List.sublist_cons_self call rest
    · rw [List.mem_singleton.mp hr', hfirst]
      rfl
  | timedOut =>
    refine ⟨.inl List.erase_sublist, fun r' hr' hsuccess => ?_⟩
    rw [List.mem_singleton.mp hr'] at hsuccess
    cases hsuccess
  | stopped =>
    refine ⟨.inl (List.nil_sublist _), fun r' hr' hsuccess => ?_⟩
    obtain ⟨call, -, rfl⟩ := List.mem_map.mp hr'
    cases hsuccess

theorem QueueStep.staysStopped (hstep : QueueStep q q' new) (h : q.Fair posted) :
    q.StaysStopped q' new := by
  intro hstopping
  have hnone := h.stopped hstopping
  cases hstep with
  | unchanged | arrives => exact ⟨hstopping, fun r hr => absurd hr List.not_mem_nil⟩
  | answered harriving hlease haborted =>
    refine ⟨hstopping, fun r hr => ?_⟩
    rw [List.mem_singleton.mp hr]
    exact haborted hstopping
  | queued harriving hrunning => exact absurd (hrunning.symm.trans hstopping) Bool.false_ne_true
  | served hfirst =>
    rw [hnone] at hfirst
    cases hfirst
  | timedOut hcall =>
    rw [hnone] at hcall
    cases hcall
  | stopped hrunning => exact absurd (hrunning.symm.trans hstopping) Bool.false_ne_true

end Queue

/-- The call that a message brings to the strand. -/
def PoolMessage.call : PoolMessage → Option Nat
  | .asyncAcquire call => some call
  | _ => none

namespace PoolSystem

/-! ### The pool is such a queue -/

/-- What the callers see of the pool. -/
def queueOf (s : PoolSystem) : AcquireQueue :=
  { arriving := s.strand.filterMap PoolMessage.call, waiters := s.waiters,
    stopping := s.stopping, calls := s.calls, maxWaiters := s.policy.limits.maxWaiters }

/-- The completions that a step posts; a delivered or dropped reply leaves the list. -/
def newReplies (s : PoolSystem) (e : PoolEvent) (s' : PoolSystem) : List PoolReply :=
  match e with
  | .deliver _ | .dropReply _ => []
  | _ => s'.replies.drop s.replies.length

variable {s s' : PoolSystem} {call : Nat} {error : AcquireError} {l : UpstreamLease}

/-- The same queue, and the same replies. -/
structure Unseen (s s' : PoolSystem) : Prop where
  queue : s'.queueOf = s.queueOf
  replies : s'.replies = s.replies

theorem Unseen.trans {s'' : PoolSystem} (h : Unseen s s') (h' : Unseen s' s'') : Unseen s s'' :=
  ⟨h'.queue.trans h.queue, h'.replies.trans h.replies⟩

theorem unseen_post {m : PoolMessage} (hm : m.call = none) (s : PoolSystem) :
    Unseen s (s.post m) := by
  refine ⟨?_, rfl⟩
  have harriving : (s.strand ++ [m]).filterMap PoolMessage.call =
      s.strand.filterMap PoolMessage.call := by
    rw [List.filterMap_append, List.filterMap_cons_none hm]
    exact List.append_nil _
  unfold queueOf PoolSystem.post
  dsimp only
  rw [harriving]

theorem unseen_dropLease (s : PoolSystem) (l : UpstreamLease) : Unseen s (s.dropLease l) := by
  unfold PoolSystem.dropLease
  split
  · exact unseen_post rfl s
  · exact ⟨rfl, rfl⟩

theorem unseen_leases (s : PoolSystem) (leases : List UpstreamLease) :
    Unseen s { s with leases := leases } := ⟨rfl, rfl⟩

theorem unseen_scheduleCleanup (s : PoolSystem) : Unseen s s.scheduleCleanup := by
  unfold PoolSystem.scheduleCleanup
  split <;> exact ⟨rfl, rfl⟩

theorem unseen_policy (s : PoolSystem) {policy : UpstreamPoolPolicy}
    (hlimits : policy.limits = s.policy.limits) : Unseen s { s with policy := policy } := by
  refine ⟨?_, rfl⟩
  unfold queueOf
  dsimp only
  rw [hlimits]

theorem unseen_acquire {found : Option UpstreamConnectionRecord} {policy : UpstreamPoolPolicy}
    (hacq : s.policy.acquire s.now = (found, policy)) : Unseen s { s with policy := policy } := by
  apply unseen_policy
  rw [← s.policy.acquire_limits s.now, hacq]

/-- A step of the strand or of a timer, from `s` to `s'`, is one of the queue that posts `new`. -/
structure Refines (s s' : PoolSystem) (q : AcquireQueue) (new : List PoolReply) : Prop where
  step : QueueStep q s'.queueOf new
  replies : s'.replies = s.replies ++ new

theorem Unseen.refines (h : Unseen s s') : Refines s s' s.queueOf [] :=
  ⟨h.queue ▸ .unchanged, by rw [h.replies, List.append_nil]⟩

/-- What the callers do not see before a step makes no difference. -/
theorem Refines.of_unseen {s₁ : PoolSystem} {new : List PoolReply} (h : Unseen s s₁)
    (hrefines : Refines s₁ s' s₁.queueOf new) : Refines s s' s.queueOf new := by
  rw [h.queue] at hrefines
  exact ⟨hrefines.step, by rw [hrefines.replies, h.replies]⟩

/-! ### The handlers -/

theorem refines_satisfyOneWaiter (s : PoolSystem) :
    ∃ new, Refines s s.satisfyOneWaiter s.queueOf new := by
  unfold PoolSystem.satisfyOneWaiter
  split
  · exact ⟨[], Unseen.refines ⟨rfl, rfl⟩⟩
  · next call rest hwaiters =>
    split
    · next policy hacq => exact ⟨[], (unseen_acquire hacq).refines⟩
    · next found policy hacq =>
      refine ⟨[⟨call, .Success, s.leaseOn found⟩], Refines.of_unseen (unseen_acquire hacq) ?_⟩
      -- the first waiter gets the lease
      have hmem : call ∈ s.waiters := by
        rw [hwaiters]
        exact List.mem_cons_self
      have herase : s.waiters.erase call = rest := by
        rw [hwaiters]
        exact List.erase_cons_head call rest
      unfold PoolSystem.completeWaiter
      rw [if_pos (by exact hmem)]
      have hstep : QueueStep (queueOf { s with policy := policy }) _
          [⟨call, .Success, s.leaseOn found⟩] := .served hwaiters rfl
      refine ⟨?_, rfl⟩
      rw [← herase] at hstep
      exact hstep

theorem unseen_record (s : PoolSystem) (r : PoolRecord) : Unseen s (s.record r) := ⟨rfl, rfl⟩

/-- An arriving call is answered, or waits; `q` is the queue before the call was taken from it. -/
theorem refines_runAcquire (s : PoolSystem) {q : AcquireQueue}
    (hqueue : s.queueOf = { q with arriving := s.queueOf.arriving })
    (harriving : q.arriving.Perm (call :: s.queueOf.arriving)) :
    ∃ new, Refines s (s.runAcquire call) q new ∧
      (s.stopping = true → new = [⟨call, .OperationAborted, {}⟩]) := by
  have hstopping : s.stopping = q.stopping := congrArg AcquireQueue.stopping hqueue
  have hwaiters : s.waiters = q.waiters := congrArg AcquireQueue.waiters hqueue
  have hmax : s.policy.limits.maxWaiters = q.maxWaiters :=
    congrArg AcquireQueue.maxWaiters hqueue
  have hcleanup := unseen_scheduleCleanup s
  have hsame : s.scheduleCleanup.stopping = s.stopping :=
    congrArg AcquireQueue.stopping hcleanup.queue
  have hempty (error : AcquireError) (herror : error ≠ .Success) :
      ({} : UpstreamLease).valid = true ↔ error = .Success :=
    iff_of_false (by simp [UpstreamLease.valid]) herror
  -- an answer to the call
  have hanswer {s' : PoolSystem} (hunseen : Unseen s s') (r : PoolRecord) (error : AcquireError)
      (l : UpstreamLease) (hlease : l.valid = true ↔ error = .Success)
      (haborted : q.stopping = true → error = .OperationAborted) :
      Refines s ((s'.record r).reply call error l) q [⟨call, error, l⟩] := by
    refine ⟨?_, by rw [← hunseen.replies]; rfl⟩
    show QueueStep q s'.queueOf _
    rw [hunseen.queue, hqueue]
    exact .answered harriving hlease haborted
  unfold PoolSystem.runAcquire
  dsimp only
  split
  · exact ⟨_, hanswer hcleanup _ .OperationAborted {} (hempty _ (by rintro ⟨⟩)) fun _ => rfl,
      fun _ => rfl⟩
  · next hrunning =>
    rw [hsame] at hrunning
    have hrunning' : ¬ q.stopping = true := hstopping ▸ hrunning
    split
    · next found policy hacq =>
      have hunseen := hcleanup.trans (unseen_acquire hacq)
      have hgranted := hanswer hunseen (s.scheduleCleanup.grantOf call found) .Success
        (s.scheduleCleanup.leaseOn found) (iff_of_true rfl rfl) fun h => absurd h hrunning'
      exact ⟨_, hgranted, fun h => absurd h hrunning⟩
    · next policy hacq =>
      have hunseen := hcleanup.trans (unseen_acquire hacq)
      split
      · exact ⟨_, hanswer hunseen _ .NoBufferSpace {} (hempty _ (by rintro ⟨⟩)) fun h =>
          absurd h hrunning',
          fun h => absurd h hrunning⟩
      · next hroom =>
        refine ⟨[], ⟨?_, by rw [List.append_nil, ← hunseen.replies]; rfl⟩,
          fun h => absurd h hrunning⟩
        rw [scheduleCleanup_policy, scheduleCleanup_waiters, hwaiters, hmax, not_le] at hroom
        have hstep := QueueStep.queued harriving (Bool.eq_false_iff.mpr hrunning') hroom
        rw [← hwaiters, ← scheduleCleanup_waiters] at hstep
        show QueueStep q { queueOf { s.scheduleCleanup with policy := policy } with
          waiters := s.scheduleCleanup.waiters ++ [call] } []
        rw [hunseen.queue, hqueue]
        exact hstep

/-- A waiter is completed, or it was before and the lease is dropped. -/
theorem refines_runTimeout (s : PoolSystem) (call : Nat) :
    ∃ new, Refines s (s.runTimeout call) s.queueOf new := by
  unfold PoolSystem.runTimeout PoolSystem.completeWaiter
  split
  · next hcall => exact ⟨_, .timedOut hcall, rfl⟩
  · have htimer : Unseen s { s with timers := s.timers.erase call } := ⟨rfl, rfl⟩
    exact ⟨[], (htimer.trans (unseen_dropLease _ {})).refines⟩

/-- The calls that the loop of `stop` completes, for the waiters it finds. -/
def abortedCalls : List Nat → List Nat
  | [] => []
  | call :: waiters => waiters ++ [waiters.getLastD call]

/-- No waiter is left; each was completed in place of the one before it, and the last once
    more. -/
theorem abortWaiters_replies (calls : List Nat) (s : PoolSystem) (hcalls : s.waiters = calls) :
    (s.abortWaiters calls).queueOf = { s.queueOf with waiters := [] } ∧
      (s.abortWaiters calls).replies =
        s.replies ++ (abortedCalls calls).map fun call => ⟨call, .OperationAborted, {}⟩ := by
  induction calls generalizing s with
  | nil =>
    refine ⟨?_, (List.append_nil _).symm⟩
    show s.queueOf = { s.queueOf with waiters := [] }
    rw [← hcalls]
    rfl
  | cons call calls ih =>
    cases calls with
    | nil => exact ⟨rfl, rfl⟩
    | cons next calls =>
      obtain ⟨hqueue, hreplies⟩ :=
        ih ({ s with waiters := next :: calls }.refuse next) rfl
      refine ⟨hqueue, hreplies.trans ?_⟩
      have hnext : abortedCalls (call :: next :: calls) = next :: abortedCalls (next :: calls) := by
        show next :: (calls ++ [(next :: calls).getLastD call]) = _
        rw [List.getLastD_cons]
        rfl
      rw [hnext]
      exact List.append_assoc s.replies _ _

/-- A single waiter is its own next one. -/
theorem abortedCalls_of_length_le {calls : List Nat} (h : calls.length ≤ 1) :
    abortedCalls calls = calls := by
  cases calls with
  | nil => rfl
  | cons call calls =>
    obtain rfl := List.length_eq_zero_iff.mp (Nat.le_zero.mp (Nat.le_of_succ_le_succ h))
    rfl

/-- Of several waiters, the last one is completed twice. -/
theorem not_nodup_abortedCalls {calls : List Nat} (h : 1 < calls.length) :
    ¬ (abortedCalls calls).Nodup := by
  cases calls with
  | nil => cases h
  | cons call calls =>
    have hlast : calls.getLastD call ∈ calls := by
      obtain ⟨next, calls, rfl⟩ := List.exists_cons_of_length_pos (Nat.lt_of_succ_lt_succ h)
      rw [List.getLastD_cons, ← List.getLast_eq_getLastD (List.cons_ne_nil next calls)]
      exact List.getLast_mem _
    intro hnodup
    exact (List.nodup_append.mp hnodup).2.2 _ hlast _ (List.mem_singleton_self _) rfl

theorem runStop_replies (hrunning : s.stopping = false) :
    s.runStop.queueOf = { s.queueOf with stopping := true, waiters := [] } ∧
      s.runStop.replies = s.replies ++
        (abortedCalls s.waiters).map fun call => ⟨call, .OperationAborted, {}⟩ := by
  have hloop : s.runStop = { s with stopping := true }.abortWaiters s.waiters := by
    simp [PoolSystem.runStop, hrunning]
  rw [hloop]
  exact abortWaiters_replies s.waiters { s with stopping := true } rfl

/-- The completions that are posted when `stop` runs. -/
theorem newReplies_stop {i : Nat} (hm : s.strand[i]? = some .stop)
    (hrunning : s.stopping = false) (hs : s.step (.runMessage i) = some s') :
    s.newReplies (.runMessage i) s' =
      (abortedCalls s.waiters).map fun call => ⟨call, .OperationAborted, {}⟩ := by
  obtain rfl := Option.some.inj (hs.symm.trans (congrArg (Option.map _) hm))
  obtain ⟨-, hreplies⟩ := runStop_replies (s := { s with strand := s.strand.eraseIdx i }) hrunning
  have hdrop := congrArg (List.drop s.replies.length) hreplies
  rw [List.drop_left] at hdrop
  exact hdrop

theorem refines_runStop (s : PoolSystem)
    (hwaiters : s.stopping = false → s.waiters.length ≤ 1) :
    ∃ new, Refines s s.runStop s.queueOf new := by
  cases hstopping : s.stopping with
  | true =>
    have hsame : s.runStop = s := by simp [PoolSystem.runStop, hstopping]
    rw [hsame]
    exact ⟨[], Unseen.refines ⟨rfl, rfl⟩⟩
  | false =>
    obtain ⟨hqueue, hreplies⟩ := runStop_replies hstopping
    rw [abortedCalls_of_length_le (hwaiters hstopping)] at hreplies
    refine ⟨_, ?_, hreplies⟩
    rw [hqueue]
    exact .stopped (q := s.queueOf) hstopping

theorem unseen_runDiscard (s : PoolSystem) (lease : UpstreamLease) :
    Unseen s (s.runDiscard lease) := by
  unfold PoolSystem.runDiscard
  split
  · exact unseen_policy s (s.policy.discard_limits lease)
  · exact (unseen_policy s (s.policy.discard_limits lease)).trans (unseen_record _ _)

/-! ### One step -/

/-- A message that brings no call leaves the queue as it is. -/
theorem unseen_takeMessage {i : Nat} {m : PoolMessage} (hm : s.strand[i]? = some m)
    (hcall : m.call = none) : Unseen s { s with strand := s.strand.eraseIdx i } := by
  refine ⟨?_, rfl⟩
  obtain ⟨hlt, rfl⟩ := List.getElem?_eq_some_iff.mp hm
  have harriving : (s.strand.eraseIdx i).filterMap PoolMessage.call =
      s.strand.filterMap PoolMessage.call := by
    rw [List.eraseIdx_eq_take_drop_succ, List.filterMap_append]
    conv_rhs => rw [← List.take_append_drop i s.strand, List.drop_eq_getElem_cons hlt,
      List.filterMap_append, List.filterMap_cons_none hcall]
  unfold queueOf
  dsimp only
  rw [harriving]

/-- When `stop` runs, and the pool is not stopping, at most `n` callers wait. -/
def StopsWith (n : Nat) (s : PoolSystem) (e : PoolEvent) : Prop :=
  ∀ i, e = .runMessage i → s.strand[i]? = some .stop → s.stopping = false →
    s.waiters.length ≤ n

/-- **Refinement.** A step of the pool is a step of the queue of its callers, unless it stops
    the pool while several of them wait. -/
theorem queueStep_of_step {e : PoolEvent} (hok : s.StopsWith 1 e) (hs : s.step e = some s') :
    QueueStep s.queueOf s'.queueOf (s.newReplies e s') ∧
      ∀ i call, e = .runMessage i → s.strand[i]? = some (.asyncAcquire call) →
        s.stopping = true → s.newReplies e s' = [⟨call, .OperationAborted, {}⟩] := by
  -- what the callers do not see is no step of their queue
  have hunseen (h : Unseen s s') :
      QueueStep s.queueOf s'.queueOf (s'.replies.drop s.replies.length) := by
    rw [h.queue, h.replies, List.drop_length]
    exact .unchanged
  have hrefines {new : List PoolReply} (h : Refines s s' s.queueOf new) :
      s'.replies.drop s.replies.length = new := by
    rw [h.replies, List.drop_left]
  cases e with
  | asyncAcquire =>
    obtain rfl := Option.some.inj hs
    refine ⟨?_, (by rintro _ _ ⟨⟩)⟩
    have harriving : (s.strand ++ [PoolMessage.asyncAcquire s.calls]).filterMap PoolMessage.call =
        s.queueOf.arriving ++ [s.calls] := List.filterMap_append
    show QueueStep s.queueOf { s.queueOf with
      arriving := (s.strand ++ [PoolMessage.asyncAcquire s.calls]).filterMap PoolMessage.call,
      calls := s.calls + 1 } (s.replies.drop s.replies.length)
    rw [harriving, List.drop_length]
    exact .arrives
  | runMessage i =>
    obtain ⟨m, hm, hs⟩ := Option.map_eq_some_iff.mp hs
    have hstep {new : List PoolReply} (h : Refines s s' s.queueOf new) :
        QueueStep s.queueOf s'.queueOf (s.newReplies (.runMessage i) s') := by
      show QueueStep _ _ (s'.replies.drop s.replies.length)
      rw [hrefines h]
      exact h.step
    -- for a message without a call only the refinement is left
    have hother (hcall : m.call = none) (h : ∃ new, Refines s s' s.queueOf new) :
        QueueStep s.queueOf s'.queueOf (s.newReplies (.runMessage i) s') ∧
          ∀ j call, PoolEvent.runMessage i = .runMessage j →
            s.strand[j]? = some (.asyncAcquire call) → s.stopping = true →
              s.newReplies (.runMessage i) s' = [⟨call, .OperationAborted, {}⟩] := by
      obtain ⟨new, h⟩ := h
      refine ⟨hstep h, fun j call hj hcall' _ => ?_⟩
      obtain rfl := PoolEvent.runMessage.inj hj
      obtain rfl := Option.some.inj (hm.symm.trans hcall')
      cases hcall
    cases m with
    | asyncAcquire call =>
      obtain ⟨new, h, haborted⟩ := refines_runAcquire (q := s.queueOf)
        { s with strand := s.strand.eraseIdx i } rfl (filterMap_perm_eraseIdx hm)
      rw [show PoolSystem.runAcquire _ call = s' from hs] at h
      have h' : Refines s s' s.queueOf new := ⟨h.step, h.replies⟩
      refine ⟨hstep h', fun j call' hj hcall' hstopping => ?_⟩
      obtain rfl := PoolEvent.runMessage.inj hj
      obtain rfl := PoolMessage.asyncAcquire.inj (Option.some.inj (hm.symm.trans hcall'))
      exact (hrefines h').trans (haborted hstopping)
    | releaseReusable lease =>
      refine hother rfl ?_
      obtain rfl := hs
      have htaken := (unseen_takeMessage hm rfl).trans
        (unseen_policy _ (s.policy.releaseReusable_limits lease.markReturned s.now))
      obtain ⟨new, h⟩ := refines_satisfyOneWaiter _
      exact ⟨new, h.of_unseen htaken⟩
    | discard lease =>
      refine hother rfl ?_
      obtain rfl := hs
      exact ⟨[], ((unseen_takeMessage hm rfl).trans (unseen_runDiscard _ _)).refines⟩
    | discardAbandoned c =>
      refine hother rfl ?_
      obtain rfl := hs
      have hdiscarded := unseen_runDiscard { s with strand := s.strand.eraseIdx i }
        { connection := some c }
      exact ⟨[], ((unseen_takeMessage hm rfl).trans hdiscarded).refines⟩
    | stop =>
      refine hother rfl ?_
      obtain rfl := hs
      obtain ⟨new, h⟩ := refines_runStop { s with strand := s.strand.eraseIdx i } (hok i rfl hm)
      exact ⟨new, h.of_unseen (unseen_takeMessage hm rfl)⟩
  | timerFires call =>
    obtain ⟨_, ⟨⟩⟩ := Option.ite_none_right_eq_some.mp hs
    obtain ⟨new, h⟩ := refines_runTimeout s call
    refine ⟨?_, (by rintro _ _ ⟨⟩)⟩
    show QueueStep _ _ ((s.runTimeout call).replies.drop s.replies.length)
    rw [hrefines h]
    exact h.step
  | cleanupFires =>
    obtain ⟨_, ⟨⟩⟩ := Option.ite_none_right_eq_some.mp hs
    refine ⟨hunseen ?_, (by rintro _ _ ⟨⟩)⟩
    have hpruned :
        Unseen s { s with cleanupScheduled := false, policy := s.policy.pruneIdle s.now } :=
      ⟨rfl, rfl⟩
    exact hpruned.trans (unseen_scheduleCleanup _)
  | deliver i =>
    obtain ⟨r, hr, rfl⟩ := Option.map_eq_some_iff.mp hs
    exact ⟨.unchanged, (by rintro _ _ ⟨⟩)⟩
  | dropReply i =>
    obtain ⟨r, hr, rfl⟩ := Option.map_eq_some_iff.mp hs
    refine ⟨?_, (by rintro _ _ ⟨⟩)⟩
    have hqueue := (unseen_dropLease { s with replies := s.replies.eraseIdx i } r.lease).queue
    show QueueStep s.queueOf _ []
    rw [hqueue]
    exact .unchanged
  | moveLease i j =>
    refine ⟨hunseen ?_, (by rintro _ _ ⟨⟩)⟩
    simp only [PoolSystem.step] at hs
    split at hs
    · obtain rfl := Option.some.inj hs
      exact ⟨rfl, rfl⟩
    · obtain ⟨_, _, hs⟩ := Option.bind_eq_some_iff.mp hs
      obtain ⟨_, _, rfl⟩ := Option.map_eq_some_iff.mp hs
      exact (unseen_leases s _).trans (unseen_dropLease _ _)
  | dropLease i =>
    obtain ⟨l, hl, rfl⟩ := Option.map_eq_some_iff.mp hs
    exact ⟨hunseen ((unseen_leases s _).trans (unseen_dropLease _ l)), (by rintro _ _ ⟨⟩)⟩
  | releaseReusable i =>
    obtain ⟨l, hl, rfl⟩ := Option.map_eq_some_iff.mp hs
    exact ⟨hunseen ((unseen_leases s _).trans (unseen_post rfl _)), (by rintro _ _ ⟨⟩)⟩
  | discard i =>
    obtain ⟨l, hl, rfl⟩ := Option.map_eq_some_iff.mp hs
    exact ⟨hunseen ((unseen_leases s _).trans (unseen_post rfl _)), (by rintro _ _ ⟨⟩)⟩
  | stop =>
    obtain rfl := Option.some.inj hs
    exact ⟨hunseen (unseen_post rfl s), (by rintro _ _ ⟨⟩)⟩
  | tick elapsed =>
    obtain rfl := Option.some.inj hs
    exact ⟨hunseen ⟨rfl, rfl⟩, (by rintro _ _ ⟨⟩)⟩

/-! ### Destroyed pointers -/

/-- No pointer has been read after its destruction. -/
def Defined (s : PoolSystem) : Prop := ∀ call, .destroyedRead call ∉ s.log

theorem Defined.of_log (h : s.Defined) (new : List PoolRecord) (hlog : s'.log = new ++ s.log)
    (hnew : ∀ call, .destroyedRead call ∉ new) : s'.Defined := by
  intro call hmem
  rw [hlog] at hmem
  exact (List.mem_append.mp hmem).elim (hnew call) (h call)

theorem Defined.record {r : PoolRecord} (h : s.Defined) (hlog : s'.log = r :: s.log)
    (hr : ∀ call, r ≠ .destroyedRead call) : s'.Defined :=
  h.of_log [r] hlog fun call hmem => hr call (List.mem_singleton.mp hmem).symm

theorem Defined.satisfyOneWaiter (h : s.Defined) : s.satisfyOneWaiter.Defined := by
  unfold PoolSystem.satisfyOneWaiter
  split
  · exact h
  · split
    · exact h
    · next call _ _ _ found _ _ =>
      exact h.record (r := s.grantOf call found) (by simp) (by simp [grantOf])

theorem Defined.runAcquire (h : s.Defined) (call : Nat) : (s.runAcquire call).Defined := by
  unfold PoolSystem.runAcquire
  simp only
  split
  · exact h.record (r := .refused call .OperationAborted) (by simp) (by simp)
  · split
    · next found _ _ =>
      exact h.record (r := s.scheduleCleanup.grantOf call found) (by simp) (by simp [grantOf])
    · split
      · exact h.record (r := .refused call .NoBufferSpace) (by simp) (by simp)
      · exact h.record (r := .queued call) (by simp) (by simp)

theorem Defined.runDiscard (h : s.Defined) (lease : UpstreamLease) :
    (s.runDiscard lease).Defined := by
  unfold PoolSystem.runDiscard
  split
  · exact h
  · next c _ => exact h.record (r := .discarded c.id) rfl (by simp)

/-- The loop of `stop` comes to the last waiter, and reads its pointer. -/
theorem mem_log_abortWaiters (s : PoolSystem) (call : Nat) (calls : List Nat) :
    .destroyedRead (calls.getLastD call) ∈ (s.abortWaiters (call :: calls)).log := by
  induction calls generalizing s call with
  | nil =>
    show _ ∈ PoolRecord.refused call .OperationAborted :: .destroyedRead call :: s.log
    exact List.mem_cons_of_mem _ List.mem_cons_self
  | cons next calls ih =>
    rw [List.getLastD_cons]
    exact ih _ next

theorem defined_step {e : PoolEvent} (h : s.Defined) (hok : s.StopsWith 0 e)
    (hs : s.step e = some s') : s'.Defined := by
  cases step_kind hs with
  | timer call => exact h.of_log [] (by simp [runTimeout]) (by simp)
  | message i m hm =>
    have htake : Defined { s with strand := s.strand.eraseIdx i } := h
    cases m with
    | asyncAcquire call => exact htake.runAcquire call
    | releaseReusable l =>
      have htaken : Defined { s with strand := s.strand.eraseIdx i,
                                     policy := s.policy.releaseReusable l.markReturned s.now } := h
      exact htaken.satisfyOneWaiter
    | discard l => exact htake.runDiscard l.markReturned
    | discardAbandoned c => exact htake.runDiscard { connection := some c }
    | stop =>
      cases hstopping : s.stopping with
      | true => exact h.of_log [] (by simp [runMessage, runStop]) (by simp)
      | false =>
        have hnil := List.length_eq_zero_iff.mp (Nat.le_zero.mp (hok i rfl hm hstopping))
        exact h.of_log [] (by simp [runMessage, runStop, hnil, abortWaiters]) (by simp)
  | other e s' hmessage hsame => exact h.of_log [] hsame.log (by simp)

theorem not_defined_step {e : PoolEvent} (hbad : ¬ s.StopsWith 0 e) (hs : s.step e = some s') :
    ¬ s'.Defined := by
  simp only [StopsWith, not_forall] at hbad
  obtain ⟨i, rfl, hm, hstopping, hwaiters⟩ := hbad
  obtain rfl := Option.some.inj (hs.symm.trans (congrArg (Option.map _) hm))
  obtain ⟨call, calls, hcons⟩ := List.exists_cons_of_length_pos (Nat.lt_of_not_le hwaiters)
  intro hdefined
  refine hdefined (calls.getLastD call) ?_
  have hread := mem_log_abortWaiters
    { s with strand := s.strand.eraseIdx i, stopping := true } call calls
  simpa [runMessage, runStop, hstopping, hcons] using hread

end PoolSystem

/-! ### Runs -/

/-- A pool in use, with all completions that were posted, the first one first. -/
structure PoolRun where
  system : PoolSystem
  posted : List PoolReply := []

namespace PoolRun

def step (r : PoolRun) (e : PoolEvent) : Option PoolRun :=
  (r.system.step e).map fun system =>
    { system := system, posted := r.posted ++ r.system.newReplies e system }

/-- Every acquire is completed once, with a lease or an error; every connection that counts as
    busy is on a lease, or on its way back. -/
structure Completes (r : PoolRun) : Prop where
  fair : r.system.queueOf.Fair r.posted
  resources : r.system.ResourceInvariant

/-- A step serves the waiters in their order, and after `stop` completes calls with
    `OperationAborted`, each as soon as it has arrived. -/
structure Serves (r : PoolRun) (e : PoolEvent) (r' : PoolRun) : Prop where
  inOrder : r.system.queueOf.InOrder r'.system.queueOf (r.system.newReplies e r'.system)
  staysStopped :
    r.system.queueOf.StaysStopped r'.system.queueOf (r.system.newReplies e r'.system)
  aborts : ∀ i call, e = .runMessage i → r.system.strand[i]? = some (.asyncAcquire call) →
    r.system.stopping = true →
      r.system.newReplies e r'.system = [⟨call, .OperationAborted, {}⟩]

/-- A step that stops the pool finds at most `n` callers waiting. -/
def StopsWith (n : Nat) (r : PoolRun) (e : PoolEvent) (_ : PoolRun) : Prop :=
  r.system.StopsWith n e

theorem StopsWith.one {r r' : PoolRun} {e : PoolEvent} (h : StopsWith 0 r e r') :
    StopsWith 1 r e r' :=
  fun i hi hm hrunning => (h i hi hm hrunning).trans (Nat.zero_le 1)

section Steps

variable {r r' : PoolRun} {e : PoolEvent}

/-- What the queue and the accounts keep from step to step. -/
def Inv (r : PoolRun) : Prop := r.system.queueOf.Fair r.posted ∧ r.system.Sound []

theorem Inv.completes (h : r.Inv) : r.Completes := ⟨h.1, h.2.resourceInvariant⟩

theorem inv_init (l : { l : PoolLimits // l.Accepted }) :
    Inv { system := PoolSystem.init l } :=
  ⟨⟨.refl _, fun _ hr => absurd hr List.not_mem_nil, Nat.zero_le _, fun _ => rfl⟩,
    PoolSystem.sound_init l⟩

/-- **Step lemma.** -/
theorem Inv.step (h : r.Inv) (hok : StopsWith 1 r e r') (hstep : r.step e = some r') :
    Serves r e r' ∧ r'.Inv := by
  obtain ⟨system, hs, rfl⟩ := Option.map_eq_some_iff.mp hstep
  obtain ⟨hqueue, haborts⟩ := PoolSystem.queueStep_of_step hok hs
  exact ⟨⟨hqueue.inOrder h.1, hqueue.staysStopped h.1, haborts⟩, hqueue.fair h.1,
    PoolSystem.sound_step h.2 hs⟩

/-- The completions have distinct calls. -/
theorem posted_nodup (h : r.system.queueOf.Fair r.posted) : (r.posted.map (·.call)).Nodup :=
  have hnodup := h.once.nodup_iff.mpr List.nodup_range
  (List.nodup_append.mp (List.nodup_append.mp hnodup).1).1

/-- A `stop` that finds several waiters completes one of them twice. -/
theorem not_fair_step (hbad : ¬ StopsWith 1 r e r') (hstep : r.step e = some r') :
    ¬ r'.system.queueOf.Fair r'.posted := by
  obtain ⟨system, hs, rfl⟩ := Option.map_eq_some_iff.mp hstep
  simp only [StopsWith, PoolSystem.StopsWith, not_forall] at hbad
  obtain ⟨i, rfl, hm, hstopping, hwaiters⟩ := hbad
  intro hfair
  -- the calls aborted by the step are among the completions
  have hposted := posted_nodup hfair
  rw [List.map_append, PoolSystem.newReplies_stop hm hstopping hs, List.map_map] at hposted
  have hcalls := (List.nodup_append.mp hposted).2.1
  refine PoolSystem.not_nodup_abortedCalls (Nat.lt_of_not_le hwaiters) ?_
  simpa [Function.comp_def] using hcalls

end Steps

/-- **Every acquire completes once.** In every run of the pool, with messages, timers, returns
and `stop` in any order, each call is completed at most once, with a valid lease exactly if there
is no error, and is not lost; the waiters are no more than `max_waiters` and are served in the
order of their arrival; after `stop` none waits, and calls are aborted; and no destroyed pointer
is read: exactly if `stop` finds nobody waiting.  Where the pointer that `stop` reads after its
destruction gives the waiter still, all but that last part holds exactly if `stop` finds at most
one waiter. -/
theorem acquires_complete_once (l : { l : PoolLimits // l.Accepted }) (events : List PoolEvent) :
    ((Machine.Always step (fun r => r.Completes ∧ r.system.Defined)
        { system := PoolSystem.init l } events ∧
      Machine.EachStep step Serves { system := PoolSystem.init l } events) ↔
        Machine.EachStep step (StopsWith 0) { system := PoolSystem.init l } events) ∧
    ((Machine.Always step Completes { system := PoolSystem.init l } events ∧
      Machine.EachStep step Serves { system := PoolSystem.init l } events) ↔
        Machine.EachStep step (StopsWith 1) { system := PoolSystem.init l } events) := by
  have hinit := inv_init l
  have hdefined : Machine.Always step (fun r => Completes r ∧ r.system.Defined)
      { system := PoolSystem.init l } events ↔
        Machine.EachStep step (StopsWith 0) { system := PoolSystem.init l } events := by
    refine Machine.always_iff_eachStep Inv ?_ ?_ events hinit ⟨hinit.completes, ?_⟩
    · intro r e r' h hP hok hstep
      have hinv := (h.step hok.one hstep).2
      obtain ⟨system, hs, rfl⟩ := Option.map_eq_some_iff.mp hstep
      exact ⟨hinv, hinv.completes, PoolSystem.defined_step hP.2 hok hs⟩
    · intro r e r' _ _ hbad hstep hP'
      obtain ⟨system, hs, rfl⟩ := Option.map_eq_some_iff.mp hstep
      exact PoolSystem.not_defined_step hbad hs hP'.2
    · exact fun call hmem => absurd hmem List.not_mem_nil
  have hcompletes : Machine.Always step Completes { system := PoolSystem.init l } events ↔
      Machine.EachStep step (StopsWith 1) { system := PoolSystem.init l } events := by
    refine Machine.always_iff_eachStep Inv ?_ ?_ events hinit hinit.completes
    · intro r e r' h _ hok hstep
      have hinv := (h.step hok hstep).2
      exact ⟨hinv, hinv.completes⟩
    · exact fun r e r' _ _ hbad hstep h => not_fair_step hbad hstep h.fair
  constructor
  · refine ⟨fun h => hdefined.mp h.1, fun h => ⟨hdefined.mpr h, ?_⟩⟩
    refine Machine.eachStep_of_eachStep Inv ?_ hinit h
    exact fun r e r' h hok hstep => h.step hok.one hstep
  · refine ⟨fun h => hcompletes.mp h.1, fun h => ⟨hcompletes.mpr h, ?_⟩⟩
    refine Machine.eachStep_of_eachStep Inv ?_ hinit h
    exact fun r e r' h hok hstep => h.step hok hstep

/-- The second and the third caller wait for the only connection while the pool is stopped: the
    third one is completed twice, and the second one never. -/
theorem stop_completes_next :
    ¬ Machine.Always step Completes { system := PoolSystem.init PoolSystem.oneConnection }
        [.asyncAcquire, .runMessage 0, .deliver 0, .asyncAcquire, .runMessage 0, .asyncAcquire,
         .runMessage 0, .stop, .runMessage 0] ∧
    (Machine.run step { system := PoolSystem.init PoolSystem.oneConnection }
        [.asyncAcquire, .runMessage 0, .deliver 0, .asyncAcquire, .runMessage 0, .asyncAcquire,
         .runMessage 0, .stop, .runMessage 0]).map
      (fun r => (r.posted.map fun p => (p.call, p.error), r.system.waiters)) =
        some ([(0, .Success), (2, .OperationAborted), (2, .OperationAborted)], []) := by
  have hrun : (Machine.run step { system := PoolSystem.init PoolSystem.oneConnection }
      [.asyncAcquire, .runMessage 0, .deliver 0, .asyncAcquire, .runMessage 0, .asyncAcquire,
       .runMessage 0, .stop, .runMessage 0]).map
      (fun r => (r.posted.map fun p => (p.call, p.error), r.system.waiters)) =
        some ([(0, .Success), (2, .OperationAborted), (2, .OperationAborted)], []) := by decide
  refine ⟨fun h => ?_, hrun⟩
  obtain ⟨r, hr, hposted⟩ := Option.map_eq_some_iff.mp hrun
  have hcalls := posted_nodup (h.last r hr).fair
  have htwice : r.posted.map (·.call) = [0, 2, 2] := by
    have hfst := congrArg (List.map Prod.fst) (Prod.mk.inj hposted).1
    simpa [Function.comp_def] using hfst
  rw [htwice] at hcalls
  exact absurd hcalls (by decide)

end PoolRun
end PulseGate
