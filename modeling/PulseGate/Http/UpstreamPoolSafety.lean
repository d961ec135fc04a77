import PulseGate.Lib.Machine
import PulseGate.Http.UpstreamPoolAccounts
import Mathlib.Data.List.Perm.Basic

namespace PulseGate

/-!
# Safety of the upstream pool

The records of `PoolSystem.outstanding` — held by callers, in a reply on its way, or in a
message the strand has not run — are the records the policy's accounts call `out`.

* `resource_invariant` — the counters, ids and limits of the pool, in every run;
* `no_lost_wakeup` — a queued waiter means that no capacity is free, in exactly the runs
  that discard a connection only while nobody waits.
-/

section Lists

variable {α β : Type*} {f : α → Option β} {l : List α} {i : Nat} {a : α}

theorem filterMap_cons_toList (a : α) (l : List α) :
    (a :: l).filterMap f = (f a).toList ++ l.filterMap f := by
  cases h : f a <;> simp [h]

theorem filterMap_perm_eraseIdx (h : l[i]? = some a) :
    (l.filterMap f).Perm ((f a).toList ++ (l.eraseIdx i).filterMap f) := by
  obtain ⟨hi, rfl⟩ := List.getElem?_eq_some_iff.mp h
  rw [← filterMap_cons_toList]
  exact ((List.getElem_cons_eraseIdx_perm hi).filterMap f).symm

theorem filterMap_set_perm (h : i < l.length) (b : α) :
    ((l.set i b).filterMap f).Perm ((f b).toList ++ (l.eraseIdx i).filterMap f) := by
  rw [← filterMap_cons_toList]
  exact (List.set_perm_cons_eraseIdx h b).filterMap f

end Lists

/-- The connection of such a lease goes back to the pool when the lease is dropped. -/
def UpstreamLease.Attached (l : UpstreamLease) : Prop :=
  l.valid = true → l.owner = true ∧ l.explicitlyReturned = false

theorem UpstreamLease.Attached.abandon_eq {l : UpstreamLease} (h : l.Attached) :
    l.abandon = l.connection := by
  cases hc : l.connection with
  | none => simp [abandon, hc]
  | some c =>
    obtain ⟨howner, hreturned⟩ := h (by simp [valid, hc])
    simp [abandon, hc, howner, hreturned]

theorem UpstreamLease.attached_none {l : UpstreamLease} (h : l.connection = none) :
    l.Attached := by
  simp [Attached, valid, h]

namespace PoolSystem

/-- The connections of the leases that callers hold. -/
def held (s : PoolSystem) : List UpstreamConnectionRecord :=
  s.leases.filterMap (·.connection)

/-- The connections of the leases on their way to a caller. -/
def onTheWay (s : PoolSystem) : List UpstreamConnectionRecord :=
  s.replies.filterMap (·.lease.connection)

/-- The connections of the return and discard messages the strand has not run. -/
def comingBack (s : PoolSystem) : List UpstreamConnectionRecord :=
  s.strand.filterMap (·.connection)

def outstanding (s : PoolSystem) : List UpstreamConnectionRecord :=
  s.held ++ s.onTheWay ++ s.comingBack

/-- The accounts are right for the records that are outstanding or `inHand`, in the hands of
    the step that is being taken. -/
structure Sound (s : PoolSystem) (inHand : List UpstreamConnectionRecord) : Prop where
  accounts : Accounts s.policy (inHand ++ s.outstanding) s.log
  leases : ∀ lease ∈ s.leases, lease.Attached
  replies : ∀ r ∈ s.replies, r.lease.Attached

/-- **The rule for `stop`.** What is kept when a waiter leaves the queue, when a destroyed
    pointer is read and when a call is aborted, stopping keeps. -/
theorem runStop_rule {P : PoolSystem → Prop} {s : PoolSystem} (hs : P s)
    (hstopping : P { s with stopping := true })
    (hleave : ∀ s call waiters, s.waiters = call :: waiters → P s →
      P { s with waiters := waiters })
    (hread : ∀ s call, P s → P (s.record (.destroyedRead call)))
    (hrefuse : ∀ s call, P s → P (s.refuse call)) : P s.runStop := by
  -- the loop goes over the waiters there were at its start
  have hloop (calls : List Nat) : ∀ s : PoolSystem, s.waiters = calls → P s →
      P (s.abortWaiters calls) := by
    induction calls with
    | nil => exact fun _ _ hs => hs
    | cons call calls ih =>
      intro s hcalls hs
      have hleft := hleave s call calls hcalls hs
      cases calls with
      | nil => exact hrefuse _ call (hread _ call hleft)
      | cons next calls => exact ih _ rfl (hrefuse _ next hleft)
  unfold PoolSystem.runStop
  split
  · exact hs
  · exact hloop s.waiters { s with stopping := true } rfl hstopping

/-! ### Records change hands -/

section Hands

variable {s : PoolSystem} {inHand : List UpstreamConnectionRecord}

theorem sound_init (l : { l : PoolLimits // l.Accepted }) : Sound (init l) [] where
  accounts := Accounts.init l
  leases := by simp [init]
  replies := by simp [init]

/-- A posted message holds its record. -/
theorem outstanding_post (m : PoolMessage) :
    (s.post m).outstanding.Perm (m.connection.toList ++ s.outstanding) := by
  have hback : (s.post m).comingBack = s.comingBack ++ m.connection.toList := by
    simp [post, comingBack, filterMap_cons_toList]
  show (s.held ++ s.onTheWay ++ (s.post m).comingBack).Perm _
  rw [hback, ← List.append_assoc]
  exact List.perm_append_comm

theorem Sound.post {m : PoolMessage} (h : Sound s (m.connection.toList ++ inHand)) :
    Sound (s.post m) inHand where
  accounts := by
    refine h.accounts.perm ?_
    rw [List.append_assoc]
    exact (List.perm_append_comm_assoc _ _ _).trans ((outstanding_post m).symm.append_left _)
  leases := h.leases
  replies := h.replies

theorem outstanding_reply (call : Nat) (error : AcquireError) (lease : UpstreamLease) :
    (s.reply call error lease).outstanding.Perm (lease.connection.toList ++ s.outstanding) := by
  have hway : (s.reply call error lease).onTheWay = s.onTheWay ++ lease.connection.toList := by
    simp [reply, onTheWay, filterMap_cons_toList]
  show (s.held ++ (s.reply call error lease).onTheWay ++ s.comingBack).Perm _
  rw [hway, ← List.append_assoc, List.append_assoc]
  exact List.perm_append_comm_assoc _ _ _

theorem Sound.reply {l : UpstreamLease} (h : Sound s (l.connection.toList ++ inHand))
    (hlease : l.Attached) (call : Nat) (error : AcquireError) :
    Sound (s.reply call error l) inHand where
  accounts := by
    refine h.accounts.perm ?_
    rw [List.append_assoc]
    exact (List.perm_append_comm_assoc _ _ _).trans
      ((outstanding_reply call error l).symm.append_left _)
  leases := h.leases
  replies := by
    intro r hr
    rcases List.mem_append.mp hr with hr | hr
    · exact h.replies r hr
    · rw [List.mem_singleton.mp hr]
      exact hlease

/-- An empty reply moves no record. -/
theorem Sound.replyEmpty (h : Sound s inHand) (call : Nat) (error : AcquireError) :
    Sound (s.reply call error {}) inHand :=
  Sound.reply (l := {}) h (UpstreamLease.attached_none rfl) call error

theorem Sound.dropLease {l : UpstreamLease}
    (h : Sound s (l.connection.toList ++ inHand)) (hlease : l.Attached) :
    Sound (s.dropLease l) inHand := by
  unfold PoolSystem.dropLease
  rw [hlease.abandon_eq]
  cases hc : l.connection with
  | none => simpa [hc] using h
  | some c =>
    exact Sound.post (m := .discardAbandoned c) (by simpa [hc, PoolMessage.connection] using h)

theorem Sound.completeWaiter {l : UpstreamLease}
    (h : Sound s (l.connection.toList ++ inHand)) (hlease : l.Attached) (call : Nat)
    (error : AcquireError) : Sound (s.completeWaiter call error l) inHand := by
  unfold PoolSystem.completeWaiter
  split
  · exact Sound.reply (s := { s with waiters := s.waiters.erase call })
      ⟨h.accounts, h.leases, h.replies⟩ hlease call error
  · exact h.dropLease hlease

theorem Sound.record {r : PoolRecord} (h : Sound s inHand) (hr : r.Neutral) :
    Sound (s.record r) inHand :=
  ⟨h.accounts.neutral hr, h.leases, h.replies⟩

theorem Sound.scheduleCleanup (h : Sound s inHand) : Sound s.scheduleCleanup inHand := by
  unfold PoolSystem.scheduleCleanup
  split
  · exact h
  · exact ⟨h.accounts, h.leases, h.replies⟩

/-- `acquire` puts the record it finds into the hands of the step. -/
theorem Sound.acquire_some (h : Sound s inHand) {found : UpstreamConnectionRecord}
    {policy : UpstreamPoolPolicy} (hacq : s.policy.acquire s.now = (some found, policy))
    (call : Nat) :
    Sound ({ s with policy := policy }.record (s.grantOf call found))
      ((s.leaseOn found).connection.toList ++ inHand) :=
  ⟨h.accounts.acquire_some hacq call, h.leases, h.replies⟩

theorem Sound.acquire_none (h : Sound s inHand) {policy : UpstreamPoolPolicy}
    (hacq : s.policy.acquire s.now = (none, policy)) :
    Sound { s with policy := policy } inHand :=
  ⟨h.accounts.acquire_none hacq, h.leases, h.replies⟩

theorem leaseOn_attached (s : PoolSystem) (found : UpstreamConnectionRecord) :
    (s.leaseOn found).Attached := fun _ => ⟨rfl, rfl⟩

/-! ### The handlers -/

theorem Sound.satisfyOneWaiter (h : Sound s inHand) : Sound s.satisfyOneWaiter inHand := by
  unfold PoolSystem.satisfyOneWaiter
  split
  · exact h
  · split
    · next hacq => exact h.acquire_none hacq
    · next call _ _ _ found policy hacq =>
      exact (h.acquire_some hacq call).completeWaiter (s.leaseOn_attached found) call .Success

theorem Sound.runAcquire (h : Sound s inHand) (call : Nat) :
    Sound (s.runAcquire call) inHand := by
  have h' := h.scheduleCleanup
  unfold PoolSystem.runAcquire
  simp only
  split
  · exact (h'.record (r := .refused call _) trivial).replyEmpty call _
  · split
    · next found policy hacq =>
      exact (h'.acquire_some hacq call).reply (leaseOn_attached _ found) call .Success
    · next policy hacq =>
      have hnone := h'.acquire_none hacq
      split
      · exact (hnone.record (r := .refused call _) trivial).replyEmpty call _
      · exact Sound.record ⟨hnone.accounts, hnone.leases, hnone.replies⟩ trivial

theorem Sound.takeBack {l : UpstreamLease} (h : Sound s (l.connection.toList ++ inHand)) :
    Sound { s with policy := s.policy.releaseReusable l.markReturned s.now } inHand := by
  refine ⟨?_, h.leases, h.replies⟩
  have haccounts := h.accounts
  cases hc : l.connection with
  | none =>
    simpa [hc, UpstreamPoolPolicy.releaseReusable, UpstreamLease.markReturned] using haccounts
  | some c =>
    rw [hc] at haccounts
    exact haccounts.release (l := l.markReturned) hc s.now

theorem Sound.runRelease {l : UpstreamLease} (h : Sound s (l.connection.toList ++ inHand)) :
    Sound (s.runRelease l) inHand :=
  h.takeBack.satisfyOneWaiter

theorem Sound.runDiscard {l : UpstreamLease}
    (h : Sound s (l.connection.toList ++ inHand)) : Sound (s.runDiscard l) inHand := by
  have haccounts := h.accounts
  unfold PoolSystem.runDiscard
  cases hc : l.connection with
  | none =>
    refine ⟨?_, h.leases, h.replies⟩
    simpa [hc, UpstreamPoolPolicy.discard] using haccounts
  | some c =>
    rw [hc] at haccounts
    exact ⟨haccounts.discard hc, h.leases, h.replies⟩

theorem Sound.runStop (h : Sound s inHand) : Sound s.runStop inHand := by
  refine runStop_rule (P := (Sound · inHand)) h ⟨h.accounts, h.leases, h.replies⟩ ?_ ?_ ?_
  · exact fun s _ _ _ hs => ⟨hs.accounts, hs.leases, hs.replies⟩
  · exact fun s call hs => hs.record (r := .destroyedRead call) trivial
  · exact fun s call hs => (hs.record (r := .refused call _) trivial).replyEmpty call _

theorem Sound.runMessage {m : PoolMessage} (h : Sound s (m.connection.toList ++ inHand)) :
    Sound (s.runMessage m) inHand := by
  cases m with
  | asyncAcquire call => exact Sound.runAcquire h call
  | releaseReusable lease => exact Sound.runRelease h
  | discard lease => exact Sound.runDiscard (l := lease.markReturned) h
  | discardAbandoned c => exact Sound.runDiscard (l := { connection := some c }) h
  | stop => exact Sound.runStop h

end Hands

/-! ### One step -/

section Take

variable {s : PoolSystem} {i : Nat}

/-- A message leaves the strand with its record. -/
theorem Sound.takeMessage {m : PoolMessage} (h : Sound s []) (hm : s.strand[i]? = some m) :
    Sound { s with strand := s.strand.eraseIdx i } (m.connection.toList ++ []) where
  accounts := by
    refine h.accounts.perm ?_
    rw [List.append_nil]
    refine ((filterMap_perm_eraseIdx hm).append_left (s.held ++ s.onTheWay)).trans ?_
    exact List.perm_append_comm_assoc _ _ _
  leases := h.leases
  replies := h.replies

/-- A reply is taken out with its record. -/
theorem Sound.takeReply {r : PoolReply} (h : Sound s []) (hr : s.replies[i]? = some r) :
    Sound { s with replies := s.replies.eraseIdx i } (r.lease.connection.toList ++ []) where
  accounts := by
    refine h.accounts.perm ?_
    rw [List.append_nil]
    refine (((filterMap_perm_eraseIdx hr).append_left s.held).append_right s.comingBack).trans ?_
    rw [List.append_assoc, List.append_assoc]
    exact (List.perm_append_comm_assoc _ _ _).trans (by rw [← List.append_assoc s.held]; rfl)
  leases := h.leases
  replies := fun r hr => h.replies r (List.mem_of_mem_eraseIdx hr)

/-- The records of the lease objects change from those of `s` by `taken` being taken out. -/
theorem Sound.takeLease {taken : List UpstreamConnectionRecord} {leases : List UpstreamLease}
    (h : Sound s [])
    (hperm : (s.leases.filterMap (·.connection)).Perm
      (taken ++ leases.filterMap (·.connection)))
    (hleases : ∀ lease ∈ leases, lease.Attached) :
    Sound { s with leases := leases } (taken ++ []) where
  accounts := by
    refine h.accounts.perm ?_
    rw [List.append_nil]
    refine ((hperm.append_right s.onTheWay).append_right s.comingBack).trans ?_
    rw [List.append_assoc, List.append_assoc]
    exact .of_eq (by rw [← List.append_assoc (leases.filterMap (·.connection))]; rfl)
  leases := hleases
  replies := h.replies

theorem Sound.mem_attached {l : UpstreamLease} (h : Sound s []) (hl : s.leases[i]? = some l) :
    l.Attached :=
  h.leases l (List.mem_of_getElem? hl)

/-- A lease object is moved from. -/
theorem Sound.moveOut {l : UpstreamLease} (h : Sound s []) (hl : s.leases[i]? = some l) :
    Sound { s with leases := s.leases.set i .movedFrom } (l.connection.toList ++ []) := by
  obtain ⟨hi, _⟩ := List.getElem?_eq_some_iff.mp hl
  refine h.takeLease ((filterMap_perm_eraseIdx hl).trans ?_) ?_
  · have hset := filterMap_set_perm (f := fun l : UpstreamLease => l.connection) hi
      UpstreamLease.movedFrom
    exact hset.symm.append_left l.connection.toList
  · intro lease hmem
    rcases List.mem_or_eq_of_mem_set hmem with hmem | rfl
    · exact h.leases lease hmem
    · exact UpstreamLease.attached_none rfl

/-- A lease object is moved into another one, whose old record is left in hand. -/
theorem Sound.moveInto {j : Nat} {a b : UpstreamLease} (h : Sound s []) (hij : i ≠ j)
    (ha : s.leases[i]? = some a) (hb : s.leases[j]? = some b) :
    Sound { s with leases := (s.leases.set j a).set i .movedFrom }
      (b.connection.toList ++ []) := by
  obtain ⟨hi, _⟩ := List.getElem?_eq_some_iff.mp ha
  obtain ⟨hj, _⟩ := List.getElem?_eq_some_iff.mp hb
  have ha' : (s.leases.set j a)[i]? = some a := by
    rw [List.getElem?_set_ne hij.symm]
    exact ha
  -- both ways of counting the leases after the first assignment leave `a`'s record behind
  have hrest : (((s.leases.set j a).eraseIdx i).filterMap (·.connection)).Perm
      ((s.leases.eraseIdx j).filterMap (·.connection)) :=
    (List.perm_append_left_iff a.connection.toList).mp
      ((filterMap_perm_eraseIdx ha').symm.trans (filterMap_set_perm hj a))
  have hset := filterMap_set_perm (f := fun l : UpstreamLease => l.connection)
    (l := s.leases.set j a) (by simpa using hi) UpstreamLease.movedFrom
  refine h.takeLease ((filterMap_perm_eraseIdx hb).trans ?_) ?_
  · exact ((hset.trans hrest).append_left b.connection.toList).symm
  · intro lease hmem
    rcases List.mem_or_eq_of_mem_set hmem with hmem | rfl
    · rcases List.mem_or_eq_of_mem_set hmem with hmem | rfl
      · exact h.leases lease hmem
      · exact h.mem_attached ha
    · exact UpstreamLease.attached_none rfl

end Take

/-- Every event keeps the accounts right. -/
theorem sound_step {s s' : PoolSystem} {e : PoolEvent} (h : Sound s []) (hs : step s e = some s') :
    Sound s' [] := by
  cases e with
  | asyncAcquire =>
    cases hs
    exact Sound.post (m := .asyncAcquire s.calls) ⟨h.accounts, h.leases, h.replies⟩
  | runMessage i =>
    obtain ⟨m, hm, rfl⟩ := Option.map_eq_some_iff.mp hs
    exact (h.takeMessage hm).runMessage
  | timerFires call =>
    obtain ⟨_, ⟨⟩⟩ := Option.ite_none_right_eq_some.mp hs
    exact Sound.completeWaiter (s := { s with timers := s.timers.erase call }) (l := {})
      ⟨h.accounts, h.leases, h.replies⟩ (UpstreamLease.attached_none rfl) call _
  | cleanupFires =>
    obtain ⟨_, ⟨⟩⟩ := Option.ite_none_right_eq_some.mp hs
    exact Sound.scheduleCleanup ⟨h.accounts.prune s.now, h.leases, h.replies⟩
  | deliver i =>
    obtain ⟨r, hr, rfl⟩ := Option.map_eq_some_iff.mp hs
    have htake := h.takeReply hr
    refine ⟨htake.accounts.perm ?_, ?_, htake.replies⟩
    -- the record goes from the replies to the leases
    · simp only [outstanding, held, List.filterMap_append, filterMap_cons_toList,
        List.filterMap_nil, List.append_nil, List.append_assoc]
      exact List.perm_append_comm_assoc _ _ _
    · intro lease hlease
      rcases List.mem_append.mp hlease with hlease | hlease
      · exact h.leases lease hlease
      · rw [List.mem_singleton.mp hlease]
        exact h.replies r (List.mem_of_getElem? hr)
  | dropReply i =>
    obtain ⟨r, hr, rfl⟩ := Option.map_eq_some_iff.mp hs
    exact (h.takeReply hr).dropLease (h.replies r (List.mem_of_getElem? hr))
  | moveLease i j =>
    simp only [step] at hs
    split at hs
    · cases hs
      exact h
    · next hij =>
      obtain ⟨a, ha, hs⟩ := Option.bind_eq_some_iff.mp hs
      obtain ⟨b, hb, rfl⟩ := Option.map_eq_some_iff.mp hs
      exact (h.moveInto hij ha hb).dropLease (h.mem_attached hb)
  | dropLease i =>
    obtain ⟨l, hl, rfl⟩ := Option.map_eq_some_iff.mp hs
    have htake := h.takeLease (filterMap_perm_eraseIdx hl)
      fun lease hmem => h.leases lease (List.mem_of_mem_eraseIdx hmem)
    exact htake.dropLease (h.mem_attached hl)
  | releaseReusable i =>
    obtain ⟨l, hl, rfl⟩ := Option.map_eq_some_iff.mp hs
    exact Sound.post (m := .releaseReusable l) (h.moveOut hl)
  | discard i =>
    obtain ⟨l, hl, rfl⟩ := Option.map_eq_some_iff.mp hs
    exact Sound.post (m := .discard l) (h.moveOut hl)
  | stop =>
    cases hs
    exact Sound.post (m := .stop) h
  | tick elapsed =>
    cases hs
    exact ⟨h.accounts, h.leases, h.replies⟩

/-! ### The resource invariant -/

/-- What the counters, ids and limits of the pool promise in a state between strand steps. -/
structure ResourceInvariant (s : PoolSystem) : Prop where
  busy : s.policy.busy = s.held.length + s.onTheWay.length + s.comingBack.length
  capacity : s.policy.busy + s.policy.idle.length ≤ s.policy.limits.maxConnections
  idle : s.policy.idle.length ≤ s.policy.limits.maxIdleConnections
  /-- No record is idle and leased, or leased twice. -/
  oneHolder : ((s.policy.idle ++ s.held ++ s.onTheWay ++ s.comingBack).map (·.id)).Nodup
  /-- No record was leased more often than the limit allows. -/
  reuses : ∀ id, grants s.log id ≤ s.policy.limits.maxReuses
  /-- Every record handed out was alive then: neither discarded nor older than its limits,
      and with a new id when it was created for the grant. -/
  sound : SoundGrants s.policy.limits s.log

theorem Sound.resourceInvariant {s : PoolSystem} (h : Sound s []) : ResourceInvariant s where
  busy := by simpa [outstanding, Nat.add_assoc] using h.accounts.busy
  capacity := h.accounts.capacity
  idle := h.accounts.idleRoom
  oneHolder := by
    have hdistinct := h.accounts.distinct
    simpa only [outstanding, List.nil_append, List.append_assoc] using hdistinct
  reuses := h.accounts.reuses
  sound := h.accounts.sound

/-- `busy_` is not zero when the strand runs a message that decrements it. -/
def NoUnderflow (s : PoolSystem) (e : PoolEvent) (_ : PoolSystem) : Prop :=
  ∀ i, e = .runMessage i → ∀ m ∈ s.strand[i]?, m.connection.isSome = true → 0 < s.policy.busy

/-- While somebody waits, no capacity is free. -/
def NoFreeCapacity (s : PoolSystem) : Prop :=
  s.waiters ≠ [] → s.policy.busy = s.policy.limits.maxConnections

instance (s : PoolSystem) : Decidable s.NoFreeCapacity := inferInstanceAs (Decidable (_ → _))

/-- A waiter that is still queued times out only when no capacity is free. -/
def TimesOutWhenFull (s : PoolSystem) (e : PoolEvent) (_ : PoolSystem) : Prop :=
  ∀ call, e = .timerFires call → call ∈ s.waiters →
    s.policy.busy = s.policy.limits.maxConnections

/-- A connection that is handed out while somebody waits goes to the first waiter. -/
def NoOvertaking (s : PoolSystem) (_ : PoolEvent) (s' : PoolSystem) : Prop :=
  ∀ new call c now fresh, s'.log = new ++ s.log → .granted call c now fresh ∈ new →
    ∀ first ∈ s.waiters.head?, call = first

/-- A discard or an abandoned lease that gives up a connection runs only when nobody waits. -/
def DiscardsUnawaited (s : PoolSystem) (e : PoolEvent) (_ : PoolSystem) : Prop :=
  match e with
  | .runMessage i =>
    match s.strand[i]? with
    | some (.discard lease) => lease.valid = true → s.waiters = []
    | some (.discardAbandoned _) => s.waiters = []
    | _ => True
  | _ => True

section Capacity

variable {s s' : PoolSystem} {inHand : List UpstreamConnectionRecord}
  {policy : UpstreamPoolPolicy} {found : UpstreamConnectionRecord}

/-- When `acquire` finds nothing, everything is busy. -/
theorem Sound.full_of_none (h : Sound s inHand)
    (hacq : s.policy.acquire s.now = (none, policy)) :
    policy.busy = policy.limits.maxConnections := by
  obtain ⟨hfull, rfl⟩ := UpstreamPoolPolicy.acquire_none hacq
  have hcapacity := h.accounts.capacity
  simp only
  omega

/-- When `acquire` finds something, not everything was busy. -/
theorem Sound.room_of_some (h : Sound s inHand)
    (hacq : s.policy.acquire s.now = (some found, policy)) :
    s.policy.busy + 1 = policy.busy ∧ policy.busy ≤ policy.limits.maxConnections ∧
      policy.limits = s.policy.limits := by
  have hlimits : policy.limits = s.policy.limits := by
    rw [← s.policy.acquire_limits s.now, hacq]
  have hcapacity := (h.accounts.acquire_some hacq 0).capacity
  exact ⟨(UpstreamPoolPolicy.acquire_some hacq).symm, by omega, hlimits⟩

theorem NoFreeCapacity.congr (h : NoFreeCapacity s) (hpolicy : s'.policy = s.policy)
    (hwaiters : s'.waiters ≠ [] → s.waiters ≠ []) : NoFreeCapacity s' := by
  intro hne
  rw [hpolicy]
  exact h (hwaiters hne)

theorem NoFreeCapacity.completeWaiter (h : NoFreeCapacity s) (call : Nat) (error : AcquireError)
    (l : UpstreamLease) : NoFreeCapacity (s.completeWaiter call error l) := by
  refine h.congr (by simp) ?_
  rintro hne hnil
  simp [hnil] at hne

/-- Where at most one place is free, waking one waiter fills it. -/
theorem noFreeCapacity_satisfyOneWaiter (h : Sound s [])
    (hroom : s.waiters ≠ [] → s.policy.limits.maxConnections ≤ s.policy.busy + 1) :
    NoFreeCapacity s.satisfyOneWaiter := by
  unfold PoolSystem.satisfyOneWaiter
  split
  · next hnil => exact fun hne => absurd hnil hne
  · next call rest hcons =>
    split
    · next policy hacq => exact fun _ => h.full_of_none hacq
    · next found policy hacq =>
      obtain ⟨hbusy, hle, hlimits⟩ := h.room_of_some hacq
      -- the place that was free is taken by the grant
      have hmax := hroom (by simp [hcons])
      intro _
      simp only [completeWaiter_policy, record_policy]
      rw [hlimits] at hle ⊢
      omega

theorem NoFreeCapacity.runAcquire (h : Sound s []) (hfree : NoFreeCapacity s) (call : Nat) :
    NoFreeCapacity (s.runAcquire call) := by
  have h' := h.scheduleCleanup
  unfold PoolSystem.runAcquire
  simp only
  split
  · exact hfree.congr (by simp) (by simp)
  · split
    · next found policy hacq =>
      obtain ⟨hbusy, hle, hlimits⟩ := h'.room_of_some hacq
      -- a grant to a newcomer: nobody can have been waiting
      intro hne
      have hfull := hfree (by simpa using hne)
      rw [hlimits, scheduleCleanup_policy] at hle
      rw [scheduleCleanup_policy] at hbusy
      omega
    · next policy hacq =>
      have hfull := h'.full_of_none hacq
      split
      · exact fun _ => hfull
      · exact fun _ => hfull

theorem NoFreeCapacity.runRelease {l : UpstreamLease} (h : Sound s (l.connection.toList ++ []))
    (hfree : NoFreeCapacity s) : NoFreeCapacity (s.runRelease l) := by
  refine noFreeCapacity_satisfyOneWaiter h.takeBack ?_
  intro hne
  have hfull := hfree hne
  have hbusy := s.policy.busy_le_releaseReusable l.markReturned s.now
  simp only [UpstreamPoolPolicy.releaseReusable_limits]
  omega

theorem NoFreeCapacity.runDiscard {l : UpstreamLease} (hfree : NoFreeCapacity s)
    (hquiet : l.valid = true → s.waiters = []) : NoFreeCapacity (s.runDiscard l) := by
  unfold PoolSystem.runDiscard
  cases hc : l.connection with
  | none => exact hfree.congr (by simp [UpstreamPoolPolicy.discard, hc]) id
  | some c =>
    intro hne
    exact absurd (hquiet (by simp [UpstreamLease.valid, hc])) hne

/-- A discard frees a place that nobody is woken for. -/
theorem not_noFreeCapacity_runDiscard {l : UpstreamLease}
    (h : Sound s (l.connection.toList ++ [])) (hfree : NoFreeCapacity s)
    (hvalid : l.valid = true) (hne : s.waiters ≠ []) : ¬ NoFreeCapacity (s.runDiscard l) := by
  obtain ⟨c, hc⟩ := Option.isSome_iff_exists.mp hvalid
  have haccounts := h.accounts
  rw [hc] at haccounts
  have hbusy : s.policy.busy = s.outstanding.length + 1 := by simpa using haccounts.busy
  -- one record less is outstanding, and the waiters are the same
  have hgive : UpstreamPoolPolicy.decrement s.policy.busy = s.outstanding.length := by
    simpa using haccounts.giveUp.busy
  have hfull := hfree hne
  intro hfree'
  have hfull' : UpstreamPoolPolicy.decrement s.policy.busy = s.policy.limits.maxConnections := by
    have := hfree' (by simpa [PoolSystem.runDiscard, hc] using hne)
    simpa [PoolSystem.runDiscard, hc, UpstreamPoolPolicy.discard] using this
  omega

theorem NoFreeCapacity.runStop (hfree : NoFreeCapacity s) : NoFreeCapacity s.runStop := by
  refine runStop_rule (P := NoFreeCapacity) hfree (hfree.congr rfl id) ?_ ?_ ?_
  · exact fun s call waiters hcalls hs => hs.congr rfl fun _ => by simp [hcalls]
  · exact fun s call hs => hs.congr rfl id
  · exact fun s call hs => hs.congr rfl id

end Capacity

/-- Nothing that waiters and capacity depend on changes. -/
structure SameAccounts (s s' : PoolSystem) : Prop where
  busy : s'.policy.busy = s.policy.busy
  limits : s'.policy.limits = s.policy.limits
  waiters : s'.waiters = s.waiters
  log : s'.log = s.log

/-- An event is a waiter's timer, a message, or one that changes none of the accounts. -/
inductive StepKind (s : PoolSystem) : PoolEvent → PoolSystem → Prop
  | timer (call : Nat) : StepKind s (.timerFires call) (s.runTimeout call)
  | message (i : Nat) (m : PoolMessage) (hm : s.strand[i]? = some m) :
    StepKind s (.runMessage i) ({ s with strand := s.strand.eraseIdx i }.runMessage m)
  | other (e : PoolEvent) (s' : PoolSystem) (hmessage : ∀ i, e ≠ .runMessage i)
    (hsame : SameAccounts s s') : StepKind s e s'

theorem step_kind {s s' : PoolSystem} {e : PoolEvent} (hs : step s e = some s') :
    StepKind s e s' := by
  cases e with
  | runMessage i =>
    obtain ⟨m, hm, rfl⟩ := Option.map_eq_some_iff.mp hs
    exact .message i m hm
  | timerFires call =>
    obtain ⟨_, ⟨⟩⟩ := Option.ite_none_right_eq_some.mp hs
    exact .timer call
  | asyncAcquire | stop | tick =>
    cases hs
    exact .other _ _ (by simp) ⟨rfl, rfl, rfl, rfl⟩
  | cleanupFires =>
    obtain ⟨_, ⟨⟩⟩ := Option.ite_none_right_eq_some.mp hs
    refine .other _ _ (by simp) ?_
    constructor <;> simp [runCleanup, UpstreamPoolPolicy.pruneIdle]
  | deliver | releaseReusable | discard =>
    obtain ⟨_, _, rfl⟩ := Option.map_eq_some_iff.mp hs
    exact .other _ _ (by simp) ⟨rfl, rfl, rfl, rfl⟩
  | dropReply | dropLease =>
    obtain ⟨_, _, rfl⟩ := Option.map_eq_some_iff.mp hs
    refine .other _ _ (by simp) ?_
    constructor <;> simp
  | moveLease i j =>
    refine .other _ _ (by simp) ?_
    simp only [step] at hs
    split at hs
    · cases hs
      exact ⟨rfl, rfl, rfl, rfl⟩
    · obtain ⟨_, _, hs⟩ := Option.bind_eq_some_iff.mp hs
      obtain ⟨_, _, rfl⟩ := Option.map_eq_some_iff.mp hs
      constructor <;> simp

theorem noFreeCapacity_step {s s' : PoolSystem} {e : PoolEvent} (h : Sound s [])
    (hfree : NoFreeCapacity s) (hquiet : DiscardsUnawaited s e s') (hs : step s e = some s') :
    NoFreeCapacity s' := by
  cases step_kind hs with
  | timer call =>
    exact NoFreeCapacity.completeWaiter (s := { s with timers := s.timers.erase call })
      (hfree.congr rfl id) call _ _
  | message i m hm =>
    have htake := h.takeMessage hm
    have hfree' : NoFreeCapacity { s with strand := s.strand.eraseIdx i } := hfree.congr rfl id
    simp only [DiscardsUnawaited, hm] at hquiet
    cases m with
    | asyncAcquire call => exact hfree'.runAcquire htake call
    | releaseReusable l => exact hfree'.runRelease htake
    | discard l => exact NoFreeCapacity.runDiscard (l := l.markReturned) hfree' hquiet
    | discardAbandoned c => exact hfree'.runDiscard fun _ => hquiet
    | stop => exact hfree'.runStop
  | other e s' hmessage hsame =>
    intro hne
    rw [hsame.busy, hsame.limits]
    exact hfree (hsame.waiters ▸ hne)

/-- A discard that runs while somebody waits leaves a place free. -/
theorem not_noFreeCapacity_step {s s' : PoolSystem} {e : PoolEvent} (h : Sound s [])
    (hfree : NoFreeCapacity s) (hloud : ¬ DiscardsUnawaited s e s') (hs : step s e = some s') :
    ¬ NoFreeCapacity s' := by
  cases step_kind hs with
  | timer call => exact absurd trivial hloud
  | message i m hm =>
    have htake := h.takeMessage hm
    have hfree' : NoFreeCapacity { s with strand := s.strand.eraseIdx i } := hfree.congr rfl id
    simp only [DiscardsUnawaited, hm] at hloud
    cases m with
    | asyncAcquire call => exact absurd trivial hloud
    | releaseReusable l => exact absurd trivial hloud
    | discard l =>
      obtain ⟨hvalid, hne⟩ := Classical.not_imp.mp hloud
      exact not_noFreeCapacity_runDiscard (l := l.markReturned) htake hfree' hvalid hne
    | discardAbandoned c =>
      exact not_noFreeCapacity_runDiscard (l := { connection := some c }) htake hfree' rfl hloud
    | stop => exact absurd trivial hloud
  | other e s' hmessage hsame =>
    cases e with
    | runMessage i => exact absurd rfl (hmessage i)
    | _ => exact absurd trivial hloud

/-! ### Who is served -/

section Served

variable {s s' : PoolSystem} {e : PoolEvent}

/-- The step adds the entries `new` to the log; if somebody was waiting, its grants go to
    the first waiter. -/
theorem noOvertaking_of_log (new : List PoolRecord) (hlog : s'.log = new ++ s.log)
    (hnew : ∀ r ∈ new, ∀ first ∈ s.waiters.head?, r.Neutral ∨ (∃ id, r = .discarded id) ∨
      ∃ c now fresh, r = .granted first c now fresh) : NoOvertaking s e s' := by
  intro new' call c now fresh hlog' hmem first hfirst
  obtain rfl : new' = new := List.append_cancel_right (hlog'.symm.trans hlog)
  rcases hnew _ hmem first hfirst with hneutral | ⟨_, ⟨⟩⟩ | ⟨_, _, _, ⟨⟩⟩
  · exact hneutral.elim
  · rfl

theorem noOvertaking_of_log_eq (hlog : s'.log = s.log) : NoOvertaking s e s' :=
  noOvertaking_of_log [] hlog (by simp)

theorem noOvertaking_satisfyOneWaiter (hlog : s'.log = s.satisfyOneWaiter.log) :
    NoOvertaking s e s' := by
  unfold PoolSystem.satisfyOneWaiter at hlog
  split at hlog
  · exact noOvertaking_of_log_eq hlog
  · next call rest hcons =>
    split at hlog
    · exact noOvertaking_of_log_eq hlog
    · refine noOvertaking_of_log [_] (by simpa using hlog) ?_
      intro r hr first hfirst
      obtain rfl : call = first := by simpa [hcons] using hfirst
      rw [List.mem_singleton.mp hr]
      exact .inr (.inr ⟨_, _, _, rfl⟩)

/-- A later `asyncAcquire` finds nothing while somebody waits. -/
theorem noOvertaking_runAcquire (h : Sound s []) (hfree : NoFreeCapacity s) {call : Nat}
    (hlog : s'.log = (s.runAcquire call).log) : NoOvertaking s e s' := by
  have h' := h.scheduleCleanup
  unfold PoolSystem.runAcquire at hlog
  simp only at hlog
  split at hlog
  · exact noOvertaking_of_log [.refused call _] (by simpa using hlog)
      (by simp [PoolRecord.Neutral])
  · split at hlog
    · next found policy hacq =>
      refine noOvertaking_of_log [_] (by simpa using hlog) ?_
      intro r _ first hfirst
      -- somebody waits, so that everything is busy and nothing is found
      obtain ⟨hbusy, hle, hlimits⟩ := h'.room_of_some hacq
      have hfull := hfree (by rintro hnil; simp [hnil] at hfirst)
      rw [hlimits, scheduleCleanup_policy] at hle
      rw [scheduleCleanup_policy] at hbusy
      omega
    · split at hlog
      · exact noOvertaking_of_log [.refused call _] (by simpa using hlog)
          (by simp [PoolRecord.Neutral])
      · exact noOvertaking_of_log [.queued call] (by simpa using hlog)
          (by simp [PoolRecord.Neutral])

theorem noOvertaking_runDiscard {i : Nat} {l : UpstreamLease}
    (hs' : s' = ({ s with strand := s.strand.eraseIdx i }).runDiscard l) : NoOvertaking s e s' := by
  subst hs'
  unfold PoolSystem.runDiscard
  split
  · exact noOvertaking_of_log_eq rfl
  · next c _ =>
    refine noOvertaking_of_log [.discarded c.id] rfl ?_
    intro r hr _ _
    exact .inr (.inl ⟨c.id, List.mem_singleton.mp hr⟩)

/-- `stop` hands out nothing. -/
theorem runStop_log (s : PoolSystem) :
    ∃ new, s.runStop.log = new ++ s.log ∧ ∀ r ∈ new, r.Neutral := by
  refine runStop_rule (P := fun t => ∃ new, t.log = new ++ s.log ∧ ∀ r ∈ new, r.Neutral)
    ⟨[], rfl, by simp⟩ ⟨[], rfl, by simp⟩ (fun _ _ _ _ ht => ht) ?_ ?_
  · rintro t call ⟨new, hnew, hneutral⟩
    exact ⟨.destroyedRead call :: new, by simp [hnew], List.forall_mem_cons.mpr ⟨trivial, hneutral⟩⟩
  · rintro t call ⟨new, hnew, hneutral⟩
    refine ⟨.refused call .OperationAborted :: new, by simp [refuse, hnew], ?_⟩
    exact List.forall_mem_cons.mpr ⟨trivial, hneutral⟩

theorem noOvertaking_step (h : Sound s []) (hfree : NoFreeCapacity s)
    (hs : step s e = some s') : NoOvertaking s e s' := by
  cases step_kind hs with
  | timer call => exact noOvertaking_of_log_eq (by simp [runTimeout])
  | message i m hm =>
    have htake := h.takeMessage hm
    cases m with
    | asyncAcquire call =>
      exact noOvertaking_runAcquire (s := { s with strand := s.strand.eraseIdx i })
        (e := .runMessage i) htake (hfree.congr rfl id) rfl
    | releaseReusable l =>
      exact noOvertaking_satisfyOneWaiter (e := .runMessage i)
        (s := { s with strand := s.strand.eraseIdx i,
                       policy := s.policy.releaseReusable l.markReturned s.now }) rfl
    | discard l => exact noOvertaking_runDiscard (l := l.markReturned) rfl
    | discardAbandoned c => exact noOvertaking_runDiscard (l := { connection := some c }) rfl
    | stop =>
      obtain ⟨new, hlog, hneutral⟩ := runStop_log { s with strand := s.strand.eraseIdx i }
      exact noOvertaking_of_log _ hlog fun r hr _ _ => .inl (hneutral r hr)
  | other e s' hmessage hsame => exact noOvertaking_of_log_eq hsame.log

end Served

/-- **Wake-ups.** In a run that discards connections — explicitly or through abandoned
    leases — only while nobody waits, and in no other, a waiter is queued only while no
    capacity is free; then no waiter times out while capacity is free, and no acquire gets
    ahead of a queued waiter. -/
theorem no_lost_wakeup (l : { l : PoolLimits // l.Accepted }) (events : List PoolEvent) :
    (Machine.Always step NoFreeCapacity (init l) events ∧
      Machine.EachStep step (fun s e s' => TimesOutWhenFull s e s' ∧ NoOvertaking s e s') (init l)
        events) ↔
    Machine.EachStep step DiscardsUnawaited (init l) events := by
  have hinit : NoFreeCapacity (init l) := fun hne => absurd rfl hne
  have hiff : Machine.Always step NoFreeCapacity (init l) events ↔
      Machine.EachStep step DiscardsUnawaited (init l) events := by
    refine Machine.always_iff_eachStep (Sound · []) ?_ ?_ events (sound_init l) hinit
    · intro s e s' h hfree hquiet hs
      exact ⟨sound_step h hs, noFreeCapacity_step h hfree hquiet hs⟩
    · intro s e s' h hfree hloud hs
      exact not_noFreeCapacity_step h hfree hloud hs
  constructor
  · exact fun h => hiff.mp h.1
  · intro hquiet
    refine ⟨hiff.mpr hquiet, ?_⟩
    refine Machine.eachStep_of_eachStep (fun s => Sound s [] ∧ NoFreeCapacity s) ?_
      ⟨sound_init l, hinit⟩ hquiet
    intro s e s' ⟨h, hfree⟩ hok hs
    exact ⟨⟨fun _ _ hcall => hfree (List.ne_nil_of_mem hcall), noOvertaking_step h hfree hs⟩,
      sound_step h hs, noFreeCapacity_step h hfree hok hs⟩

/-- The default limits, with a single connection. -/
def oneConnection : { l : PoolLimits // l.Accepted } :=
  ⟨{ maxConnections := 1, maxIdleConnections := 1 }, by decide⟩

/-- The second caller waits for the only connection, the first caller's lease is discarded,
    and the second caller goes on waiting although nothing is busy; then a third caller gets
    a connection, and the second one times out. -/
theorem discard_loses_wakeup :
    ¬ Machine.Always step NoFreeCapacity (init oneConnection)
        [.asyncAcquire, .runMessage 0, .deliver 0, .asyncAcquire, .runMessage 0, .discard 0,
         .runMessage 0] ∧
    ¬ Machine.EachStep step NoOvertaking (init oneConnection)
        ([.asyncAcquire, .runMessage 0, .deliver 0, .asyncAcquire, .runMessage 0, .discard 0,
          .runMessage 0, .asyncAcquire] ++ [.runMessage 0]) ∧
    ¬ Machine.EachStep step TimesOutWhenFull (init oneConnection)
        ([.asyncAcquire, .runMessage 0, .deliver 0, .asyncAcquire, .runMessage 0, .discard 0,
          .runMessage 0] ++ [.timerFires 1]) := by
  refine ⟨fun h => ?_, fun h => ?_, fun h => ?_⟩
  · exact absurd (h.last _ rfl) (by decide)
  · have hgrant := h.at_step rfl rfl [_] 2 _ _ _ rfl (List.mem_singleton_self _) 1 rfl
    exact absurd hgrant (by decide)
  · exact absurd (h.at_step rfl rfl 1 rfl (by decide)) (by decide)

end PoolSystem
end PulseGate
