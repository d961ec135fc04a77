import PulseGate.Http.UpstreamPool
import Mathlib.Data.List.Perm.Basic

namespace PulseGate

/-!
# What the counters of an upstream pool account for

The policy counts busy connections, and does not know who holds them.  `Accounts policy out
log` says that the records in `out`, each with a holder outside the policy, are exactly what
it counts: nothing is held twice, every record in `out` was handed out and not returned, and
the log has only sound grants.  Each operation of the policy keeps the accounts when it moves
a record between `idle` and `out`:

* `acquire_some`, `acquire_none` — a record is handed out, or there is no capacity;
* `release`, `discard`, `prune` — a record comes back, or leaves the pool.
-/

/-! ### Reading the log -/

/-- How often a connection with this id was handed out. -/
def grants : List PoolRecord → Nat → Nat
  | [], _ => 0
  | .granted _ c _ _ :: log, id => grants log id + (if c.id = id then 1 else 0)
  | _ :: log, id => grants log id

/-- A connection with this id was discarded. -/
def gone : List PoolRecord → Nat → Prop
  | [], _ => False
  | .discarded id' :: log, id => id' = id ∨ gone log id
  | _ :: log, id => gone log id

/-- What was known of `c` when it was handed out at `now`, `log` being the log before that:
    it was open, young enough, not idle for too long and not discarded, and if it was created
    for this grant then its id was new. -/
def SoundGrant (l : PoolLimits) (log : List PoolRecord) (c : UpstreamConnectionRecord)
    (now : Int) (fresh : Bool) : Prop :=
  c.isOpen = true ∧ now - c.createdAt < milliseconds l.maxLifetime ∧
    now - c.lastUsedAt < milliseconds l.idleTimeout ∧ ¬ gone log c.id ∧
    (fresh = true → grants log c.id = 0)

/-- Every grant in the log was sound at its time. -/
def SoundGrants (l : PoolLimits) : List PoolRecord → Prop
  | [] => True
  | .granted _ c now fresh :: log => SoundGrant l log c now fresh ∧ SoundGrants l log
  | _ :: log => SoundGrants l log

/-- A record that says nothing about a connection. -/
def PoolRecord.Neutral : PoolRecord → Prop
  | .queued _ | .refused _ _ | .destroyedRead _ => True
  | .granted _ _ _ _ | .discarded _ => False

section Log

variable {r : PoolRecord} {log : List PoolRecord}

@[simp] theorem grants_granted (call : Nat) (c : UpstreamConnectionRecord) (now : Int)
    (fresh : Bool) (id : Nat) :
    grants (.granted call c now fresh :: log) id = grants log id + (if c.id = id then 1 else 0) :=
  rfl

@[simp] theorem grants_discarded (id' id : Nat) :
    grants (.discarded id' :: log) id = grants log id := rfl

@[simp] theorem gone_granted (call : Nat) (c : UpstreamConnectionRecord) (now : Int)
    (fresh : Bool) (id : Nat) :
    gone (.granted call c now fresh :: log) id = gone log id := rfl

@[simp] theorem gone_discarded (id' id : Nat) :
    gone (.discarded id' :: log) id = (id' = id ∨ gone log id) := rfl

theorem PoolRecord.Neutral.grants_eq (h : r.Neutral) (id : Nat) :
    grants (r :: log) id = grants log id := by
  cases r with
  | queued | refused | destroyedRead => rfl
  | granted | discarded => exact h.elim

theorem PoolRecord.Neutral.gone_eq (h : r.Neutral) (id : Nat) :
    gone (r :: log) id = gone log id := by
  cases r with
  | queued | refused | destroyedRead => rfl
  | granted | discarded => exact h.elim

theorem PoolRecord.Neutral.soundGrants (h : r.Neutral) {l : PoolLimits} (hs : SoundGrants l log) :
    SoundGrants l (r :: log) := by
  cases r with
  | queued | refused | destroyedRead => exact hs
  | granted | discarded => exact h.elim

end Log

/-! ### The accounts -/

/-- The policy, the records held outside it, and the log agree. -/
structure Accounts (p : UpstreamPoolPolicy) (out : List UpstreamConnectionRecord)
    (log : List PoolRecord) : Prop where
  busy : p.busy = out.length
  capacity : p.busy + p.idle.length ≤ p.limits.maxConnections
  idleRoom : p.idle.length ≤ p.limits.maxIdleConnections
  distinct : ((p.idle ++ out).map (·.id)).Nodup
  known : ∀ c ∈ p.idle ++ out, c.id < p.nextId
  alive : ∀ c ∈ p.idle ++ out, ¬ gone log c.id
  reusedIdle : ∀ c ∈ p.idle, grants log c.id = c.reuseCount
  reusedOut : ∀ c ∈ out, grants log c.id = c.reuseCount + 1
  reuses : ∀ id, grants log id ≤ p.limits.maxReuses
  unused : ∀ id, p.nextId ≤ id → grants log id = 0 ∧ ¬ gone log id
  sound : SoundGrants p.limits log

namespace Accounts

variable {p : UpstreamPoolPolicy} {out : List UpstreamConnectionRecord} {log : List PoolRecord}

theorem init (l : { l : PoolLimits // l.Accepted }) :
    Accounts { limits := l.1, accepted := l.2 } [] [] where
  busy := rfl
  capacity := Nat.zero_le _
  idleRoom := Nat.zero_le _
  distinct := List.nodup_nil
  known := by simp
  alive := by simp
  reusedIdle := by simp
  reusedOut := by simp
  reuses := fun _ => Nat.zero_le _
  unused := fun _ _ => ⟨rfl, id⟩
  sound := trivial

/-- Who holds a record, and in which order they are listed, does not matter. -/
theorem perm {out' : List UpstreamConnectionRecord} (h : Accounts p out log)
    (hperm : out.Perm out') : Accounts p out' log := by
  have hmem : ∀ c, c ∈ p.idle ++ out' ↔ c ∈ p.idle ++ out :=
    fun c => ((hperm.append_left p.idle).mem_iff (a := c)).symm
  exact {
    busy := h.busy.trans hperm.length_eq
    capacity := h.capacity
    idleRoom := h.idleRoom
    distinct := (((hperm.append_left p.idle).map (·.id)).nodup_iff).mp h.distinct
    known := fun c hc => h.known c ((hmem c).mp hc)
    alive := fun c hc => h.alive c ((hmem c).mp hc)
    reusedIdle := h.reusedIdle
    reusedOut := fun c hc => h.reusedOut c (hperm.mem_iff.mpr hc)
    reuses := h.reuses
    unused := h.unused
    sound := h.sound }

/-- Idle records may be dropped. -/
theorem shrink {idle : List UpstreamConnectionRecord} (h : Accounts p out log)
    (hsub : idle.Sublist p.idle) : Accounts { p with idle := idle } out log := by
  have hlen := hsub.length_le
  have hsub' : (idle ++ out).Sublist (p.idle ++ out) := hsub.append_right out
  exact {
    busy := h.busy
    capacity := Nat.le_trans (Nat.add_le_add_left hlen _) h.capacity
    idleRoom := Nat.le_trans hlen h.idleRoom
    distinct := h.distinct.sublist (hsub'.map _)
    known := fun c hc => h.known c (hsub'.subset hc)
    alive := fun c hc => h.alive c (hsub'.subset hc)
    reusedIdle := fun c hc => h.reusedIdle c (hsub.subset hc)
    reusedOut := h.reusedOut
    reuses := h.reuses
    unused := h.unused
    sound := h.sound }

theorem prune (h : Accounts p out log) (now : Int) : Accounts (p.pruneIdle now) out log :=
  h.shrink (List.filter_sublist)

/-- Records that are about no connection leave the accounts as they are. -/
theorem neutral {r : PoolRecord} (h : Accounts p out log) (hr : r.Neutral) :
    Accounts p out (r :: log) where
  busy := h.busy
  capacity := h.capacity
  idleRoom := h.idleRoom
  distinct := h.distinct
  known := h.known
  alive := fun c hc => by rw [hr.gone_eq]; exact h.alive c hc
  reusedIdle := fun c hc => by rw [hr.grants_eq]; exact h.reusedIdle c hc
  reusedOut := fun c hc => by rw [hr.grants_eq]; exact h.reusedOut c hc
  reuses := fun id => by rw [hr.grants_eq]; exact h.reuses id
  unused := fun id hid => by rw [hr.grants_eq, hr.gone_eq]; exact h.unused id hid
  sound := hr.soundGrants h.sound

/-- An idle record is handed out. -/
theorem reuse (h : Accounts p out log) {c : UpstreamConnectionRecord}
    {rest : List UpstreamConnectionRecord} {now : Int} (hidle : p.idle = c :: rest)
    (hc : p.reusable now c = true) (call : Nat) :
    Accounts { p with idle := rest, busy := p.busy + 1 } ({ c with lastUsedAt := now } :: out)
      (.granted call c now false :: log) := by
  obtain ⟨hopen, hcount, hyoung, hused⟩ := (p.reusable_iff now c).mp hc
  have hdistinct := h.distinct
  rw [hidle, List.cons_append, List.map_cons, List.nodup_cons] at hdistinct
  have hother : ∀ d ∈ rest ++ out, c.id ≠ d.id := by
    intro d hd heq
    exact hdistinct.1 (heq ▸ List.mem_map_of_mem hd)
  have hmem : c ∈ p.idle := by simp [hidle]
  have hgrants : grants log c.id = c.reuseCount := h.reusedIdle c hmem
  -- the holder's record has the id of the idle one
  have hids : ∀ P : Nat → Prop, (∀ d ∈ p.idle ++ out, P d.id) →
      ∀ d ∈ rest ++ { c with lastUsedAt := now } :: out, P d.id := by
    intro P hP d hd
    rw [hidle] at hP
    rcases List.mem_append.mp hd with hd | hd
    · exact hP d (by simp [hd])
    · rcases List.mem_cons.mp hd with rfl | hd
      · exact hP c (by simp)
      · exact hP d (by simp [hd])
  have hcapacity := h.capacity
  have hidleRoom := h.idleRoom
  rw [hidle, List.length_cons] at hcapacity hidleRoom
  constructor
  -- the counters
  · simp [h.busy]
  · simp only; omega
  · simp only; omega
  -- the ids
  · simp only [List.map_append, List.map_cons]
    rw [List.perm_middle.nodup_iff, List.nodup_cons]
    simpa using hdistinct
  · exact hids (· < p.nextId) h.known
  · exact hids (fun id => ¬ gone log id) h.alive
  -- the grants: one more for `c`, the others as before
  · intro d hd
    have hne := hother d (List.mem_append_left out hd)
    simpa [hne] using h.reusedIdle d (by simp [hidle, hd])
  · intro d hd
    rcases List.mem_cons.mp hd with rfl | hd
    · simp [hgrants]
    · have hne := hother d (List.mem_append_right rest hd)
      simpa [hne] using h.reusedOut d hd
  · intro id
    have hle := h.reuses id
    by_cases heq : c.id = id
    · subst heq
      simp only [grants_granted, if_true]
      omega
    · simpa [heq] using hle
  · intro id hid
    have hne : c.id ≠ id := by
      have := h.known c (by simp [hidle])
      simp only at hid
      omega
    simpa [hne] using h.unused id hid
  · exact ⟨⟨hopen, hyoung, hused, h.alive c (by simp [hmem]), by simp⟩, h.sound⟩

/-- A new record is created and handed out. -/
theorem create (h : Accounts p out log) (hidle : p.idle = [])
    (hroom : p.busy < p.limits.maxConnections) (now : Int) (call : Nat) :
    Accounts { p with busy := p.busy + 1, nextId := p.nextId + 1 }
      ({ p.freshRecord now with lastUsedAt := now } :: out)
      (.granted call (p.freshRecord now) now true :: log) := by
  obtain ⟨hgrants, hgone⟩ := h.unused p.nextId (Nat.le_refl _)
  obtain ⟨_, _, _, hreuses, hidleTimeout, hlifetime⟩ := p.accepted
  -- the new id is none of those that are out
  have hknown : ∀ c ∈ out, c.id < p.nextId := fun c hc => h.known c (by simp [hc])
  have hids : ∀ c ∈ out, p.nextId ≠ c.id := fun c hc heq => by
    have := hknown c hc
    omega
  have hdistinct := h.distinct
  rw [hidle, List.nil_append] at hdistinct
  constructor
  · simp [h.busy]
  · simp only [hidle, List.length_nil]; omega
  · simp [hidle]
  · simp only [hidle, List.nil_append, List.map_cons, List.nodup_cons]
    refine ⟨fun hmem => ?_, hdistinct⟩
    obtain ⟨c, hc, heq⟩ := List.mem_map.mp hmem
    exact hids c hc heq.symm
  · simp only [hidle, List.nil_append]
    intro c hc
    rcases List.mem_cons.mp hc with rfl | hc
    · exact Nat.lt_succ_self _
    · exact Nat.lt_succ_of_lt (hknown c hc)
  · simp only [hidle, List.nil_append, gone_granted]
    intro c hc
    rcases List.mem_cons.mp hc with rfl | hc
    · exact hgone
    · exact h.alive c (by simp [hc])
  · simp [hidle]
  · intro c hc
    rcases List.mem_cons.mp hc with rfl | hc
    · simp [UpstreamPoolPolicy.freshRecord, hgrants]
    · simpa [UpstreamPoolPolicy.freshRecord, hids c hc] using h.reusedOut c hc
  · intro id
    have hle := h.reuses id
    by_cases heq : p.nextId = id
    · subst heq
      simp only [UpstreamPoolPolicy.freshRecord, grants_granted, hgrants, if_true]
      omega
    · simpa [UpstreamPoolPolicy.freshRecord, heq] using hle
  · intro id hid
    have hne : p.nextId ≠ id := by simp only at hid; omega
    simpa [UpstreamPoolPolicy.freshRecord, hne] using h.unused id (by simp only at hid; omega)
  · refine ⟨⟨rfl, ?_, ?_, hgone, fun _ => hgrants⟩, h.sound⟩
    · simp only [UpstreamPoolPolicy.freshRecord, milliseconds]; omega
    · simp only [UpstreamPoolPolicy.freshRecord, milliseconds]; omega

/-- `acquire` hands out the record it finds. -/
theorem acquire_some (h : Accounts p out log) {p' : UpstreamPoolPolicy} {now : Int}
    {found : UpstreamConnectionRecord} (hacq : p.acquire now = (some found, p')) (call : Nat) :
    Accounts p' ({ found with lastUsedAt := now } :: out)
      (.granted call found now (decide (found.id = p.nextId)) :: log) := by
  rcases p.acquire_cases now with
    ⟨stale, c, rest, hidle, hc, heq⟩ | ⟨_, heq⟩ | ⟨hroom, heq⟩
  · -- the stale records before the one that is found are dropped
    obtain ⟨⟨⟩, rfl⟩ := Prod.mk.inj (heq.symm.trans hacq)
    have hold : decide (found.id = p.nextId) = false := by
      have := h.known found (by simp [hidle])
      simp only [decide_eq_false_iff_not]
      omega
    rw [hold]
    have hsub : (found :: rest).Sublist p.idle := by
      rw [hidle]
      exact List.sublist_append_right _ _
    exact (h.shrink hsub).reuse rfl hc call
  · simp [heq] at hacq
  · obtain ⟨⟨⟩, rfl⟩ := Prod.mk.inj (heq.symm.trans hacq)
    have hnew : decide ((p.freshRecord now).id = p.nextId) = true := by
      simp [UpstreamPoolPolicy.freshRecord]
    rw [hnew]
    exact (h.shrink (List.nil_sublist _)).create rfl hroom now call

theorem acquire_none (h : Accounts p out log) {p' : UpstreamPoolPolicy} {now : Int}
    (hacq : p.acquire now = (none, p')) : Accounts p' out log := by
  obtain ⟨_, rfl⟩ := UpstreamPoolPolicy.acquire_none hacq
  exact h.shrink (List.nil_sublist _)

/-- A record that was out is given up. -/
theorem giveUp {c : UpstreamConnectionRecord} (h : Accounts p (c :: out) log) :
    Accounts { p with busy := UpstreamPoolPolicy.decrement p.busy } out log := by
  have hbusy : p.busy = out.length + 1 := h.busy
  have hsub : (p.idle ++ out).Sublist (p.idle ++ c :: out) :=
    (List.sublist_cons_self c out).append_left _
  have hcapacity := h.capacity
  have hdec : UpstreamPoolPolicy.decrement p.busy = out.length := by
    rw [hbusy]
    rfl
  exact {
    busy := hdec
    capacity := by simp only [hdec]; omega
    idleRoom := h.idleRoom
    distinct := h.distinct.sublist (hsub.map _)
    known := fun d hd => h.known d (hsub.subset hd)
    alive := fun d hd => h.alive d (hsub.subset hd)
    reusedIdle := h.reusedIdle
    reusedOut := fun d hd => h.reusedOut d (List.mem_cons_of_mem c hd)
    reuses := h.reuses
    unused := h.unused
    sound := h.sound }

/-- A record that was out is put into `idle`. -/
theorem takeBack {c : UpstreamConnectionRecord} (h : Accounts p (c :: out) log)
    (hroom : p.idle.length < p.limits.maxIdleConnections) (now : Int) :
    Accounts { p with busy := UpstreamPoolPolicy.decrement p.busy,
                      idle := { c with reuseCount := c.reuseCount + 1, lastUsedAt := now } ::
                        p.idle } out log := by
  have hgive := h.giveUp
  have hc : c ∈ p.idle ++ c :: out := by simp
  have hbusy : UpstreamPoolPolicy.decrement p.busy + 1 = p.busy := by
    rw [h.busy]
    rfl
  have hcapacity := h.capacity
  constructor
  · exact hgive.busy
  · simp only [List.length_cons]
    omega
  · simp only [List.length_cons]
    omega
  · -- the record has only changed sides
    have hdistinct := h.distinct
    simp only [List.map_append, List.map_cons] at hdistinct ⊢
    exact (List.perm_middle.nodup_iff).mp hdistinct
  · intro d hd
    rcases List.mem_cons.mp hd with rfl | hd
    · exact h.known c hc
    · exact hgive.known d hd
  · intro d hd
    rcases List.mem_cons.mp hd with rfl | hd
    · exact h.alive c hc
    · exact hgive.alive d hd
  · intro d hd
    rcases List.mem_cons.mp hd with rfl | hd
    · exact h.reusedOut c (by simp)
    · exact h.reusedIdle d hd
  · exact hgive.reusedOut
  · exact h.reuses
  · exact h.unused
  · exact h.sound

theorem release {c : UpstreamConnectionRecord} (h : Accounts p (c :: out) log)
    {l : UpstreamLease} (hlease : l.connection = some c) (now : Int) :
    Accounts (p.releaseReusable l now) out log := by
  rcases p.releaseReusable_cases hlease now with ⟨_, hroom, heq⟩ | heq
  · rw [heq]; exact h.takeBack hroom now
  · rw [heq]; exact h.giveUp

/-- Once a record is discarded, no record with its id is idle or out. -/
theorem discard {c : UpstreamConnectionRecord} (h : Accounts p (c :: out) log)
    {l : UpstreamLease} (hlease : l.connection = some c) :
    Accounts (p.discard l) out (.discarded c.id :: log) := by
  have hgive := h.giveUp
  have hdistinct := h.distinct
  simp only [List.map_append, List.map_cons] at hdistinct
  rw [List.perm_middle.nodup_iff, List.nodup_cons, ← List.map_append] at hdistinct
  simp only [UpstreamPoolPolicy.discard, hlease]
  exact {
    busy := hgive.busy
    capacity := hgive.capacity
    idleRoom := hgive.idleRoom
    distinct := hgive.distinct
    known := hgive.known
    alive := by
      rintro d hd (heq | hgone)
      · exact hdistinct.1 (heq ▸ List.mem_map_of_mem hd)
      · exact hgive.alive d hd hgone
    reusedIdle := hgive.reusedIdle
    reusedOut := hgive.reusedOut
    reuses := hgive.reuses
    -- an identifier not yet given was neither granted nor discarded
    unused := by
      intro id hid
      obtain ⟨hgrants, hgone⟩ := hgive.unused id hid
      refine ⟨hgrants, ?_⟩
      rintro (heq | hgone')
      · have hlt := h.known c (by simp)
        simp only at hid
        omega
      · exact hgone hgone'
    sound := hgive.sound }

end Accounts
end PulseGate
