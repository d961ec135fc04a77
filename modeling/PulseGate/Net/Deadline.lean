import Mathlib.Data.List.Nodup
import Mathlib.Data.List.Perm.Basic
import Mathlib.Data.Nat.ModEq
import PulseGate.Lib.Machine

namespace PulseGate

/-!
# The deadline of a socket operation

`Deadline` of `deadline.cpp`.  A wait whose timer has elapsed cannot be cancelled any more: its
completion is in the queue of the executor, which may deliver what it has in any order.  What
tells a stale completion from a current one is the ticket, a number of 64 bits.

* `Inv.ticket_eq_iff` — the ticket of a wait is current when the later calls are a multiple of
  `2 ^ 64`;
* `Inv.step` — no arm has two waits, and none after its callback has run;
* `callbacks_run_once_current` — in every run a callback runs at most once, and not after a later
  call, unless `2 ^ 64` of them have brought its ticket back.
-/

/-- Where the completion of a wait is. -/
inductive Completion
  | Waiting
  /-- It is in the queue of the executor. -/
  | Queued (error : Bool)
  deriving DecidableEq, Repr

/-- An `async_wait` whose handler has not run. -/
structure Wait where
  ticket : UInt64
  /-- Which of the calls of `arm` and `disarm` it belongs to. -/
  armed : Nat
  completion : Completion := .Waiting
  deriving DecidableEq, Repr

namespace Wait

/-- The timer is cancelled: a completion that is queued already stays as it is. -/
def cancel (w : Wait) : Wait :=
  match w.completion with
  | .Waiting => { w with completion := .Queued true }
  | .Queued _ => w

/-- The timer has elapsed. -/
def elapse (w : Wait) : Wait :=
  match w.completion with
  | .Waiting => { w with completion := .Queued false }
  | .Queued _ => w

@[simp] theorem cancel_ticket (w : Wait) : w.cancel.ticket = w.ticket := by
  unfold cancel
  split <;> rfl

@[simp] theorem cancel_armed (w : Wait) : w.cancel.armed = w.armed := by
  unfold cancel
  split <;> rfl

@[simp] theorem elapse_ticket (w : Wait) : w.elapse.ticket = w.ticket := by
  unfold elapse
  split <;> rfl

@[simp] theorem elapse_armed (w : Wait) : w.elapse.armed = w.armed := by
  unfold elapse
  split <;> rfl

end Wait

/-- A call of an `on_expire`. -/
structure Expiry where
  /-- The call of `arm` that it was given to. -/
  armed : Nat
  /-- How many calls of `arm` and `disarm` came after that one. -/
  later : Nat
  deriving DecidableEq, Repr

structure Deadline where
  generation : UInt64 := 0
  /-- The waits of the timer, the first one first. -/
  waits : List Wait := []
  /-- How many calls of `arm` and `disarm` there were. -/
  calls : Nat := 0
  expired : List Expiry := []
  deriving DecidableEq, Repr

namespace Deadline

/-- `armImpl`; setting the time of the timer cancels what waits for it. -/
def arm (s : Deadline) : Deadline :=
  let ticket := s.generation + 1
  { s with generation := ticket, calls := s.calls + 1,
           waits := s.waits.map Wait.cancel ++ [{ ticket := ticket, armed := s.calls + 1 }] }

def disarm (s : Deadline) : Deadline :=
  { s with generation := s.generation + 1, calls := s.calls + 1,
           waits := s.waits.map Wait.cancel }

/-- The handler of a wait. -/
def handle (s : Deadline) (w : Wait) (error : Bool) : Deadline :=
  if !error ∧ w.ticket = s.generation then
    { s with expired := s.expired ++ [{ armed := w.armed, later := s.calls - w.armed }] }
  else s

inductive Event
  | arm
  | disarm
  /-- The timer of the wait at index `i` elapses. -/
  | elapse (i : Nat)
  /-- The executor runs the handler of the wait at index `i`. -/
  | deliver (i : Nat)
  deriving DecidableEq, Repr

def step (s : Deadline) : Event → Option Deadline
  | .arm => some s.arm
  | .disarm => some s.disarm
  | .elapse i => some { s with waits := s.waits.modify i Wait.elapse }
  | .deliver i =>
    s.waits[i]?.bind fun w =>
      match w.completion with
      | .Waiting => none
      | .Queued error => some ({ s with waits := s.waits.eraseIdx i }.handle w error)

/-! ### The tickets -/

/-- The generation and the tickets count the calls, no two waits or callbacks are of one arm,
    and the callbacks that ran had a current ticket. -/
structure Inv (s : Deadline) : Prop where
  generation_eq : s.generation = UInt64.ofNat s.calls
  ticket_eq : ∀ w ∈ s.waits, w.ticket = UInt64.ofNat w.armed
  armed_le : ∀ n ∈ s.expired.map (·.armed) ++ s.waits.map (·.armed), n ≤ s.calls
  nodup : (s.expired.map (·.armed) ++ s.waits.map (·.armed)).Nodup
  current : ∀ x ∈ s.expired, 2 ^ 64 ∣ x.later

variable {s s' : Deadline} {e : Event}

theorem inv_init : Inv {} where
  generation_eq := rfl
  ticket_eq _ hw := absurd hw List.not_mem_nil
  armed_le _ hn := absurd hn List.not_mem_nil
  nodup := List.nodup_nil
  current _ hx := absurd hx List.not_mem_nil

/-- Two numbers have the same ticket when they differ by a multiple of `2 ^ 64`. -/
theorem ticket_eq_ticket_iff {m n : Nat} (hle : m ≤ n) :
    UInt64.ofNat m = UInt64.ofNat n ↔ 2 ^ 64 ∣ n - m := by
  rw [← Nat.modEq_iff_dvd' hle, ← UInt64.toNat_inj, UInt64.toNat_ofNat', UInt64.toNat_ofNat']
  rfl

/-- **The ticket of a wait is current when the later calls are a multiple of `2 ^ 64`.** -/
theorem Inv.ticket_eq_iff (h : Inv s) {w : Wait} (hw : w ∈ s.waits) :
    w.ticket = s.generation ↔ 2 ^ 64 ∣ s.calls - w.armed := by
  have hle : w.armed ≤ s.calls :=
    h.armed_le _ (List.mem_append_right _ (List.mem_map_of_mem hw))
  rw [h.ticket_eq w hw, h.generation_eq]
  exact ticket_eq_ticket_iff hle

theorem generation_succ (h : Inv s) : s.generation + 1 = UInt64.ofNat (s.calls + 1) := by
  rw [h.generation_eq, UInt64.ofNat_add]
  rfl

/-- A change of the waits that keeps their arms and tickets. -/
theorem Inv.of_waits (h : Inv s) {waits : List Wait}
    (hsame : waits.map (fun w => (w.armed, w.ticket)) = s.waits.map fun w => (w.armed, w.ticket)) :
    Inv { s with waits := waits } := by
  have harmed : waits.map (·.armed) = s.waits.map (·.armed) := by
    have hfst := congrArg (List.map Prod.fst) hsame
    rwa [List.map_map, List.map_map] at hfst
  exact
    { h with
      ticket_eq := by
        intro w hw
        -- the wait with the same arm and ticket before the change
        have hmem : (w.armed, w.ticket) ∈ s.waits.map fun w => (w.armed, w.ticket) := by
          rw [← hsame]
          exact List.mem_map_of_mem (f := fun w : Wait => (w.armed, w.ticket)) hw
        obtain ⟨w', hw', heq⟩ := List.mem_map.mp hmem
        have hticket := h.ticket_eq w' hw'
        rwa [(Prod.mk.inj heq).1, (Prod.mk.inj heq).2] at hticket
      armed_le := by
        show ∀ n ∈ s.expired.map (·.armed) ++ waits.map (·.armed), n ≤ s.calls
        rw [harmed]
        exact h.armed_le
      nodup := by
        show (s.expired.map (·.armed) ++ waits.map (·.armed)).Nodup
        rw [harmed]
        exact h.nodup }

theorem Inv.cancelled (h : Inv s) : Inv { s with waits := s.waits.map Wait.cancel } := by
  apply h.of_waits
  rw [List.map_map]
  exact List.map_congr_left fun w _ => by simp

theorem Inv.disarm (h : Inv s) : Inv s.disarm where
  generation_eq := generation_succ h
  ticket_eq := h.cancelled.ticket_eq
  armed_le n hn := (h.cancelled.armed_le n hn).trans (Nat.le_succ _)
  nodup := h.cancelled.nodup
  current := h.current

/-- A new wait after a `disarm` is an `arm`. -/
theorem arm_eq (s : Deadline) :
    s.arm = { s.disarm with
      waits := s.disarm.waits ++ [{ ticket := s.disarm.generation, armed := s.disarm.calls }] } :=
  rfl

theorem Inv.arm (h : Inv s) : Inv s.arm := by
  have hdisarm := h.disarm
  -- the number of the new wait is above all others
  have hnew : s.disarm.calls ∉ s.disarm.expired.map (·.armed) ++ s.disarm.waits.map (·.armed) :=
    fun hmem => absurd (h.cancelled.armed_le _ hmem) (Nat.not_succ_le_self _)
  rw [arm_eq]
  exact
    { hdisarm with
      ticket_eq := by
        intro w hw
        rcases List.mem_append.mp hw with hold | hlast
        · exact hdisarm.ticket_eq w hold
        · rw [List.mem_singleton.mp hlast]
          exact hdisarm.generation_eq
      armed_le := by
        intro n hn
        rw [List.map_append, ← List.append_assoc] at hn
        rcases List.mem_append.mp hn with hold | hlast
        · exact hdisarm.armed_le n hold
        · exact (List.mem_singleton.mp hlast).le
      nodup := by
        rw [List.map_append, ← List.append_assoc]
        exact hdisarm.nodup.append (List.nodup_singleton _)
          (List.disjoint_singleton.mpr hnew) }

theorem Inv.elapse (h : Inv s) (i : Nat) :
    Inv { s with waits := s.waits.modify i Wait.elapse } := by
  apply h.of_waits
  apply List.ext_getElem?
  intro j
  rw [List.getElem?_map, List.getElem?_map, List.getElem?_modify]
  cases s.waits[j]? with
  | none => rfl
  | some w =>
    by_cases hij : i = j <;> simp [hij]

/-- The handler of a wait moves its arm from the waits to the callbacks, or drops it. -/
theorem Inv.deliver (h : Inv s) {i : Nat} {w : Wait} (hw : s.waits[i]? = some w) (error : Bool) :
    Inv ({ s with waits := s.waits.eraseIdx i }.handle w error) := by
  have hmem : w ∈ s.waits := List.mem_of_getElem? hw
  have hperm : (s.waits.map (·.armed)).Perm (w.armed :: (s.waits.eraseIdx i).map (·.armed)) := by
    obtain ⟨hi, rfl⟩ := List.getElem?_eq_some_iff.mp hw
    exact ((List.getElem_cons_eraseIdx_perm hi).map Wait.armed).symm
  have hall := hperm.append_left (s.expired.map (·.armed))
  have hticket : ∀ w' ∈ s.waits.eraseIdx i, w'.ticket = UInt64.ofNat w'.armed :=
    fun w' hw' => h.ticket_eq w' (List.mem_of_mem_eraseIdx hw')
  unfold handle
  split
  · next hcurrent =>
    -- the wait becomes an expiry, under the same number
    have hmove : (s.expired ++ [(⟨w.armed, s.calls - w.armed⟩ : Expiry)]).map (·.armed) =
        s.expired.map (·.armed) ++ [w.armed] := List.map_append
    rw [List.append_cons, ← hmove] at hall
    exact
      { generation_eq := h.generation_eq
        ticket_eq := hticket
        armed_le := fun n hn => h.armed_le n (hall.mem_iff.mpr hn)
        nodup := hall.nodup_iff.mp h.nodup
        current := by
          intro x hx
          rcases List.mem_append.mp hx with hold | hlast
          · exact h.current x hold
          · rw [List.mem_singleton.mp hlast]
            exact (h.ticket_eq_iff hmem).mp hcurrent.2 }
  · -- the wait is dropped: its ticket is not the current one, or it was cancelled
    have hdrop : (s.expired.map (·.armed) ++ (s.waits.eraseIdx i).map (·.armed)).Sublist
        (s.expired.map (·.armed) ++ s.waits.map (·.armed)) :=
      ((List.eraseIdx_sublist _ _).map _).append_left _
    exact
      { generation_eq := h.generation_eq
        ticket_eq := hticket
        armed_le := fun n hn => h.armed_le n (hdrop.subset hn)
        nodup := h.nodup.sublist hdrop
        current := h.current }

/-- **Step lemma.** -/
theorem Inv.step (h : Inv s) (hstep : step s e = some s') : Inv s' := by
  cases e with
  | arm => exact Option.some.inj hstep ▸ h.arm
  | disarm => exact Option.some.inj hstep ▸ h.disarm
  | elapse i => exact Option.some.inj hstep ▸ h.elapse i
  | deliver i =>
    obtain ⟨w, hw, hhandle⟩ := Option.bind_eq_some_iff.mp hstep
    split at hhandle
    · cases hhandle
    · next error _ => exact Option.some.inj hhandle ▸ h.deliver hw error

/-! ### Whole runs -/

/-- No arm has its callback run twice, and a callback runs only when the later calls are a
    multiple of `2 ^ 64`; fewer of them must be none. -/
structure Fresh (s : Deadline) : Prop where
  once : (s.expired.map (·.armed)).Nodup
  wrapped : ∀ x ∈ s.expired, 2 ^ 64 ∣ x.later
  current : ∀ x ∈ s.expired, x.later < 2 ^ 64 → x.later = 0

theorem Inv.fresh (h : Inv s) : Fresh s where
  once := h.nodup.of_append_left
  wrapped := h.current
  current x hx hshort := Nat.eq_zero_of_dvd_of_lt (h.current x hx) hshort

/-- **Stale deadlines do not fire.** In every order of arms, disarms, elapsing timers and
    deliveries, the callback of an arm runs at most once, and between the two there was no call of
    `arm` or `disarm`, or a multiple of `2 ^ 64` of them. -/
theorem callbacks_run_once_current (events : List Event) :
    Machine.Always step Fresh {} events :=
  Machine.always_of_invariant Inv (fun _ h => h.fresh) (fun _ _ _ h hstep => h.step hstep) events
    inv_init

/-- No callback has run after a later call. -/
def NoneStale (s : Deadline) : Prop := ∀ x ∈ s.expired, x.later = 0

/-- The timer elapses, `n` calls of `disarm` follow, and then its completion is delivered. -/
def turn (n : Nat) : List Event :=
  [.arm, .elapse 0] ++ List.replicate n .disarm ++ [.deliver 0]

/-- Calls of `disarm` leave a completion that is queued as it is. -/
theorem run_disarms (n : Nat) (hqueued : s.waits.map Wait.cancel = s.waits) :
    Machine.run step s (List.replicate n .disarm) =
      some { s with generation := s.generation + UInt64.ofNat n, calls := s.calls + n } := by
  induction n generalizing s with
  | zero => simp [Machine.run]
  | succ n ih =>
    have hnext : s.disarm = { s with generation := s.generation + 1, calls := s.calls + 1 } := by
      rw [disarm, hqueued]
    have hrest := ih (s := s.disarm) (by rw [hnext]; exact hqueued)
    show Machine.run step s.disarm (List.replicate n .disarm) = _
    rw [hrest, hnext, Nat.add_comm n 1, UInt64.ofNat_add]
    simp [UInt64.add_assoc, Nat.add_assoc]

theorem run_turn (n : Nat) (hturn : UInt64.ofNat n = 0) :
    Machine.run step {} (turn n) =
      some { generation := 1, calls := 1 + n, expired := [{ armed := 1, later := n }] } := by
  have hdisarms := run_disarms (s := ⟨1, [⟨1, 1, .Queued false⟩], 1, []⟩) n rfl
  rw [turn, Machine.run_append, Machine.run_append]
  show ((Machine.run step ⟨1, [⟨1, 1, .Queued false⟩], 1, []⟩ (List.replicate n .disarm)).bind
    _) = _
  rw [hdisarms, hturn]
  simp [Machine.run, step, handle]

/-- With `2 ^ 64` of them the ticket of the arm is the generation again. -/
theorem stale_turn : ¬ Machine.Always step NoneStale {} (turn (2 ^ 64)) := by
  intro halways
  have hstale := halways.last _ (run_turn (2 ^ 64) (by decide))
  have hlater : 2 ^ 64 = 0 := hstale _ (List.mem_singleton_self _)
  exact absurd hlater (by decide)

end Deadline
end PulseGate
