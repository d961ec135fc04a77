import Mathlib.Logic.Basic
import Mathlib.Tactic.TypeStar

namespace Monitor

/-!
# A mutex and a condition variable

One thread waits, in a loop, until a predicate of the shared state holds:

  `lock; while (!predicate) wait; ...; unlock`

A wait releases the mutex and parks in one step, and may end without a notification.  The other
threads change the state while they hold the mutex.  A notification wakes the waiter only when
it is parked; a notification that is due is part of the state, for the threads that hold the
mutex.

* `Held.step` — the waiter holds the mutex wherever it may read the shared state;
* `Aware.step` — a predicate that only becomes true under the mutex, by a thread that notifies
  before it releases the mutex, is never slept through;
* `Moves.asleep_before`, `Moves.asleep` — what puts the waiter to sleep, and what wakes it.
-/

/-- Where the waiter is. -/
inductive Place
  /-- Not in the critical section. -/
  | Outside
  /-- It has the mutex, before the test of the predicate. -/
  | Testing
  /-- The predicate was false. -/
  | Parking
  | Parked
  /-- Awake, without the mutex. -/
  | Woken
  /-- The predicate was true. -/
  | Ready
  deriving DecidableEq, Repr

/-- The waiter has the mutex. -/
def Place.Holds : Place → Prop
  | .Testing | .Parking | .Ready => True
  | _ => False

/-- It has found the predicate false and is not awake again. -/
def Place.Asleep : Place → Prop
  | .Parking | .Parked => True
  | _ => False

instance Place.decidableHolds : ∀ p : Place, Decidable p.Holds
  | .Testing | .Parking | .Ready => isTrue trivial
  | .Outside | .Parked | .Woken => isFalse id

instance Place.decidableAsleep : ∀ p : Place, Decidable p.Asleep
  | .Parking | .Parked => isTrue trivial
  | .Outside | .Testing | .Woken | .Ready => isFalse id

/-- The place after a notification. -/
def Place.notified : Place → Place
  | .Parked => .Woken
  | p => p

theorem Place.asleep_notified {p : Place} : p.notified.Asleep ↔ p = .Parking := by
  cases p <;> decide

theorem Place.holds_notified {p : Place} : p.notified.Holds ↔ p.Holds := by
  cases p <;> decide

/-- Who has the mutex. -/
inductive Holder
  | Free
  | Waiter
  /-- Another thread, which still has to notify the waiter or has not. -/
  | Other (owes : Bool)
  deriving DecidableEq, Repr

end Monitor

structure Monitor where
  holder : Monitor.Holder := .Free
  place : Monitor.Place := .Outside
  deriving DecidableEq, Repr

namespace Monitor

inductive Op
  /-- The waiter takes the mutex, at first or after it was woken. -/
  | lock
  | test (ready : Bool)
  | park
  /-- A wake-up without a notification. -/
  | wake
  | release
  /-- Another thread takes the mutex; it `owes` a notification for what it does there. -/
  | enter (owes : Bool)
  /-- It notifies. -/
  | tell
  | leave
  /-- Some thread notifies without the mutex. -/
  | notify
  deriving DecidableEq, Repr

def step (m : Monitor) : Op → Option Monitor
  | .lock =>
    if m.holder = .Free ∧ (m.place = .Outside ∨ m.place = .Woken) then
      some { holder := .Waiter, place := .Testing }
    else none
  | .test ready =>
    if m.place = .Testing then
      some { m with place := if ready then .Ready else .Parking }
    else none
  | .park => if m.place = .Parking then some { holder := .Free, place := .Parked } else none
  | .wake => if m.place = .Parked then some { m with place := .Woken } else none
  | .release => if m.place = .Ready then some { holder := .Free, place := .Outside } else none
  | .enter owes => if m.holder = .Free then some { m with holder := .Other owes } else none
  | .tell =>
    if m.holder = .Other true then some { holder := .Other false, place := m.place.notified }
    else none
  | .leave => if m.holder = .Other false then some { m with holder := .Free } else none
  | .notify => some { m with place := m.place.notified }

/-- What an operation does, one constructor for each of them. -/
inductive Moves (m : Monitor) : Op → Monitor → Prop
  | locks (hholder : m.holder = .Free) (hplace : m.place = .Outside ∨ m.place = .Woken) :
    Moves m .lock { holder := .Waiter, place := .Testing }
  | tests {ready : Bool} (hplace : m.place = .Testing) :
    Moves m (.test ready) { m with place := if ready then .Ready else .Parking }
  | parks (hplace : m.place = .Parking) : Moves m .park { holder := .Free, place := .Parked }
  | wakes (hplace : m.place = .Parked) : Moves m .wake { m with place := .Woken }
  | releases (hplace : m.place = .Ready) :
    Moves m .release { holder := .Free, place := .Outside }
  | enters {owes : Bool} (hholder : m.holder = .Free) :
    Moves m (.enter owes) { m with holder := .Other owes }
  | tells (hholder : m.holder = .Other true) :
    Moves m .tell { holder := .Other false, place := m.place.notified }
  | leaves (hholder : m.holder = .Other false) : Moves m .leave { m with holder := .Free }
  | notifies : Moves m .notify { m with place := m.place.notified }

variable {m m' : Monitor} {op : Op}

theorem moves_of_step (hstep : step m op = some m') : Moves m op m' := by
  cases op with
  | lock =>
    obtain ⟨hguard, ⟨⟩⟩ := Option.ite_none_right_eq_some.mp hstep
    exact .locks hguard.1 hguard.2
  | test ready =>
    obtain ⟨hplace, ⟨⟩⟩ := Option.ite_none_right_eq_some.mp hstep
    exact .tests hplace
  | park =>
    obtain ⟨hplace, ⟨⟩⟩ := Option.ite_none_right_eq_some.mp hstep
    exact .parks hplace
  | wake =>
    obtain ⟨hplace, ⟨⟩⟩ := Option.ite_none_right_eq_some.mp hstep
    exact .wakes hplace
  | release =>
    obtain ⟨hplace, ⟨⟩⟩ := Option.ite_none_right_eq_some.mp hstep
    exact .releases hplace
  | enter owes =>
    obtain ⟨hholder, ⟨⟩⟩ := Option.ite_none_right_eq_some.mp hstep
    exact .enters hholder
  | tell =>
    obtain ⟨hholder, ⟨⟩⟩ := Option.ite_none_right_eq_some.mp hstep
    exact .tells hholder
  | leave =>
    obtain ⟨hholder, ⟨⟩⟩ := Option.ite_none_right_eq_some.mp hstep
    exact .leaves hholder
  | notify => exact Option.some.inj hstep ▸ .notifies

/-- The waiter has the mutex wherever it acts as if it had. -/
def Held (m : Monitor) : Prop := m.place.Holds → m.holder = .Waiter

theorem Held.step (h : m.Held) (hmoves : Moves m op m') : m'.Held := by
  cases hmoves with
  | locks => exact fun _ => rfl
  | tests hplace => exact fun _ => h (hplace ▸ trivial)
  | parks => exact False.elim
  | wakes => exact False.elim
  | releases => exact False.elim
  | enters hholder => exact fun hholds => absurd (h hholds) (by rw [hholder]; decide)
  | tells hholder =>
    intro hholds
    exact absurd (h (Place.holds_notified.mp hholds)) (by rw [hholder]; decide)
  | leaves hholder => exact fun hholds => absurd (h hholds) (by rw [hholder]; decide)
  | notifies => exact fun hholds => h (Place.holds_notified.mp hholds)

/-- While the waiter sleeps, the predicate is false or a notification is due. -/
def Aware (p : Prop) (m : Monitor) : Prop := m.place.Asleep → p → m.holder = .Other true

/-- What the predicate may do in an operation: it is what the waiter tests, and it becomes true
    only by a thread that has the mutex and owes a notification. -/
def Op.Allows (p p' : Prop) : Op → Prop
  | .test ready => p' → ready = true
  | .enter owes => p' → p ∨ owes = true
  | _ => p' → p

/-- **No lost wake-up.** A predicate that changes as it may is never slept through. -/
theorem Aware.step {p p' : Prop} (hheld : m.Held) (h : m.Aware p) (hmoves : Moves m op m')
    (hallows : op.Allows p p') : m'.Aware p' := by
  cases hmoves with
  | locks => exact False.elim
  | @tests ready hplace =>
    intro hasleep hp'
    rw [hallows hp'] at hasleep
    exact hasleep.elim
  | parks hplace =>
    -- the waiter had the mutex, so that no notification was due and the predicate is false
    intro _ hp'
    have hdue := h (hplace ▸ trivial) (hallows hp')
    exact absurd ((hheld (hplace ▸ trivial)).symm.trans hdue) (by decide)
  | wakes => exact False.elim
  | releases => exact False.elim
  | @enters owes hholder =>
    intro hasleep hp'
    rcases hallows hp' with hp | howes
    · exact absurd (hholder.symm.trans (h hasleep hp)) (by decide)
    · exact congrArg Holder.Other howes
  | tells hholder =>
    intro hasleep
    have hplace := Place.asleep_notified.mp hasleep
    exact absurd ((hheld (hplace ▸ trivial)).symm.trans hholder) (by decide)
  | leaves hholder =>
    intro hasleep hp'
    exact absurd (hholder.symm.trans (h hasleep (hallows hp'))) (by decide)
  | notifies =>
    intro hasleep hp'
    have hplace := Place.asleep_notified.mp hasleep
    exact h (hplace ▸ trivial) (hallows hp')

/-! ### Sleeping -/

/-- Only a test that fails puts the waiter to sleep. -/
theorem Moves.asleep_before (hmoves : Moves m op m') (hop : op ≠ .test false)
    (hasleep : m'.place.Asleep) : m.place.Asleep := by
  cases hmoves with
  | locks => exact hasleep.elim
  | @tests ready =>
    cases ready with
    | true => exact hasleep.elim
    | false => exact absurd rfl hop
  | parks hplace => exact hplace ▸ trivial
  | wakes => exact hasleep.elim
  | releases => exact hasleep.elim
  | enters => exact hasleep
  | tells => exact Place.asleep_notified.mp hasleep ▸ trivial
  | leaves => exact hasleep
  | notifies => exact Place.asleep_notified.mp hasleep ▸ trivial

/-- What wakes a waiter that sleeps. -/
def Op.Wakes : Op → Prop
  | .wake | .tell | .notify => True
  | _ => False

/-- Without a notification or an accidental wake-up the waiter sleeps on. -/
theorem Moves.asleep (hmoves : Moves m op m') (hop : ¬ op.Wakes) (hasleep : m.place.Asleep) :
    m'.place.Asleep := by
  cases hmoves with
  | locks _ hplace =>
    rcases hplace with hplace | hplace <;> rw [hplace] at hasleep <;> exact hasleep.elim
  | tests hplace =>
    rw [hplace] at hasleep
    exact hasleep.elim
  | parks => trivial
  | wakes => exact absurd trivial hop
  | releases hplace =>
    rw [hplace] at hasleep
    exact hasleep.elim
  | enters => exact hasleep
  | tells => exact absurd trivial hop
  | leaves => exact hasleep
  | notifies => exact absurd trivial hop

/-- The waiter enters with the mutex only. -/
theorem Moves.inside_before (hmoves : Moves m op m') (hop : op ≠ .lock)
    (hinside : m'.place ≠ .Outside) : m.place ≠ .Outside := by
  cases hmoves with
  | locks => exact absurd rfl hop
  | tests hplace => rw [hplace]; decide
  | parks hplace => rw [hplace]; decide
  | wakes hplace => rw [hplace]; decide
  | releases => exact absurd rfl hinside
  | enters => exact hinside
  | tells => exact fun hplace => hinside (by rw [hplace]; rfl)
  | leaves => exact hinside
  | notifies => exact fun hplace => hinside (by rw [hplace]; rfl)

/-- A notification that is due stays so until it is made. -/
theorem Moves.owes (hheld : m.Held) (hmoves : Moves m op m') (hop : op ≠ .tell)
    (howes : m.holder = .Other true) : m'.holder = .Other true := by
  have hplace : ¬ m.place.Holds := fun hholds => by
    rw [hheld hholds] at howes
    cases howes
  cases hmoves with
  | locks hholder => exact absurd (hholder.symm.trans howes) (by decide)
  | tests => exact howes
  | parks hparking => exact absurd (hparking ▸ trivial) hplace
  | wakes => exact howes
  | releases hready => exact absurd (hready ▸ trivial) hplace
  | enters hholder => exact absurd (hholder.symm.trans howes) (by decide)
  | tells => exact absurd rfl hop
  | leaves hholder => exact absurd (hholder.symm.trans howes) (by decide)
  | notifies => exact howes

/-- Only a thread that takes the mutex comes to owe a notification. -/
theorem Moves.owes_before (hmoves : Moves m op m') (hop : ∀ owes, op ≠ .enter owes)
    (howes : m'.holder = .Other true) : m.holder = .Other true := by
  cases hmoves with
  | tests => exact howes
  | wakes => exact howes
  | enters => exact absurd rfl (hop _)
  | notifies => exact howes
  | _ => cases howes

end Monitor
