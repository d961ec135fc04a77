import Mathlib.Order.Basic
import Mathlib.Data.Nat.Basic
import Mathlib.Tactic.TypeStar

namespace BoundedCounter

/-!
# A counter below a maximum

Any number of users share an atomic counter.  A user counts itself in by a loop of weak
compare-exchanges, which gives up when the counter is seen at its maximum:

  `observed = load()`
  `while (observed < maximum && !compare_exchange_weak(observed, observed + 1)) {}`
  `if (observed >= maximum) give up`

It counts itself out by a fetch-and-subtract.  Every access is one step; what the loop does
between two accesses is its own.

* `access_cases` — an access counts one below the maximum, or leaves the counter as it is;
* `countP_set` — the number of users of a kind, when one of them takes a step.
-/

/-- An attempt to be counted: the access it makes next, or how it has ended. -/
inductive Attempt
  | loading
  | looping (observed : Nat)
  | counted
  | full
  deriving DecidableEq, Repr

inductive Access
  | load
  /-- A weak exchange may fail for no reason. -/
  | exchange (spurious : Bool)
  deriving DecidableEq, Repr

/-- The test of the loop, and the one after it, on what was seen. -/
def observe (maximum counter : Nat) : Attempt :=
  if counter < maximum then .looping counter else .full

/-- One access to the counter. -/
def access (maximum counter : Nat) : Attempt → Access → Option (Nat × Attempt)
  | .loading, .load => some (counter, observe maximum counter)
  | .looping observed, .exchange spurious =>
    if observed = counter ∧ spurious = false then some (counter + 1, .counted)
    else some (counter, observe maximum counter)
  | _, _ => none

/-- The counter after a fetch-and-subtract, where it is a number below `modulus`. -/
def fetchSub (modulus counter : Nat) : Nat := if counter = 0 then modulus - 1 else counter - 1

theorem fetchSub_add_one (modulus : Nat) {counter : Nat} (h : counter ≠ 0) :
    fetchSub modulus counter + 1 = counter := by
  rw [fetchSub, if_neg h]
  omega

/-- What an attempt has seen leaves room. -/
def Attempt.Valid (maximum : Nat) : Attempt → Prop
  | .looping observed => observed < maximum
  | _ => True

variable {maximum counter counter' : Nat} {attempt attempt' : Attempt} {a : Access}

/-- What an access can do: an attempt goes on, is counted, or finds the counter full. -/
theorem access_cases (hvalid : attempt.Valid maximum)
    (h : access maximum counter attempt a = some (counter', attempt')) :
    (attempt = .loading ∨ ∃ observed, attempt = .looping observed) ∧
      ((counter' = counter ∧ counter < maximum ∧ attempt' = .looping counter) ∨
        (counter' = counter + 1 ∧ counter < maximum ∧ attempt' = .counted) ∨
        (counter' = counter ∧ maximum ≤ counter ∧ attempt' = .full)) := by
  -- what was seen decides unless the exchange succeeds
  have hobserve : (counter, observe maximum counter) = (counter', attempt') →
      (counter' = counter ∧ counter < maximum ∧ attempt' = .looping counter) ∨
        (counter' = counter + 1 ∧ counter < maximum ∧ attempt' = .counted) ∨
        (counter' = counter ∧ maximum ≤ counter ∧ attempt' = .full) := by
    rintro heq
    obtain ⟨rfl, rfl⟩ := Prod.mk.inj heq
    unfold observe
    split
    · next hroom => exact .inl ⟨rfl, hroom, rfl⟩
    · next hfull => exact .inr (.inr ⟨rfl, not_lt.mp hfull, rfl⟩)
  match attempt, a with
  | .loading, .load => exact ⟨.inl rfl, hobserve (Option.some.inj h)⟩
  | .looping observed, .exchange spurious =>
    refine ⟨.inr ⟨observed, rfl⟩, ?_⟩
    by_cases hsame : observed = counter ∧ spurious = false
    · rw [access, if_pos hsame] at h
      obtain ⟨rfl, rfl⟩ := Prod.mk.inj (Option.some.inj h)
      exact .inr (.inl ⟨rfl, hsame.1 ▸ hvalid, rfl⟩)
    · rw [access, if_neg hsame] at h
      exact hobserve (Option.some.inj h)

/-! ### The users -/

variable {α : Type*} {users : List α} {i : Nat} {user : α}

/-- The number of users of a kind, when one of them becomes another. -/
theorem countP_set (p : α → Bool) (huser : users[i]? = some user) (next : α) :
    (users.set i next).countP p + (p user).toNat = users.countP p + (p next).toNat := by
  obtain ⟨hlt, rfl⟩ := List.getElem?_eq_some_iff.mp huser
  have hpos : p users[i] = true → 0 < users.countP p := fun hp =>
    List.countP_pos_iff.mpr ⟨users[i], List.getElem_mem hlt, hp⟩
  rw [List.countP_set hlt]
  cases hp : p users[i] with
  | false => cases p next <;> simp
  | true =>
    have hone := hpos hp
    cases p next <;> simp <;> omega

end BoundedCounter
