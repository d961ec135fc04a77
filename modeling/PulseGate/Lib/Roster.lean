import Mathlib.Algebra.GroupWithZero.Nat
import Mathlib.Data.List.Nodup

/-!
# The users of a kind

The users of a system stand in a list, at which they are known by their places, and never leave
it.  A roster of the users of a kind lists the places of these and no others, each of them once.

* `keep`, `enter`, `leave` — a user becomes another: the roster stays, or the user is entered at
  its end, or is taken from its front;
* `join` — a user comes in;
* `sum_set` — a weight of the users, when one of them becomes another.
-/

/-- The places in `roster` are those of the users of kind `p`. -/
structure Roster {α : Type*} (roster : List Nat) (users : List α) (p : α → Prop) : Prop where
  nodup : roster.Nodup
  mem_iff : ∀ i, i ∈ roster ↔ ∃ user, users[i]? = some user ∧ p user

namespace Roster

variable {α : Type*} {roster : List Nat} {users : List α} {p : α → Prop} {i : Nat}
  {user next : α}

theorem empty : Roster ([] : List Nat) ([] : List α) p :=
  ⟨.nil, fun i => iff_of_false List.not_mem_nil fun ⟨_, h, _⟩ => by cases h⟩

theorem exists_set (huser : users[i]? = some user) (next : α) (j : Nat) :
    (∃ other, (users.set i next)[j]? = some other ∧ p other) ↔
      if i = j then p next else ∃ other, users[j]? = some other ∧ p other := by
  have hlt := (List.getElem?_eq_some_iff.mp huser).1
  by_cases hij : i = j
  · subst hij
    rw [if_pos rfl, List.getElem?_set_self hlt]
    exact ⟨fun ⟨_, h, hp⟩ => Option.some.inj h ▸ hp, fun hp => ⟨next, rfl, hp⟩⟩
  · rw [if_neg hij, List.getElem?_set_ne hij]

/-- A user stays of the kind, or stays out of it. -/
theorem keep (h : Roster roster users p) (huser : users[i]? = some user)
    (hiff : p next ↔ p user) : Roster roster (users.set i next) p := by
  refine ⟨h.nodup, fun j => ?_⟩
  rw [exists_set huser, h.mem_iff]
  split
  · next hij =>
    subst hij
    rw [hiff]
    exact ⟨fun ⟨_, heq, hp⟩ => Option.some.inj (huser.symm.trans heq) ▸ hp,
      fun hp => ⟨_, huser, hp⟩⟩
  · exact Iff.rfl

/-- A user becomes one of the kind. -/
theorem enter (h : Roster roster users p) (huser : users[i]? = some user) (hout : ¬ p user)
    (hin : p next) : Roster (roster ++ [i]) (users.set i next) p := by
  have hfresh : i ∉ roster := fun hmem => by
    obtain ⟨other, hother, hp⟩ := (h.mem_iff i).mp hmem
    exact hout (Option.some.inj (huser.symm.trans hother) ▸ hp)
  refine ⟨List.nodup_append.mpr ⟨h.nodup, List.nodup_singleton i, ?_⟩, fun j => ?_⟩
  · rintro a ha b hb rfl
    exact hfresh (List.mem_singleton.mp hb ▸ ha)
  · rw [exists_set huser, List.mem_append, List.mem_singleton, h.mem_iff]
    split
    · next hij => exact iff_of_true (.inr hij.symm) hin
    · next hij => exact or_iff_left fun heq => hij heq.symm

/-- The first of the kind leaves it. -/
theorem leave (h : Roster (i :: roster) users p) (huser : users[i]? = some user) (hout : ¬ p next) :
    Roster roster (users.set i next) p := by
  obtain ⟨hfresh, hnodup⟩ := List.nodup_cons.mp h.nodup
  refine ⟨hnodup, fun j => ?_⟩
  rw [exists_set huser]
  split
  · next hij => exact iff_of_false (hij ▸ hfresh) hout
  · next hij =>
    rw [← h.mem_iff, List.mem_cons]
    exact (or_iff_right fun heq => hij heq.symm).symm

/-- A user comes in who is not of the kind. -/
theorem join (h : Roster roster users p) (hout : ¬ p user) : Roster roster (users ++ [user]) p := by
  refine ⟨h.nodup, fun j => ?_⟩
  rw [h.mem_iff]
  constructor
  · rintro ⟨other, hother, hp⟩
    exact ⟨other, (List.getElem?_append_left (List.getElem?_eq_some_iff.mp hother).1).trans hother,
      hp⟩
  · rintro ⟨other, hother, hp⟩
    by_cases hj : j < users.length
    · exact ⟨other, (List.getElem?_append_left hj).symm.trans hother, hp⟩
    · rw [List.getElem?_append_right (Nat.not_lt.mp hj)] at hother
      have hmem := List.mem_of_getElem? hother
      exact absurd (List.mem_singleton.mp hmem ▸ hp) hout

/-- The weight of all users, when one of them becomes another. -/
theorem sum_set (weight : α → Nat) (huser : users[i]? = some user) (next : α) :
    ((users.set i next).map weight).sum + weight user = (users.map weight).sum + weight next := by
  induction users generalizing i with
  | nil => cases huser
  | cons first users ih =>
    cases i with
    | zero =>
      obtain rfl : first = user := Option.some.inj huser
      simp only [List.set_cons_zero, List.map_cons, List.sum_cons]
      omega
    | succ i =>
      have hrest := ih (i := i) huser
      simp only [List.set_cons_succ, List.map_cons, List.sum_cons]
      omega

end Roster
