import Mathlib.Data.List.Perm.Basic
import Mathlib.Data.List.Nodup
import Mathlib.Tactic.TypeStar

namespace Keyed

/-!
# Lists whose items have distinct keys

Such a list is a finite map: `find?` looks a key up, and filtering the key out removes it.
-/

variable {α κ : Type*} [DecidableEq κ] {key : α → κ}

/-- The item of a key is the only one a search for the key finds. -/
theorem find?_of_mem {items : List α} (hnodup : (items.map key).Nodup) {x : α}
    (hx : x ∈ items) : items.find? (key · = key x) = some x := by
  induction items with
  | nil => simp at hx
  | cons y items ih =>
    obtain ⟨hy, hrest⟩ := List.nodup_cons.mp hnodup
    rcases List.mem_cons.mp hx with rfl | hx
    · simp
    · have hne : key y ≠ key x := fun heq => hy (heq ▸ List.mem_map_of_mem hx)
      rw [List.find?_cons_of_neg (by simpa using hne)]
      exact ih hrest hx

theorem find?_eq_some_iff {items : List α} (hnodup : (items.map key).Nodup) {k : κ} {x : α} :
    items.find? (key · = k) = some x ↔ x ∈ items ∧ key x = k := by
  constructor
  · intro h
    exact ⟨List.mem_of_find?_eq_some h, by simpa using List.find?_some h⟩
  · rintro ⟨hx, rfl⟩
    exact find?_of_mem hnodup hx

theorem find?_eq_none_iff {items : List α} {k : κ} :
    items.find? (key · = k) = none ↔ k ∉ items.map key := by
  simp [List.find?_eq_none]

/-- With distinct keys, leaving out an item is leaving out its key. -/
theorem filter_ne_iff {ι : Type*} [DecidableEq ι] {other : α → ι} {items : List α}
    (hnodup : (items.map key).Nodup) (hother : (items.map other).Nodup) {x : α}
    (hx : x ∈ items) : items.filter (other · ≠ other x) = items.filter (key · ≠ key x) := by
  apply List.filter_congr
  intro y hy
  have heq : other y = other x ↔ key y = key x :=
    ⟨fun h => congrArg key (List.inj_on_of_nodup_map hother hy hx h),
      fun h => congrArg other (List.inj_on_of_nodup_map hnodup hy hx h)⟩
  simp [heq]

/-- Leaving out one key leaves out its item. -/
theorem filter_ne_append_cons {before after : List α} {x : α}
    (hnodup : ((before ++ x :: after).map key).Nodup) :
    (before ++ x :: after).filter (key · ≠ key x) = before ++ after := by
  rw [List.map_append, List.map_cons, List.nodup_middle, List.nodup_cons, ← List.map_append]
    at hnodup
  have hall : (before ++ after).filter (key · ≠ key x) = before ++ after := by
    apply List.filter_eq_self.mpr
    intro y hy
    have hne : key y ≠ key x := fun heq => hnodup.1 (heq ▸ List.mem_map_of_mem hy)
    simpa using hne
  rw [List.filter_append] at hall ⊢
  rw [List.filter_cons_of_neg (by simp), hall]

theorem perm_cons_filter {items : List α} (hnodup : (items.map key).Nodup) {x : α}
    (hx : x ∈ items) : items.Perm (x :: items.filter (key · ≠ key x)) := by
  obtain ⟨before, after, rfl⟩ := List.append_of_mem hx
  rw [filter_ne_append_cons hnodup]
  exact List.perm_middle

end Keyed
