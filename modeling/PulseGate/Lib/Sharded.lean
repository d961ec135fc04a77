import Mathlib.Data.List.Perm.Basic
import Mathlib.Data.List.Nodup
import Mathlib.Tactic.TypeStar

namespace Sharded

/-!
# Collections in shards

A collection is split over a list of shards; `place x` is the index of the shard of `x`.
What is done to one shard is described by what it does to the whole collection, the
`flatten` of the shards.
-/

variable {α : Type*} {place : α → Nat} {shards : List (List α)} {i : Nat} {s : List α}

/-- Everything is in its place. -/
def Placed (place : α → Nat) (shards : List (List α)) : Prop :=
  ∀ i s, shards[i]? = some s → ∀ x ∈ s, place x = i

theorem placed_replicate (place : α → Nat) (n : Nat) :
    Placed place (List.replicate n ([] : List α)) := by
  intro i s hs x hx
  obtain ⟨-, rfl⟩ := List.mem_replicate.mp (List.mem_of_getElem? hs)
  exact absurd hx List.not_mem_nil

/-- The shards on both sides of one have their items elsewhere. -/
theorem Placed.split (h : Placed place shards) (hs : shards[i]? = some s) :
    ∃ before after, shards = before ++ s :: after ∧ before.length = i ∧
      (∀ x ∈ before.flatten, place x ≠ i) ∧ ∀ x ∈ after.flatten, place x ≠ i := by
  obtain ⟨hlt, hget⟩ := List.getElem?_eq_some_iff.mp hs
  have hsplit : shards = shards.take i ++ s :: shards.drop (i + 1) := by
    rw [← hget, List.getElem_cons_drop, List.take_append_drop]
  refine ⟨shards.take i, shards.drop (i + 1), hsplit,
    List.length_take_of_le (Nat.le_of_lt hlt), ?_, ?_⟩
  · intro x hx
    obtain ⟨t, ht, hxt⟩ := List.mem_flatten.mp hx
    obtain ⟨j, hj, rfl⟩ := List.getElem_of_mem ht
    rw [List.getElem_take] at hxt
    rw [List.length_take] at hj
    have hplace := h j _ (List.getElem?_eq_getElem (by omega)) x hxt
    omega
  · intro x hx
    obtain ⟨t, ht, hxt⟩ := List.mem_flatten.mp hx
    obtain ⟨j, hj, rfl⟩ := List.getElem_of_mem ht
    rw [List.getElem_drop] at hxt
    rw [List.length_drop] at hj
    have hplace := h (i + 1 + j) _ (List.getElem?_eq_getElem (by omega)) x hxt
    omega

/-- A shard is the part of the collection in its place. -/
theorem Placed.filter_eq (h : Placed place shards) (hs : shards[i]? = some s) :
    shards.flatten.filter (place · = i) = s := by
  obtain ⟨before, after, hsplit, -, hbefore, hafter⟩ := h.split hs
  have hnil : ∀ l : List α, (∀ x ∈ l, place x ≠ i) → l.filter (place · = i) = [] := by
    intro l hl
    exact List.filter_eq_nil_iff.mpr fun x hx => by simpa using hl x hx
  have hall : s.filter (place · = i) = s :=
    List.filter_eq_self.mpr fun x hx => by simpa using h i s hs x hx
  rw [hsplit, List.flatten_append, List.flatten_cons, List.filter_append, List.filter_append,
    hnil _ hbefore, hnil _ hafter, hall, List.nil_append, List.append_nil]

/-- With another shard in the place of one, the rest of the collection stays. -/
theorem Placed.set_perm (h : Placed place shards) (hs : shards[i]? = some s) (t : List α) :
    (shards.set i t).flatten.Perm (t ++ shards.flatten.filter (place · ≠ i)) := by
  obtain ⟨before, after, hsplit, hlength, hbefore, hafter⟩ := h.split hs
  have hall : ∀ l : List α, (∀ x ∈ l, place x ≠ i) → l.filter (place · ≠ i) = l := by
    intro l hl
    exact List.filter_eq_self.mpr fun x hx => by simpa using hl x hx
  have hnil : s.filter (place · ≠ i) = [] :=
    List.filter_eq_nil_iff.mpr fun x hx => by simpa using h i s hs x hx
  have hset : shards.set i t = before ++ t :: after := by
    rw [hsplit, ← hlength, List.set_append_right _ _ (Nat.le_refl _), Nat.sub_self,
      List.set_cons_zero]
  rw [hset, hsplit]
  simp only [List.flatten_append, List.flatten_cons, List.filter_append]
  rw [hall _ hbefore, hall _ hafter, hnil, List.nil_append, ← List.append_assoc,
    ← List.append_assoc]
  exact List.perm_append_comm.append_right _

/-- The collection is one shard and the rest. -/
theorem Placed.perm (h : Placed place shards) (hs : shards[i]? = some s) :
    shards.flatten.Perm (s ++ shards.flatten.filter (place · ≠ i)) := by
  obtain ⟨hlt, hget⟩ := List.getElem?_eq_some_iff.mp hs
  have hset := h.set_perm hs s
  rw [← hget, List.set_getElem_self] at hset
  rwa [← hget]

theorem Placed.set (h : Placed place shards) {t : List α} (ht : ∀ x ∈ t, place x = i) :
    Placed place (shards.set i t) := by
  intro j u hu x hx
  by_cases hij : i = j
  · subst hij
    have hlt : i < shards.length := by
      have hlt' := (List.getElem?_eq_some_iff.mp hu).1
      rwa [List.length_set] at hlt'
    rw [List.getElem?_set_self hlt, Option.some.injEq] at hu
    exact ht x (hu ▸ hx)
  · rw [List.getElem?_set_ne hij] at hu
    exact h j u hu x hx

/-- Items with one key are in one shard, where each key occurs once; so it does in all. -/
theorem Placed.nodup_map {κ : Type*} {key : α → κ} (h : Placed place shards)
    (hplace : ∀ x y, key x = key y → place x = place y)
    (hkeys : ∀ s ∈ shards, (s.map key).Nodup) : (shards.flatten.map key).Nodup := by
  rw [List.map_flatten, List.nodup_flatten]
  constructor
  · intro keys hmem
    obtain ⟨s, hs, rfl⟩ := List.mem_map.mp hmem
    exact hkeys s hs
  · rw [List.pairwise_iff_getElem]
    intro i j hi hj hlt
    rw [List.length_map] at hi hj
    rw [List.getElem_map, List.getElem_map]
    intro k hk hk'
    obtain ⟨x, hx, rfl⟩ := List.mem_map.mp hk
    obtain ⟨y, hy, hsame⟩ := List.mem_map.mp hk'
    have hplace_x := h i _ (List.getElem?_eq_getElem hi) x hx
    have hplace_y := h j _ (List.getElem?_eq_getElem hj) y hy
    have hplaces := hplace y x hsame
    omega

end Sharded
