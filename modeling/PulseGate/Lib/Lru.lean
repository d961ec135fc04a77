import PulseGate.Lib.Keyed
import Mathlib.Algebra.GroupWithZero.Nat
import Mathlib.Algebra.Order.BigOperators.Group.List
import Mathlib.Algebra.Order.Group.Nat

namespace Lru

/-!
# Least-recently-used maps with a bound on the sizes of their items

The items of a `Cache` are listed from the one used last.  They have distinct keys, and their
sizes sum up to the budget at most.

* `keep` — what stays of a list when items are dropped from its end until the rest fits;
* `Cache.touch`, `Cache.erase`, `Cache.insert` — the operations, which keep both invariants.

`keep_concat` is the rule for code that drops one item at a time, and `prefix_keep` says that
no more is dropped than has to be.
-/

variable {α κ : Type*} [DecidableEq κ] {key : α → κ} {size : α → Nat}

/-! ### Sizes -/

/-- The sum of the sizes. -/
def total (size : α → Nat) (items : List α) : Nat := (items.map size).sum

@[simp] theorem total_nil : total size [] = 0 := rfl

@[simp] theorem total_cons (x : α) (items : List α) :
    total size (x :: items) = size x + total size items := by
  simp [total]

@[simp] theorem total_append (items items' : List α) :
    total size (items ++ items') = total size items + total size items' := by
  simp [total]

theorem total_perm {items items' : List α} (h : items.Perm items') :
    total size items = total size items' :=
  (h.map size).sum_eq

theorem total_filter_le (p : α → Bool) (items : List α) :
    total size (items.filter p) ≤ total size items :=
  (List.filter_sublist.map size).sum_le_sum fun _ _ => Nat.zero_le _

theorem total_filter_ne {items : List α} (hnodup : (items.map key).Nodup) {x : α}
    (hx : x ∈ items) :
    total size (items.filter (key · ≠ key x)) = total size items - size x := by
  rw [total_perm (Keyed.perm_cons_filter hnodup hx), total_cons]
  omega

/-! ### Dropping from the end -/

/-- The longest initial part whose sizes sum up to the room at most. -/
def keep (size : α → Nat) : Nat → List α → List α
  | _, [] => []
  | room, x :: items => if size x ≤ room then x :: keep size (room - size x) items else []

theorem keep_isPrefixOf (size : α → Nat) (room : Nat) (items : List α) :
    keep size room items <+: items := by
  induction items generalizing room with
  | nil => exact List.prefix_refl []
  | cons x items ih =>
    unfold keep
    split
    · exact (List.prefix_cons_inj x).mpr (ih (room - size x))
    · exact List.nil_prefix

theorem total_keep (size : α → Nat) (room : Nat) (items : List α) :
    total size (keep size room items) ≤ room := by
  induction items generalizing room with
  | nil => exact Nat.zero_le room
  | cons x items ih =>
    unfold keep
    split
    · next hfits =>
      have hrest := ih (room - size x)
      rw [total_cons]
      omega
    · exact Nat.zero_le room

/-- What fits is kept. -/
theorem prefix_keep {room : Nat} {items part : List α} (hpart : part <+: items)
    (hfits : total size part ≤ room) : part <+: keep size room items := by
  induction items generalizing room part with
  | nil => simpa [keep] using hpart
  | cons x items ih =>
    cases part with
    | nil => exact List.nil_prefix
    | cons y part =>
      obtain ⟨rfl, hrest⟩ := List.cons_prefix_cons.mp hpart
      rw [total_cons] at hfits
      rw [keep, if_pos (by omega)]
      exact (List.prefix_cons_inj y).mpr (ih hrest (by omega))

theorem keep_of_total_le {room : Nat} {items : List α} (h : total size items ≤ room) :
    keep size room items = items :=
  (keep_isPrefixOf size room items).eq_of_length_le
    (prefix_keep (List.prefix_refl items) h).length_le

/-- **One item dropped.** What does not fit loses its last item first. -/
theorem keep_concat {room : Nat} {items : List α} {x : α}
    (h : room < total size (items ++ [x])) :
    keep size room (items ++ [x]) = keep size room items := by
  have hkept : keep size room (items ++ [x]) <+: items := by
    rcases List.prefix_concat_iff.mp (keep_isPrefixOf size room (items ++ [x])) with
      hall | hpart
    · have hle := total_keep size room (items ++ [x])
      rw [hall] at hle
      omega
    · exact hpart
  apply List.IsPrefix.eq_of_length_le
  · exact prefix_keep hkept (total_keep size room _)
  · apply List.IsPrefix.length_le
    exact prefix_keep ((keep_isPrefixOf size room items).trans (List.prefix_append items [x]))
      (total_keep size room items)

/-! ### The map -/

/-- A map bounded by the sizes of its items, from the item used last. -/
structure Cache (key : α → κ) (size : α → Nat) (budget : Nat) where
  items : List α
  nodup : (items.map key).Nodup
  fits : total size items ≤ budget

namespace Cache

variable {budget : Nat}

/-- The item becomes the one used last. -/
def touch (c : Cache key size budget) (x : α) (hx : x ∈ c.items) : Cache key size budget where
  items := x :: c.items.filter (key · ≠ key x)
  nodup := ((Keyed.perm_cons_filter c.nodup hx).map key).nodup_iff.mp c.nodup
  fits := (total_perm (Keyed.perm_cons_filter c.nodup hx)).symm.trans_le c.fits

def erase (c : Cache key size budget) (k : κ) : Cache key size budget where
  items := c.items.filter (key · ≠ k)
  nodup := c.nodup.sublist (List.filter_sublist.map key)
  fits := Nat.le_trans (total_filter_le _ c.items) c.fits

/-- The item replaces the one of its key; items that were not used lately make room. -/
def insert (c : Cache key size budget) (x : α) (h : size x ≤ budget) :
    Cache key size budget where
  items := x :: keep size (budget - size x) (c.erase (key x)).items
  nodup := by
    have hsub := (keep_isPrefixOf size (budget - size x) (c.erase (key x)).items).sublist
    refine List.nodup_cons.mpr ⟨?_, (c.erase (key x)).nodup.sublist (hsub.map key)⟩
    intro hmem
    obtain ⟨y, hy, heq⟩ := List.mem_map.mp hmem
    have hne : key y ≠ key x := by simpa [erase] using (List.mem_filter.mp (hsub.subset hy)).2
    exact hne heq
  fits := by
    have hle := total_keep size (budget - size x) (c.erase (key x)).items
    rw [total_cons]
    omega

end Cache

end Lru
