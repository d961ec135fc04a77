import Mathlib.Data.List.Induction
import Mathlib.Data.List.Pairwise
import Mathlib.Tactic.TypeStar

/-!
# Maps in the order of their keys

A map is the list of its entries, with the keys in ascending order, so that there is one list for
each map.  The one operation that writes is that of a counter: `update` changes what is at a key,
and starts from a default where there is nothing.

* `get_update` — what is at a key afterwards;
* `mem_entries_iff` — the entries are what is at the keys;
* `Records.update` — a map that is updated by one element after the other, each at its own key:
  what is at a key has seen the elements of that key, in their order, and no others.
-/

structure SortedMap (κ α : Type*) [LT κ] where
  entries : List (κ × α)
  sorted : entries.Pairwise fun x y => x.1 < y.1

namespace SortedMap

variable {κ α ε β : Type*} {k k' : κ} {d : α} {f : α → α}

/-! ### What is at a key, and what comes to it -/

section Keys

variable [DecidableEq κ] {touch : ε → Option (κ × β)} {apply : β → α → α}

/-- What is at a key of a list of entries. -/
def lookup (k : κ) (entries : List (κ × α)) : Option α :=
  (entries.find? fun x => x.1 = k).map (·.2)

theorem lookup_cons (x : κ × α) (entries : List (κ × α)) :
    lookup k (x :: entries) = if x.1 = k then some x.2 else lookup k entries := by
  unfold lookup
  by_cases h : x.1 = k <;> simp [h]

/-- What the elements bring to a key. -/
def arrivals (touch : ε → Option (κ × β)) (k : κ) (es : List ε) : List β :=
  es.filterMap fun e => ((touch e).filter fun x => x.1 = k).map (·.2)

theorem arrivals_append (es es' : List ε) :
    arrivals touch k (es ++ es') = arrivals touch k es ++ arrivals touch k es' :=
  List.filterMap_append

theorem arrivals_singleton {e : ε} {x : κ × β} (h : touch e = some x) :
    arrivals touch k [e] = if x.1 = k then [x.2] else [] := by
  unfold arrivals
  rw [List.filterMap_cons, h]
  by_cases hk : x.1 = k <;> simp [Option.filter, hk]

theorem length_arrivals (es : List ε) :
    (arrivals touch k es).length = es.countP fun e => (touch e).any fun x => x.1 = k := by
  induction es with
  | nil => rfl
  | cons e es ih =>
    rw [← List.singleton_append, arrivals_append, List.length_append, ih, List.countP_append]
    congr 1
    cases htouch : touch e with
    | none => simp [arrivals, htouch]
    | some x =>
      rw [arrivals_singleton htouch]
      by_cases hk : x.1 = k <;> simp [htouch, hk]

/-- What is left at a key by all that was brought to it. -/
def accumulate (d : α) (apply : β → α → α) (arrived : List β) : Option α :=
  if arrived = [] then none else some (arrived.foldl (fun a b => apply b a) d)

end Keys

theorem accumulate_append_singleton {apply : β → α → α} (arrived : List β) (b : β) :
    accumulate d apply (arrived ++ [b]) =
      some (apply b ((accumulate d apply arrived).getD d)) := by
  unfold accumulate
  rw [if_neg (List.append_ne_nil_of_right_ne_nil _ (List.cons_ne_nil _ _)), List.foldl_append]
  by_cases h : arrived = []
  · subst h
    rfl
  · rw [if_neg h]
    rfl

/-- What each arrival replaces is the last one. -/
theorem accumulate_last (d : α) (arrived : List α) :
    accumulate d (fun b _ => b) arrived = arrived.getLast? := by
  induction arrived using List.reverseRecOn with
  | nil => rfl
  | append_singleton arrived b _ => rw [accumulate_append_singleton, List.getLast?_concat]

/-! ### The entries -/

variable [LT κ]

@[ext] theorem ext {m m' : SortedMap κ α} (h : m.entries = m'.entries) : m = m' := by
  cases m
  cases m'
  congr

instance [DecidableEq κ] [DecidableEq α] : DecidableEq (SortedMap κ α) := fun m m' =>
  decidable_of_iff (m.entries = m'.entries) ⟨ext, fun h => h ▸ rfl⟩

instance : EmptyCollection (SortedMap κ α) := ⟨⟨[], .nil⟩⟩

@[simp] theorem entries_empty : (∅ : SortedMap κ α).entries = [] := rfl

variable [DecidableEq κ]

def get (m : SortedMap κ α) (k : κ) : Option α := lookup k m.entries

@[simp] theorem get_empty : (∅ : SortedMap κ α).get k = none := rfl

section Order

variable [LE κ] [Std.LawfulOrderLT κ] {entries : List (κ × α)}

/-- Nothing is at a key that is below all others. -/
theorem lookup_of_lt (h : ∀ x ∈ entries, k < x.1) : lookup k entries = none := by
  rw [lookup, List.find?_eq_none.mpr, Option.map_none]
  intro x hx heq
  exact Std.ne_of_lt (h x hx) (of_decide_eq_true heq).symm

theorem mem_iff_lookup (h : entries.Pairwise fun x y => x.1 < y.1) {a : α} :
    (k, a) ∈ entries ↔ lookup k entries = some a := by
  induction entries with
  | nil => simp [lookup]
  | cons x entries ih =>
    obtain ⟨hbelow, hsorted⟩ := List.pairwise_cons.mp h
    rw [lookup_cons, List.mem_cons, ih hsorted]
    by_cases hk : x.1 = k
    · -- the other keys are above this one
      have hnone : lookup k entries = none := lookup_of_lt (hk ▸ hbelow)
      rw [if_pos hk, hnone]
      obtain ⟨key, value⟩ := x
      obtain rfl : key = k := hk
      simp [eq_comm]
    · rw [if_neg hk]
      have hne : (k, a) ≠ x := fun heq => hk (heq ▸ rfl)
      simp [hne]

theorem mem_entries_iff {m : SortedMap κ α} {a : α} : (k, a) ∈ m.entries ↔ m.get k = some a :=
  mem_iff_lookup m.sorted

omit [DecidableEq κ] in
/-- The keys are distinct. -/
theorem nodup_keys (m : SortedMap κ α) : (m.entries.map (·.1)).Nodup :=
  List.pairwise_map.mpr (m.sorted.imp Std.ne_of_lt)

end Order

/-! ### What a map has seen -/

/-- What is at a key has seen what came to this key, in its order, and nothing else. -/
def Records (m : SortedMap κ α) (d : α) (apply : β → α → α) (touch : ε → Option (κ × β))
    (es : List ε) : Prop :=
  ∀ k, m.get k = accumulate d apply (arrivals touch k es)

section Records

variable {m : SortedMap κ α} {touch : ε → Option (κ × β)} {apply : β → α → α} {es : List ε} {e : ε}

theorem records_empty : (∅ : SortedMap κ α).Records d apply touch [] := fun _ => rfl

/-- An element that comes to no key. -/
theorem Records.skip (h : m.Records d apply touch es) (htouch : touch e = none) :
    m.Records d apply touch (es ++ [e]) := by
  intro k
  rw [h k, arrivals_append]
  simp [arrivals, htouch]

/-- Where something is, something has come. -/
theorem Records.exists_of_mem [LE κ] [Std.LawfulOrderLT κ] (h : m.Records d apply touch es)
    {x : κ × α} (hx : x ∈ m.entries) : ∃ e ∈ es, ∃ b, touch e = some (x.1, b) := by
  have hget := mem_entries_iff.mp hx
  rw [h x.1, accumulate] at hget
  split at hget
  · cases hget
  · next hne =>
    obtain ⟨b, hb⟩ := List.exists_mem_of_ne_nil _ hne
    obtain ⟨e, he, hbrought⟩ := List.mem_filterMap.mp hb
    obtain ⟨y, hy, rfl⟩ := Option.map_eq_some_iff.mp hbrought
    obtain ⟨htouch, hkey⟩ := Option.filter_eq_some_iff.mp hy
    have hkey : y.1 = x.1 := of_decide_eq_true hkey
    exact ⟨e, he, y.2, by rw [htouch, ← hkey]⟩

end Records

/-! ### Updates -/

variable [DecidableLT κ]

/-- The entries with `f` applied at the key, to `d` where there is nothing yet. -/
def insertAt (d : α) (f : α → α) (k : κ) : List (κ × α) → List (κ × α)
  | [] => [(k, f d)]
  | x :: entries =>
    if k < x.1 then (k, f d) :: x :: entries
    else if x.1 = k then (k, f x.2) :: entries
    else x :: insertAt d f k entries

theorem mem_insertAt {entries : List (κ × α)} {x : κ × α} (h : x ∈ insertAt d f k entries) :
    x.1 = k ∨ x ∈ entries := by
  induction entries with
  | nil =>
    obtain rfl := List.mem_singleton.mp h
    exact .inl rfl
  | cons y entries ih =>
    rw [insertAt] at h
    split at h
    · rcases List.mem_cons.mp h with rfl | h
      · exact .inl rfl
      · exact .inr h
    · split at h
      · rcases List.mem_cons.mp h with rfl | h
        · exact .inl rfl
        · exact .inr (List.mem_cons_of_mem _ h)
      · rcases List.mem_cons.mp h with rfl | h
        · exact .inr List.mem_cons_self
        · exact (ih h).imp_right (List.mem_cons_of_mem _)

variable [LE κ] [Std.LawfulOrderLT κ] [Std.IsLinearOrder κ] {entries : List (κ × α)}

theorem sorted_insertAt (h : entries.Pairwise fun x y => x.1 < y.1) :
    (insertAt d f k entries).Pairwise fun x y => x.1 < y.1 := by
  induction entries with
  | nil => exact List.pairwise_singleton _ _
  | cons x entries ih =>
    obtain ⟨hbelow, hsorted⟩ := List.pairwise_cons.mp h
    rw [insertAt]
    split
    · next hlt =>
      refine List.pairwise_cons.mpr ⟨fun y hy => ?_, h⟩
      rcases List.mem_cons.mp hy with rfl | hy
      · exact hlt
      · exact Std.lt_trans hlt (hbelow y hy)
    · next hle =>
      split
      · next heq => exact List.pairwise_cons.mpr ⟨fun y hy => heq ▸ hbelow y hy, hsorted⟩
      · next hne =>
        refine List.pairwise_cons.mpr ⟨fun y hy => ?_, ih hsorted⟩
        rcases mem_insertAt hy with hy | hy
        · exact hy ▸ Std.lt_of_le_of_ne (Std.not_lt.mp hle) hne
        · exact hbelow y hy

/-- Applies `f` at the key, to `d` where there is nothing yet. -/
def update (m : SortedMap κ α) (d : α) (f : α → α) (k : κ) : SortedMap κ α :=
  ⟨insertAt d f k m.entries, sorted_insertAt m.sorted⟩

theorem lookup_insertAt (h : entries.Pairwise fun x y => x.1 < y.1) :
    lookup k' (insertAt d f k entries) =
      if k = k' then some (f ((lookup k entries).getD d)) else lookup k' entries := by
  induction entries with
  | nil => exact lookup_cons _ _
  | cons x entries ih =>
    obtain ⟨hbelow, hsorted⟩ := List.pairwise_cons.mp h
    rw [insertAt]
    split
    · next hlt =>
      -- the key comes before all others
      have hnone : lookup k (x :: entries) = none := by
        refine lookup_of_lt fun y hy => ?_
        rcases List.mem_cons.mp hy with rfl | hy
        · exact hlt
        · exact Std.lt_trans hlt (hbelow y hy)
      rw [lookup_cons, hnone]
      rfl
    · next hle =>
      split
      · next heq =>
        rw [lookup_cons, lookup_cons, lookup_cons, if_pos heq]
        by_cases hk : k = k'
        · rw [if_pos hk, if_pos hk]
          rfl
        · rw [if_neg hk, if_neg hk, if_neg fun h => hk (heq ▸ h)]
      · next hne =>
        rw [lookup_cons, lookup_cons, lookup_cons, ih hsorted, if_neg hne]
        by_cases hk : k = k'
        · subst hk
          rw [if_neg hne, if_pos rfl, if_pos rfl]
        · rw [if_neg hk, if_neg hk]

@[simp] theorem get_update (m : SortedMap κ α) (d : α) (f : α → α) (k k' : κ) :
    (m.update d f k).get k' = if k = k' then some (f ((m.get k).getD d)) else m.get k' :=
  lookup_insertAt m.sorted

/-- **Step lemma.** An element that comes to its key. -/
theorem Records.update {m : SortedMap κ α} {touch : ε → Option (κ × β)} {apply : β → α → α}
    {es : List ε} {e : ε} (h : m.Records d apply touch es) {x : κ × β}
    (htouch : touch e = some x) :
    (m.update d (apply x.2) x.1).Records d apply touch (es ++ [e]) := by
  intro k
  rw [get_update, arrivals_append, arrivals_singleton htouch]
  by_cases hk : x.1 = k
  · -- the change is made to what the elements before have left
    rw [if_pos hk, if_pos hk, accumulate_append_singleton, ← h k, hk]
  · rw [if_neg hk, if_neg hk, List.append_nil, h k]

end SortedMap
