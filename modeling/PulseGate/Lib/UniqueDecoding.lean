import Mathlib.Data.List.Infix
import Mathlib.Data.List.Nodup
import Mathlib.Logic.Function.Basic
import Mathlib.Tactic.TypeStar

namespace UniqueDecoding

/-!
# Reading back what was written without separators

* `PrefixCode` — whatever follows them, different items are written differently; so are
  different lists of items (`PrefixCode.flatMap_injective`).
* `groups` — for each name the name, its values, in any number, and a terminator.  The
  terminator may be a value too, so that a reader can take `terminator, name` among the values
  for the end of a group and the start of the next one: `Recut`.

`exists_recut` and `Recut.exists_other` say that values written as groups can be read in
another way exactly when there is such a place.
-/

variable {α β : Type*}

/-! ### Codes -/

/-- No item's code is the start of another one's. -/
structure PrefixCode (code : α → List β) : Prop where
  ne_nil : ∀ a, code a ≠ []
  inj : ∀ a b s t, code a ++ s = code b ++ t → a = b ∧ s = t

theorem PrefixCode.flatMap_injective {code : α → List β} (h : PrefixCode code)
    {items items' : List α} (heq : items.flatMap code = items'.flatMap code) : items = items' := by
  induction items generalizing items' with
  | nil =>
    cases items' with
    | nil => rfl
    | cons b items' => simp [h.ne_nil b] at heq
  | cons a items ih =>
    cases items' with
    | nil => simp [h.ne_nil a] at heq
    | cons b items' =>
      rw [List.flatMap_cons, List.flatMap_cons] at heq
      obtain ⟨rfl, hrest⟩ := h.inj a b _ _ heq
      rw [ih hrest]

/-! ### Groups -/

section Groups

variable {e : α} {names : List α} {V W : α → List α} {before name : α} {rest : List α}

/-- The names with their values. -/
def groups (e : α) (names : List α) (V : α → List α) : List α :=
  names.flatMap fun name => name :: (V name ++ [e])

theorem groups_cons (name : α) (names : List α) :
    groups e (name :: names) V = name :: (V name ++ e :: groups e names V) := by
  simp [groups]

/-- Among the values of one of two consecutive names, the terminator and the second name,
    with `rest` behind them. -/
def Recut (e : α) (V : α → List α) (before name : α) (rest : List α) : Prop :=
  ∃ start, V before = start ++ e :: name :: rest ∨ V name = start ++ e :: name :: rest

/-- What follows a list in front of a terminator starts the same way. -/
theorem head?_of_append_eq {l l' s t : List α} (h : l ++ e :: s = l' ++ e :: t) :
    l.head?.getD e = l'.head?.getD e := by
  have hhead := congrArg List.head? h
  cases l <;> cases l' <;> simp_all

/-- The first group starts with its name. -/
theorem head_of_groups {l : List α} {x : α} (h : groups e names V = x :: l) : x ∈ names := by
  cases names with
  | nil => simp [groups] at h
  | cons name names =>
    rw [groups_cons] at h
    exact (List.cons.inj h).1 ▸ List.mem_cons_self

/-- A reader who is still in the group of `before` when the group of the next name starts finds
    its end among the values of a later name. -/
theorem exists_recut_of_late (before : α) (he : e ∉ names) (hnodup : names.Nodup) {behind : List α}
    (h : behind ++ e :: groups e names W = groups e names V) :
    ∃ previous name rest, [previous, name] <:+: before :: names ∧
      (∃ start, V name = start ++ e :: name :: rest) ∧
      rest.head?.getD e = (W name).head?.getD e := by
  induction names generalizing before behind with
  | nil => simp [groups] at h
  | cons name names ih =>
    obtain ⟨hname, hdistinct⟩ := List.nodup_cons.mp hnodup
    obtain ⟨hne, hterminator⟩ := not_or.mp (List.mem_cons.not.mp he)
    have hpair : [before, name] <:+: before :: name :: names := ⟨[], names, rfl⟩
    rw [groups_cons, groups_cons] at h
    cases behind with
    | nil => exact absurd (List.cons.inj h).1 hne
    | cons x behind =>
      obtain ⟨rfl, h⟩ := List.cons.inj h
      rcases List.append_eq_append_iff.mp h with ⟨late, hvalues, hrest⟩ | ⟨late, hbehind, hrest⟩
      · cases late with
        | nil => exact absurd (head_of_groups (List.cons.inj hrest).2.symm) hname
        | cons y late =>
          obtain ⟨rfl, hcut⟩ := List.cons.inj hrest
          cases late with
          | nil => exact absurd (List.cons.inj hcut).1.symm hne
          | cons z late =>
            -- the values of the name go on behind a terminator and the name again
            obtain ⟨rfl, hafter⟩ := List.cons.inj hcut
            exact ⟨before, _, late, hpair, ⟨behind, hvalues⟩, (head?_of_append_eq hafter).symm⟩
      · cases late with
        | nil => exact absurd (head_of_groups (List.cons.inj hrest).2) hname
        | cons y late =>
          -- the group of the name ends before the reader comes to the name
          obtain ⟨rfl, hcut⟩ := List.cons.inj hrest
          have hlate : (late ++ e :: x :: W x) ++ e :: groups e names W = groups e names V := by
            rw [hcut]
            simp
          obtain ⟨previous, name, rest, hinfix, hoccurs, hhead⟩ :=
            ih x hterminator hdistinct hlate
          exact ⟨previous, name, rest, hinfix.trans (List.suffix_cons _ _).isInfix, hoccurs, hhead⟩

/-- **Other values.** Values that are written as others are can be recut. -/
theorem exists_recut (he : e ∉ names) (hnodup : names.Nodup)
    (h : groups e names V = groups e names W) (hne : ∃ name ∈ names, V name ≠ W name) :
    ∃ before name rest, [before, name] <:+: names ∧ Recut e V before name rest ∧
      rest.head?.getD e = (W name).head?.getD e := by
  induction names with
  | nil => exact absurd hne (by simp)
  | cons first names ih =>
    obtain ⟨-, hnodup⟩ := List.nodup_cons.mp hnodup
    obtain ⟨-, he⟩ := not_or.mp (List.mem_cons.not.mp he)
    rw [groups_cons, groups_cons] at h
    obtain ⟨-, h⟩ := List.cons.inj h
    by_cases hfirst : V first = W first
    · rw [hfirst, List.append_cancel_left_eq] at h
      obtain ⟨other, hother, hne⟩ := hne
      have hrest : other ∈ names := by
        rcases List.mem_cons.mp hother with rfl | hmem
        · exact absurd hfirst hne
        · exact hmem
      obtain ⟨before, name, rest, hinfix, hrecut⟩ :=
        ih he hnodup (List.cons.inj h).2 ⟨other, hrest, hne⟩
      exact ⟨before, name, rest, hinfix.trans (List.suffix_cons first names).isInfix, hrecut⟩
    · rcases List.append_eq_append_iff.mp h with ⟨late, hvalues, hrest⟩ | ⟨late, hvalues, hrest⟩
      · cases late with
        | nil => exact absurd (by simpa using hvalues.symm) hfirst
        | cons y late =>
          -- `W` is still in the first group when `V` has left it
          obtain ⟨rfl, hlate⟩ := List.cons.inj hrest
          obtain ⟨before, name, rest, hinfix, ⟨start, hstart⟩, hhead⟩ :=
            exists_recut_of_late first he hnodup hlate.symm
          exact ⟨before, name, rest, hinfix, ⟨start, .inr hstart⟩, hhead⟩
      · cases late with
        | nil => exact absurd (by simpa using hvalues) hfirst
        | cons y late =>
          -- `V` goes on in the first group, with what `W` takes for the second one
          obtain ⟨rfl, hlate⟩ := List.cons.inj hrest
          cases names with
          | nil => simp [groups] at hlate
          | cons second names =>
            rw [groups_cons, groups_cons] at hlate
            cases late with
            | nil =>
              have hsecond : e ≠ second := fun heq => he (heq ▸ List.mem_cons_self)
              exact absurd (List.cons.inj hlate).1.symm hsecond
            | cons z late =>
              obtain ⟨rfl, hafter⟩ := List.cons.inj hlate
              exact ⟨first, _, late, ⟨[], names, rfl⟩, ⟨W first, .inl hvalues⟩,
                (head?_of_append_eq hafter).symm⟩

section

variable [DecidableEq α] {left right : List α}

/-- Other values for two names. -/
def withPair (V : α → List α) (before : α) (left : List α) (name : α) (right : List α) :
    α → List α :=
  Function.update (Function.update V before left) name right

theorem withPair_second : withPair V before left name right name = right := by
  simp [withPair]

theorem withPair_first (hne : before ≠ name) : withPair V before left name right before = left := by
  simp [withPair, hne]

theorem withPair_of_ne {other : α} (hbefore : other ≠ before) (hname : other ≠ name) :
    withPair V before left name right other = V other := by
  simp [withPair, hbefore, hname]

/-- When the names follow each other, their groups are all that changes. -/
theorem groups_withPair (hnodup : names.Nodup) (hpair : [before, name] <:+: names)
    (hsame : left ++ e :: name :: right = V before ++ e :: name :: V name) :
    groups e names (withPair V before left name right) = groups e names V := by
  obtain ⟨start, last, rfl⟩ := hpair
  -- the names outside of the pair keep their values
  have hothers : ∀ others : List α, List.Disjoint others [before, name] →
      groups e others (withPair V before left name right) = groups e others V := by
    intro others hdisjoint
    apply List.flatMap_congr
    intro other hmem
    have hbefore : other ≠ before := by
      rintro rfl
      exact hdisjoint hmem (by simp)
    have hname : other ≠ name := by
      rintro rfl
      exact hdisjoint hmem (by simp)
    rw [withPair_of_ne hbefore hname]
  obtain ⟨hpre, -, hlast⟩ := List.nodup_append'.mp hnodup
  obtain ⟨-, hdistinct, hstart⟩ := List.nodup_append'.mp hpre
  have hne : before ≠ name := by simpa using hdistinct
  have hmiddle : groups e [before, name] (withPair V before left name right) =
      groups e [before, name] V := by
    rw [groups_cons, groups_cons, groups_cons, groups_cons, withPair_first hne, withPair_second]
    have hsame' := congrArg (· ++ [e]) hsame
    simpa [groups] using hsame'
  have hlast' : List.Disjoint last [before, name] :=
    fun other hmem hother => hlast (List.mem_append_right _ hother) hmem
  have happend : ∀ W, groups e (start ++ [before, name] ++ last) W =
      groups e start W ++ groups e [before, name] W ++ groups e last W := by
    intro W
    simp [groups]
  rw [happend, happend, hothers start hstart, hmiddle, hothers last hlast']

/-- **Recutting.** What can be recut are the values of others too, in which only the two names
    differ, and the value that comes first is another one for the second name alone. -/
theorem Recut.exists_other (hnodup : names.Nodup) (hpair : [before, name] <:+: names)
    (hrecut : Recut e V before name rest) :
    ∃ left right, groups e names V = groups e names (withPair V before left name right) ∧
      right ≠ V name ∧ left.head?.getD e = (V before).head?.getD e ∧
      right.head?.getD e = rest.head?.getD e := by
  obtain ⟨start, hstart | hstart⟩ := hrecut
  · -- the rest of the values goes to the second name
    refine ⟨start, rest ++ e :: name :: V name, ?_, ?_, ?_, ?_⟩
    · rw [groups_withPair hnodup hpair]
      simp [hstart]
    · intro heq
      have hlength := congrArg List.length heq
      simp at hlength
      omega
    · rw [hstart]
      cases start <;> rfl
    · cases rest <;> rfl
  · -- the start of the values goes to the first name
    refine ⟨V before ++ e :: name :: start, rest, ?_, ?_, ?_, rfl⟩
    · rw [groups_withPair hnodup hpair]
      simp [hstart]
    · rw [hstart]
      intro heq
      have hlength := congrArg List.length heq
      simp at hlength
      omega
    · cases V before <;> rfl

end

end Groups

end UniqueDecoding
