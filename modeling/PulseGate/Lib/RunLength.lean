import Mathlib.Tactic.TypeStar

namespace RunLength

/-!
# Runs of equal items

`runs` splits a list into its maximal runs of equal items.  A list of what has happened, the
latest first, ends in its first run; `latest` is the item of the first run that reaches the
threshold of its item, and `latest_cons` says how it changes with one more item.
-/

variable {α : Type*} [DecidableEq α]

/-- The maximal runs of equal items, each with its length. -/
def runs : List α → List (α × Nat)
  | [] => []
  | x :: xs =>
    match runs xs with
    | [] => [(x, 1)]
    | (y, n) :: rest => if x = y then (y, n + 1) :: rest else (x, 1) :: (y, n) :: rest

/-- How long the first run is, if it is of the item. -/
def current (x : α) (xs : List α) : Nat :=
  match runs xs with
  | [] => 0
  | (y, n) :: _ => if x = y then n else 0

/-- The item of the first run that is as long as the threshold of its item. -/
def latest (threshold : α → Nat) (xs : List α) : Option α :=
  ((runs xs).find? fun r => threshold r.1 ≤ r.2).map (·.1)

/-! ### One more item -/

variable {threshold : α → Nat} {x y : α} {xs : List α}

theorem current_cons_self (x : α) (xs : List α) : current x (x :: xs) = current x xs + 1 := by
  unfold current
  cases hruns : runs xs with
  | nil => simp [runs, hruns]
  | cons first rest => by_cases heq : x = first.1 <;> simp [runs, hruns, heq]

theorem current_cons_of_ne (hne : y ≠ x) (xs : List α) : current y (x :: xs) = 0 := by
  unfold current
  cases hruns : runs xs with
  | nil => simp [runs, hruns, hne]
  | cons first rest =>
    by_cases heq : x = first.1
    · simp [runs, hruns, heq, heq ▸ hne]
    · simp [runs, hruns, heq, hne]

/-- The first run decides when it is long enough. -/
theorem latest_of_le (hle : threshold x ≤ current x xs) (hpos : 0 < current x xs) :
    latest threshold xs = some x := by
  unfold current at hle hpos
  unfold latest
  cases hruns : runs xs with
  | nil => simp [hruns] at hpos
  | cons first rest =>
    simp only [hruns] at hle hpos
    by_cases heq : x = first.1
    · rw [if_pos heq, heq] at hle
      rw [List.find?_cons_of_pos (by simpa using hle), Option.map_some, heq]
    · rw [if_neg heq] at hpos
      exact absurd hpos (Nat.lt_irrefl 0)

/-- **One more item.** Its run decides if it is long enough now, and nothing changes otherwise. -/
theorem latest_cons (threshold : α → Nat) (x : α) (xs : List α) :
    latest threshold (x :: xs) =
      if threshold x ≤ current x xs + 1 then some x else latest threshold xs := by
  by_cases hlong : threshold x ≤ current x xs + 1
  · rw [if_pos hlong]
    apply latest_of_le <;> rw [current_cons_self]
    · exact hlong
    · exact Nat.succ_pos _
  · rw [if_neg hlong]
    unfold current at hlong
    unfold latest
    cases hruns : runs xs with
    | nil => simpa [runs, hruns] using hlong
    | cons first rest =>
      simp only [hruns] at hlong
      by_cases heq : x = first.1
      · -- the run was too short before
        rw [if_pos heq, heq] at hlong
        have hshort : ¬ threshold first.1 ≤ first.2 := fun hle => hlong (Nat.le_succ_of_le hle)
        simp [runs, hruns, heq, hlong, hshort]
      · rw [if_neg heq] at hlong
        simp only [runs, hruns, if_neg heq]
        rw [List.find?_cons_of_neg (by simpa using hlong)]

end RunLength
