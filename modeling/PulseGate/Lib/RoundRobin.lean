import Mathlib.Data.Int.CardIntervalMod

namespace RoundRobin

/-!
# Taking turns

Whoever goes around a list of `n` with one index takes the turns `0 % n`, `1 % n`, and so on,
however the turns are divided into rounds.

* `count_turns` — how often it was the turn of `i` among the first `k` turns;
* `count_turns_le` — never two times more often than that of another one.
-/

/-- The first `k` turns among `n`. -/
def turns (n k : Nat) : List Nat := (List.range k).map (· % n)

variable {n k i j : Nat}

theorem turns_succ (n k : Nat) : turns n (k + 1) = turns n k ++ [k % n] := by
  rw [turns, List.range_succ, List.map_append]
  rfl

/-- The turns of `i` are the numbers that are `i` modulo `n`. -/
theorem count_turns_eq (hi : i < n) (k : Nat) :
    (turns n k).count i = Nat.count (· ≡ i [MOD n]) k := by
  induction k with
  | zero => rfl
  | succ k ih =>
    have hturn : k ≡ i [MOD n] ↔ k % n = i := by
      rw [Nat.ModEq, Nat.mod_eq_of_lt hi]
    rw [turns_succ, List.count_append, ih, Nat.count_succ, List.count_singleton]
    simp only [hturn, beq_iff_eq]

theorem count_turns (hi : i < n) (k : Nat) :
    (turns n k).count i = k / n + if i < k % n then 1 else 0 := by
  rw [count_turns_eq hi, Nat.count_modEq_card k (Nat.zero_lt_of_lt hi), Nat.mod_eq_of_lt hi]

/-- **Everyone has had the same number of turns, or one more.** -/
theorem count_turns_le (hi : i < n) (hj : j < n) (k : Nat) :
    (turns n k).count i ≤ (turns n k).count j + 1 := by
  rw [count_turns hi, count_turns hj]
  have hone : (if i < k % n then 1 else 0) ≤ 1 := by split <;> omega
  omega

end RoundRobin
