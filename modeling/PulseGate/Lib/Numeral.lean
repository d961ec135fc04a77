import Mathlib.Data.Nat.Digits.Defs
import Mathlib.Tactic.Ring

namespace Numeral

/-!
# Numerals

Natural numbers written in a base, the most significant digit first, in any alphabet.

* `write` — the numeral of a number, without leading zeros;
* `read` — the value of a numeral, `none` if it is empty or has a character that is no digit.

`read_write` says that they agree, for an alphabet in which `value` reads what `digit`
writes, `write_length_le_iff` bounds the length of a numeral, and `read_lt` its value.
-/

variable {α : Type*} {base : Nat} {digit : Nat → α} {value : α → Option Nat}

/-- The numeral of `n`. -/
def write (base : Nat) (digit : Nat → α) (n : Nat) : List α :=
  if n = 0 then [digit 0] else (Nat.digits base n).reverse.map digit

/-- The value of the numeral `s` when `n` was read before it. -/
def readFrom (base : Nat) (value : α → Option Nat) : Nat → List α → Option Nat
  | n, [] => some n
  | n, c :: s => (value c).bind fun d => readFrom base value (base * n + d) s

/-- The value of the numeral `s`. -/
def read (base : Nat) (value : α → Option Nat) : List α → Option Nat
  | [] => none
  | c :: s => readFrom base value 0 (c :: s)

theorem readFrom_append (n : Nat) (s t : List α) :
    readFrom base value n (s ++ t) =
      (readFrom base value n s).bind fun m => readFrom base value m t := by
  induction s generalizing n with
  | nil => rfl
  | cons c s ih =>
    cases hc : value c with
    | none => simp [readFrom, hc]
    | some d => simp [readFrom, hc, ih]

/-- Only digits are read. -/
theorem readFrom_mem {n m : Nat} {s : List α} (h : readFrom base value n s = some m) :
    ∀ c ∈ s, (value c).isSome = true := by
  induction s generalizing n with
  | nil => simp
  | cons c s ih =>
    obtain ⟨d, hd, hrest⟩ := Option.bind_eq_some_iff.mp h
    simpa [hd] using ih hrest

theorem read_mem {m : Nat} {s : List α} (h : read base value s = some m) :
    ∀ c ∈ s, (value c).isSome = true := by
  cases s with
  | nil => simp [read] at h
  | cons c s => exact readFrom_mem h

theorem readFrom_lt (hvalue : ∀ c, ∀ d ∈ value c, d < base) {n m : Nat} {s : List α}
    (h : readFrom base value n s = some m) : m < (n + 1) * base ^ s.length := by
  induction s generalizing n with
  | nil =>
    obtain rfl : n = m := Option.some.inj h
    simp
  | cons c s ih =>
    obtain ⟨d, hd, hrest⟩ := Option.bind_eq_some_iff.mp h
    have hlt := hvalue c d hd
    -- after `c` the value read is `base * n + d`, with `d < base`
    calc m < (base * n + d + 1) * base ^ s.length := ih hrest
      _ ≤ (base * n + base) * base ^ s.length := Nat.mul_le_mul_right _ (by omega)
      _ = (n + 1) * base ^ (c :: s).length := by rw [List.length_cons]; ring

/-- A numeral of `k` digits is read as a number below `base ^ k`. -/
theorem read_lt (hvalue : ∀ c, ∀ d ∈ value c, d < base) {m : Nat} {s : List α}
    (h : read base value s = some m) : m < base ^ s.length := by
  cases s with
  | nil => simp [read] at h
  | cons c s => simpa using readFrom_lt hvalue h

theorem write_ne_nil (n : Nat) : write base digit n ≠ [] := by
  unfold write
  split
  · simp
  · next hn => simpa [Nat.digits_eq_nil_iff_eq_zero] using hn

theorem mem_write (hbase : 1 < base) {n : Nat} {c : α} (hc : c ∈ write base digit n) :
    ∃ d < base, c = digit d := by
  unfold write at hc
  split at hc
  · exact ⟨0, by omega, List.mem_singleton.mp hc⟩
  · obtain ⟨d, hd, rfl⟩ := List.mem_map.mp hc
    exact ⟨d, Nat.digits_lt_base hbase (List.mem_reverse.mp hd), rfl⟩

theorem write_of_lt {n : Nat} (hn : n < base) : write base digit n = [digit n] := by
  by_cases hzero : n = 0
  · simp [write, hzero]
  · simp [write, hzero, Nat.digits_of_lt base n hzero hn]

/-- A number with more than one digit is written digit after digit. -/
theorem write_of_le (hbase : 1 < base) {n : Nat} (hn : base ≤ n) :
    write base digit n = write base digit (n / base) ++ [digit (n % base)] := by
  have hdiv : n / base ≠ 0 := by
    have := Nat.div_pos hn (by omega)
    omega
  have hzero : n ≠ 0 := by omega
  simp [write, hzero, hdiv, Nat.digits_def' hbase (by omega : 0 < n)]

/-- The numeral of a number other than zero does not start with a zero. -/
theorem head_write (hbase : 1 < base) {n : Nat} (hn : n ≠ 0) :
    ∃ d, d ≠ 0 ∧ d < base ∧ (write base digit n).head? = some (digit d) := by
  induction n using Nat.strong_induction_on with
  | _ n ih =>
    rcases Nat.lt_or_ge n base with hlt | hge
    · exact ⟨n, hn, hlt, by rw [write_of_lt hlt]; rfl⟩
    · -- the digits before the last are those of `n / base`
      have hdiv : n / base ≠ 0 := by
        have := Nat.div_pos hge (by omega)
        omega
      obtain ⟨d, hd, hlt, hhead⟩ := ih (n / base) (Nat.div_lt_self (by omega) hbase) hdiv
      refine ⟨d, hd, hlt, ?_⟩
      rw [write_of_le hbase hge, List.head?_append, hhead]
      rfl

theorem readFrom_write (hbase : 1 < base) (hdigit : ∀ d < base, value (digit d) = some d)
    (n : Nat) : readFrom base value 0 (write base digit n) = some n := by
  induction n using Nat.strong_induction_on with
  | _ n ih =>
    -- one digit is read at once; else the digits before the last are the numeral of `n / base`
    rcases Nat.lt_or_ge n base with hn | hn
    · simp [write_of_lt hn, readFrom, hdigit n hn]
    · have hdiv := ih (n / base) (Nat.div_lt_self (by omega) hbase)
      have hmod := hdigit (n % base) (Nat.mod_lt n (by omega))
      rw [write_of_le hbase hn, readFrom_append, hdiv]
      simp [readFrom, hmod, Nat.div_add_mod]

/-- **Round trip.** -/
theorem read_write (hbase : 1 < base) (hdigit : ∀ d < base, value (digit d) = some d) (n : Nat) :
    read base value (write base digit n) = some n := by
  obtain ⟨c, s, hs⟩ := List.exists_cons_of_ne_nil (write_ne_nil n)
  rw [hs, read, ← hs]
  exact readFrom_write hbase hdigit n

/-- A number below `base ^ k` is written with at most `k` digits, and only such a number. -/
theorem write_length_le_iff (hbase : 1 < base) {n k : Nat} (hk : k ≠ 0) :
    (write base digit n).length ≤ k ↔ n < base ^ k := by
  induction k generalizing n with
  | zero => exact absurd rfl hk
  | succ k ih =>
    rcases Nat.lt_or_ge n base with hn | hn
    · have hle : base ≤ base ^ (k + 1) := Nat.le_self_pow (by omega) base
      simp only [write_of_lt hn, List.length_singleton]
      omega
    · rw [write_of_le hbase hn, List.length_append, List.length_singleton, Nat.add_le_add_iff_right,
        Nat.pow_succ, ← Nat.div_lt_iff_lt_mul (by omega)]
      -- `k = 0`: there are at least two digits, and both sides are false
      rcases Nat.eq_zero_or_pos k with rfl | hpos
      · have hdiv : 0 < n / base := Nat.div_pos hn (by omega)
        have hlen : 0 < (write base digit (n / base)).length :=
          List.length_pos_iff.mpr (write_ne_nil _)
        simp only [Nat.pow_zero]
        omega
      · exact ih (by omega)

end Numeral
