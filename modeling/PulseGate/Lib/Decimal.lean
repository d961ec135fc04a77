import PulseGate.Lib.Numeral
import Mathlib.Data.Int.Log
import Mathlib.Data.List.DropRight
import Mathlib.Data.Rat.Floor
import Mathlib.Algebra.Order.Field.Rat

namespace Decimal

/-!
# Numbers in decimal notation

How the conversion `%.Pg` writes a number: with `P` significant digits, of which the zeros at the
end are left out, and with an exponent where the number is large or small.

* `mem_general` — which characters are written.
-/

def digitChar (d : Nat) : UInt8 := UInt8.ofNat (48 + d)

/-- The nearest integer; of two that are as near, the even one. -/
def roundHalfEven (q : ℚ) : Int :=
  let rest := q - ⌊q⌋
  if rest < 1 / 2 then ⌊q⌋
  else if 1 / 2 < rest then ⌊q⌋ + 1
  else if ⌊q⌋ % 2 = 0 then ⌊q⌋
  else ⌊q⌋ + 1

/-- The significant digits of a positive number as one integer, and the exponent of the first. -/
def significand (precision : Nat) (q : ℚ) : Nat × Int :=
  let exponent := Int.log 10 q
  let digits := (roundHalfEven (q / 10 ^ (exponent - (precision - 1)))).toNat
  -- rounding up may bring a digit more
  if digits = 10 ^ precision then (10 ^ (precision - 1), exponent + 1) else (digits, exponent)

/-- The digits behind the point, and the point where there are any. -/
def fraction (digits : List UInt8) : List UInt8 :=
  match digits.rdropWhile (· = 48) with
  | [] => []
  | digits => 46 :: digits

/-- The exponent, with two digits at least. -/
def exponentText (exponent : Int) : List UInt8 :=
  let digits := Numeral.write 10 digitChar exponent.natAbs
  101 :: (if exponent < 0 then 45 else 43) :: if digits.length < 2 then 48 :: digits else digits

/-- A number with these digits, the first of which has this exponent. -/
def layout (precision : Nat) (digits : List UInt8) (exponent : Int) : List UInt8 :=
  if exponent < -4 ∨ precision ≤ exponent then
    digits.take 1 ++ fraction (digits.drop 1) ++ exponentText exponent
  else if exponent < 0 then
    48 :: fraction (List.replicate (-exponent - 1).toNat 48 ++ digits)
  else digits.take (exponent + 1).toNat ++ fraction (digits.drop (exponent + 1).toNat)

/-- A positive number. -/
def magnitude (precision : Nat) (q : ℚ) : List UInt8 :=
  let (number, exponent) := significand precision q
  layout precision (Numeral.write 10 digitChar number) exponent

/-- The conversion `%.Pg`, for a positive precision. -/
def general (precision : Nat) (q : ℚ) : List UInt8 :=
  if q = 0 then [48] else if q < 0 then 45 :: magnitude precision (-q) else magnitude precision q

/-- The characters of decimal notation. -/
def IsDecimal (c : UInt8) : Prop := (48 ≤ c ∧ c ≤ 57) ∨ c = 43 ∨ c = 45 ∨ c = 46 ∨ c = 101

instance decidableIsDecimal : DecidablePred IsDecimal := fun _ =>
  inferInstanceAs (Decidable (_ ∨ _))

theorem isDecimal_of_mem_write {n : Nat} {c : UInt8} (hc : c ∈ Numeral.write 10 digitChar n) :
    IsDecimal c := by
  obtain ⟨d, hd, rfl⟩ := Numeral.mem_write (by omega) hc
  have hall : ∀ d < 10, 48 ≤ digitChar d ∧ digitChar d ≤ 57 := by decide
  exact .inl (hall d hd)

theorem isDecimal_of_mem_fraction {digits : List UInt8} (h : ∀ c ∈ digits, IsDecimal c)
    {c : UInt8} (hc : c ∈ fraction digits) : IsDecimal c := by
  unfold fraction at hc
  have hkept : digits.rdropWhile (· = 48) ⊆ digits := (List.rdropWhile_prefix _ _).subset
  cases hrest : digits.rdropWhile (· = 48) with
  | nil => rw [hrest] at hc; cases hc
  | cons d rest =>
    rw [hrest] at hc hkept
    rcases List.mem_cons.mp hc with rfl | hc
    · exact .inr (.inr (.inr (.inl rfl)))
    · exact h c (hkept hc)

theorem isDecimal_of_mem_exponentText {exponent : Int} {c : UInt8}
    (hc : c ∈ exponentText exponent) : IsDecimal c := by
  unfold exponentText at hc
  rcases List.mem_cons.mp hc with rfl | hc
  · exact .inr (.inr (.inr (.inr rfl)))
  rcases List.mem_cons.mp hc with rfl | hc
  · split
    · exact .inr (.inr (.inl rfl))
    · exact .inr (.inl rfl)
  split at hc
  · rcases List.mem_cons.mp hc with rfl | hc
    · exact .inl (by decide)
    · exact isDecimal_of_mem_write hc
  · exact isDecimal_of_mem_write hc

theorem isDecimal_of_mem_layout {precision : Nat} {digits : List UInt8} {exponent : Int}
    (hdigits : ∀ c ∈ digits, IsDecimal c) {c : UInt8} (hc : c ∈ layout precision digits exponent) :
    IsDecimal c := by
  have hzero : IsDecimal 48 := .inl (by decide)
  unfold layout at hc
  split at hc
  · rcases List.mem_append.mp hc with hc | hc
    · rcases List.mem_append.mp hc with hc | hc
      · exact hdigits c (List.mem_of_mem_take hc)
      · exact isDecimal_of_mem_fraction (fun c hc => hdigits c (List.mem_of_mem_drop hc)) hc
    · exact isDecimal_of_mem_exponentText hc
  · split at hc
    · rcases List.mem_cons.mp hc with rfl | hc
      · exact hzero
      · refine isDecimal_of_mem_fraction (fun c hc => ?_) hc
        rcases List.mem_append.mp hc with hc | hc
        · exact List.eq_of_mem_replicate hc ▸ hzero
        · exact hdigits c hc
    · rcases List.mem_append.mp hc with hc | hc
      · exact hdigits c (List.mem_of_mem_take hc)
      · exact isDecimal_of_mem_fraction (fun c hc => hdigits c (List.mem_of_mem_drop hc)) hc

/-- **Only characters of decimal notation are written.** -/
theorem mem_general {precision : Nat} {q : ℚ} {c : UInt8} (hc : c ∈ general precision q) :
    IsDecimal c := by
  have hmagnitude : ∀ q, c ∈ magnitude precision q → IsDecimal c := fun _ hc =>
    isDecimal_of_mem_layout (fun _ => isDecimal_of_mem_write) hc
  unfold general at hc
  split at hc
  · exact .inl (by rw [List.mem_singleton.mp hc]; decide)
  · split at hc
    · rcases List.mem_cons.mp hc with rfl | hc
      · exact .inr (.inr (.inl rfl))
      · exact hmagnitude _ hc
    · exact hmagnitude _ hc

theorem layout_ne_nil {precision : Nat} {digits : List UInt8} (hdigits : digits ≠ [])
    (exponent : Int) : layout precision digits exponent ≠ [] := by
  have htake : ∀ n ≠ 0, digits.take n ≠ [] := fun n hn hnil =>
    (List.take_eq_nil_iff.mp hnil).elim hn hdigits
  unfold layout
  split
  · exact List.append_ne_nil_of_left_ne_nil
      (List.append_ne_nil_of_left_ne_nil (htake 1 (by omega)) _) _
  · split
    · exact List.cons_ne_nil _ _
    · exact List.append_ne_nil_of_left_ne_nil (htake _ (by omega)) _

/-- Something is written. -/
theorem general_ne_nil (precision : Nat) (q : ℚ) : general precision q ≠ [] := by
  have hmagnitude : ∀ q, magnitude precision q ≠ [] := fun _ =>
    layout_ne_nil (Numeral.write_ne_nil _) _
  unfold general
  split
  · exact List.cons_ne_nil _ _
  · split
    · exact List.cons_ne_nil _ _
    · exact hmagnitude q

example : general 12 (4 / 1000000) = [52, 101, 45, 48, 54] := by decide +kernel

end Decimal
