import Mathlib.Algebra.BigOperators.Group.List.Basic
import Mathlib.Algebra.Order.Field.Basic
import Mathlib.Tactic.Linarith
import Mathlib.Tactic.Ring

namespace Allowance

/-!
# Allowances that fill up at a constant rate

Tokens are granted from an allowance of some `capacity`, which gains `rate` tokens for each
unit of time and never holds more than the capacity.

`Bounded` says that the grants so far and the tokens that are left keep the bound
`capacity + rate * length` in every window.  It says nothing about how the tokens are kept:
it survives every change of the allowance that adds no more tokens than the rate and the
capacity allow (`Bounded.refill`) and every grant of tokens that are there (`Bounded.take`).
-/

variable {K : Type*} [Field K] [LinearOrder K]

structure Grant (K : Type*) where
  time : K
  amount : K

/-- The tokens granted from `a` to `b`. -/
def granted (a b : K) (grants : List (Grant K)) : K :=
  ((grants.filter fun g => a ≤ g.time ∧ g.time ≤ b).map (·.amount)).sum

variable {rate capacity tokens time : K} {grants : List (Grant K)}

@[simp] theorem granted_nil (a b : K) : granted a b [] = 0 := rfl

theorem granted_cons (a b : K) (g : Grant K) (grants : List (Grant K)) :
    granted a b (g :: grants) =
      (if a ≤ g.time ∧ g.time ≤ b then g.amount else 0) + granted a b grants := by
  by_cases h : a ≤ g.time ∧ g.time ≤ b
  · simp [granted, h]
  · simp only [granted, if_neg h, zero_add]
    rw [List.filter_cons_of_neg (by simpa using h)]

/-- A window may end with the last grant. -/
theorem granted_of_le {a b : K} (hpast : ∀ g ∈ grants, g.time ≤ time) (h : time ≤ b) :
    granted a b grants = granted a time grants := by
  have hfilter : (grants.filter fun g => a ≤ g.time ∧ g.time ≤ b) =
      grants.filter fun g => a ≤ g.time ∧ g.time ≤ time := by
    apply List.filter_congr
    intro g hg
    have hg' := hpast g hg
    simp [hg', hg'.trans h]
  rw [granted, hfilter, granted]

/-- Nothing was granted after the last grant. -/
theorem granted_of_lt {a b : K} (hpast : ∀ g ∈ grants, g.time ≤ time) (h : time < a) :
    granted a b grants = 0 := by
  have hfilter : (grants.filter fun g => a ≤ g.time ∧ g.time ≤ b) = [] := by
    apply List.filter_eq_nil_iff.mpr
    intro g hg
    have hlt : g.time < a := (hpast g hg).trans_lt h
    simp [hlt]
  rw [granted, hfilter]
  rfl

/-- The grants and the tokens that are left at some time keep the bound in every window. -/
structure Bounded (rate capacity : K) (grants : List (Grant K)) (tokens time : K) : Prop where
  past : ∀ g ∈ grants, g.time ≤ time
  /-- What is left counts as if it were granted now. -/
  potential : ∀ a ≤ time, granted a time grants + tokens ≤ capacity + rate * (time - a)
  window : ∀ a b, a ≤ b → granted a b grants ≤ capacity + rate * (b - a)

variable [IsStrictOrderedRing K]

/-- A full allowance from which nothing was granted. -/
theorem bounded_new (hrate : 0 ≤ rate) (hcapacity : 0 ≤ capacity) (time : K) :
    Bounded rate capacity [] capacity time where
  past _ hg := absurd hg List.not_mem_nil
  potential a ha := by
    have hgain : 0 ≤ rate * (time - a) := mul_nonneg hrate (by linarith)
    rw [granted_nil]
    linarith
  window a b hab := by
    have hgain : 0 ≤ rate * (b - a) := mul_nonneg hrate (by linarith)
    rw [granted_nil]
    linarith

/-- Time passes, and tokens are gained up to the capacity. -/
theorem Bounded.refill (h : Bounded rate capacity grants tokens time) (hrate : 0 ≤ rate)
    {tokens' now : K} (hnow : time ≤ now) (hgained : tokens' ≤ tokens + rate * (now - time))
    (hcapacity : tokens' ≤ capacity) : Bounded rate capacity grants tokens' now where
  past g hg := (h.past g hg).trans hnow
  potential a ha := by
    by_cases hat : a ≤ time
    · have hold := h.potential a hat
      have hsplit : rate * (now - a) = rate * (now - time) + rate * (time - a) := by ring
      rw [granted_of_le h.past hnow, hsplit]
      linarith
    · have hgain : 0 ≤ rate * (now - a) := mul_nonneg hrate (by linarith)
      rw [granted_of_lt h.past (not_le.mp hat)]
      linarith
  window := h.window

/-- Tokens that are there are granted. -/
theorem Bounded.take (h : Bounded rate capacity grants tokens time) (hrate : 0 ≤ rate)
    {amount : K} (hamount : amount ≤ tokens) :
    Bounded rate capacity (⟨time, amount⟩ :: grants) (tokens - amount) time where
  past g hg := by
    rcases List.mem_cons.mp hg with rfl | hg
    · exact le_refl time
    · exact h.past g hg
  potential a ha := by
    have hold := h.potential a ha
    rw [granted_cons, if_pos ⟨ha, le_refl time⟩]
    linarith
  window a b hab := by
    have hold := h.window a b hab
    rw [granted_cons]
    by_cases hin : a ≤ time ∧ time ≤ b
    · -- up to now the window has had no more than the potential allows
      have hpotential := h.potential a hin.1
      have hgain : rate * (time - a) ≤ rate * (b - a) :=
        mul_le_mul_of_nonneg_left (by linarith [hin.2]) hrate
      rw [if_pos hin, granted_of_le h.past hin.2]
      linarith
    · rw [if_neg hin]
      linarith

end Allowance
