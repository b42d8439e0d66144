/-
Scaling natural numbers by a fraction `n / d`, rounded down.

The product may be split at the whole multiples of the denominator, which keeps
the factors small. Rounding each part of a sum loses less than one for each part.
-/
import Mathlib.Algebra.BigOperators.Group.List.Basic
import Mathlib.Algebra.Order.Field.Basic
import Mathlib.Data.Rat.Cast.Order
import Mathlib.Tactic.Linarith
import Mathlib.Tactic.Ring

set_option autoImplicit false

namespace FloorDiv

variable {n d : ℕ}

/-- **Whole multiples first.** -/
theorem div_mul_add_mod_mul_div (k : ℕ) (hd : 0 < d) :
    k / d * n + k % d * n / d = k * n / d := by
  have hk : k * n = d * (k / d * n) + k % d * n := by
    calc k * n = (d * (k / d) + k % d) * n := by rw [Nat.div_add_mod]
      _ = d * (k / d * n) + k % d * n := by ring
  rw [hk, Nat.mul_add_div hd]

/-- The parts, each rounded down, make up at most the whole. -/
theorem sum_div_le (parts : List ℕ) :
    (parts.map fun k => k * n / d).sum ≤ parts.sum * n / d := by
  induction parts with
  | nil => simp
  | cons k parts ih =>
    rw [List.map_cons, List.sum_cons, List.sum_cons, Nat.add_mul]
    calc k * n / d + (parts.map fun k => k * n / d).sum
        ≤ k * n / d + parts.sum * n / d := Nat.add_le_add_left ih _
      _ ≤ (k * n + parts.sum * n) / d := Nat.div_add_div_le_add_div

/-- Rounding down loses less than one. -/
theorem lt_div_add_one (k : ℕ) (hd : 0 < d) : (k * n : ℚ) / d < (k * n / d : ℕ) + 1 := by
  have hdpos : (0 : ℚ) < d := by exact_mod_cast hd
  rw [div_lt_iff₀' hdpos]
  exact_mod_cast Nat.lt_mul_div_succ (k * n) hd

/-- **What the parts lose** is less than their number. -/
theorem lt_sum_div_add_length {parts : List ℕ} (hd : 0 < d) (hne : parts ≠ []) :
    (parts.sum * n : ℚ) / d < ((parts.map fun k => k * n / d).sum : ℕ) + parts.length := by
  induction parts with
  | nil => contradiction
  | cons k parts ih =>
    have hk := lt_div_add_one (n := n) k hd
    rw [List.map_cons, List.sum_cons, List.sum_cons, List.length_cons]
    simp only [Nat.cast_add, Nat.cast_one]
    rw [add_mul, add_div]
    cases parts with
    | nil => simpa using hk
    | cons k' parts =>
      have hrest := ih (List.cons_ne_nil _ _)
      linarith

/-! ## Rounding up -/

/-- **Adding all but one of the divisor rounds up.** -/
theorem add_sub_one_ediv_eq_iff {q p c : ℤ} (hp : 0 < p) :
    (q + p - 1) / p = c ↔ (c - 1) * p < q ∧ q ≤ c * p := by
  rw [Int.ediv_eq_iff_of_pos hp, sub_mul, one_mul]
  omega

end FloorDiv
