/-
Splitting a whole number evenly.

Each of `n` shares is the quotient, and the remainder goes one unit each to the
first of them. So the shares add up to the whole, no two differ by more than
one, and none is larger than an earlier one.
-/
import Mathlib.Algebra.BigOperators.Group.List.Basic
import Mathlib.Data.Nat.Cast.Basic

set_option autoImplicit false

namespace EvenSplit

variable {total n i j c : ℕ}

/-- Share number `i` of `n`. -/
def share (total n i : ℕ) : ℕ := total / n + if i < total % n then 1 else 0

theorem share_antitone (h : i ≤ j) : share total n j ≤ share total n i := by
  unfold share
  split_ifs <;> omega

theorem share_le_share_add_one : share total n i ≤ share total n j + 1 := by
  unfold share
  split_ifs <;> omega

/-- No share is larger than what would do for all. -/
theorem share_le (h : total ≤ c * n) : share total n i ≤ c := by
  have hdiv := Nat.div_add_mod' total n
  unfold share
  split_ifs with hi
  · -- there is a remainder, so the quotient falls short of `c`
    have hlt : total / n < c := Nat.lt_of_mul_lt_mul_right (a := n) (by omega)
    omega
  · exact Nat.div_le_of_le_mul (by rwa [Nat.mul_comm])

private theorem sum_units (k n : ℕ) :
    ((List.range n).map fun i => if i < k then 1 else 0).sum = min n k := by
  induction n with
  | zero => simp
  | succ n ih =>
    rw [List.range_succ, List.map_append, List.sum_append, ih, List.map_singleton,
      List.sum_singleton]
    split_ifs <;> omega

/-- **The shares are the whole.** -/
theorem sum_share (hn : 0 < n) : ((List.range n).map (share total n)).sum = total := by
  have hmod := Nat.mod_lt total hn
  have hdiv := Nat.div_add_mod total n
  have hsum : ((List.range n).map (share total n)).sum =
      ((List.range n).map fun _ => total / n).sum +
        ((List.range n).map fun i => if i < total % n then 1 else 0).sum := List.sum_map_add ..
  rw [hsum, sum_units, List.map_const', List.sum_replicate, List.length_range, nsmul_eq_mul,
    Nat.cast_id, Nat.min_eq_right hmod.le, hdiv]

end EvenSplit
