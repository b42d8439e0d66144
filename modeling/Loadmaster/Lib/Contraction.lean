/-
Contractions with a disturbance.

A quantity that each step shrinks by the factor `1 - a` and disturbs by `a * b`,
with `|b| ≤ B`, forgets where it started and ends up within `B`: the disturbances
do not add up, because every one of them is shrunk by the steps after it.
`abs_le` says it with the exact weights of the two parts, over any ordered field.
-/
import Mathlib.Algebra.Order.Archimedean.Basic
import Mathlib.Algebra.Order.Field.Basic
import Mathlib.Data.Nat.Count
import Mathlib.Tactic.Linarith
import Mathlib.Tactic.Ring

set_option autoImplicit false

namespace Contraction

variable {α : Type*} [Field α] [LinearOrder α] [IsStrictOrderedRing α]
  {a B : α} {x b : ℕ → α} {n : ℕ}

/-- One step: the two weights still add up to 1. -/
theorem abs_step_le {y z w : α} (ha : 0 ≤ a) (ha1 : a ≤ 1) (hz : z = (1 - a) * y + a * w)
    (hw : |w| ≤ B) : |z| ≤ (1 - a) * |y| + a * B := by
  have hshrink : |(1 - a) * y| = (1 - a) * |y| := by
    rw [abs_mul, abs_of_nonneg (sub_nonneg.mpr ha1)]
  have hdisturb : |a * w| ≤ a * B := by
    rw [abs_mul, abs_of_nonneg ha]
    exact mul_le_mul_of_nonneg_left hw ha
  rw [hz]
  calc |(1 - a) * y + a * w| ≤ |(1 - a) * y| + |a * w| := abs_add_le _ _
    _ ≤ (1 - a) * |y| + a * B := by
      rw [hshrink]
      exact add_le_add_right hdisturb _

/-- **What is left after `k` steps**: of the start the factor `(1 - a) ^ k`, and
of the disturbances at most the rest of the weight. -/
theorem abs_le (ha : 0 ≤ a) (ha1 : a ≤ 1)
    (hstep : ∀ k < n, x (k + 1) = (1 - a) * x k + a * b k) (hb : ∀ k < n, |b k| ≤ B) :
    |x n| ≤ (1 - a) ^ n * |x 0| + (1 - (1 - a) ^ n) * B := by
  induction n with
  | zero => simp
  | succ n ih =>
    have hprev := ih (fun k hk => hstep k (by omega)) (fun k hk => hb k (by omega))
    have hnow := abs_step_le ha ha1 (hstep n (by omega)) (hb n (by omega))
    have hkeep := mul_le_mul_of_nonneg_left hprev (sub_nonneg.mpr ha1)
    calc |x (n + 1)| ≤ (1 - a) * |x n| + a * B := hnow
      _ ≤ (1 - a) * ((1 - a) ^ n * |x 0| + (1 - (1 - a) ^ n) * B) + a * B := by linarith
      _ = (1 - a) ^ (n + 1) * |x 0| + (1 - (1 - a) ^ (n + 1)) * B := by ring

/-- The same where only some of the steps are taken, and the others change
nothing: what counts is how many were taken. -/
theorem abs_le_count {S : ℕ → Prop} [DecidablePred S] (ha : 0 ≤ a) (ha1 : a ≤ 1) (n : ℕ)
    (hstep : ∀ k, S k → ∃ w, |w| ≤ B ∧ x (k + 1) = (1 - a) * x k + a * w)
    (hskip : ∀ k, ¬ S k → x (k + 1) = x k) :
    |x n| ≤ (1 - a) ^ Nat.count S n * |x 0| + (1 - (1 - a) ^ Nat.count S n) * B := by
  induction n with
  | zero => simp
  | succ n ih =>
    rw [Nat.count_succ]
    by_cases hn : S n
    · obtain ⟨w, hw, heq⟩ := hstep n hn
      have hnow := abs_step_le ha ha1 heq hw
      have hkeep := mul_le_mul_of_nonneg_left ih (sub_nonneg.mpr ha1)
      rw [if_pos hn]
      set c := Nat.count S n
      calc |x (n + 1)| ≤ (1 - a) * |x n| + a * B := hnow
        _ ≤ (1 - a) * ((1 - a) ^ c * |x 0| + (1 - (1 - a) ^ c) * B) + a * B := by linarith
        _ = (1 - a) ^ (c + 1) * |x 0| + (1 - (1 - a) ^ (c + 1)) * B := by ring
    · rw [if_neg hn, hskip n hn, add_zero]
      exact ih

/-- The part of the start gets as small as one likes, and stays so. -/
theorem exists_pow_mul_lt [Archimedean α] {r c ε : α} (hr0 : 0 ≤ r) (hr1 : r < 1) (hc : 0 ≤ c)
    (hε : 0 < ε) : ∃ K, ∀ k ≥ K, r ^ k * c < ε := by
  obtain ⟨K, hK⟩ := exists_pow_lt_of_lt_one (show 0 < ε / (c + 1) by positivity) hr1
  refine ⟨K, ?_⟩
  intro k hk
  have hpow : r ^ k ≤ r ^ K := pow_le_pow_of_le_one hr0 hr1.le hk
  have hlt : r ^ k * (c + 1) < ε := by
    rw [← lt_div_iff₀ (by positivity)]
    exact hpow.trans_lt hK
  have hle : r ^ k * c ≤ r ^ k * (c + 1) :=
    mul_le_mul_of_nonneg_left (by linarith) (pow_nonneg hr0 k)
  exact hle.trans_lt hlt

end Contraction
