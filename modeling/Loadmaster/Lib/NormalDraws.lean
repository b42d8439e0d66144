/-
Independent standard normal draws.

A weighted sum of them is normal, and its variance is the sum of the squared
weights.
-/
import Mathlib.Probability.Distributions.Gaussian.Real
import Mathlib.Probability.Independence.InfinitePi

set_option autoImplicit false

open MeasureTheory ProbabilityTheory
open scoped NNReal

namespace NormalDraws

variable {Ω : Type*} [MeasurableSpace Ω] {P : Measure Ω} {draws : ℕ → Ω → ℝ}

/-- Draw after draw is standard normal, and independent of the others. -/
structure IsStandard (draws : ℕ → Ω → ℝ) (P : Measure Ω) : Prop where
  independent : iIndepFun draws P
  hasLaw : ∀ i, HasLaw (draws i) (gaussianReal 0 1) P

theorem IsStandard.isProbabilityMeasure (h : IsStandard draws P) : IsProbabilityMeasure P :=
  (h.hasLaw 0).isProbabilityMeasure

/-- Draws from some point on. -/
theorem IsStandard.shift (h : IsStandard draws P) (k : ℕ) :
    IsStandard (fun i => draws (k + i)) P where
  independent := h.independent.precomp (add_right_injective k)
  hasLaw i := h.hasLaw (k + i)

/-- A draw with a factor. -/
theorem hasLaw_mul (h : IsStandard draws P) (w : ℝ) (i : ℕ) :
    HasLaw (fun ω => w * draws i ω) (gaussianReal 0 (w ^ 2).toNNReal) P := by
  have hlaw := gaussianReal_const_mul (h.hasLaw i) w
  rwa [mul_zero, mul_one, ← Real.toNNReal_of_nonneg (sq_nonneg w)] at hlaw

/-- What the first draws come to is independent of the next. -/
theorem indepFun_sum (h : IsStandard draws P) (w : ℕ → ℝ) (n : ℕ) :
    IndepFun (fun ω => ∑ i ∈ Finset.range n, w i * draws i ω) (fun ω => w n * draws n ω) P := by
  have hscaled : iIndepFun (fun i ω => w i * draws i ω) P :=
    h.independent.comp (fun i x => w i * x) fun i => measurable_const_mul (w i)
  have hnext : n ∉ Finset.range n := Finset.notMem_range_self
  have hsum := hscaled.indepFun_finsetSum_of_notMem₀
    (fun i => (hasLaw_mul h (w i) i).aemeasurable) hnext
  have heq : (fun ω => ∑ i ∈ Finset.range n, w i * draws i ω)
      = ∑ i ∈ Finset.range n, fun ω => w i * draws i ω := by
    funext ω
    rw [Finset.sum_apply]
  rwa [heq]

/-- The first draw is independent of what the draws after it come to. -/
theorem indepFun_first (h : IsStandard draws P) (w : ℕ → ℝ) (n : ℕ) :
    IndepFun (draws 0) (fun ω => ∑ i ∈ Finset.range n, w i * draws (1 + i) ω) P := by
  -- the draws with their factors, the first as it is
  have hscaled : iIndepFun (fun i ω => (if i = 0 then 1 else w (i - 1)) * draws i ω) P :=
    h.independent.comp (fun i x => (if i = 0 then 1 else w (i - 1)) * x)
      fun i => measurable_const_mul _
  have hfirst : 0 ∉ Finset.Ico 1 (n + 1) := by simp
  have hsum := hscaled.indepFun_finsetSum_of_notMem₀
    (fun i => (hasLaw_mul h _ i).aemeasurable) hfirst
  have hlater : (fun ω => ∑ i ∈ Finset.range n, w i * draws (1 + i) ω)
      = ∑ i ∈ Finset.Ico 1 (n + 1), fun ω => (if i = 0 then 1 else w (i - 1)) * draws i ω := by
    funext ω
    rw [Finset.sum_apply, Finset.sum_Ico_eq_sum_range, Nat.add_sub_cancel]
    refine Finset.sum_congr rfl fun i _ => ?_
    rw [if_neg (by omega), Nat.add_sub_cancel_left]
  rw [hlater]
  simpa only [if_true, one_mul] using hsum.symm

/-- **A weighted sum of draws is normal.** -/
theorem hasLaw_sum (h : IsStandard draws P) (w : ℕ → ℝ) (n : ℕ) :
    HasLaw (fun ω => ∑ i ∈ Finset.range n, w i * draws i ω)
      (gaussianReal 0 (∑ i ∈ Finset.range n, w i ^ 2).toNNReal) P := by
  have hprob := h.isProbabilityMeasure
  induction n with
  | zero =>
    -- the normal distribution without variance is that of a constant
    simp only [Finset.range_zero, Finset.sum_empty, Real.toNNReal_zero, gaussianReal_zero_var]
    exact hasLaw_dirac_of_ae_eq (.refl _ _)
  | succ n ih =>
    -- variances of independent summands add up
    have hadd := (indepFun_sum h w n).hasLaw_fun_add ih (hasLaw_mul h (w n) n)
    rw [gaussianReal_conv_gaussianReal, add_zero, ← Real.toNNReal_add
      (Finset.sum_nonneg fun i _ => sq_nonneg (w i)) (sq_nonneg (w n))] at hadd
    simpa only [Finset.sum_range_succ] using hadd

/-- There are such draws. -/
theorem isStandard_coordinates :
    IsStandard (fun i (ω : ℕ → ℝ) => ω i) (Measure.infinitePi fun _ : ℕ => gaussianReal 0 1) where
  independent := iIndepFun_infinitePi (X := fun _ x => x) fun _ => measurable_id
  hasLaw i := (measurePreserving_eval_infinitePi (fun _ : ℕ => gaussianReal 0 1) i).hasLaw

end NormalDraws
