/-
The positions that a normal distribution is asked for (`util/normal_dist.cc`).

`FindXAxisPosition` is used with two predicates, and above the mean each of them
has a threshold: the mass around the mean grows with the position, and the density
falls. So the search finds the position of a mass, and that of a density, up to
its width. Over the reals every mass that the range holds has such a position, and
with a standard deviation of up to 1000 that is every mass up to 95%, since the
tail of the bell is below that of the exponential.
-/
import Loadmaster.Util.AxisSearch
import Mathlib.Analysis.SpecialFunctions.Gaussian.GaussianIntegral
import Mathlib.Analysis.SpecialFunctions.ImproperIntegrals
import Mathlib.MeasureTheory.Integral.DominatedConvergence
import Mathlib.Topology.Order.IntermediateValue

set_option autoImplicit false

namespace Loadmaster.Util

open Bisection

attribute [local instance] two_atLeastTwo ten_atLeastTwo

variable {α : Type*}

/-! ## The two predicates -/

section Predicates

variable [Field α] [LinearOrder α] [IsStrictOrderedRing α] {mean stddev t : α}

/-- The mass between `x` and its mirror image, which `FindXAxisPositionCDF` looks at. -/
def centralMass (erf : α → α) (sqrt2 mean stddev x : α) : α :=
  cdf erf sqrt2 mean stddev x - cdf erf sqrt2 mean stddev (x - 2 * (x - mean))

/-- The mass around the mean grows with the distance from it. -/
theorem strictMono_centralMass {erf : α → α} {sqrt2 : α} (herf : StrictMono erf)
    (hsqrt2 : 0 < sqrt2) (hstddev : 0 < stddev) :
    StrictMono (centralMass erf sqrt2 mean stddev) := by
  have hcdf : StrictMono (cdf erf sqrt2 mean stddev) := strictMono_cdf herf hsqrt2 hstddev
  intro x y hxy
  have hright := hcdf hxy
  have hleft := hcdf (show y - 2 * (y - mean) < x - 2 * (x - mean) by linarith)
  unfold centralMass
  linarith

/-- **The position of a mass**: the one that this mass lies around, up to the width. -/
theorem abs_findXAxisPositionCDF_sub_lt {erf : α → α} {sqrt2 : α} (herf : StrictMono erf)
    (hsqrt2 : 0 < sqrt2) (hstddev : 0 < stddev) (ht : t ∈ Set.Icc mean (mean + kMaxRange)) :
    |(normalDistribution erf sqrt2 mean stddev).findXAxisPositionCDF
      (centralMass erf sqrt2 mean stddev t) - t| < kLeftRightEpsilon := by
  have hmass : StrictMono (centralMass erf sqrt2 mean stddev) :=
    strictMono_centralMass herf hsqrt2 hstddev
  exact abs_findXAxisPosition_sub_lt
    (Enclosure.ofIff ht fun x _ => decide_eq_true_iff.trans hmass.lt_iff_lt) rfl

theorem strictAntiOn_pdf {exp : α → α} {sqrt_2_pi : α} (hexp : StrictMono exp)
    (hsqrt : 0 < sqrt_2_pi) (hstddev : 0 < stddev) :
    StrictAntiOn (pdf exp sqrt_2_pi mean stddev) (Set.Ici mean) := by
  intro x hx y hy hxy
  have hsq : (x - mean) ^ 2 < (y - mean) ^ 2 :=
    pow_lt_pow_left₀ (sub_lt_sub_right hxy mean) (sub_nonneg.mpr hx) two_ne_zero
  have hexp' : exp (-((y - mean) ^ 2 / (2 * stddev ^ 2))) <
      exp (-((x - mean) ^ 2 / (2 * stddev ^ 2))) := by
    apply hexp
    gcongr
  have hscale : 0 < 1 / (stddev * sqrt_2_pi) := by positivity
  exact mul_lt_mul_of_pos_left hexp' hscale

/-- **The position of a density**: the one above the mean that has it, up to the width. -/
theorem abs_findXAxisPositionPDF_sub_lt {exp : α → α} {sqrt_2_pi : α} (hexp : StrictMono exp)
    (hsqrt : 0 < sqrt_2_pi) (hstddev : 0 < stddev) (ht : t ∈ Set.Icc mean (mean + kMaxRange)) :
    |findXAxisPositionPDF exp sqrt_2_pi mean stddev (pdf exp sqrt_2_pi mean stddev t)
      kMaxIterationDefault - t| < kLeftRightEpsilon := by
  have hpdf : StrictAntiOn (pdf exp sqrt_2_pi mean stddev) (Set.Ici mean) :=
    strictAntiOn_pdf hexp hsqrt hstddev
  exact abs_findXAxisPosition_sub_lt
    (Enclosure.ofIff ht fun x hx => decide_eq_true_iff.trans (hpdf.lt_iff_gt hx.1 ht.1)) rfl

end Predicates

/-! ## The error function -/

section ErrorFunction

open Real MeasureTheory

theorem integrable_gauss : Integrable fun t : ℝ => rexp (-t ^ 2) := by
  simpa using integrable_exp_neg_mul_sq one_pos

theorem continuous_erf : Continuous erf := by
  have harea : Continuous fun x => ∫ t in (0 : ℝ)..x, rexp (-t ^ 2) :=
    intervalIntegral.continuous_primitive
      (fun a b => integrable_gauss.intervalIntegrable) 0
  unfold erf
  fun_prop

theorem erf_neg (x : ℝ) : erf (-x) = -erf x := by
  have hflip : ∫ t in (0 : ℝ)..x, rexp (-t ^ 2) = ∫ t in -x..0, rexp (-t ^ 2) := by
    rw [← neg_zero, ← intervalIntegral.integral_comp_neg, neg_zero]
    simp only [neg_sq]
  unfold erf
  rw [hflip, intervalIntegral.integral_symm, mul_neg]

/-- Beyond 1 the tail of the bell is below that of the exponential. -/
theorem one_sub_le_erf {x : ℝ} (hx : 1 ≤ x) : 1 - 2 * rexp (-x) ≤ erf x := by
  have htail : ∫ t in Set.Ioi x, rexp (-t ^ 2) ≤ rexp (-x) := by
    rw [← integral_exp_neg_Ioi x]
    refine setIntegral_mono_on integrable_gauss.integrableOn (integrableOn_exp_neg_Ioi x)
      measurableSet_Ioi fun t ht => ?_
    have h1t : 1 ≤ t := hx.trans ht.le
    exact exp_le_exp.mpr (neg_le_neg (le_self_pow₀ h1t two_ne_zero))
  have hall : ∫ t in Set.Ioi (0 : ℝ), rexp (-t ^ 2) = √π / 2 := by
    simpa using integral_gaussian_Ioi 1
  have hsplit : (∫ t in (0 : ℝ)..x, rexp (-t ^ 2)) + ∫ t in Set.Ioi x, rexp (-t ^ 2) = √π / 2 := by
    rw [← hall]
    exact intervalIntegral.integral_interval_add_Ioi integrable_gauss.integrableOn
      integrable_gauss.integrableOn
  have hpi : 1 ≤ √π := by
    rw [one_le_sqrt]
    linarith [two_le_pi]
  have hexp := exp_pos (-x)
  unfold erf
  rw [div_mul_eq_mul_div, le_div_iff₀ (by positivity)]
  nlinarith

end ErrorFunction

/-! ## Over the reals -/

section Quantile

open Real

variable {mean stddev target : ℝ}

theorem continuous_centralMass : Continuous (centralMass erf √2 mean stddev) := by
  have := continuous_erf
  unfold centralMass cdf
  fun_prop

/-- The mass within `d` of the mean. -/
theorem centralMass_mean_add (d : ℝ) :
    centralMass erf √2 mean stddev (mean + d) = erf (d / (stddev * √2)) := by
  have hleft : (mean + d - 2 * (mean + d - mean) - mean) / (stddev * √2)
      = -(d / (stddev * √2)) := by ring
  unfold centralMass cdf
  rw [hleft, erf_neg, add_sub_cancel_left]
  ring

theorem centralMass_mean : centralMass erf √2 mean stddev mean = 0 := by
  simp [centralMass]

/-- **The quantile**: a mass that the range holds is that around exactly one
position, and the search finds it. -/
theorem exists_position_of_mass (hstddev : 0 < stddev) (h0 : 0 ≤ target)
    (hrange : target ≤ centralMass erf √2 mean stddev (mean + kMaxRange)) :
    ∃ t ∈ Set.Icc mean (mean + kMaxRange), centralMass erf √2 mean stddev t = target ∧
      |(realNormalDistribution mean stddev).findXAxisPositionCDF target - t| < 1 / 10 ^ 7 := by
  have hle : mean ≤ mean + kMaxRange := le_add_of_nonneg_right (by norm_num [kMaxRange])
  have hbetween : target ∈ Set.Icc (centralMass erf √2 mean stddev mean)
      (centralMass erf √2 mean stddev (mean + kMaxRange)) := by
    rw [centralMass_mean]
    exact ⟨h0, hrange⟩
  obtain ⟨t, ht, rfl⟩ := intermediate_value_Icc hle continuous_centralMass.continuousOn hbetween
  exact ⟨t, ht, rfl, abs_findXAxisPositionCDF_sub_lt strictMono_erf (by positivity) hstddev ht⟩

/-- With a standard deviation of at most 1000, the range holds 95% of the mass and more. -/
theorem mass_le_of_stddev_le (hstddev : 0 < stddev) (hle : stddev ≤ 1000) :
    95 / 100 ≤ centralMass erf √2 mean stddev (mean + kMaxRange) := by
  have hsqrt2 : √2 ≤ 2 := by
    rw [sqrt_le_left (by norm_num)]
    norm_num
  have hfar : 39 ≤ kMaxRange / (stddev * √2) := by
    rw [le_div_iff₀ (by positivity), kMaxRange]
    nlinarith [sqrt_nonneg (2 : ℝ)]
  have hexp : rexp (-(kMaxRange / (stddev * √2))) ≤ 1 / 40 := by
    rw [exp_neg, ← one_div]
    have := add_one_le_exp (kMaxRange / (stddev * √2))
    exact one_div_le_one_div_of_le (by norm_num) (by linarith)
  have := one_sub_le_erf (x := kMaxRange / (stddev * √2)) (by linarith)
  rw [centralMass_mean_add]
  linarith

theorem continuous_pdf {sqrt_2_pi : ℝ} : Continuous (pdf rexp sqrt_2_pi mean stddev) := by
  unfold pdf
  fun_prop

/-- The same for a density between that at the mean and that at the end of the range. -/
theorem exists_position_of_density (hstddev : 0 < stddev)
    (hpeak : target ≤ pdf rexp √(2 * π) mean stddev mean)
    (hrange : pdf rexp √(2 * π) mean stddev (mean + kMaxRange) ≤ target) :
    ∃ t ∈ Set.Icc mean (mean + kMaxRange), pdf rexp √(2 * π) mean stddev t = target ∧
      |findXAxisPositionPDF rexp √(2 * π) mean stddev target kMaxIterationDefault - t|
        < 1 / 10 ^ 7 := by
  have hle : mean ≤ mean + kMaxRange := le_add_of_nonneg_right (by norm_num [kMaxRange])
  obtain ⟨t, ht, rfl⟩ :=
    intermediate_value_Icc' hle continuous_pdf.continuousOn ⟨hrange, hpeak⟩
  exact ⟨t, ht, rfl,
    abs_findXAxisPositionPDF_sub_lt exp_strictMono (by positivity) hstddev ht⟩

end Quantile

end Loadmaster.Util
