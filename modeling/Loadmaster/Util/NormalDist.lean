/-
The normal distribution (`util/normal_dist.cc`), in exact arithmetic over any
ordered field, for a given error function and square root of two, and then over
the reals with the error function itself.

A schedule needs two things of a distribution: its CDF grows, and the position
it finds lies above the mean. The search starts at the mean and only ever moves
its lower end up, so the second holds whatever it searches for.
-/
import Loadmaster.Util.NormalSchedule
import Mathlib.Analysis.SpecialFunctions.Trigonometric.Basic
import Mathlib.MeasureTheory.Integral.IntervalIntegral.Basic

set_option autoImplicit false

namespace Loadmaster.Util

variable {α : Type*} [Field α]

-- the numerals of a field, so that no definition has a proof of its own in it
local instance two_atLeastTwo : Nat.AtLeastTwo 2 := ⟨le_rfl⟩
local instance ten_atLeastTwo : Nat.AtLeastTwo 10 := ⟨by decide⟩

/-! ## The distribution -/

def kMaxIterationDefault : ℕ := 64

/-- How far above the mean a position is looked for. -/
def kMaxRange : α := 100000

def kLeftRightEpsilon : α := 1 / 10 ^ 7

/-- `CDF` -/
def cdf (erf : α → α) (sqrt2 mean stddev x : α) : α :=
  1 / 2 * (1 + erf ((x - mean) / (stddev * sqrt2)))

/-- `PDF` -/
def pdf (exp : α → α) (sqrt_2_pi mean stddev x : α) : α :=
  let t1 := 1 / (stddev * sqrt_2_pi)
  let t2 := (x - mean) ^ 2 / (2 * stddev ^ 2)
  t1 * exp (-t2)

variable [LinearOrder α]

/-- The loop of `FindXAxisPosition`: `l`, `r` and `x` are its variables, and the
number is that of the iterations it has left. -/
def bisect (compare : α → Bool) : ℕ → α → α → α → α
  | 0, _, _, x => x
  | iterations + 1, l, r, x =>
    if l < r then
      let mid := (l + r) / 2
      if r - l < kLeftRightEpsilon then mid
      else if compare mid then bisect compare iterations l mid mid
      else bisect compare iterations mid r mid
    else x

/-- `FindXAxisPosition` -/
def findXAxisPosition (mean : α) (compare : α → Bool) (max_iteration : ℕ) : α :=
  bisect compare max_iteration mean (mean + kMaxRange) 0

/-- `FindXAxisPositionPDF` -/
def findXAxisPositionPDF (exp : α → α) (sqrt_2_pi mean stddev target : α)
    (max_iteration : ℕ) : α :=
  let compare x := decide (pdf exp sqrt_2_pi mean stddev x < target)
  findXAxisPosition mean compare max_iteration

/-- A `NormalDistribution` of this mean and standard deviation. -/
def normalDistribution (erf : α → α) (sqrt2 mean stddev : α) : NormalDistribution α where
  getMean := mean
  cdf := cdf erf sqrt2 mean stddev
  findXAxisPositionCDF target :=
    let compare x :=
      decide (target < cdf erf sqrt2 mean stddev x
        - cdf erf sqrt2 mean stddev (x - 2 * (x - mean)))
    findXAxisPosition mean compare kMaxIterationDefault

/-! ## The position is above the mean -/

section Position

variable [IsStrictOrderedRing α] {compare : α → Bool} {a l r x : α} {iterations : ℕ}

/-- `x` counts only where the loop is not entered. -/
theorem lt_bisect (hal : a ≤ l) (hlr : l < r) (hx : iterations = 0 → a < x) :
    a < bisect compare iterations l r x := by
  induction iterations generalizing l r x with
  | zero => exact hx rfl
  | succ iterations ih =>
    have hmid : l < (l + r) / 2 ∧ (l + r) / 2 < r := ⟨by linarith, by linarith⟩
    have hmid' : a < (l + r) / 2 := lt_of_le_of_lt hal hmid.1
    simp only [bisect, if_pos hlr]
    split_ifs
    · exact hmid'
    · exact ih hal hmid.1 fun _ => hmid'
    · exact ih hmid'.le hmid.2 fun _ => hmid'

theorem lt_findXAxisPosition {mean : α} (hiterations : 0 < iterations) :
    mean < findXAxisPosition mean compare iterations := by
  have hrange : mean < mean + (kMaxRange : α) := by
    unfold kMaxRange
    linarith [show (0 : α) < 100000 by norm_num]
  exact lt_bisect le_rfl hrange fun hnone => absurd hnone hiterations.ne'

end Position

/-! ## Every bin has some mass -/

section Masses

variable [IsStrictOrderedRing α]

theorem binMasses_pos {dist : NormalDistribution α} {count : ℕ} {central_mass : α}
    (hcdf : StrictMono dist.cdf) (hpos : dist.getMean < dist.findXAxisPositionCDF central_mass) :
    ∀ m ∈ binMasses dist count central_mass, 0 < m := by
  intro m hm
  obtain ⟨i, hi, rfl⟩ := List.mem_map.mp hm
  have hcount : (0 : α) < count := by
    exact_mod_cast Nat.zero_lt_of_lt (List.mem_range.mp hi)
  refine sub_pos.mpr (hcdf ?_)
  gcongr
  · exact div_pos (by linarith) hcount
  · exact lt_add_one _

theorem strictMono_cdf {erf : α → α} {sqrt2 mean stddev : α} (herf : StrictMono erf)
    (hsqrt2 : 0 < sqrt2) (hstddev : 0 < stddev) : StrictMono (cdf erf sqrt2 mean stddev) := by
  intro x y hxy
  have harg : (x - mean) / (stddev * sqrt2) < (y - mean) / (stddev * sqrt2) := by
    gcongr
  have := herf harg
  unfold cdf
  linarith

theorem binMasses_normalDistribution_pos {erf : α → α} {sqrt2 mean stddev central_mass : α}
    {count : ℕ} (herf : StrictMono erf) (hsqrt2 : 0 < sqrt2) (hstddev : 0 < stddev) :
    ∀ m ∈ binMasses (normalDistribution erf sqrt2 mean stddev) count central_mass, 0 < m :=
  binMasses_pos (strictMono_cdf herf hsqrt2 hstddev) (lt_findXAxisPosition (by decide))

end Masses

/-! ## Over the reals -/

section Real

open Real

/-- The error function, `std::erf`. -/
noncomputable def erf (x : ℝ) : ℝ := 2 / √π * ∫ t in (0 : ℝ)..x, rexp (-t ^ 2)

theorem strictMono_erf : StrictMono erf := by
  intro x y hxy
  have hcont : Continuous fun t : ℝ => rexp (-t ^ 2) := by fun_prop
  have harea : 0 < ∫ t in x..y, rexp (-t ^ 2) :=
    intervalIntegral.intervalIntegral_pos_of_pos (hcont.intervalIntegrable x y)
      (fun t => Real.exp_pos _) hxy
  have hsplit : (∫ t in (0 : ℝ)..x, rexp (-t ^ 2)) + (∫ t in x..y, rexp (-t ^ 2)) =
      ∫ t in (0 : ℝ)..y, rexp (-t ^ 2) :=
    intervalIntegral.integral_add_adjacent_intervals (hcont.intervalIntegrable 0 x)
      (hcont.intervalIntegrable x y)
  unfold erf
  rw [← hsplit]
  gcongr
  linarith

/-- The distribution with the standard library's `erf` and `sqrt2`. -/
noncomputable def realNormalDistribution (mean stddev : ℝ) : NormalDistribution ℝ :=
  normalDistribution erf √2 mean stddev

theorem binMasses_realNormalDistribution_pos {mean stddev central_mass : ℝ} {count : ℕ}
    (hstddev : 0 < stddev) :
    ∀ m ∈ binMasses (realNormalDistribution mean stddev) count central_mass, 0 < m :=
  binMasses_normalDistribution_pos strictMono_erf (by positivity) hstddev

end Real

end Loadmaster.Util
