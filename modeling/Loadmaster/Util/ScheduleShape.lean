/-
The shape of a `rand_normal` schedule (`util/normal_schedule.cc`), in exact
arithmetic.

Before they are rounded the values are the scaled bin masses times one factor,
cut at the cap. Rounding takes each of them to one of the two integers next to
it and keeps their order.
-/
import Loadmaster.Util.NormalSchedule

set_option autoImplicit false

namespace Loadmaster.Util

open WaterFill

variable {α : Type*} [Field α] [LinearOrder α]

/-! ## The values -/

section Values

variable [IsStrictOrderedRing α] {values : List α} {total max_point : ℤ}

/-- What water-filling leaves under a cap. -/
structure UnderCap (values filled : List α) (total max_point : ℤ) : Prop where
  settles : Settles (max_point : α) fillTolerance values.length values
  le_cap : ∀ v ∈ filled, v ≤ max_point
  factor : ∃ l : α, 1 ≤ l ∧ filled = values.map fun v => min (max_point : α) (l * v)
  total_near : |filled.sum - min (total : α) (max_point * values.length)| ≤ 1 / 10 ^ 9

theorem underCap_fillUnderCap (hcap : 0 < max_point) (hne : values ≠ [])
    (hpos : ∀ v ∈ values, 0 < v) (hsum : values.sum = total) :
    UnderCap values (fillUnderCap values max_point) total max_point := by
  have hcap' : (0 : α) < max_point := by exact_mod_cast hcap
  have hsettles := settles_values hcap hne hpos
  have hfilled := hsettles.filled hcap' hpos
  have hnear := hfilled.abs_sum_sub_le fillTolerance_nonneg
  rw [length_waterFill, hsum] at hnear
  rw [fillUnderCap, if_pos hcap]
  exact ⟨hsettles, hfilled.le_cap, hsettles.eq_map_min hcap', hnear⟩

theorem underCap_scaleMasses {masses : List α} {mean_load : ℤ} (hcap : 0 < max_point)
    (hload : 1 ≤ mean_load) (hne : masses ≠ []) (hpos : ∀ m ∈ masses, 0 < m) :
    UnderCap (scaleMasses masses mean_load) (fillUnderCap (scaleMasses masses mean_load) max_point)
      (mean_load * masses.length) max_point := by
  refine underCap_fillUnderCap hcap ?_ (pos_of_mem_scaleMasses hload hpos) ?_
  · rw [← List.length_pos_iff, length_scaleMasses]
    exact List.length_pos_of_ne_nil hne
  · rw [sum_scaleMasses hne hpos, Int.cast_mul, Int.cast_natCast]

/-- Without a cap, or with nothing above it, nothing changes. -/
theorem fillUnderCap_eq_self (h : 0 < max_point → ∀ v ∈ values, v ≤ max_point) :
    fillUnderCap values max_point = values := by
  unfold fillUnderCap
  split_ifs with hcap
  · exact waterFill_of_le fillTolerance_nonneg (h hcap)
  · rfl

end Values

/-! ## The points -/

variable [FloorRing α]

/-- What the rounding makes of the values. -/
structure RoundedFrom (filled : List α) (points : List ℤ) (max_point : ℤ) : Prop where
  length_eq : points.length = filled.length
  floor_or_next : ∀ i < filled.length,
    points.getD i 0 = ⌊filled.getD i 0⌋ ∨ points.getD i 0 = ⌊filled.getD i 0⌋ + 1
  keeps_order : ∀ i < filled.length, ∀ j < filled.length,
    filled.getD i 0 < filled.getD j 0 → points.getD i 0 ≤ points.getD j 0
  none_at_cap : 0 < max_point → ∀ i < filled.length,
    max_point ≤ ⌊filled.getD i 0⌋ → points.getD i 0 = ⌊filled.getD i 0⌋

theorem roundedFrom_round [IsStrictOrderedRing α] (filled : List α) (target max_point : ℤ) :
    RoundedFrom filled (LargestRemainder.round (atCap max_point) target filled) max_point where
  length_eq := LargestRemainder.length_round
  floor_or_next i hi := (LargestRemainder.getD_round hi).imp_right And.right
  keeps_order i hi j hj h := LargestRemainder.round_le_round hi hj h
  none_at_cap hcap i hi h := by
    refine (LargestRemainder.getD_round hi).resolve_right fun hup => ?_
    have hroom := hup.1
    rw [atCap, decide_eq_true hcap, Bool.true_and, decide_eq_false_iff_not] at hroom
    exact hroom h

theorem roundedFrom_buildNormalSchedulePoints [IsStrictOrderedRing α]
    (dist : NormalDistribution α) {count mean_load max_point : ℤ} {central_mass : α}
    (hload : 1 ≤ mean_load) :
    RoundedFrom
      (fillUnderCap (scaleMasses (binMasses dist count.toNat central_mass) mean_load) max_point)
      (buildNormalSchedulePoints dist count central_mass mean_load max_point) max_point := by
  unfold buildNormalSchedulePoints
  by_cases hcount : count ≤ 0
  · -- no bins, so there is nothing to round
    have hvalues : fillUnderCap
        (scaleMasses (binMasses dist count.toNat central_mass) mean_load) max_point = [] := by
      rw [← List.length_eq_zero_iff, length_fillUnderCap, length_scaleMasses, length_binMasses,
        Int.toNat_of_nonpos hcount]
    rw [if_pos hcount, hvalues]
    exact ⟨rfl, by simp, by simp, by simp⟩
  · rw [if_neg hcount, if_neg (by omega)]
    exact roundedFrom_round _ _ _

/-- **The schedule keeps its shape.** Under a cap the water-filling of the positive
scaled masses settles within its rounds: nothing is above the cap, all values are the
masses times one factor, cut at the cap, and their total is what fits of it to within
1e-9; without one, or with nothing above it, the values are the masses. The points are
the values rounded down or up, in the same order, and no unit is added at the cap. A
round of the filling cuts what is above the cap and pours it over the rest in
proportion. A value that is cut stays at the cap, so as many rounds as there are
values are enough (`settles_values`). -/
theorem schedule_keeps_shape [IsStrictOrderedRing α] (dist : NormalDistribution α)
    (count mean_load max_point : ℤ) (central_mass : α) (hload : 1 ≤ mean_load)
    (hmass : ∀ m ∈ binMasses dist count.toNat central_mass, 0 < m) :
    let values := scaleMasses (binMasses dist count.toNat central_mass) mean_load
    let filled := fillUnderCap values max_point
    let points := buildNormalSchedulePoints dist count central_mass mean_load max_point
    (values.length = count.toNat) ∧
      (0 < count → 0 < max_point → UnderCap values filled (mean_load * count) max_point) ∧
      ((max_point ≤ 0 ∨ ∀ v ∈ values, v ≤ max_point) → filled = values) ∧
      RoundedFrom filled points max_point := by
  intro values filled points
  refine ⟨?_, ?_, ?_, roundedFrom_buildNormalSchedulePoints dist hload⟩
  · rw [length_scaleMasses, length_binMasses]
  · intro hcount hcap
    have hmasses : binMasses dist count.toNat central_mass ≠ [] := by
      rw [← List.length_pos_iff, length_binMasses]
      omega
    have hunder := underCap_scaleMasses hcap hload hmasses hmass
    rwa [length_binMasses, Int.toNat_of_nonneg hcount.le] at hunder
  · intro h
    apply fillUnderCap_eq_self
    intro hcap
    exact h.resolve_left hcap.not_ge

/-- A bell on [-1, 1] in five bins, at a load of 90 under a cap of 100: its
highest bin is above the cap. -/
theorem schedule_keeps_shape_bell :
    let dist : NormalDistribution ℚ :=
      { getMean := 0, cdf := fun x => x * (3 - x * x) / 4 + 1 / 2,
        findXAxisPositionCDF := fun _ => 1 }
    let values := scaleMasses (binMasses dist 5 1) 90
    let filled := fillUnderCap values 100
    values.length = 5 ∧
      ((0 : ℤ) < 5 → (0 : ℤ) < 100 → UnderCap values filled (90 * 5) 100) ∧
      (((100 : ℤ) ≤ 0 ∨ ∀ v ∈ values, v ≤ (100 : ℤ)) → filled = values) ∧
      RoundedFrom filled (buildNormalSchedulePoints dist 5 1 90 100) 100 :=
  schedule_keeps_shape _ 5 90 100 1 (by decide) (by decide +kernel)

end Loadmaster.Util
