/-
The load points of a `rand_normal` schedule (`util/normal_schedule.cc`), in
exact arithmetic over any ordered field with a floor. The distribution is what
the function asks of it: its mean, its CDF and the position it finds for a mass.

The theorem of the module is that the points average exactly to the load. The
scaled bin masses have the right total to begin with; water-filling keeps it up
to its tolerance of 1e-9, or ends with every value at the cap; and rounding then
meets an integer total exactly, since less than one unit is missing.
-/
import Loadmaster.Lib.LargestRemainder
import Loadmaster.Lib.Round
import Loadmaster.Lib.WaterFill
import Mathlib.Algebra.BigOperators.Ring.List
import Mathlib.Data.Rat.Floor

set_option autoImplicit false

namespace Loadmaster.Util

variable {α : Type*} [Field α] [LinearOrder α]

/-! ## The schedule -/

/-- What the schedule asks of a `NormalDistribution`. -/
structure NormalDistribution (α : Type*) where
  getMean : α
  cdf : α → α
  findXAxisPositionCDF : α → α

omit [LinearOrder α] in
/-- The masses of `count` bins over the part that holds `central_mass`. -/
def binMasses (dist : NormalDistribution α) (count : ℕ) (central_mass : α) : List α :=
  let upper := dist.findXAxisPositionCDF central_mass
  let lower := dist.getMean - (upper - dist.getMean)
  let step := (upper - lower) / count
  (List.range count).map fun i : ℕ =>
    dist.cdf (lower + step * (i + 1)) - dist.cdf (lower + step * i)

/-- The masses, scaled to the total. -/
def scaleMasses (masses : List α) (mean_load : ℤ) : List α :=
  let total : α := mean_load * masses.length
  masses.map fun v => if 0 < masses.sum then v / masses.sum * total else mean_load

/-- The excess at which water-filling stops. -/
def fillTolerance : α := 1 / 10 ^ 9

/-- Water-filling; a `max_point` of 0 means no cap. -/
def fillUnderCap (values : List α) (max_point : ℤ) : List α :=
  if 0 < max_point then
    WaterFill.waterFill (max_point : α) fillTolerance values.length values
  else values

/-- The sum the points are to have. -/
def targetTotal (total : α) (count : ℕ) (max_point : ℤ) [FloorRing α] : ℤ :=
  if 0 < max_point then min (Round.lround total) (max_point * count) else Round.lround total

/-- Where the rounding adds no unit: a point at the cap. -/
def atCap (max_point point : ℤ) : Bool := 0 < max_point && max_point ≤ point

variable [FloorRing α]

def buildNormalSchedulePoints (dist : NormalDistribution α) (count : ℤ) (central_mass : α)
    (mean_load max_point : ℤ) : List ℤ :=
  if count ≤ 0 then []
  else if mean_load ≤ 0 then List.replicate count.toNat 0
  else
    let values := scaleMasses (binMasses dist count.toNat central_mass) mean_load
    let total : α := mean_load * values.length
    LargestRemainder.round (atCap max_point) (targetTotal total values.length max_point)
      (fillUnderCap values max_point)

/-! ## The values before rounding -/

section Values

variable {masses values : List α} {mean_load max_point : ℤ}

omit [LinearOrder α] [FloorRing α] in
@[simp] theorem length_binMasses {dist : NormalDistribution α} {count : ℕ} {central_mass : α} :
    (binMasses dist count central_mass).length = count := by
  simp [binMasses]

omit [FloorRing α] in
@[simp] theorem length_scaleMasses : (scaleMasses masses mean_load).length = masses.length :=
  List.length_map _

omit [FloorRing α] in
/-- Filling under the cap keeps how many values there are. -/
theorem length_fillUnderCap : (fillUnderCap values max_point).length = values.length := by
  unfold fillUnderCap
  split_ifs
  · exact WaterFill.length_waterFill _
  · rfl

variable [IsStrictOrderedRing α]

omit [FloorRing α] in
/-- Positive masses are scaled to positive values. -/
theorem pos_of_mem_scaleMasses (hload : 1 ≤ mean_load) (hpos : ∀ m ∈ masses, 0 < m) :
    ∀ v ∈ scaleMasses masses mean_load, 0 < v := by
  intro v hv
  obtain ⟨m, hm, rfl⟩ := List.mem_map.mp hv
  have hne : masses ≠ [] := List.ne_nil_of_mem hm
  have hsum : 0 < masses.sum := List.sum_pos _ hpos hne
  have hload' : (0 : α) < mean_load := by exact_mod_cast hload
  have hlen : (0 : α) < masses.length := by exact_mod_cast List.length_pos_of_ne_nil hne
  have hm0 := hpos m hm
  rw [if_pos hsum]
  positivity

omit [FloorRing α] in
/-- The scaled masses have the total that is asked for. -/
theorem sum_scaleMasses (hne : masses ≠ []) (hpos : ∀ m ∈ masses, 0 < m) :
    (scaleMasses masses mean_load).sum = mean_load * masses.length := by
  have hsum : 0 < masses.sum := List.sum_pos _ hpos hne
  unfold scaleMasses
  simp only [if_pos hsum, div_eq_mul_inv]
  rw [List.sum_map_mul_right, List.sum_map_mul_right, List.map_id', mul_inv_cancel₀ hsum.ne',
    one_mul]

omit [FloorRing α] in
theorem fillTolerance_nonneg : (0 : α) ≤ fillTolerance := by
  unfold fillTolerance
  positivity

omit [FloorRing α] in
/-- **The rounds are enough.** A value above the cap is not below it, so the
others are fewer than the rounds. -/
theorem settles_values (hcap : 0 < max_point) (hne : values ≠ []) (hpos : ∀ v ∈ values, 0 < v) :
    WaterFill.Settles (max_point : α) fillTolerance values.length values := by
  have hcap' : (0 : α) < max_point := by exact_mod_cast hcap
  refine WaterFill.settles hcap' fillTolerance_nonneg hpos (List.length_pos_of_ne_nil hne) ?_
  rintro ⟨v, hv, habove⟩
  exact List.countP_lt_length_iff.mpr ⟨v, hv, by simpa using habove.le⟩

/-- **What water-filling leaves to the rounding.** The values are positive and
under the cap, and a point rounded down to the cap lost nothing; the total they
had is kept to within less than a unit, or as much of it as fits. -/
structure ReadyToRound (values : List α) (total max_point : ℤ) : Prop where
  pos : ∀ v ∈ values, 0 < v
  le_cap : 0 < max_point → ∀ v ∈ values, v ≤ max_point
  sum_le : values.sum ≤ total
  complete : (total : α) < values.sum + 1 ∨ 0 < max_point ∧ ∀ v ∈ values, v = max_point

omit [FloorRing α] in
/-- After the filling nothing is above the cap, and the total is there up to the
tolerance, or everything is at the cap. -/
theorem readyToRound_fillUnderCap {total : ℤ} (hne : values ≠ [])
    (hpos : ∀ v ∈ values, 0 < v) (hsum : values.sum = total) :
    ReadyToRound (fillUnderCap values max_point) total max_point := by
  unfold fillUnderCap
  split_ifs with hcap
  · have hcap' : (0 : α) < max_point := by exact_mod_cast hcap
    have htol1 : (fillTolerance : α) < 1 := by unfold fillTolerance; norm_num
    have hfilled := (settles_values hcap hne hpos).filled hcap' hpos
    refine ⟨hfilled.pos, fun _ => hfilled.le_cap, hfilled.sum_le.trans hsum.le, ?_⟩
    rcases hfilled.complete with hshort | hall
    · exact .inl (by linarith)
    · exact .inr ⟨hcap, hall⟩
  · exact ⟨hpos, fun h => absurd h hcap, hsum.le, .inl (by linarith)⟩

omit [FloorRing α] in
/-- For scaled masses the total is the mean load times their number. -/
theorem readyToRound_scaleMasses (max_point : ℤ) (hload : 1 ≤ mean_load) (hne : masses ≠ [])
    (hpos : ∀ m ∈ masses, 0 < m) :
    ReadyToRound (fillUnderCap (scaleMasses masses mean_load) max_point)
      (mean_load * masses.length) max_point := by
  refine readyToRound_fillUnderCap ?_ (pos_of_mem_scaleMasses hload hpos) ?_
  · rw [← List.length_pos_iff, length_scaleMasses]
    exact List.length_pos_of_ne_nil hne
  · rw [sum_scaleMasses hne hpos, Int.cast_mul, Int.cast_natCast]

end Values

/-! ## Rounding -/

section Rounding

variable {values : List α} {total max_point : ℤ} [IsStrictOrderedRing α]

/-- A value whose floor is at the cap is the cap. -/
theorem ReadyToRound.eq_floor_of_atCap (h : ReadyToRound values total max_point) :
    ∀ v ∈ values, atCap max_point ⌊v⌋ → v = ⌊v⌋ := by
  intro v hv hfull
  obtain ⟨hcap, hfloor⟩ : 0 < max_point ∧ max_point ≤ ⌊v⌋ := by simpa [atCap] using hfull
  have hle := h.le_cap hcap v hv
  have hcast : (max_point : α) ≤ (⌊v⌋ : ℤ) := by exact_mod_cast hfloor
  exact le_antisymm (hle.trans hcast) (Int.floor_le v)

@[simp] theorem targetTotal_intCast {count : ℕ} :
    targetTotal (total : α) count max_point =
      if 0 < max_point then min total (max_point * count) else total := by
  rw [targetTotal, Round.lround_intCast]

/-- The floors do not exceed the total, so only units have to be added. -/
theorem sum_floors_le_target (h : ReadyToRound values total max_point) :
    (LargestRemainder.floors values).sum ≤ targetTotal (total : α) values.length max_point := by
  have htotal : (LargestRemainder.floors values).sum ≤ total := by
    have hsum := LargestRemainder.sum_floors_le.trans h.sum_le
    exact_mod_cast hsum
  rw [targetTotal_intCast]
  split_ifs with hcap
  · refine le_min htotal ?_
    have hfloor : ∀ p ∈ LargestRemainder.floors values, p ≤ max_point := by
      intro p hp
      obtain ⟨v, hv, rfl⟩ := List.mem_map.mp hp
      have hle := (Int.floor_le v).trans (h.le_cap hcap v hv)
      exact_mod_cast hle
    have hcard := List.sum_le_card_nsmul _ _ hfloor
    rw [LargestRemainder.length_floors, nsmul_eq_mul] at hcard
    linarith
  · exact htotal

/-- Less than a unit is missing for each value that is not at the cap. -/
theorem target_lt_sum_add_one (h : ReadyToRound values total max_point) :
    (targetTotal (total : α) values.length max_point : α) < values.sum + 1 := by
  rw [targetTotal_intCast]
  rcases h.complete with hshort | ⟨hcap, hall⟩
  · refine lt_of_le_of_lt ?_ hshort
    split_ifs
    · exact_mod_cast min_le_left _ _
    · exact le_rfl
  · -- everything is at the cap, so nothing is missing at all
    have hsum : values.sum = values.length * (max_point : α) := by
      rw [List.sum_eq_card_nsmul _ _ hall, nsmul_eq_mul]
    have hmin : ((min total (max_point * values.length) : ℤ) : α) ≤
        ((max_point * values.length : ℤ) : α) := by exact_mod_cast min_le_right _ _
    rw [if_pos hcap, hsum]
    push_cast at hmin ⊢
    linarith

/-- **The rounded values** have exactly the total asked for, and stay between 0
and the cap. -/
theorem round_of_readyToRound (h : ReadyToRound values total max_point) :
    let points := LargestRemainder.round (atCap max_point)
      (targetTotal (total : α) values.length max_point) values
    (∀ p ∈ points, 0 ≤ p ∧ (0 < max_point → p ≤ max_point)) ∧
      points.sum = targetTotal (total : α) values.length max_point := by
  refine ⟨fun p hp => ?_, LargestRemainder.sum_round h.eq_floor_of_atCap
    (sum_floors_le_target h) (target_lt_sum_add_one h)⟩
  obtain ⟨v, hv, hp⟩ := LargestRemainder.mem_round hp
  have hfloor : 0 ≤ ⌊v⌋ := Int.floor_nonneg.mpr (h.pos v hv).le
  refine ⟨by omega, fun hcap => ?_⟩
  have hle : ⌊v⌋ ≤ max_point := by
    have := (Int.floor_le v).trans (h.le_cap hcap v hv)
    exact_mod_cast this
  rcases hp with rfl | ⟨hroom, rfl⟩
  · exact hle
  · -- a point at the cap is passed over
    simp only [atCap, hcap, decide_true, Bool.true_and, decide_eq_false_iff_not] at hroom
    omega

end Rounding

/-! ## The whole schedule -/

/-- A schedule has as many points as asked for. -/
theorem length_buildNormalSchedulePoints {dist : NormalDistribution α} {count : ℤ}
    {central_mass : α} {mean_load max_point : ℤ} :
    (buildNormalSchedulePoints dist count central_mass mean_load max_point).length
      = count.toNat := by
  unfold buildNormalSchedulePoints
  split_ifs with hcount hload
  · rw [List.length_nil, Int.toNat_of_nonpos hcount]
  · exact List.length_replicate
  · rw [LargestRemainder.length_round, length_fillUnderCap, length_scaleMasses, length_binMasses]

/-- **The schedule averages exactly to the load.** It has `count` points from 0 to
`max_point` (0: no cap), and their sum is `mean_load * count`, or what the cap allows
of it. The masses are scaled, and cut under the cap, to the total first
(`readyToRound_scaleMasses`), so that rounding by largest remainders only has to hand
out what the floors leave of it. -/
theorem buildNormalSchedulePoints_exact [IsStrictOrderedRing α] {dist : NormalDistribution α}
    {count mean_load max_point : ℤ} {central_mass : α} (hcount : 1 ≤ count)
    (hload : 1 ≤ mean_load) (hmax : 0 ≤ max_point)
    (hmass : ∀ m ∈ binMasses dist count.toNat central_mass, 0 < m) :
    let points := buildNormalSchedulePoints dist count central_mass mean_load max_point
    (points.length : ℤ) = count ∧
      (∀ p ∈ points, 0 ≤ p ∧ (0 < max_point → p ≤ max_point)) ∧
      points.sum = if max_point = 0 ∨ mean_load ≤ max_point then mean_load * count
        else max_point * count := by
  obtain ⟨n, rfl⟩ : ∃ n : ℕ, count = n := ⟨count.toNat, by omega⟩
  rw [Int.toNat_natCast] at hmass
  have hmasses : binMasses dist n central_mass ≠ [] := by
    rw [← List.length_pos_iff, length_binMasses]
    omega
  have hready : ReadyToRound
      (fillUnderCap (scaleMasses (binMasses dist n central_mass) mean_load) max_point)
      (mean_load * n) max_point := by
    have h := readyToRound_scaleMasses max_point hload hmasses hmass
    rwa [length_binMasses] at h
  generalize hvalues : scaleMasses (binMasses dist n central_mass) mean_load = values at hready
  have hlen : values.length = n := by rw [← hvalues, length_scaleMasses, length_binMasses]
  have hpoints : buildNormalSchedulePoints dist n central_mass mean_load max_point =
      LargestRemainder.round (atCap max_point)
        (targetTotal ((mean_load * n : ℤ) : α) (fillUnderCap values max_point).length max_point)
        (fillUnderCap values max_point) := by
    unfold buildNormalSchedulePoints
    rw [if_neg (by omega), if_neg (by omega), Int.toNat_natCast, hvalues]
    simp only [length_fillUnderCap, hlen, Int.cast_mul, Int.cast_natCast]
  dsimp only
  rw [hpoints]
  obtain ⟨hbounds, htotal⟩ := round_of_readyToRound hready
  refine ⟨?_, hbounds, ?_⟩
  · rw [LargestRemainder.length_round, length_fillUnderCap, hlen]
  · rw [htotal, targetTotal_intCast, length_fillUnderCap, hlen]
    -- which of the two totals is the smaller one
    rcases hmax.eq_or_lt with rfl | hcap
    · simp
    · rw [if_pos hcap]
      by_cases hfits : mean_load ≤ max_point
      · rw [if_pos (.inr hfits), min_eq_left (by gcongr)]
      · rw [if_neg (by omega), min_eq_right (by gcongr; omega)]

/-- A bell on [-1, 1] in five bins, at a load of 90 under a cap of 100. -/
theorem buildNormalSchedulePoints_exact_bell :
    let dist : NormalDistribution ℚ :=
      { getMean := 0, cdf := fun x => x * (3 - x * x) / 4 + 1 / 2, findXAxisPositionCDF := fun _ => 1 }
    let points := buildNormalSchedulePoints dist 5 1 90 100
    (points.length : ℤ) = 5 ∧ (∀ p ∈ points, 0 ≤ p ∧ ((0 : ℤ) < 100 → p ≤ 100)) ∧
      points.sum = 450 :=
  buildNormalSchedulePoints_exact (by decide) (by decide) (by decide) (by decide +kernel)

end Loadmaster.Util
