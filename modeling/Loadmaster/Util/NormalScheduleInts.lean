/-
`BuildNormalSchedulePoints` on the integer types it is written with: an `int`
for each point, a `long long` for the totals.

The points of the exact schedule are not negative, so each of them is at most
their sum, and a point is never higher on the way than it ends up. A schedule
whose total is an `int` is therefore computed without an overflow
(`ensures_buildNormalSchedulePointsInts`).
-/
import Loadmaster.Lib.Outcome
import Loadmaster.Util.NormalSchedule

set_option autoImplicit false

namespace Loadmaster.Util

open Outcome

variable {ε : Type}

/-! ## The schedule, in ints -/

/-- `handOut`, in ints. -/
def handOutInts (full : Int32 → Bool) (target : Int64) :
    List ℕ → List Int32 → Int64 → Outcome ε (List Int32)
  | [], points, _ => pure points
  | i :: order, points, assigned =>
    if assigned.toInt < target.toInt then
      if full (points.getD i 0) then handOutInts full target order points assigned
      else do
        let point ← int32 ((points.getD i 0).toInt + 1)
        let assigned ← int64 (assigned.toInt + 1)
        handOutInts full target order (points.set i point) assigned
    else pure points

section Definitions

variable {α : Type*} [Field α] [LinearOrder α] [FloorRing α]

/-- Every value rounded down, and `assigned` with all of them added. -/
def floorInts : List α → Int64 → Outcome ε (List Int32 × Int64)
  | [], assigned => pure ([], assigned)
  | v :: vs, assigned => do
    let point ← int32 ⌊v⌋
    let assigned ← int64 (assigned.toInt + point.toInt)
    let (points, assigned) ← floorInts vs assigned
    pure (point :: points, assigned)

/-- `target_total` -/
def targetTotalInts (total : α) (count max_point : Int32) : Outcome ε Int64 := do
  let target_total ← int64 (Round.lround total)
  if 0 < max_point.toInt then
    let fits ← int64 (max_point.toInt * count.toInt)
    pure (if fits.toInt < target_total.toInt then fits else target_total)
  else pure target_total

/-- `buildNormalSchedulePoints`, in ints. -/
def buildNormalSchedulePointsInts (dist : NormalDistribution α) (count : Int32) (central_mass : α)
    (mean_load max_point : Int32) : Outcome ε (List Int32) :=
  if count.toInt ≤ 0 then pure []
  else if mean_load.toInt ≤ 0 then pure (List.replicate count.toInt.toNat 0)
  else do
    let values := scaleMasses (binMasses dist count.toInt.toNat central_mass) mean_load.toInt
    let total : α := mean_load.toInt * values.length
    let values := fillUnderCap values max_point.toInt
    let (points, assigned) ← floorInts values 0
    let target_total ← targetTotalInts total count max_point
    handOutInts (fun point => atCap max_point.toInt point.toInt) target_total
      (LargestRemainder.remainderOrder values) points assigned

end Definitions

/-! ## No overflow -/

section Rounding

variable {F : ε → Prop} {full : ℤ → Bool} {order : List ℕ} {points : List Int32}
  {assigned target : Int64}

theorem toInt_getD {i : ℕ} : (points.getD i 0).toInt = (points.map Int32.toInt).getD i 0 :=
  (List.getD_map points 0 Int32.toInt).symm

/-- Handing out does in ints what it does exactly, if all the points end up as ints. -/
theorem ensures_handOutInts (hnodup : order.Nodup) (hrange : ∀ i ∈ order, i < points.length)
    (hfits : ∀ p ∈ LargestRemainder.handOut full target.toInt order (points.map Int32.toInt)
      assigned.toInt, p < 2 ^ 31) :
    Ensures (fun out : List Int32 => out.map Int32.toInt =
        LargestRemainder.handOut full target.toInt order (points.map Int32.toInt) assigned.toInt)
      F (handOutInts (fun point => full point.toInt) target order points assigned) := by
  induction order generalizing points assigned with
  | nil => exact ensures_pure.mpr rfl
  | cons i order ih =>
    obtain ⟨hi, hnodup⟩ := List.nodup_cons.mp hnodup
    obtain ⟨hlen, hrange⟩ := List.forall_mem_cons.mp hrange
    unfold LargestRemainder.handOut at hfits ⊢
    unfold handOutInts
    rw [toInt_getD]
    split_ifs at hfits ⊢ with hmore hfull
    · exact ih hnodup hrange hfits
    · -- the place is behind in the order, so the raised point is the final one
      have hplace : ((points.map Int32.toInt).set i
          ((points.map Int32.toInt).getD i 0 + 1)).getD i 0 =
            (points.map Int32.toInt).getD i 0 + 1 :=
        LargestRemainder.getD_set_self (by simpa using hlen)
      have hraised : (points.map Int32.toInt).getD i 0 + 1 < 2 ^ 31 := by
        rw [← hplace]
        exact hfits _ (LargestRemainder.getD_mem_handOut hi (by simpa using hlen))
      have hmin := Int32.le_toInt (points.getD i 0)
      rw [toInt_getD] at hmin
      have hassigned := assigned.le_toInt
      have htarget := target.toInt_lt
      refine ensures_bind.mpr (ensures_int32 (by omega) hraised fun point hpoint => ?_)
      refine ensures_bind.mpr (ensures_int64 (by omega) (by omega) fun next hnext => ?_)
      have hset : (points.set i point).map Int32.toInt =
          (points.map Int32.toInt).set i ((points.map Int32.toInt).getD i 0 + 1) := by
        rw [List.map_set, hpoint]
      rw [← hset, ← hnext] at hfits ⊢
      exact ih hnodup (by simpa using hrange) hfits
    · exact ensures_pure.mpr rfl

variable {α : Type*} [Field α] [LinearOrder α] [FloorRing α] {vs : List α}

theorem ensures_floorInts (hfloors : ∀ v ∈ vs, 0 ≤ ⌊v⌋ ∧ ⌊v⌋ < 2 ^ 31) (hassigned : 0 ≤ assigned.toInt)
    (hsum : assigned.toInt + (LargestRemainder.floors vs).sum < 2 ^ 63) :
    Ensures (fun out : List Int32 × Int64 => out.1.map Int32.toInt = LargestRemainder.floors vs ∧
        out.2.toInt = assigned.toInt + (LargestRemainder.floors vs).sum)
      F (floorInts vs assigned) := by
  induction vs generalizing assigned with
  | nil => exact ensures_pure.mpr ⟨rfl, (add_zero _).symm⟩
  | cons v vs ih =>
    obtain ⟨hv, hvs⟩ := List.forall_mem_cons.mp hfloors
    have hrest : 0 ≤ (LargestRemainder.floors vs).sum := by
      apply List.sum_nonneg
      intro p hp
      obtain ⟨w, hw, rfl⟩ := List.mem_map.mp hp
      exact (hvs w hw).1
    have hcons : LargestRemainder.floors (v :: vs) = ⌊v⌋ :: LargestRemainder.floors vs := rfl
    rw [hcons, List.sum_cons] at hsum
    refine ensures_bind.mpr (ensures_int32 (by omega) hv.2 fun point hpoint => ?_)
    refine ensures_bind.mpr (ensures_int64 (by omega) (by omega) fun next hnext => ?_)
    refine Ensures.bind (ih hvs (by omega) (by omega)) ?_
    rintro ⟨points, last⟩ ⟨hpoints, hlast⟩
    refine ensures_pure.mpr ⟨?_, ?_⟩
    · rw [hcons, List.map_cons, hpoint, hpoints]
    · rw [hcons, List.sum_cons, hlast]
      omega

end Rounding

section Whole

variable {α : Type*} [Field α] [LinearOrder α] [FloorRing α] [IsStrictOrderedRing α]
  {F : ε → Prop} {values : List α} {total : ℤ} {count mean_load max_point : Int32}

theorem ensures_targetTotalInts (hcount : 0 ≤ count.toInt) (htotal : 0 ≤ total)
    (hfits : total < 2 ^ 31) :
    Ensures (fun target : Int64 =>
        target.toInt = targetTotal (total : α) count.toInt.toNat max_point.toInt)
      F (targetTotalInts (total : α) count max_point) := by
  unfold targetTotalInts
  rw [targetTotal_intCast, Round.lround_intCast, Int.toNat_of_nonneg hcount]
  refine ensures_bind.mpr (ensures_int64 (by omega) (by omega) fun target htarget => ?_)
  split_ifs with hcap
  · -- two ints have a product that is a `long long`
    have hcount' := count.toInt_lt
    have hmax' := max_point.toInt_lt
    have hproduct : 0 ≤ max_point.toInt * count.toInt ∧
        max_point.toInt * count.toInt < 2 ^ 63 := ⟨by positivity, by nlinarith⟩
    refine ensures_bind.mpr (ensures_int64 (by omega) hproduct.2 fun fits hcapped => ?_)
    refine ensures_pure.mpr ?_
    split_ifs <;> omega
  · exact ensures_pure.mpr htarget

/-- Rounding to a total that is an `int` takes no place out of its range. -/
theorem points_lt_of_readyToRound (h : ReadyToRound values total max_point.toInt)
    (hfits : total < 2 ^ 31) :
    (∀ v ∈ values, 0 ≤ ⌊v⌋ ∧ ⌊v⌋ < 2 ^ 31) ∧
      (LargestRemainder.floors values).sum < 2 ^ 31 ∧
      ∀ p ∈ LargestRemainder.round (atCap max_point.toInt)
        (targetTotal (total : α) values.length max_point.toInt) values, p < 2 ^ 31 := by
  have htarget : targetTotal (total : α) values.length max_point.toInt ≤ total := by
    rw [targetTotal_intCast]
    split_ifs
    · exact min_le_left _ _
    · exact le_rfl
  have hfloor : ∀ v ∈ values, 0 ≤ ⌊v⌋ := fun v hv => Int.floor_nonneg.mpr (h.pos v hv).le
  have hfloors : (LargestRemainder.floors values).sum < 2 ^ 31 :=
    (sum_floors_le_target h).trans_lt (htarget.trans_lt hfits)
  obtain ⟨hpoints, hsum⟩ := round_of_readyToRound h
  refine ⟨fun v hv => ⟨hfloor v hv, ?_⟩, hfloors, fun p hp => ?_⟩
  · have hnonneg : ∀ p ∈ LargestRemainder.floors values, 0 ≤ p := by
      intro p hp
      obtain ⟨w, hw, rfl⟩ := List.mem_map.mp hp
      exact hfloor w hw
    exact (List.single_le_sum hnonneg _ (List.mem_map_of_mem hv)).trans_lt hfloors
  · have hle := List.single_le_sum (fun q hq => (hpoints q hq).1) p hp
    omega

/-- **The ints of a schedule.** If its total is an `int`, nothing overflows and
the points are the exact ones. -/
theorem ensures_buildNormalSchedulePointsInts {dist : NormalDistribution α} {central_mass : α}
    (hcount : 1 ≤ count.toInt)
    (hmass : ∀ m ∈ binMasses dist count.toInt.toNat central_mass, 0 < m)
    (hfits : mean_load.toInt * count.toInt < 2 ^ 31) :
    Ensures (fun points : List Int32 => points.map Int32.toInt =
        buildNormalSchedulePoints dist count.toInt central_mass mean_load.toInt max_point.toInt)
      F (buildNormalSchedulePointsInts dist count central_mass mean_load max_point) := by
  obtain ⟨n, hn⟩ : ∃ n : ℕ, count.toInt = n := ⟨count.toInt.toNat, by omega⟩
  unfold buildNormalSchedulePointsInts buildNormalSchedulePoints
  simp only [hn, Int.toNat_natCast] at hcount hmass hfits ⊢
  split_ifs with hnone hidle
  · omega
  · refine ensures_pure.mpr ?_
    rw [List.map_replicate]
    rfl
  have hne : binMasses dist n central_mass ≠ [] := by
    rw [← List.length_pos_iff, length_binMasses]
    omega
  have hready := readyToRound_scaleMasses max_point.toInt (by omega : 1 ≤ mean_load.toInt) hne hmass
  rw [length_binMasses] at hready
  generalize hscaled : scaleMasses (binMasses dist n central_mass) mean_load.toInt = scaled
    at hready ⊢
  have hlen : scaled.length = n := by rw [← hscaled, length_scaleMasses, length_binMasses]
  obtain ⟨hfloors, hsum, hpoints⟩ := points_lt_of_readyToRound hready hfits
  rw [length_fillUnderCap, hlen] at hpoints
  have htotal : (mean_load.toInt * (n : α)) = ((mean_load.toInt * n : ℤ) : α) := by push_cast; rfl
  simp only [hlen, htotal]
  have hzero : (0 : Int64).toInt = 0 := rfl
  refine Ensures.bind (ensures_floorInts hfloors hzero.ge (by omega)) ?_
  rintro ⟨points, assigned⟩ ⟨hpoints', hassigned⟩
  have hnonneg : 0 ≤ mean_load.toInt * n := mul_nonneg (by omega) (by omega)
  refine Ensures.bind (ensures_targetTotalInts (by omega) hnonneg hfits) fun target htarget => ?_
  rw [hn, Int.toNat_natCast] at htarget
  have hhanded : LargestRemainder.handOut (atCap max_point.toInt) target.toInt
      (LargestRemainder.remainderOrder (fillUnderCap scaled max_point.toInt))
      (points.map Int32.toInt) assigned.toInt =
        LargestRemainder.round (atCap max_point.toInt)
          (targetTotal ((mean_load.toInt * n : ℤ) : α) n max_point.toInt)
          (fillUnderCap scaled max_point.toInt) := by
    rw [LargestRemainder.round, htarget, hpoints', hassigned, hzero, zero_add]
  rw [← hhanded] at hpoints ⊢
  refine ensures_handOutInts LargestRemainder.nodup_remainderOrder (fun i hi => ?_) hpoints
  have hrange := LargestRemainder.lt_of_mem_remainderOrder hi
  rwa [← hpoints', List.length_map] at hrange

end Whole

end Loadmaster.Util
