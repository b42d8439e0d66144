/-
Where the load controller keeps moving (`cpu/load_controller.cc`), in doubles.

The integral is meant to be frozen only while the output is pinned at the rail the error
pushes towards. The code decides it on the output that the new integral would give, and
then computes the demand from the old one, so there is a gap just short of the rail: in
it the integral stays and the demand is off the rail as well. An error so small that
rounding loses it moves nothing either. `keepsMoving_iff` says exactly where.
-/
import Loadmaster.Cpu.LoadControllerDouble

set_option autoImplicit false

namespace Loadmaster.Cpu

open Binary64 Double Number

namespace LoadController

/-! ## Moving, or at the rail -/

/-- An error moves the integral its way, unless the demand is at the rail or
the integral at its bound there. -/
def KeepsMoving (lround : Double → ℤ) (c : LoadController Double) (r : Reading Double) : Prop :=
  (0 < r.error →
    c.demand lround r = r.capacity ∨ c.integral < (c.next r).integral ∨
      (r.capacity : Double) ≤ c.integral) ∧
  (r.error < 0 →
    c.demand lround r = 0 ∨ (c.next r).integral < c.integral ∨
      c.integral ≤ -(r.capacity : Double))

instance (lround : Double → ℤ) (c : LoadController Double) (r : Reading Double) :
    Decidable (c.KeepsMoving lround r) :=
  inferInstanceAs (Decidable (_ ∧ _))

/-- The integral is at its bound; or nothing is frozen, and there is something to move;
or the output is at the rail with the integral as it is. Of a NaN it is not known what
`lround` makes. -/
def OutsideGap (lround : Double → ℤ) (c : LoadController Double) (r : Reading Double) : Prop :=
  (0 < r.error →
    (r.capacity : Double) ≤ c.integral ∨
    (¬ (r.capacity : Double) < c.raw r ∧
      (c.integral < c.candidate r ∨ c.integral < -(r.capacity : Double))) ∨
    boundary r.capacity ≤ r.feedforward + c.integral ∨
    (c.integral = nan ∧ lround nan = r.capacity)) ∧
  (r.error < 0 →
    c.integral ≤ -(r.capacity : Double) ∨
    (¬ c.raw r < 0 ∧
      (c.candidate r < c.integral ∨ (r.capacity : Double) < c.integral)) ∨
    r.feedforward + c.integral < boundary 1 ∨
    (c.integral = nan ∧ lround nan = 0))

variable {c : LoadController Double} {r : Reading Double} {outside : Double → Int64}

/-- An integral that is within its bounds is left as it is. -/
theorem clamp_eq_self {i lo hi : Value} (hlo : ¬ finite i < finite lo)
    (hhi : ¬ finite hi < finite i) :
    Round.clamp (finite i) (finite lo) (finite hi) = finite i := by
  unfold Round.clamp
  rw [if_neg hlo, if_neg hhi]

/-- **The upper half.** Frozen, the integral stays and only a rail can help; not frozen,
it moves unless the sum is rounded back to it, and then again only a rail is left. -/
theorem moves_up_iff (hc : c.Bounded) (hint : r.IsInt) (hcap : 0 < r.capacity)
    (he : 0 < r.error) :
    (c.demand (lroundInt outside) r = r.capacity ∨ c.integral < (c.next r).integral ∨
        (r.capacity : Double) ≤ c.integral) ↔
      ((r.capacity : Double) ≤ c.integral ∨
        (¬ (r.capacity : Double) < c.raw r ∧
          (c.integral < c.candidate r ∨ c.integral < -(r.capacity : Double))) ∨
        boundary r.capacity ≤ r.feedforward + c.integral ∨
        (c.integral = nan ∧ lroundInt outside nan = r.capacity)) := by
  rcases candidate_cases hc r with ⟨hnan, hcand⟩ | ⟨i, s, hi, hs⟩
  · -- the NaN is the integral: an error that is one is not positive
    have hnumber : c.integral = nan := by
      refine hnan.resolve_right fun hs => ?_
      rw [Reading.error, hs, sub_nan] at he
      exact not_lt_nan he
    simp [demand_of_nan hcap hcand, next_of_nan hcap hcand, hnumber, hcand]
  have hfinite : c.integral ≠ nan := by simp [hi]
  by_cases hsat : c.saturated r
  · -- frozen: only the rail of the integral or that of the demand can help
    have hnext := next_of_saturated hcap hsat
    have hover : (r.capacity : Double) < c.raw r :=
      (hsat.resolve_right fun h => Double.not_lt_of_lt he h.2).1
    rw [demand_eq_capacity_iff outside hint hcap (by rw [hnext]; exact hi), hnext]
    simp only [Double.not_lt_self, hover, hfinite, not_true_eq_false, false_and, false_or, or_false]
    exact or_comm
  · -- not frozen: it moves, unless it is at its bound already or rounding loses the error
    have hroom : ¬ (r.capacity : Double) < c.raw r := fun h => hsat (.inl ⟨h, he⟩)
    obtain ⟨lo, top, x, hlo, htop, hlt, hcand, hnext, hup, -⟩ := exists_moved hi hs hint hcap hsat
    rw [hcand]
    by_cases hbound : finite top ≤ finite i
    · have hcapacity : (r.capacity : Double) ≤ c.integral := by
        rw [htop, hi]
        exact hbound
      exact iff_of_true (.inr (.inr hcapacity)) (.inl hcapacity)
    by_cases hmove : finite i < x ∨ finite i < finite lo
    · have hmoves : c.integral < (c.next r).integral := by
        rw [hnext, hi, number_lt_number, Round.clamp_eq hlt.le, lt_max_iff, lt_min_iff]
        exact hmove.symm.imp_right fun h => ⟨h, not_le.mp hbound⟩
      refine iff_of_true (.inr (.inl hmoves)) (.inr (.inl ⟨hroom, ?_⟩))
      rw [hi, hlo]
      exact hmove
    · have hsame : x = finite i := le_antisymm (not_lt.mp fun h => hmove (.inl h)) (hup he)
      have hstays : (c.next r).integral = c.integral := by
        rw [hnext, hsame, clamp_eq_self (fun h => hmove (.inr h)) (fun h => hbound h.le), hi]
      rw [demand_eq_capacity_iff outside hint hcap (by rw [hstays]; exact hi), hstays]
      have hnot : ¬ (c.integral < number x ∨ c.integral < -(r.capacity : Double)) := by
        rw [hi, hlo]
        exact hmove
      simp only [Double.not_lt_self, hnot, hfinite, and_false, false_and, false_or, or_false]
      exact or_comm

/-- **The lower half**, with the rails the other way round. -/
theorem moves_down_iff (hc : c.Bounded) (hint : r.IsInt) (hcap : 0 < r.capacity)
    (he : r.error < 0) :
    (c.demand (lroundInt outside) r = 0 ∨ (c.next r).integral < c.integral ∨
        c.integral ≤ -(r.capacity : Double)) ↔
      (c.integral ≤ -(r.capacity : Double) ∨
        (¬ c.raw r < 0 ∧
          (c.candidate r < c.integral ∨ (r.capacity : Double) < c.integral)) ∨
        r.feedforward + c.integral < boundary 1 ∨
        (c.integral = nan ∧ lroundInt outside nan = 0)) := by
  rcases candidate_cases hc r with ⟨hnan, hcand⟩ | ⟨i, s, hi, hs⟩
  · have hnumber : c.integral = nan := by
      refine hnan.resolve_right fun hs => ?_
      rw [Reading.error, hs, sub_nan] at he
      exact not_nan_lt he
    simp [demand_of_nan hcap hcand, next_of_nan hcap hcand, hnumber, hcand]
  have hfinite : c.integral ≠ nan := by simp [hi]
  by_cases hsat : c.saturated r
  · -- the same at the other rail
    have hnext := next_of_saturated hcap hsat
    have hunder : c.raw r < 0 := (hsat.resolve_left fun h => Double.not_lt_of_lt he h.2).1
    rw [demand_eq_zero_iff outside hint hcap (by rw [hnext]; exact hi), hnext]
    simp only [Double.not_lt_self, hunder, hfinite, not_true_eq_false, false_and, false_or,
      or_false]
    exact or_comm
  · have hroom : ¬ c.raw r < 0 := fun h => hsat (.inr ⟨h, he⟩)
    obtain ⟨lo, top, x, hlo, htop, hlt, hcand, hnext, -, hdown⟩ :=
      exists_moved hi hs hint hcap hsat
    rw [hcand]
    by_cases hbound : finite i ≤ finite lo
    · have hcapacity : c.integral ≤ -(r.capacity : Double) := by
        rw [hlo, hi]
        exact hbound
      exact iff_of_true (.inr (.inr hcapacity)) (.inl hcapacity)
    by_cases hmove : x < finite i ∨ finite top < finite i
    · have hmoves : (c.next r).integral < c.integral := by
        rw [hnext, hi, number_lt_number, Round.clamp_eq hlt.le, max_lt_iff, min_lt_iff]
        exact ⟨not_le.mp hbound, hmove⟩
      refine iff_of_true (.inr (.inl hmoves)) (.inr (.inl ⟨hroom, ?_⟩))
      rw [hi, htop]
      exact hmove
    · have hsame : x = finite i := le_antisymm (hdown he) (not_lt.mp fun h => hmove (.inl h))
      have hstays : (c.next r).integral = c.integral := by
        rw [hnext, hsame, clamp_eq_self (fun h => hbound h.le) (fun h => hmove (.inr h)), hi]
      rw [demand_eq_zero_iff outside hint hcap (by rw [hstays]; exact hi), hstays]
      have hnot : ¬ (number x < c.integral ∨ (r.capacity : Double) < c.integral) := by
        rw [hi, htop]
        exact hmove
      simp only [Double.not_lt_self, hnot, hfinite, and_false, false_and, false_or, or_false]
      exact or_comm

/-- **Where the controller keeps moving**, exactly, from any integral that an update can
leave. -/
theorem keepsMoving_iff (hc : c.Bounded) (hint : r.IsInt) (hcap : 0 < r.capacity) :
    c.KeepsMoving (lroundInt outside) r ↔ c.OutsideGap (lroundInt outside) r :=
  and_congr (imp_congr_right fun he => moves_up_iff hc hint hcap he)
    (imp_congr_right fun he => moves_down_iff hc hint hcap he)

/-- **In every run** of a fresh controller, an update keeps moving exactly when it is
outside the gap, whatever the averages are and whatever `lround` makes of a NaN. The
integral stays finite or a NaN (`bounded_in_run`), so apart from the NaN every
comparison is one of rounded numbers, and the cases are those of the freeze
(`moves_up_iff`, `moves_down_iff`). -/
theorem keepsMoving_in_run (outside : Double → Int64) {rs : List (Reading Double)}
    (hint : ∀ r ∈ rs, r.IsInt) (hcap : ∀ r ∈ rs, 0 < r.capacity) {k : ℕ} (hr : rs[k]? = some r) :
    (Run.before next {} rs k).KeepsMoving (lroundInt outside) r ↔
      (Run.before next {} rs k).OutsideGap (lroundInt outside) r :=
  keepsMoving_iff (bounded_in_run hint k) (hint r (List.mem_of_getElem? hr))
    (hcap r (List.mem_of_getElem? hr))

/-- Another process burns 1, nothing of 100 has been burnt yet, and all of 100
is asked for: one tick with the new integral would be over the capacity. -/
def stallingReading : Reading Double :=
  { target := 100, system_avg := ((1 : ℚ) : Double), process_avg := 0, capacity := 100 }

theorem keepsMoving_in_run_stalling :
    (Run.before next {} [stallingReading, stallingReading] 1).KeepsMoving
        (lroundInt fun _ => 0) stallingReading ↔
      (Run.before next {} [stallingReading, stallingReading] 1).OutsideGap
        (lroundInt fun _ => 0) stallingReading :=
  keepsMoving_in_run _ (by decide) (by decide) rfl

/-- The demand stays at 99 and the integral at 0. -/
theorem stalls_below_capacity :
    stallingReading.error = ((99 : ℚ) : Double) ∧
      LoadController.demand (lroundInt fun _ => 0) {} stallingReading = 99 ∧
      LoadController.next {} stallingReading = {} ∧
      ¬ ({} : LoadController Double).KeepsMoving (lroundInt fun _ => 0) stallingReading := by
  decide +kernel

end LoadController

end Loadmaster.Cpu
