/-
What the load controller demands for two targets (`cpu/load_controller.cc`), in
doubles.

For a higher target the feedforward and the candidate integral are both higher, or
the same: rounding is monotone. The freeze takes its step back, though: from the target
on at which the candidate output is over the capacity, the demand is computed with the
integral as it was. Just beyond that target the output is lower than just before it, and
the demand with it where a rounding boundary lies in between.
-/
import Loadmaster.Cpu.LoadControllerDouble

set_option autoImplicit false

namespace Loadmaster.Cpu

open Binary64 Double Number

/-- The same reading under another target. -/
def Reading.withTarget (r : Reading Double) (target : ℤ) : Reading Double :=
  { r with target := target }

namespace LoadController

/-- No boundary of a demand lies above `y` and not above `x`. -/
def NoneBetween (capacity : ℤ) (y x : Double) : Prop :=
  ∀ k : ℤ, 1 ≤ k → k ≤ capacity → ¬ (y < boundary k ∧ boundary k ≤ x)

/-- The output with the integral as it is. -/
def frozenOutput (c : LoadController Double) (r : Reading Double) : Double :=
  r.feedforward + c.integral

/-- The output with the integral that the error asks for. -/
def movedOutput (c : LoadController Double) (r : Reading Double) : Double :=
  r.feedforward + Round.clamp (c.candidate r) (-(r.capacity : Double)) r.capacity

/-- **No step back**: where the freeze begins or ends between the two targets,
no rounding boundary lies between the outputs the wrong way round. -/
structure NoStepBack (c : LoadController Double) (r : Reading Double) (target : ℤ) : Prop where
  freezing : ¬ c.saturated r → c.saturated (r.withTarget target) →
    NoneBetween r.capacity (c.frozenOutput (r.withTarget target)) (c.movedOutput r)
  thawing : c.saturated r → ¬ c.saturated (r.withTarget target) →
    NoneBetween r.capacity (c.movedOutput (r.withTarget target)) (c.frozenOutput r)

variable {c : LoadController Double} {r : Reading Double} {target : ℤ}
  {outside : Double → Int64}

/-- The output that is rounded to the demand, by whether the integral is frozen or
moves. -/
theorem output_of_saturated (hcap : 0 < r.capacity) (h : c.saturated r) :
    r.feedforward + (c.next r).integral = c.frozenOutput r := by
  rw [next_of_saturated hcap h, frozenOutput]

theorem output_of_not_saturated (hcap : 0 < r.capacity) (h : ¬ c.saturated r) :
    r.feedforward + (c.next r).integral = c.movedOutput r := by
  rw [integral_next hcap h, movedOutput]

/-! ## A higher target -/

section Higher

variable {i : Value} {s : Number}

/-- The feedforward is one rounded difference from the target, so it does not fall with
it. -/
theorem feedforward_mono (hint : r.IsInt) (hint' : (r.withTarget target).IsInt)
    (hle : r.target ≤ target) :
    ∃ f f', r.feedforward = number f ∧ (r.withTarget target).feedforward = number f' ∧
      f ≤ f' := by
  obtain ⟨o, ho⟩ := r.exists_other
  exact ⟨_, _, hint.feedforward_eq ho, hint'.feedforward_eq ho,
    subFrom_mono (by exact_mod_cast hle)⟩

/-- With the same integral the outputs are in the order of the feedforwards. -/
theorem frozenOutput_mono (hint : r.IsInt) (hint' : (r.withTarget target).IsInt)
    (hle : r.target ≤ target) (hi : c.integral = number (finite i)) :
    c.frozenOutput r ≤ c.frozenOutput (r.withTarget target) := by
  obtain ⟨f, f', hf, hf', hff⟩ := feedforward_mono hint hint' hle
  rw [frozenOutput, frozenOutput, hf, hf', hi, number_add_finite, number_add_finite]
  exact addFinite_mono hff le_rfl

/-- The moved integral is finite, and not lower for a higher target. -/
theorem movedOutput_mono (hint : r.IsInt) (hint' : (r.withTarget target).IsInt)
    (hcap : 0 < r.capacity) (hle : r.target ≤ target) (hi : c.integral = number (finite i))
    (hs : r.system_avg = number s) :
    c.movedOutput r ≤ c.movedOutput (r.withTarget target) := by
  obtain ⟨f, f', hf, hf', hff⟩ := feedforward_mono hint hint' hle
  obtain ⟨lo, top, hlo, htop, hlt⟩ := exists_bounds hcap hint.capacity_lt
  have hs' : (r.withTarget target).system_avg = number s := hs
  have hcapacity : (r.withTarget target).capacity = r.capacity := rfl
  rw [movedOutput, movedOutput, hf, hf', candidate_eq_number hi (hint.error_eq hs),
    candidate_eq_number hi (hint'.error_eq hs'), hcapacity, hlo, htop, clamp_number, clamp_number]
  have htargets : (r.target : ℚ) ≤ target := by exact_mod_cast hle
  have hmono := Round.clamp_le_clamp hlt.le (addFinite_mono (q := i.val)
    (scale_mono ki_pos.le (subFrom_mono (x := s) htargets)) le_rfl)
  obtain ⟨hge, hup⟩ :=
    Round.clamp_mem (x := (scale ki.val (subFrom r.target s)).addFinite i.val) hlt.le
  obtain ⟨hge', hup'⟩ :=
    Round.clamp_mem (x := (scale ki.val (subFrom target s)).addFinite i.val) hlt.le
  obtain ⟨j, hj⟩ := exists_finite hge hup
  obtain ⟨j', hj'⟩ := exists_finite hge' hup'
  have htarget : (r.withTarget target).target = target := rfl
  rw [htarget, hj, hj', number_add_finite, number_add_finite]
  rw [hj, hj'] at hmono
  exact addFinite_mono hff (finite_le_finite.mp hmono)

end Higher

/-! ## Rounding -/

/-- Two demands, by the boundaries between their outputs. -/
theorem demand_le_iff {r' : Reading Double} {j j' : Value} (hint : r.IsInt) (hint' : r'.IsInt)
    (hcap : 0 < r.capacity) (hsame : r'.capacity = r.capacity)
    (hj : (c.next r).integral = number (finite j))
    (hj' : (c.next r').integral = number (finite j')) :
    c.demand (lroundInt outside) r ≤ c.demand (lroundInt outside) r' ↔
      NoneBetween r.capacity (r'.feedforward + (c.next r').integral)
        (r.feedforward + (c.next r).integral) := by
  have hcap' : 0 < r'.capacity := hsame ▸ hcap
  have hiff := fun {k : ℤ} => le_demand_iff (k := k) outside hint hcap hj
  have hiff' := fun {k : ℤ} => le_demand_iff (k := k) outside hint' hcap' hj'
  obtain ⟨x', hout', -⟩ := demand_eq_of_finite outside hint' hcap' hj'
  constructor
  · rintro hle k hk hkcap ⟨hbelow, habove⟩
    have hreached := ((hiff hk hkcap).mpr habove).trans hle
    exact Double.not_lt_of_le ((hiff' hk (hsame ▸ hkcap)).mp hreached) hbelow
  · intro hnone
    obtain ⟨hlo, hhi⟩ := demand_double_mem outside hint hcap hj
    by_contra hlt
    -- the boundary of the higher demand itself lies between
    have hpos : 1 ≤ c.demand (lroundInt outside) r := by
      have := (demand_double_mem outside hint' hcap' hj').1
      omega
    refine hnone _ hpos hhi ⟨?_, (hiff hpos hhi).mp le_rfl⟩
    have hnot := (not_congr (hiff' hpos (hsame ▸ hhi))).mp hlt
    obtain ⟨b, -, hb⟩ := exists_boundary (by omega)
      (lt_of_le_of_lt hhi hint.capacity_lt)
    rw [hb, hout', number_le_number, not_le] at hnot
    rw [hb, hout']
    exact hnot

/-! ## The exact condition -/

/-- Outputs in the right order have no boundary between them the wrong way round. -/
theorem noneBetween_of_le {capacity : ℤ} {x y : Double} (h : x ≤ y) : NoneBetween capacity y x := by
  rintro k - - ⟨hy, hx⟩
  exact Double.not_lt_of_le (Double.le_trans hx h) hy

/-- Without a candidate that is a number, the target makes no difference. -/
theorem nan_withTarget (target : ℤ) (hnan : c.integral = nan ∨ r.system_avg = nan) :
    c.candidate (r.withTarget target) = nan := by
  rcases hnan with hi | hs
  · rw [candidate, hi, nan_add]
  · have hs' : (r.withTarget target).system_avg = nan := hs
    rw [candidate, Reading.error, hs', sub_nan, mul_nan, add_nan]

/-- **Two targets from one state**: the higher one does not get less exactly
when there is no step back between them. -/
theorem demand_le_withTarget_iff (hc : c.Bounded) (hint : r.IsInt)
    (hint' : (r.withTarget target).IsInt) (hcap : 0 < r.capacity) (hle : r.target ≤ target) :
    c.demand (lroundInt outside) r ≤ c.demand (lroundInt outside) (r.withTarget target) ↔
      c.NoStepBack r target := by
  have hsame : (r.withTarget target).capacity = r.capacity := rfl
  have hcap' : 0 < (r.withTarget target).capacity := hcap
  rcases candidate_cases hc r with ⟨hnan, hcand⟩ | ⟨i, s, hi, hs⟩
  · have hcand' := nan_withTarget target hnan
    rw [demand_of_nan hcap hcand, demand_of_nan hcap' hcand']
    exact iff_of_true le_rfl ⟨fun _ h => absurd h (not_saturated_of_nan hcand'),
      fun h => absurd h (not_saturated_of_nan hcand)⟩
  obtain ⟨j, hj⟩ := exists_next hi hs hint hcap
  obtain ⟨j', hj'⟩ := exists_next (r := r.withTarget target) hi hs hint' hcap'
  rw [demand_le_iff hint hint' hcap hsame hj hj']
  by_cases hsat : c.saturated r
  · rw [output_of_saturated hcap hsat]
    by_cases hsat' : c.saturated (r.withTarget target)
    · -- both frozen, so only the feedforward differs
      rw [output_of_saturated hcap' hsat']
      exact iff_of_true (noneBetween_of_le (frozenOutput_mono hint hint' hle hi))
        ⟨fun h => absurd hsat h, fun _ h => absurd hsat' h⟩
    · rw [output_of_not_saturated hcap' hsat']
      exact ⟨fun h => ⟨fun hnot => absurd hsat hnot, fun _ _ => h⟩, fun h => h.thawing hsat hsat'⟩
  · rw [output_of_not_saturated hcap hsat]
    by_cases hsat' : c.saturated (r.withTarget target)
    · rw [output_of_saturated hcap' hsat']
      exact ⟨fun h => ⟨fun _ _ => h, fun hnot => absurd hnot hsat⟩, fun h => h.freezing hsat hsat'⟩
    · rw [output_of_not_saturated hcap' hsat']
      exact iff_of_true (noneBetween_of_le (movedOutput_mono hint hint' hcap hle hi hs))
        ⟨fun _ h => absurd h hsat', fun h => absurd h hsat⟩

/-- **In every run** of a fresh controller, the next update asked for more does not
demand less exactly when there is no step back. Rounding is monotone, so two updates
that are both frozen, or both are not, keep the order of their targets
(`frozenOutput_mono`, `movedOutput_mono`); what is left is that one of them is frozen
and the other is not. -/
theorem demand_mono_in_run (outside : Double → Int64) {rs : List (Reading Double)} {k : ℕ}
    (hrun : ∀ r ∈ rs, r.IsInt) (hint : r.IsInt) (hint' : (r.withTarget target).IsInt)
    (hcap : 0 < r.capacity) (hle : r.target ≤ target) :
    (Run.before next {} rs k).demand (lroundInt outside) r ≤
        (Run.before next {} rs k).demand (lroundInt outside) (r.withTarget target) ↔
      (Run.before next {} rs k).NoStepBack r target :=
  demand_le_withTarget_iff (bounded_in_run hrun k) hint hint' hcap hle

/-- An idle machine of four cores and a target that is just not frozen: with the
new integral the output is about 399.84. -/
def lastBeforeFreeze : Reading Double :=
  { target := 392, system_avg := 0, process_avg := 0, capacity := 400 }

theorem demand_mono_in_run_again :
    (Run.before next {} [lastBeforeFreeze] 1).demand (lroundInt fun _ => 0) lastBeforeFreeze ≤
        (Run.before next {} [lastBeforeFreeze] 1).demand (lroundInt fun _ => 0)
          (lastBeforeFreeze.withTarget 393) ↔
      (Run.before next {} [lastBeforeFreeze] 1).NoStepBack lastBeforeFreeze 393 :=
  have hrun : ∀ r ∈ [lastBeforeFreeze], r.IsInt := by decide
  demand_mono_in_run _ hrun (by decide) (by decide) (by decide) (by decide)

/-- One more is asked for, and seven less are demanded. -/
theorem demands_less_for_more :
    LoadController.demand (lroundInt fun _ => 0) {} lastBeforeFreeze = 400 ∧
      LoadController.demand (lroundInt fun _ => 0) {} (lastBeforeFreeze.withTarget 393) = 393 ∧
      ¬ LoadController.demand (lroundInt fun _ => 0) {} lastBeforeFreeze ≤
        LoadController.demand (lroundInt fun _ => 0) {} (lastBeforeFreeze.withTarget 393) := by
  decide +kernel

end LoadController

end Loadmaster.Cpu
