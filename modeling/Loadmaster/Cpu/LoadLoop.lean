/-
The control loop around the load controller (`cpu/load_controller.cc`), in
exact arithmetic: a machine with a constant load of others and workers that
deliver a biased share of what is demanded of them.

The demand is rounded, so the error itself is not a contraction. What is one is
the error that the demand would leave without being rounded: with `Ki * eta` for
`a`, a tick takes it to `1 - a` times itself plus `a` times the rounding error
of the load. The error is within that rounding error of it, which `eta / 2`
bounds.
-/
import Loadmaster.Lib.Contraction
import Loadmaster.Cpu.LoadController

set_option autoImplicit false

namespace Loadmaster.Cpu

/-! ## The loop -/

/-- Others load the machine with `other`; the workers deliver `eta` times the
demand, and `bias` on top. -/
structure Machine where
  target : ℤ
  capacity : ℤ
  other : ℚ
  eta : ℚ
  bias : ℚ
  other_nonneg : 0 ≤ other
  eta_pos : 0 < eta
  eta_le_one : eta ≤ 1

/-- The controller after an `Update`, and the demand it returned. -/
structure LoopState where
  controller : LoadController ℚ
  demand : ℤ
deriving DecidableEq, Repr

namespace Machine

variable (m : Machine)

def delivered (demand : ℤ) : ℚ := m.eta * demand + m.bias

/-- What an `Update` reads while this process delivers `process`. -/
def reading (process : ℚ) : Reading ℚ where
  target := m.target
  system_avg := m.other + process
  process_avg := process
  capacity := m.capacity

def update (c : LoadController ℚ) (process : ℚ) : LoopState where
  controller := c.next (m.reading process)
  demand := c.demand Round.lround (m.reading process)

/-- What the next `Update` reads. -/
def nextReading (s : LoopState) : Reading ℚ := m.reading (m.delivered s.demand)

def tick (s : LoopState) : LoopState := m.update s.controller (m.delivered s.demand)

/-- `k` ticks after an `Update` at a process load of `process`. -/
def run (c : LoadController ℚ) (process : ℚ) (k : ℕ) : LoopState := m.tick^[k] (m.update c process)

/-- How far the system load is below the target. -/
def error (s : LoopState) : ℚ := m.target - (m.other + m.delivered s.demand)

end Machine

namespace LoadController

/-- The demand is the output, rounded. Without capacity the demand is 0 whatever
the output is, so that is clamped as well. -/
structure Unclamped (c : LoadController ℚ) (r : Reading ℚ) : Prop where
  capacity_pos : 0 < r.capacity
  output_nonneg : 0 ≤ r.feedforward + (c.next r).integral
  output_le : r.feedforward + (c.next r).integral ≤ r.capacity

/-- An `Update` that neither freezes the integral nor clamps anything. -/
structure Free (c : LoadController ℚ) (r : Reading ℚ) : Prop extends c.Unclamped r where
  unsaturated : ¬ c.saturated r
  integral_ge : -r.capacity ≤ c.candidate r
  integral_le : c.candidate r ≤ r.capacity

instance (c : LoadController ℚ) (r : Reading ℚ) : Decidable (c.Unclamped r) :=
  decidable_of_iff
    (0 < r.capacity ∧ 0 ≤ r.feedforward + (c.next r).integral ∧
      r.feedforward + (c.next r).integral ≤ r.capacity)
    ⟨fun ⟨h1, h2, h3⟩ => ⟨h1, h2, h3⟩, fun ⟨h1, h2, h3⟩ => ⟨h1, h2, h3⟩⟩

instance (c : LoadController ℚ) (r : Reading ℚ) : Decidable (c.Free r) :=
  decidable_of_iff
    (c.Unclamped r ∧ ¬ c.saturated r ∧ -r.capacity ≤ c.candidate r ∧ c.candidate r ≤ r.capacity)
    ⟨fun ⟨h1, h2, h3, h4⟩ => ⟨h1, h2, h3, h4⟩, fun ⟨h1, h2, h3, h4⟩ => ⟨h1, h2, h3, h4⟩⟩

variable {c : LoadController ℚ} {r : Reading ℚ}

theorem Unclamped.demand_sub_le (h : c.Unclamped r) :
    |(c.demand Round.lround r : ℚ) - (r.feedforward + (c.next r).integral)| ≤ 1 / 2 := by
  have hcap : (0 : ℚ) ≤ r.capacity := by exact_mod_cast h.capacity_pos.le
  have hclamp : Round.clamp (r.feedforward + (c.next r).integral) 0 (r.capacity : ℚ)
      = r.feedforward + (c.next r).integral := by
    rw [Round.clamp_eq hcap, min_eq_left h.output_le, max_eq_right h.output_nonneg]
  rw [demand_eq h.capacity_pos, hclamp]
  exact Round.abs_lround_sub_le h.output_nonneg

theorem Free.integral_next_eq (h : c.Free r) :
    (c.next r).integral = c.integral + kCpuLoadControllerKi * r.error := by
  have hcap : (0 : ℚ) ≤ r.capacity := by exact_mod_cast h.capacity_pos.le
  rw [integral_next h.capacity_pos h.unsaturated, Round.clamp_eq (by linarith),
    min_eq_left h.integral_le, max_eq_right h.integral_ge, candidate_eq]

end LoadController

namespace Machine

variable {m : Machine} {c : LoadController ℚ} {s : LoopState} {process : ℚ}

/-- What others take is seen as it is, whatever this process delivers. -/
theorem feedforward_reading : (m.reading process).feedforward = m.target - m.other := by
  have hother : m.other + process - process = m.other := by ring
  rw [Reading.feedforward_eq]
  unfold reading
  rw [hother, max_eq_right m.other_nonneg]

/-- The error that the demand would leave if it were not rounded. -/
def unrounded (m : Machine) (s : LoopState) : ℚ :=
  m.target - (m.other + (m.eta * (m.target - m.other + s.controller.integral) + m.bias))

/-- What rounding the demand does to the load delivered. -/
def rounding (m : Machine) (s : LoopState) : ℚ := m.unrounded s - m.error s

theorem error_eq : m.error s = m.unrounded s - m.rounding s := by
  unfold rounding
  ring

theorem rounding_update (h : c.Unclamped (m.reading process)) :
    |m.rounding (m.update c process)| ≤ m.eta / 2 := by
  have hdemand := h.demand_sub_le
  rw [feedforward_reading] at hdemand
  have heq : m.rounding (m.update c process) = m.eta * ((m.update c process).demand
      - (m.target - m.other + (m.update c process).controller.integral)) := by
    unfold rounding unrounded error delivered
    ring
  rw [heq, abs_mul, abs_of_pos m.eta_pos]
  calc m.eta * |((m.update c process).demand : ℚ)
          - (m.target - m.other + (m.update c process).controller.integral)|
      ≤ m.eta * (1 / 2) := mul_le_mul_of_nonneg_left hdemand m.eta_pos.le
    _ = m.eta / 2 := by ring

/-- **One tick.** -/
theorem unrounded_tick (h : s.controller.Free (m.nextReading s)) :
    m.unrounded (m.tick s) = (1 - kCpuLoadControllerKi * m.eta) * m.unrounded s
      + kCpuLoadControllerKi * m.eta * m.rounding s := by
  have hint : (m.tick s).controller.integral
      = s.controller.integral + kCpuLoadControllerKi * m.error s := h.integral_next_eq
  rw [error_eq] at hint
  have hnow : m.unrounded (m.tick s)
      = m.unrounded s - m.eta * ((m.tick s).controller.integral - s.controller.integral) := by
    unfold unrounded
    ring
  rw [hnow, hint]
  ring

/-- None of the first `k` ticks freezes or clamps anything. -/
def FreeRun (m : Machine) (c : LoadController ℚ) (process : ℚ) (k : ℕ) : Prop :=
  ∀ j < k, (m.run c process j).controller.Free (m.nextReading (m.run c process j))

theorem gain_pos : 0 < kCpuLoadControllerKi * m.eta :=
  mul_pos (by norm_num [kCpuLoadControllerKi]) m.eta_pos

theorem gain_lt_one : kCpuLoadControllerKi * m.eta < 1 := by
  have h := m.eta_le_one
  unfold kCpuLoadControllerKi
  linarith

theorem run_succ {k : ℕ} : m.run c process (k + 1) = m.tick (m.run c process k) :=
  Function.iterate_succ_apply' _ _ _

/-- Every demand of a free run is rounded by half a unit at most. -/
theorem rounding_run {k : ℕ} (hstart : c.Unclamped (m.reading process))
    (hfree : m.FreeRun c process k) :
    |m.rounding (m.run c process k)| ≤ m.eta / 2 := by
  cases k with
  | zero => exact rounding_update hstart
  | succ k =>
    rw [run_succ]
    exact rounding_update (hfree k (by omega)).toUnclamped

/-- The bound after `k` free ticks. -/
theorem abs_error_run_le {k : ℕ} (hstart : c.Unclamped (m.reading process))
    (hfree : m.FreeRun c process k) :
    |m.error (m.run c process k)| ≤
      (1 - kCpuLoadControllerKi * m.eta) ^ k * (|m.error (m.run c process 0)| + m.eta / 2)
        + m.eta := by
  have hgain := m.gain_pos.le
  have hgain1 := m.gain_lt_one.le
  have hround : ∀ j ≤ k, |m.rounding (m.run c process j)| ≤ m.eta / 2 := by
    intro j hj
    exact rounding_run hstart (fun i hi => hfree i (by omega))
  have hcontract : |m.unrounded (m.run c process k)| ≤
      (1 - kCpuLoadControllerKi * m.eta) ^ k * |m.unrounded (m.run c process 0)|
        + (1 - (1 - kCpuLoadControllerKi * m.eta) ^ k) * (m.eta / 2) := by
    apply Contraction.abs_le (x := fun j => m.unrounded (m.run c process j))
      (b := fun j => m.rounding (m.run c process j)) hgain hgain1
    · intro j hj
      rw [run_succ]
      exact unrounded_tick (hfree j hj)
    · intro j hj
      exact hround j hj.le
  -- the two errors are a rounding apart, at the start and at the end
  have hfirst : |m.unrounded (m.run c process 0)|
      ≤ |m.error (m.run c process 0)| + m.eta / 2 := by
    have htri := abs_add_le (m.error (m.run c process 0)) (m.rounding (m.run c process 0))
    have hr0 := hround 0 (Nat.zero_le k)
    rw [error_eq, sub_add_cancel, ← error_eq] at htri
    linarith
  have hlast : |m.error (m.run c process k)|
      ≤ |m.unrounded (m.run c process k)| + m.eta / 2 := by
    have htri := abs_sub (m.unrounded (m.run c process k)) (m.rounding (m.run c process k))
    have hrk := hround k le_rfl
    rw [← error_eq] at htri
    linarith
  have hpow : 0 ≤ (1 - kCpuLoadControllerKi * m.eta) ^ k :=
    pow_nonneg (sub_nonneg.mpr hgain1) k
  have hscaled := mul_le_mul_of_nonneg_left hfirst hpow
  have hrest := mul_nonneg hpow (show 0 ≤ m.eta / 2 by linarith [m.eta_pos])
  linarith

/-- The demand is an integer, so the errors are `eta` apart: one that is close
enough to `eta` is within it. -/
theorem exists_error_gap (m : Machine) :
    ∃ ε > 0, ∀ s, |m.error s| < ε + m.eta → |m.error s| ≤ m.eta := by
  have heta := m.eta_pos
  set y := (m.target - m.other - m.bias) / m.eta with hy
  obtain ⟨γ, hγ, hgap⟩ := Round.exists_gap y
  refine ⟨m.eta * γ, mul_pos heta hγ, ?_⟩
  intro s hs
  have herr : |m.error s| = m.eta * |y - s.demand| := by
    have heq : m.error s = m.eta * (y - s.demand) := by
      unfold error delivered
      rw [hy]
      field_simp
      ring
    rw [heq, abs_mul, abs_of_pos heta]
  rw [herr] at hs ⊢
  have hnear : |y - s.demand| < 1 + γ := by
    by_contra hfar
    have h := mul_le_mul_of_nonneg_left (not_lt.mp hfar) heta.le
    linarith
  calc m.eta * |y - s.demand| ≤ m.eta * 1 :=
        mul_le_mul_of_nonneg_left (hgap s.demand hnear) heta.le
    _ = m.eta := mul_one _

/-- **The loop converges**, whatever the bias: after `k` free ticks the error is
within the bound, and a run that stays free has the system load within `eta` of the
target from some tick on. A free tick shrinks the error by the factor `1 - Ki * eta`,
but for the rounding of the demand (`abs_error_run_le`), so from some tick on the
error is below the next value that it could have beyond the bound
(`exists_error_gap`). -/
theorem converges (hstart : c.Unclamped (m.reading process)) :
    (∀ k, m.FreeRun c process k →
      |m.error (m.run c process k)| ≤
        (1 - kCpuLoadControllerKi * m.eta) ^ k * (|m.error (m.run c process 0)| + m.eta / 2)
          + m.eta) ∧
    ((∀ k, m.FreeRun c process k) →
      ∃ K, ∀ k ≥ K, |m.error (m.run c process k)| ≤ m.eta) := by
  have hbound : ∀ k, m.FreeRun c process k →
      |m.error (m.run c process k)| ≤
        (1 - kCpuLoadControllerKi * m.eta) ^ k * (|m.error (m.run c process 0)| + m.eta / 2)
          + m.eta := by
    intro k hfree
    exact abs_error_run_le hstart hfree
  refine ⟨hbound, ?_⟩
  intro hfree
  obtain ⟨ε, hε, hgap⟩ := m.exists_error_gap
  have hpast : 0 ≤ |m.error (m.run c process 0)| + m.eta / 2 :=
    add_nonneg (abs_nonneg _) (half_pos m.eta_pos).le
  obtain ⟨K, hK⟩ := Contraction.exists_pow_mul_lt (sub_nonneg.mpr m.gain_lt_one.le)
    (sub_lt_self 1 m.gain_pos) hpast hε
  refine ⟨K, ?_⟩
  intro k hk
  apply hgap
  linarith [hbound k (hfree k), hK k hk]

/-- Half of the demand is delivered, and 5 on top; the target is met at a demand
of 90. -/
def sluggish : Machine where
  target := 100
  capacity := 200
  other := 50
  eta := 1 / 2
  bias := 5
  other_nonneg := by norm_num
  eta_pos := by norm_num
  eta_le_one := by norm_num

/-- One tick from 89 to 90, where it stays. -/
theorem sluggish_converges :
    sluggish.error (sluggish.run ⟨1974 / 50⟩ (99 / 2) 0) = 1 / 2 ∧
      (∀ k, sluggish.FreeRun ⟨1974 / 50⟩ (99 / 2) k) ∧
      ∃ K, ∀ k ≥ K, |sluggish.error (sluggish.run ⟨1974 / 50⟩ (99 / 2) k)| ≤ 1 / 2 := by
  have hfix : sluggish.tick ⟨⟨79 / 2⟩, 90⟩ = ⟨⟨79 / 2⟩, 90⟩ := by decide +kernel
  have hrun : ∀ k, sluggish.run ⟨1974 / 50⟩ (99 / 2) (k + 1) = ⟨⟨79 / 2⟩, 90⟩ := by
    intro k
    induction k with
    | zero => decide +kernel
    | succ k ih => rw [run_succ, ih, hfix]
  have hfree : ∀ k, sluggish.FreeRun ⟨1974 / 50⟩ (99 / 2) k := by
    intro k j _
    cases j with
    | zero => decide +kernel
    | succ j =>
      rw [hrun]
      decide +kernel
  exact ⟨by decide +kernel, hfree, (converges (m := sluggish) (by decide +kernel)).2 hfree⟩

end Machine

end Loadmaster.Cpu
