/-
First-order autoregressions.

A step multiplies a deviation by its decay and adds a multiple of the next draw.
After any number of steps the deviation is a combination of the one at the start,
which has decayed by all of them, and of the draws (`run_eq`). Steps that each
leave the variance `v` alone do so together (`sum_weight_sq`).
-/
import Mathlib.Algebra.BigOperators.Fin
import Mathlib.Algebra.BigOperators.Intervals
import Mathlib.Algebra.BigOperators.Ring.Finset
import Mathlib.Tactic.Ring

set_option autoImplicit false

namespace Autoregression

variable {α : Type*} [CommRing α]

structure Step (α : Type*) where
  decay : α
  scale : α

/-- The deviation after the steps, each of which takes the next draw. -/
def run : List (Step α) → (ℕ → α) → α → α
  | [], _, x => x
  | step :: steps, draws, x =>
    run steps (fun i => draws (i + 1)) (step.decay * x + step.scale * draws 0)

/-- How much of the deviation at the start is left. -/
def decay (steps : List (Step α)) : α := (steps.map Step.decay).prod

/-- How much of a draw is left. -/
def weight : List (Step α) → ℕ → α
  | [], _ => 0
  | step :: steps, 0 => step.scale * decay steps
  | _ :: steps, i + 1 => weight steps i

variable {step : Step α} {steps : List (Step α)}

@[simp] theorem decay_nil : decay ([] : List (Step α)) = 1 := rfl

@[simp] theorem decay_cons : decay (step :: steps) = step.decay * decay steps := by
  rw [decay, List.map_cons, List.prod_cons, decay]

/-- **The deviation is a combination** of the first one and the draws. -/
theorem run_eq (draws : ℕ → α) (x : α) :
    run steps draws x
      = decay steps * x + ∑ i ∈ Finset.range steps.length, weight steps i * draws i := by
  induction steps generalizing draws x with
  | nil => simp [run]
  | cons step steps ih =>
    -- the first draw decays with the deviation that it has become part of
    rw [run, ih, List.length_cons, Finset.sum_range_succ', decay_cons, weight]
    simp only [weight]
    ring

/-- **Steps that leave the variance alone** do so together: what the first
deviation loses, the draws make up for. -/
theorem sum_weight_sq {v : α} (h : ∀ step ∈ steps, step.scale ^ 2 = v * (1 - step.decay ^ 2)) :
    ∑ i ∈ Finset.range steps.length, weight steps i ^ 2 = v * (1 - decay steps ^ 2) := by
  induction steps with
  | nil => simp
  | cons step steps ih =>
    obtain ⟨hstep, hsteps⟩ := List.forall_mem_cons.mp h
    rw [List.length_cons, Finset.sum_range_succ', decay_cons, weight]
    simp only [weight]
    -- `v (1 - d²) D² + v (1 - D²) = v (1 - d² D²)`
    rw [ih hsteps, mul_pow, hstep]
    ring

end Autoregression
