/-
The controller of the CPU load (`cpu/load_controller.cc`).

`Update` is written over any numbers that have its operations and comparisons. Over the
rationals it is the law that the controller follows, with nothing rounded: that is what
the analysis of the control loop is about. Over the doubles (`Lib/Binary64`) it is what
the code computes, each operation rounded where the code rounds it.

`lround` stands for `static_cast<int>(std::lround(demand))`: on a double it is left open
what that gives for a NaN.
-/
import Loadmaster.Constants
import Loadmaster.Lib.Round
import Mathlib.Data.Rat.Floor

set_option autoImplicit false

namespace Loadmaster.Cpu

/-! ## The controller -/

structure LoadController (α : Type) [Zero α] where
  integral : α := 0
deriving DecidableEq, Repr

/-- The arguments of one `Update`. -/
structure Reading (α : Type) where
  target : ℤ
  system_avg : α
  process_avg : α
  capacity : ℤ
deriving DecidableEq, Repr

section Update

variable {α : Type} [Zero α] [IntCast α] [RatCast α] [Add α] [Sub α] [Neg α] [Mul α] [LT α]
  [DecidableLT α]

namespace Reading

/-- The load of the other processes. -/
def other (r : Reading α) : α := Round.stdMax 0 (r.system_avg - r.process_avg)

def feedforward (r : Reading α) : α := r.target - r.other

def error (r : Reading α) : α := r.target - r.system_avg

end Reading

namespace LoadController

/-- The integral the error asks for. -/
def candidate (c : LoadController α) (r : Reading α) : α :=
  c.integral + (kCpuLoadControllerKi : α) * r.error

/-- The output that the candidate would give. -/
def raw (c : LoadController α) (r : Reading α) : α := r.feedforward + c.candidate r

/-- Where the integral is not wound further. -/
def saturated (c : LoadController α) (r : Reading α) : Prop :=
  ((r.capacity : α) < c.raw r ∧ 0 < r.error) ∨ (c.raw r < 0 ∧ r.error < 0)

instance (c : LoadController α) (r : Reading α) : Decidable (c.saturated r) :=
  inferInstanceAs (Decidable (_ ∨ _))

/-- The controller after an `Update`. -/
def next (c : LoadController α) (r : Reading α) : LoadController α :=
  if r.capacity ≤ 0 then c
  else if c.saturated r then c
  else { integral := Round.clamp (c.candidate r) (-(r.capacity : α)) r.capacity }

/-- `Update`: the demand, and the controller afterwards. -/
def update (lround : α → ℤ) (c : LoadController α) (r : Reading α) : ℤ × LoadController α :=
  if r.capacity ≤ 0 then (0, c)
  else
    -- the integral is the one that has just been updated, or left as it was
    (lround (Round.clamp (r.feedforward + (c.next r).integral) 0 r.capacity), c.next r)

def demand (lround : α → ℤ) (c : LoadController α) (r : Reading α) : ℤ := (c.update lround r).1

variable {lround : α → ℤ} {c : LoadController α} {r : Reading α}

/-- An update is its demand and its next controller. -/
theorem update_eq (lround : α → ℤ) (c : LoadController α) (r : Reading α) :
    c.update lround r = (c.demand lround r, c.next r) := by
  unfold demand update
  split_ifs with h
  · rw [next, if_pos h]
  · rfl

/-- While the output is saturated the integral is frozen. -/
theorem next_of_saturated (hcap : 0 < r.capacity) (h : c.saturated r) : c.next r = c := by
  rw [next, if_neg hcap.not_ge, if_pos h]

/-- Otherwise the integral is the candidate, clamped to the capacity on both sides. -/
theorem integral_next (hcap : 0 < r.capacity) (h : ¬ c.saturated r) :
    (c.next r).integral = Round.clamp (c.candidate r) (-(r.capacity : α)) r.capacity := by
  rw [next, if_neg hcap.not_ge, if_neg h]

/-- The demand goes by the integral that the update leaves. -/
theorem demand_eq (hcap : 0 < r.capacity) :
    c.demand lround r =
      lround (Round.clamp (r.feedforward + (c.next r).integral) 0 (r.capacity : α)) := by
  rw [demand, update, if_neg hcap.not_ge]

end LoadController

end Update

/-! ## Over the rationals -/

section Exact

variable {c : LoadController ℚ} {r : Reading ℚ}

theorem Reading.feedforward_eq :
    r.feedforward = r.target - max 0 (r.system_avg - r.process_avg) := by
  rw [feedforward, other, Round.stdMax_eq]

theorem LoadController.candidate_eq :
    c.candidate r = c.integral + kCpuLoadControllerKi * r.error := by
  rw [candidate, Rat.cast_id]

/-- The demand is one that can be burnt. -/
theorem LoadController.demand_mem (hcap : 0 < r.capacity) :
    0 ≤ c.demand Round.lround r ∧ c.demand Round.lround r ≤ r.capacity := by
  have hcap' : (0 : ℚ) ≤ r.capacity := by exact_mod_cast hcap.le
  obtain ⟨hlo, hhi⟩ := Round.clamp_mem (x := r.feedforward + (c.next r).integral) hcap'
  rw [demand_eq hcap]
  constructor
  · rw [Round.le_lround_iff hlo, Int.cast_zero]
    linarith
  · rw [← Int.lt_add_one_iff, Round.lround_lt_iff hlo]
    push_cast
    linarith

end Exact

end Loadmaster.Cpu
