/-
A ring buffer as a window on everything it was given.

A buffer of a fixed capacity first fills up and then overwrites one slot after
the other. `Holds` is its invariant, against the list of all values so far: read
from its next slot on, around the end, the buffer is the last `capacity` of them
in order. So the slot that is overwritten next holds the oldest one.
-/
import Mathlib.Data.List.Rotate

set_option autoImplicit false

namespace RingWindow

variable {α : Type*} {l seen values : List α} {v : α} {capacity i index : ℕ}

/-- The last `capacity` values, or all of them. -/
def lastN (capacity : ℕ) (seen : List α) : List α := seen.drop (seen.length - capacity)

@[simp] theorem length_lastN : (lastN capacity seen).length = min seen.length capacity := by
  rw [lastN, List.length_drop]
  omega

theorem lastN_of_length_le (h : seen.length ≤ capacity) : lastN capacity seen = seen := by
  rw [lastN, Nat.sub_eq_zero_of_le h, List.drop_zero]

/-- A full window lets the oldest value go. -/
theorem lastN_concat (hcap : 0 < capacity) (h : capacity ≤ seen.length) :
    lastN capacity (seen ++ [v]) = (lastN capacity seen).tail ++ [v] := by
  have hlen : seen.length + 1 - capacity = seen.length - capacity + 1 := by omega
  rw [lastN, lastN, List.length_append, List.length_singleton, hlen, List.tail_drop,
    List.drop_append_of_le_length (by omega)]

/-- Overwriting the first value of the ring and going on to the next slot. -/
theorem rotate_set (h : i < l.length) :
    (l.set i v).rotate (i + 1) = (l.rotate i).tail ++ [v] := by
  have hset : i + 1 ≤ (l.set i v).length := by rwa [List.length_set]
  rw [List.rotate_eq_drop_append_take hset, List.rotate_eq_drop_append_take h.le,
    List.drop_set_of_lt (Nat.lt_succ_self i), List.tail_append_of_ne_nil (by simp [h]),
    List.tail_drop, List.take_add_one, List.take_set_of_le le_rfl, List.append_assoc]
  simp [h]

/-- **The invariant.** -/
structure Holds (capacity index : ℕ) (values seen : List α) : Prop where
  index_lt : index < capacity
  index_of_room : values.length < capacity → index = 0
  window : values.rotate index = lastN capacity seen

namespace Holds

theorem nil (hcap : 0 < capacity) : Holds capacity 0 ([] : List α) [] where
  index_lt := hcap
  index_of_room _ := rfl
  window := by simp [lastN]

variable (h : Holds capacity index values seen)

include h

theorem length_eq : values.length = min seen.length capacity := by
  rw [← List.length_rotate values index, h.window, length_lastN]

/-- While there is room everything seen is there, in its order. -/
theorem eq_of_room (hroom : values.length < capacity) : values = seen := by
  have hlen := h.length_eq
  have hwindow := h.window
  rwa [h.index_of_room hroom, List.rotate_zero, lastN_of_length_le (by omega)] at hwindow

/-- **Filling up.** -/
theorem append (hroom : values.length < capacity) :
    Holds capacity index (values ++ [v]) (seen ++ [v]) where
  index_lt := h.index_lt
  index_of_room _ := h.index_of_room hroom
  window := by
    have hlen : (seen ++ [v]).length ≤ capacity := by
      rw [← h.eq_of_room hroom, List.length_append, List.length_singleton]
      exact hroom
    rw [h.index_of_room hroom, List.rotate_zero, lastN_of_length_le hlen, h.eq_of_room hroom]

/-- **Overwriting the oldest value.** -/
theorem overwrite (hfull : ¬ values.length < capacity) :
    Holds capacity (if capacity ≤ index + 1 then 0 else index + 1) (values.set index v)
      (seen ++ [v]) := by
  have hlen := h.length_eq
  have hlt := h.index_lt
  have hrotate : (values.set index v).rotate (index + 1) = lastN capacity (seen ++ [v]) := by
    rw [rotate_set (by omega), h.window, lastN_concat (by omega) (by omega)]
  by_cases hlast : capacity ≤ index + 1
  · -- past its last slot the ring starts over
    have hend : index + 1 = (values.set index v).length := by
      rw [List.length_set]
      omega
    rw [if_pos hlast]
    rw [hend, List.rotate_length] at hrotate
    exact ⟨by omega, fun _ => rfl, by rw [List.rotate_zero, hrotate]⟩
  · rw [if_neg hlast]
    refine ⟨by omega, fun hroom => ?_, hrotate⟩
    rw [List.length_set] at hroom
    exact absurd hroom hfull

end Holds

end RingWindow
