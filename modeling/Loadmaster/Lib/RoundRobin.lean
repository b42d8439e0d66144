/-
Round robin over the usable entries of a cyclic list.

A pointer walks a list cyclically; entries that fail a test `p` are stepped
over, the others are served and then stepped past. `turn p l i` is what the
pointer at index `i` still has in front of it, in order and once around: the
usable entries of `l` read cyclically from `i`. Stepping over an unusable
entry leaves it alone (`turn_skip`), stepping past a served one rotates it by
one (`turn_serve`), so after `L` servings it is the list of usable entries
rotated by `L`, and the entry served next is the `L % u`-th of the `u` usable
ones (`head?_rotate_mod`). Nothing is ever skipped: that is what the equation
says.
-/
import Mathlib.Data.List.Rotate

set_option autoImplicit false

namespace RoundRobin

variable {α : Type*}

/-- The usable entries in the order in which a pointer at `i` meets them. -/
def turn (p : α → Bool) (l : List α) (i : ℕ) : List α := (l.rotate i).filter p

@[simp] theorem turn_zero (p : α → Bool) (l : List α) : turn p l 0 = l.filter p := by
  simp [turn]

/-- The pointer's index counts modulo the length of the list. -/
@[simp] theorem turn_mod (p : α → Bool) (l : List α) (i : ℕ) :
    turn p l (i % l.length) = turn p l i := by
  simp [turn, List.rotate_mod]

/-- The list read from `i` starts with entry `i`. -/
theorem rotate_eq_cons {l : List α} {i : ℕ} {a : α} (h : l[i]? = some a) :
    ∃ t, l.rotate i = a :: t ∧ l.rotate (i + 1) = t ++ [a] := by
  have hi : i < l.length := (List.getElem?_eq_some_iff.mp h).1
  have hhead : (l.rotate i).head? = some a := by rw [List.head?_rotate hi, h]
  obtain ⟨t, ht⟩ := List.head?_eq_some_iff.mp hhead
  refine ⟨t, ht, ?_⟩
  rw [← List.rotate_rotate, ht, List.rotate_cons_succ, List.rotate_zero]

/-- Stepping over an unusable entry changes nothing. -/
theorem turn_skip {p : α → Bool} {l : List α} {i : ℕ} {a : α}
    (h : l[i]? = some a) (hp : p a = false) : turn p l (i + 1) = turn p l i := by
  obtain ⟨t, hi, hi1⟩ := rotate_eq_cons h
  simp [turn, hi, hi1, hp]

/-- A usable entry under the pointer is the next to be served. -/
theorem turn_head {p : α → Bool} {l : List α} {i : ℕ} {a : α}
    (h : l[i]? = some a) (hp : p a = true) : (turn p l i).head? = some a := by
  obtain ⟨t, hi, -⟩ := rotate_eq_cons h
  simp [turn, hi, hp]

/-- Stepping past a served entry moves it to the back of the queue. -/
theorem turn_serve {p : α → Bool} {l : List α} {i : ℕ} {a : α}
    (h : l[i]? = some a) (hp : p a = true) : turn p l (i + 1) = (turn p l i).rotate 1 := by
  obtain ⟨t, hi, hi1⟩ := rotate_eq_cons h
  simp [turn, hi, hi1, hp]

/-- With `l` rotated by `n` in front of the pointer, entry `n % l.length` of
`l` is next. -/
theorem head?_rotate_mod (l : List α) (n : ℕ) : (l.rotate n).head? = l[n % l.length]? := by
  rcases Nat.eq_zero_or_pos l.length with h0 | hpos
  · rw [List.length_eq_zero_iff.mp h0]; simp
  · rw [← List.rotate_mod, List.head?_rotate (Nat.mod_lt _ hpos)]

end RoundRobin
