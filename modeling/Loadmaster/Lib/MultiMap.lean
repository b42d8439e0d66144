/-
Maps from keys to finite sets, filled one pair at a time.

A key that nothing was added under has the empty set. What a run has put in is
what each of its steps put in (`mem_foldl`): the order of the steps, and whether
a pair comes twice, do not matter.
-/
import Mathlib.Data.Finset.Insert
import Mathlib.Data.List.Induction
import Mathlib.Tactic.Common

set_option autoImplicit false

namespace MultiMap

variable {κ α σ β : Type*}

def add [DecidableEq κ] [DecidableEq α] (m : κ → Finset α) (k : κ) (a : α) : κ → Finset α :=
  Function.update m k (insert a (m k))

theorem mem_add [DecidableEq κ] [DecidableEq α] (m : κ → Finset α) (k l : κ) (a b : α) :
    b ∈ add m k a l ↔ b ∈ m l ∨ (l = k ∧ b = a) := by
  unfold add
  by_cases hl : l = k
  · rw [hl, Function.update_self, Finset.mem_insert]
    tauto
  · rw [Function.update_of_ne hl]
    tauto

/-- **A run puts in what its steps put in.** -/
theorem mem_foldl (view : σ → κ → Finset α) {step : σ → β → σ} {puts : β → κ → α → Prop}
    (hstep : ∀ s x k a, a ∈ view (step s x) k ↔ a ∈ view s k ∨ puts x k a) (xs : List β) (s : σ)
    (k : κ) (a : α) :
    a ∈ view (xs.foldl step s) k ↔ a ∈ view s k ∨ ∃ x ∈ xs, puts x k a := by
  induction xs generalizing s with
  | nil => simp
  | cons x xs ih =>
    rw [List.foldl_cons, ih, hstep, List.exists_mem_cons_iff, or_assoc]

end MultiMap
