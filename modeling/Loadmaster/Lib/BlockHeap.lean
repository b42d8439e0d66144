/-
A heap of blocks, as `new[]` and `delete[]` see it.

A block is found under the address that `new` has given it, and an address is
given once. What programs must not do has no result: to free or to use what is
not there. A program that never does keeps the addresses of its owners apart.
-/
import Mathlib.Logic.Function.Basic
import Mathlib.Tactic.Common

set_option autoImplicit false

namespace BlockHeap

variable {β : Type*}

structure Heap (β : Type*) where
  blocks : ℕ → Option β := fun _ => none
  fresh : ℕ := 0

namespace Heap

variable {h h' : Heap β} {p q : ℕ} {b : β}

/-- `new`: the heap with the block, and the block's address. -/
def new (h : Heap β) (b : β) : Heap β × ℕ :=
  ({ blocks := Function.update h.blocks h.fresh (some b), fresh := h.fresh + 1 }, h.fresh)

/-- `delete` -/
def delete (h : Heap β) (p : ℕ) : Option (Heap β) :=
  (h.blocks p).map fun _ => { h with blocks := Function.update h.blocks p none }

/-- A block is changed in place. -/
def modify (h : Heap β) (p : ℕ) (f : β → β) : Option (Heap β) :=
  (h.blocks p).map fun b => { h with blocks := Function.update h.blocks p (some (f b)) }

/-- No address is given twice. -/
def Sound (h : Heap β) : Prop := ∀ p b, h.blocks p = some b → p < h.fresh

theorem sound_empty : Sound ({} : Heap β) := fun _ _ hb => absurd hb (by simp)

@[simp] theorem blocks_new : (h.new b).1.blocks h.fresh = some b := Function.update_self ..

theorem blocks_new_of_ne (hp : p ≠ h.fresh) : (h.new b).1.blocks p = h.blocks p :=
  Function.update_of_ne hp ..

theorem Sound.new (hs : Sound h) : Sound (h.new b).1 := by
  intro p c hc
  by_cases hp : p = h.fresh
  · rw [hp]
    exact Nat.lt_succ_self _
  · rw [blocks_new_of_ne hp] at hc
    exact Nat.lt_succ_of_lt (hs p c hc)

theorem exists_delete (hb : h.blocks p = some b) :
    ∃ h', h.delete p = some h' ∧ h'.blocks p = none ∧ (∀ q, q ≠ p → h'.blocks q = h.blocks q)
      ∧ h'.fresh = h.fresh := by
  refine ⟨{ h with blocks := Function.update h.blocks p none }, by rw [delete, hb]; rfl,
    Function.update_self .., ?_, rfl⟩
  exact fun q hq => Function.update_of_ne hq ..

theorem exists_modify (hb : h.blocks p = some b) (f : β → β) :
    ∃ h', h.modify p f = some h' ∧ h'.blocks p = some (f b)
      ∧ (∀ q, q ≠ p → h'.blocks q = h.blocks q) ∧ h'.fresh = h.fresh := by
  refine ⟨{ h with blocks := Function.update h.blocks p (some (f b)) }, by rw [modify, hb]; rfl,
    Function.update_self .., ?_, rfl⟩
  exact fun q hq => Function.update_of_ne hq ..

/-- What changes at one address only is sound when what it was is. -/
theorem Sound.of_eq_off (hs : Sound h) (hp : ∀ b, h'.blocks p = some b → p < h'.fresh)
    (hoff : ∀ q, q ≠ p → h'.blocks q = h.blocks q) (hfresh : h.fresh ≤ h'.fresh) :
    Sound h' := by
  intro q b hb
  by_cases hq : q = p
  · subst hq
    exact hp b hb
  · rw [hoff q hq] at hb
    exact Nat.lt_of_lt_of_le (hs q b hb) hfresh

end Heap

end BlockHeap
