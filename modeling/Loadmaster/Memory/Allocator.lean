/-
The owner of the memory block (`memory/allocator.cc`).

A byte of a new block has no value until it is written. An allocator that claims
a size holds a block: that is a field, so a size without a block cannot be built.
-/
import Mathlib.Tactic.Common

set_option autoImplicit false

namespace Loadmaster.Memory

/-- What `Fill` writes between two looks at its stop token. -/
def kChunkBytes : ℕ := 4 * 1024 * 1024

theorem nothing_held : 0 < 0 → (none : Option (ℕ → Option UInt8)).isSome := by simp

structure Allocator where
  size : ℕ := 0
  block : Option (ℕ → Option UInt8) := none
  held : 0 < size → block.isSome := by exact nothing_held

namespace Allocator

/-- `ReleaseBlock`; it ends in `ResetFields`. -/
def releaseBlock (_a : Allocator) : Allocator := {}

/-- `AllocateBlock`, which throws if `new` is not granted the memory: the fields
are reset by then. -/
def allocateBlock (a : Allocator) (target_size : ℕ) (granted : Bool) : Allocator × Bool :=
  if granted then ({ size := target_size, block := some fun _ => none, held := fun _ => rfl }, true)
  else (a.releaseBlock, false)

/-- The inner loop of `Fill`: the chunk from `begin_` on. -/
def fillChunk (a : Allocator) (seed : UInt8) (begin_ : ℕ) : Allocator where
  size := a.size
  block := a.block.map fun bytes i =>
    if begin_ ≤ i ∧ i < min a.size (begin_ + kChunkBytes) then some (seed ^^^ .ofNat i) else bytes i
  held := by
    intro h
    rw [Option.isSome_map]
    exact a.held h

/-- Whether `Fill` has nothing left from `begin_` on. -/
def filled (a : Allocator) (begin_ : ℕ) : Bool := a.block.isNone || a.size ≤ begin_

@[simp] theorem size_releaseBlock (a : Allocator) : a.releaseBlock.size = 0 := rfl

@[simp] theorem size_fillChunk (a : Allocator) (seed : UInt8) (begin_ : ℕ) :
    (a.fillChunk seed begin_).size = a.size := rfl

/-- A block of the asked size, or none. -/
theorem size_allocateBlock (a : Allocator) (target_size : ℕ) (granted : Bool) :
    (a.allocateBlock target_size granted).1.size = if granted then target_size else 0 := by
  cases granted <;> rfl

theorem filled_of_size_le {a : Allocator} {begin_ : ℕ} (h : a.size ≤ begin_) : a.filled begin_ := by
  simp [filled, h]

end Allocator

end Loadmaster.Memory
