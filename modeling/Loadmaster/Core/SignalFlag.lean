/-
The latch that signal handlers write into and the main loop polls
(`core/signal_flag.h`, on `util/atomic_bitmap.h`): one bit of a 64-bit word for
each signal. Every operation is one atomic access of that word.
-/
import Mathlib.Tactic.Common

set_option autoImplicit false

namespace Loadmaster.Util.AtomicBitmap

variable {w : ℕ}

/-! ## `AtomicBitmap` -/

def test (bitmap bit : BitVec w) : Bool := bitmap &&& bit == bit

def set (bitmap bit : BitVec w) : BitVec w := bitmap ||| bit

def reset (bitmap bit : BitVec w) : BitVec w := bitmap &&& ~~~bit

end Loadmaster.Util.AtomicBitmap

namespace Loadmaster.Core

open Util

/-! ## `SignalFlag` -/

structure SignalFlag where
  bitmap : BitVec 64 := 0
deriving DecidableEq, Repr

namespace SignalFlag

def maskOf (signal : ℕ) : BitVec 64 := 1#64 <<< signal

def has (f : SignalFlag) (signal : ℕ) : Bool := AtomicBitmap.test f.bitmap (maskOf signal)

def set (f : SignalFlag) (signal : ℕ) : SignalFlag :=
  ⟨AtomicBitmap.set f.bitmap (maskOf signal)⟩

def reset (f : SignalFlag) (signal : ℕ) : SignalFlag :=
  ⟨AtomicBitmap.reset f.bitmap (maskOf signal)⟩

variable {f : SignalFlag} {s t : ℕ}

theorem getLsbD_maskOf (ht : t < 64) : (maskOf s).getLsbD t = decide (s = t) := by
  unfold maskOf
  rw [← BitVec.twoPow_eq, BitVec.getLsbD_twoPow]
  by_cases hst : s = t
  · subst hst
    simp [ht]
  · simp [hst]

/-- A signal is pending when its own bit is set. -/
theorem has_eq (hs : s < 64) : f.has s = f.bitmap.getLsbD s := by
  unfold has AtomicBitmap.test
  rw [Bool.eq_iff_iff, beq_iff_eq]
  constructor
  · intro h
    have hbit := congrArg (fun b => b.getLsbD s) h
    simpa [getLsbD_maskOf hs] using hbit
  · intro h
    apply BitVec.eq_of_getLsbD_eq
    intro i hi
    rw [BitVec.getLsbD_and, getLsbD_maskOf hi]
    by_cases hsi : s = i
    · subst hsi
      simp [h]
    · simp [hsi]

theorem has_set (ht : t < 64) : (f.set s).has t = (f.has t || decide (s = t)) := by
  rw [has_eq ht, has_eq ht]
  unfold set AtomicBitmap.set
  rw [BitVec.getLsbD_or, getLsbD_maskOf ht]

theorem has_reset (ht : t < 64) : (f.reset s).has t = (f.has t && !decide (s = t)) := by
  rw [has_eq ht, has_eq ht]
  unfold reset AtomicBitmap.reset
  rw [BitVec.getLsbD_and, BitVec.getLsbD_not, getLsbD_maskOf ht]
  simp [ht]

/-- **Signals do not disturb each other.** -/
theorem has_of_ne (ht : t < 64) (hst : s ≠ t) :
    (f.set s).has t = f.has t ∧ (f.reset s).has t = f.has t := by
  rw [has_set ht, has_reset ht]
  simp [hst]

end SignalFlag

end Loadmaster.Core
