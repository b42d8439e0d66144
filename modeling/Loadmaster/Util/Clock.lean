/-
Ticks of a clock as nanoseconds (`util/clock.h`), in 64-bit arithmetic.

The frequency is any number of ticks a second, not only one that divides a
second into whole nanoseconds.
-/
import Loadmaster.Lib.FloorDiv
import Mathlib.Algebra.Order.BigOperators.Group.List
import Mathlib.Tactic.NormNum

set_option autoImplicit false

namespace Loadmaster.Util

def kNsPerSecond : UInt64 := 1000000000

/-- `TicksToNs` -/
def ticksToNs (ticks hz : UInt64) : UInt64 :=
  ticks / hz * kNsPerSecond + ticks % hz * kNsPerSecond / hz

/-- Every intermediate result of `TicksToNs`, as an exact number, is below `2 ^ 64`. -/
structure TicksToNsFits (ticks hz : ℕ) : Prop where
  seconds : ticks / hz * 10 ^ 9 < 2 ^ 64
  remainder : ticks % hz * 10 ^ 9 < 2 ^ 64
  total : ticks / hz * 10 ^ 9 + ticks % hz * 10 ^ 9 / hz < 2 ^ 64

namespace ticksToNs

variable {ticks hz : ℕ}

/-- **No wrapping.** The remainder is below the frequency, and the sum is what is
returned. -/
theorem fits (hpos : 0 < hz) (hmax : hz ≤ 18446744073) (hfit : ticks * 10 ^ 9 / hz < 2 ^ 64) :
    TicksToNsFits ticks hz := by
  have htotal : ticks / hz * 10 ^ 9 + ticks % hz * 10 ^ 9 / hz < 2 ^ 64 := by
    rw [FloorDiv.div_mul_add_mod_mul_div ticks hpos]
    exact hfit
  have hremainder : ticks % hz * 10 ^ 9 < 2 ^ 64 := by
    calc ticks % hz * 10 ^ 9 < hz * 10 ^ 9 :=
          Nat.mul_lt_mul_of_pos_right (Nat.mod_lt ticks hpos) (by norm_num)
      _ ≤ 18446744073 * 10 ^ 9 := Nat.mul_le_mul_right _ hmax
      _ < 2 ^ 64 := by norm_num
  exact ⟨lt_of_le_of_lt (Nat.le_add_right _ _) htotal, hremainder, htotal⟩

end ticksToNs

/-- Where nothing wraps the words are the numbers. -/
theorem toNat_ticksToNs {ticks hz : UInt64} (h : TicksToNsFits ticks.toNat hz.toNat) :
    (ticksToNs ticks hz).toNat =
      ticks.toNat / hz.toNat * 10 ^ 9 + ticks.toNat % hz.toNat * 10 ^ 9 / hz.toNat := by
  have hns : kNsPerSecond.toNat = 10 ^ 9 := rfl
  unfold ticksToNs
  rw [UInt64.toNat_add, UInt64.toNat_div, UInt64.toNat_mul, UInt64.toNat_mul, UInt64.toNat_div,
    UInt64.toNat_mod, hns, Nat.mod_eq_of_lt h.seconds, Nat.mod_eq_of_lt h.remainder,
    Nat.mod_eq_of_lt h.total]

/-- **The exact value.** -/
theorem toNat_ticksToNs_eq {ticks hz : UInt64} (hpos : 0 < hz.toNat)
    (hmax : hz.toNat ≤ 18446744073) (hfit : ticks.toNat * 10 ^ 9 / hz.toNat < 2 ^ 64) :
    (ticksToNs ticks hz).toNat = ticks.toNat * 10 ^ 9 / hz.toNat := by
  rw [toNat_ticksToNs (ticksToNs.fits hpos hmax hfit), FloorDiv.div_mul_add_mod_mul_div _ hpos]

/-- What fits keeps fitting for fewer ticks. -/
theorem ticksToNs_le {ticks t hz : UInt64} (hpos : 0 < hz.toNat)
    (hmax : hz.toNat ≤ 18446744073) (hfit : ticks.toNat * 10 ^ 9 / hz.toNat < 2 ^ 64)
    (ht : t.toNat ≤ ticks.toNat) : ticksToNs t hz ≤ ticksToNs ticks hz := by
  have hle : t.toNat * 10 ^ 9 / hz.toNat ≤ ticks.toNat * 10 ^ 9 / hz.toNat :=
    Nat.div_le_div_right (Nat.mul_le_mul_right _ ht)
  rw [UInt64.le_iff_toNat_le, toNat_ticksToNs_eq hpos hmax hfit,
    toNat_ticksToNs_eq hpos hmax (hle.trans_lt hfit)]
  exact hle

/-- The conversions of the parts, as exact numbers. -/
theorem map_toNat_ticksToNs {hz : UInt64} {parts : List UInt64} (hpos : 0 < hz.toNat)
    (hmax : hz.toNat ≤ 18446744073)
    (hfit : (parts.map UInt64.toNat).sum * 10 ^ 9 / hz.toNat < 2 ^ 64) :
    (parts.map fun t => (ticksToNs t hz).toNat) =
      (parts.map UInt64.toNat).map fun k => k * 10 ^ 9 / hz.toNat := by
  rw [List.map_map]
  apply List.map_congr_left
  intro t ht
  apply toNat_ticksToNs_eq hpos hmax
  -- a part is at most the whole
  have hle : t.toNat ≤ (parts.map UInt64.toNat).sum :=
    List.le_sum_of_mem (List.mem_map_of_mem ht)
  exact (Nat.div_le_div_right (Nat.mul_le_mul_right _ hle)).trans_lt hfit

/-- **Ticks are converted exactly.** The result is the exact number of nanoseconds
rounded down, no intermediate result wraps, more ticks never give less, and converting
in parts loses less than a nanosecond for each part. The whole seconds are taken out
first, so that neither product is too large, and the two quotients add up to that of
the whole; in parts each floor loses less than one. -/
theorem ticksToNs_exact (ticks hz : UInt64) (hpos : 0 < hz.toNat) (hmax : hz.toNat ≤ 18446744073)
    (hfit : ticks.toNat * 10 ^ 9 / hz.toNat < 2 ^ 64) :
    (ticksToNs ticks hz).toNat = ticks.toNat * 10 ^ 9 / hz.toNat ∧
      TicksToNsFits ticks.toNat hz.toNat ∧
      (∀ t : UInt64, t ≤ ticks → ticksToNs t hz ≤ ticksToNs ticks hz) ∧
      ∀ parts : List UInt64, parts ≠ [] → (parts.map UInt64.toNat).sum = ticks.toNat →
        (parts.map fun t => (ticksToNs t hz).toNat).sum ≤ (ticksToNs ticks hz).toNat ∧
          (ticks.toNat * 10 ^ 9 : ℚ) / hz.toNat <
            ((parts.map fun t => (ticksToNs t hz).toNat).sum : ℕ) + parts.length := by
  refine ⟨toNat_ticksToNs_eq hpos hmax hfit, ticksToNs.fits hpos hmax hfit, ?_, ?_⟩
  · intro t ht
    exact ticksToNs_le hpos hmax hfit (UInt64.le_iff_toNat_le.mp ht)
  · intro parts hne hsum
    have hwhole : (parts.map UInt64.toNat).sum * 10 ^ 9 / hz.toNat < 2 ^ 64 := hsum.symm ▸ hfit
    rw [map_toNat_ticksToNs hpos hmax hwhole, toNat_ticksToNs_eq hpos hmax hfit, ← hsum]
    refine ⟨FloorDiv.sum_div_le _, ?_⟩
    have hlost := FloorDiv.lt_sum_div_add_length (n := 10 ^ 9) hpos
      (List.map_eq_nil_iff.not.mpr hne : parts.map UInt64.toNat ≠ [])
    rw [List.length_map] at hlost
    exact_mod_cast hlost

/-- A clock at 1024 Hz, which does not divide a second, in three parts. -/
theorem ticksToNs_exact_1024 :
    (ticksToNs 4097 1024).toNat = 4000976562 ∧
      ([1024, 3072, 1].map fun t => (ticksToNs t 1024).toNat).sum ≤ 4000976562 := by
  obtain ⟨hval, -, -, hparts⟩ := ticksToNs_exact 4097 1024 (by decide) (by decide) (by decide)
  have hval : (ticksToNs 4097 1024).toNat = 4000976562 := hval
  exact ⟨hval, hval ▸ (hparts [1024, 3072, 1] (by decide) (by decide)).1⟩

end Loadmaster.Util
