/-
Machine words as natural numbers.

An unsigned `w`-bit value is a natural number below `2 ^ w`; an operation of
the machine is the operation of `ℕ` followed by the reduction `u32` or `u64`.
What a proof needs is always one of two things: that a reduction is the
identity because its argument is small, or that an index kept in range by one
conditional subtraction is the remainder. Both are here, together with the
rounded-up quotient `(n + d - 1) / d` that machine code writes for `⌈n / d⌉` and
the fields of bits that it takes with a shift and a mask.
-/
import Mathlib.Algebra.Order.Floor.Div
import Mathlib.Data.Nat.ModEq
import Mathlib.Tactic.Ring
import Mathlib.Tactic.Linarith

set_option autoImplicit false

namespace Word

/-! ## Reductions -/

/-- The value of a 32-bit unsigned result. -/
def u32 (n : ℕ) : ℕ := n % 2 ^ 32

/-- The value of a 64-bit unsigned result. -/
def u64 (n : ℕ) : ℕ := n % 2 ^ 64

/-- A result that fits 32 bits is not reduced. -/
@[simp] theorem u32_of_lt {n : ℕ} (h : n < 2 ^ 32) : u32 n = n := Nat.mod_eq_of_lt h

/-- A result that fits 64 bits is not reduced. -/
@[simp] theorem u64_of_lt {n : ℕ} (h : n < 2 ^ 64) : u64 n = n := Nat.mod_eq_of_lt h

theorem u64_lt (n : ℕ) : u64 n < 2 ^ 64 := Nat.mod_lt _ (by norm_num)

/-! ## One conditional subtraction

`if (i >= m) i -= m` keeps an index below `m` as long as the step added to it
is at most `m`. -/

/-- `if (i >= m) i -= m`. -/
def wrapOnce (m i : ℕ) : ℕ := if m ≤ i then i - m else i

/-- Below two moduli, one conditional subtraction is the remainder. -/
theorem wrapOnce_eq_mod {m i : ℕ} (h : i < 2 * m) : wrapOnce m i = i % m := by
  unfold wrapOnce
  split
  case isTrue hle => rw [Nat.mod_eq_sub_mod hle, Nat.mod_eq_of_lt (by omega)]
  case isFalse hlt => rw [Nat.mod_eq_of_lt (by omega)]

/-- Stepping a reduced index by at most one modulus and wrapping once is
stepping the unreduced one. -/
theorem wrapOnce_step {m i d : ℕ} (hm : 0 < m) (hd : d ≤ m) :
    wrapOnce m (i % m + d) = (i + d) % m := by
  have hi : i % m < m := Nat.mod_lt _ hm
  rw [wrapOnce_eq_mod (by omega), Nat.mod_add_mod]

/-! ## Quotients rounded up -/

/-- The quotient `(n + d - 1) / d` is `⌈n / d⌉`. -/
theorem add_pred_div_eq_ceilDiv (n d : ℕ) : (n + d - 1) / d = n ⌈/⌉ d :=
  (Nat.ceilDiv_eq_add_pred_div n d).symm

/-- `⌈n / d⌉` is the least number of steps of `d` that cover `n`. -/
theorem ceilDiv_le_iff {n d k : ℕ} (hd : 0 < d) : (n + d - 1) / d ≤ k ↔ n ≤ d * k := by
  rw [add_pred_div_eq_ceilDiv, ceilDiv_le_iff_le_mul hd]

/-- The steps of `d` cover `n`. -/
theorem le_mul_ceilDiv {n d : ℕ} (hd : 0 < d) : n ≤ d * ((n + d - 1) / d) :=
  (ceilDiv_le_iff hd).mp le_rfl

theorem ceilDiv_pos {n d : ℕ} (hn : 0 < n) (hd : 0 < d) : 0 < (n + d - 1) / d :=
  Nat.div_pos (by omega) hd

/-- One step taken off: `⌈n / d⌉` is one more than `⌈(n - d) / d⌉`. -/
theorem ceilDiv_sub {n d : ℕ} (hn : 0 < n) (hd : 0 < d) :
    (n + d - 1) / d = (n - min n d + d - 1) / d + 1 := by
  rcases Nat.lt_or_ge n d with hlt | hge
  · rw [min_eq_left hlt.le, Nat.sub_self, Nat.zero_add, Nat.div_eq_of_lt (by omega : d - 1 < d)]
    exact Nat.div_eq_of_lt_le (by omega) (by omega)
  · rw [min_eq_right hge, ← Nat.add_div_right _ hd]
    congr 1
    omega

/-- **Spreading `n` over `a` steps of equal length needs at most `a` of them**,
the steps being `⌈n / a⌉` long. -/
theorem ceilDiv_ceilDiv_le {n a : ℕ} (hn : 0 < n) (ha : 0 < a) :
    (n + (n + a - 1) / a - 1) / ((n + a - 1) / a) ≤ a := by
  rw [ceilDiv_le_iff (ceilDiv_pos hn ha), Nat.mul_comm]
  exact le_mul_ceilDiv ha

/-- Spread so, `n` fills all `a` steps exactly when `a - 1` of them do not
already cover it. -/
theorem ceilDiv_ceilDiv_eq_iff {n a : ℕ} (hn : 0 < n) (ha : 0 < a) :
    (n + (n + a - 1) / a - 1) / ((n + a - 1) / a) = a ↔ (a - 1) * ((n + a - 1) / a) < n := by
  have hle := ceilDiv_ceilDiv_le hn ha
  have hcover := ceilDiv_le_iff (k := a - 1) (n := n) (ceilDiv_pos hn ha)
  rw [Nat.mul_comm (a - 1), ← not_le, ← hcover]
  omega

/-! ## Fields of bits -/

/-- A mask of `w` ones leaves the low `w` bits. -/
theorem toNat_and_ones (x : UInt32) {ones : UInt32} {w : ℕ} (hones : ones.toNat = 2 ^ w - 1) :
    (x &&& ones).toNat = x.toNat % 2 ^ w := by
  rw [UInt32.toNat_and, hones, Nat.and_two_pow_sub_one_eq_mod]

/-- Those above the low `k` bits. -/
theorem toNat_shiftRight_and_ones (x : UInt32) {k ones : UInt32} {w : ℕ} (hk : k.toNat < 32)
    (hones : ones.toNat = 2 ^ w - 1) :
    ((x >>> k) &&& ones).toNat = x.toNat / 2 ^ k.toNat % 2 ^ w := by
  rw [toNat_and_ones _ hones, UInt32.toNat_shiftRight, Nat.mod_eq_of_lt hk,
    Nat.shiftRight_eq_div_pow]

end Word
