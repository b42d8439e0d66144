/-
The numbers that C++ calls `double`: the binary64 format of IEEE 754, with every
operation rounded to nearest, ties to even.

A finite double is a rational that rounding leaves as it is (`Value`). With the two
infinities these are the numbers, in their order; a double is a number or a NaN, and a
NaN compares with nothing. The two zeros are one value here: they compare equal, and
no operation of this file tells them apart.

What proofs use of rounding is that it is monotone, across the boundaries where the
spacing of the doubles changes (`rounded_mono`), and that it leaves alone what is a
multiple of a power of two with 53 bits (`rounded_eq_self`). The operations inherit the
first one where one operand is finite.
-/
import Loadmaster.Lib.Round
import Mathlib.Data.Int.Log
import Mathlib.Data.Rat.Floor
import Mathlib.Order.WithBot
import Mathlib.Tactic.Positivity

set_option autoImplicit false

namespace Binary64

/-! ## To an integer -/

/-- The nearest integer, and the even one of two. -/
def roundEven (x : ℚ) : ℤ :=
  if x - ⌊x⌋ < 1 / 2 ∨ x - ⌊x⌋ = 1 / 2 ∧ ⌊x⌋ % 2 = 0 then ⌊x⌋ else ⌊x⌋ + 1

/-- Rounding to an integer moves a number by half of one at most, whichever way a half
goes. -/
theorem abs_roundEven_sub_le (x : ℚ) : |(roundEven x : ℚ) - x| ≤ 1 / 2 := by
  have hlo := Int.floor_le x
  have hhi := Int.lt_floor_add_one x
  unfold roundEven
  split_ifs with h
  · have hhalf : x - ⌊x⌋ ≤ 1 / 2 := h.elim le_of_lt fun h => h.1.le
    rw [abs_le]
    constructor <;> linarith
  · have hhalf : 1 / 2 ≤ x - ⌊x⌋ := not_lt.mp fun hlt => h (.inl hlt)
    rw [Int.cast_add, Int.cast_one, abs_le]
    constructor <;> linarith

@[simp] theorem roundEven_intCast (k : ℤ) : roundEven (k : ℚ) = k := by
  unfold roundEven
  rw [Int.floor_intCast, sub_self, if_pos (.inl (by norm_num))]

/-- Two integers that are both nearest are those of one tie. -/
theorem roundEven_mono {x y : ℚ} (h : x ≤ y) : roundEven x ≤ roundEven y := by
  by_contra hlt
  have hstep : ((roundEven y : ℤ) : ℚ) + 1 ≤ roundEven x := by
    exact_mod_cast Int.add_one_le_of_lt (not_le.mp hlt)
  have hx := abs_le.mp (abs_roundEven_sub_le x)
  have hy := abs_le.mp (abs_roundEven_sub_le y)
  have hxy : x = y := by linarith
  exact hlt (by rw [hxy])

/-- Rounding is odd: a tie goes to the even one on both sides of 0. -/
@[simp] theorem roundEven_neg (x : ℚ) : roundEven (-x) = -roundEven x := by
  by_cases hint : x = ⌊x⌋
  · rw [hint, ← Int.cast_neg, roundEven_intCast, roundEven_intCast]
  have hlo : (⌊x⌋ : ℚ) < x := lt_of_le_of_ne (Int.floor_le x) (Ne.symm hint)
  have hfloor : ⌊-x⌋ = -⌊x⌋ - 1 := by
    rw [Int.floor_eq_iff]
    have hhi := Int.lt_floor_add_one x
    push_cast
    constructor <;> linarith
  have hfrac : -x - ((-⌊x⌋ - 1 : ℤ) : ℚ) = 1 - (x - ⌊x⌋) := by
    push_cast
    ring
  unfold roundEven
  rw [hfloor, hfrac]
  generalize x - ⌊x⌋ = f
  rcases lt_trichotomy f (1 / 2) with hlt | rfl | hgt
  · have hnot : ¬ (1 - f < 1 / 2 ∨ 1 - f = 1 / 2 ∧ (-⌊x⌋ - 1) % 2 = 0) := by
      rintro (h | ⟨h, -⟩) <;> linarith
    rw [if_neg hnot, if_pos (.inl hlt)]
    omega
  · -- exactly one of the two neighbours is even
    norm_num
    split_ifs <;> omega
  · have hnot : ¬ (f < 1 / 2 ∨ f = 1 / 2 ∧ ⌊x⌋ % 2 = 0) := by
      rintro (h | ⟨h, -⟩) <;> linarith
    rw [if_pos (.inl (by linarith)), if_neg hnot]
    omega

/-! ## To 53 bits -/

/-- The exponent of the last place of a double near `x`. -/
def lastPlace (x : ℚ) : ℤ := max (Int.log 2 |x| - 52) (-1074)

/-- The distance of the doubles around `x`. -/
def ulp (x : ℚ) : ℚ := 2 ^ lastPlace x

/-- Rounding, as if the exponent had no upper bound. -/
def rounded (x : ℚ) : ℚ := roundEven (x / ulp x) * ulp x

/-- A last place is a power of two, so it is positive and can be divided by. -/
theorem ulp_pos (x : ℚ) : 0 < ulp x := zpow_pos (by norm_num) _

@[simp] theorem ulp_neg (x : ℚ) : ulp (-x) = ulp x := by
  rw [ulp, lastPlace, abs_neg, ← lastPlace, ulp]

/-- Doubles come in pairs of both signs, so rounding is odd. -/
@[simp] theorem rounded_neg (x : ℚ) : rounded (-x) = -rounded x := by
  rw [rounded, ulp_neg, neg_div, roundEven_neg, Int.cast_neg, neg_mul, rounded]

/-- In units of its last place a number has 53 bits at most, and fewer where it is
subnormal. -/
theorem abs_lt_ulp (x : ℚ) : |x| < 2 ^ 53 * ulp x := by
  have hlog := Int.lt_zpow_succ_log_self (b := 2) (by norm_num) |x|
  rw [Nat.cast_ofNat] at hlog
  refine hlog.trans_le ?_
  have hexp : Int.log 2 |x| + 1 ≤ 53 + lastPlace x := by
    have := le_max_left (Int.log 2 |x| - 52) (-1074)
    unfold lastPlace
    omega
  calc (2 : ℚ) ^ (Int.log 2 |x| + 1) ≤ 2 ^ (53 + lastPlace x) :=
        zpow_le_zpow_right₀ (by norm_num) hexp
    _ = 2 ^ 53 * ulp x := by rw [zpow_add₀ (by norm_num)]; rfl

/-- Above the least spacing, the first of the 53 bits is set. -/
theorem ulp_le_abs {x : ℚ} (hx : x ≠ 0) (h : -1074 < lastPlace x) : 2 ^ 52 * ulp x ≤ |x| := by
  have hlog := Int.zpow_log_le_self (b := 2) (by norm_num) (abs_pos.mpr hx)
  rw [Nat.cast_ofNat] at hlog
  have hexp : Int.log 2 |x| = 52 + lastPlace x := by
    unfold lastPlace at h ⊢
    omega
  calc 2 ^ 52 * ulp x = (2 : ℚ) ^ (52 + lastPlace x) := by rw [zpow_add₀ (by norm_num)]; rfl
    _ ≤ |x| := by rw [← hexp]; exact hlog

/-- Around a larger number the doubles are no closer. -/
theorem lastPlace_mono {x y : ℚ} (hx : x ≠ 0) (h : |x| ≤ |y|) : lastPlace x ≤ lastPlace y := by
  have hlog := Int.log_mono_right (b := 2) (abs_pos.mpr hx) h
  unfold lastPlace
  omega

/-- A multiple of the last place below `x` stays below. -/
theorem le_rounded {x : ℚ} {k : ℤ} (h : k * ulp x ≤ x) : k * ulp x ≤ rounded x := by
  have hk : k ≤ roundEven (x / ulp x) := by
    rw [← roundEven_intCast k]
    exact roundEven_mono ((le_div_iff₀ (ulp_pos x)).mpr h)
  exact mul_le_mul_of_nonneg_right (by exact_mod_cast hk) (ulp_pos x).le

/-- A number that is not above a multiple of its own last place is not rounded above it,
since rounding to an integer does not pass an integer. -/
theorem rounded_le {x : ℚ} {k : ℤ} (h : x ≤ k * ulp x) : rounded x ≤ k * ulp x := by
  have hk : roundEven (x / ulp x) ≤ k := by
    rw [← roundEven_intCast k]
    exact roundEven_mono ((div_le_iff₀ (ulp_pos x)).mpr h)
  exact mul_le_mul_of_nonneg_right (by exact_mod_cast hk) (ulp_pos x).le

/-- Rounding keeps the sign, as it does not pass 0, which is a multiple of every last
place. -/
theorem rounded_nonneg {x : ℚ} (h : 0 ≤ x) : 0 ≤ rounded x := by
  have := le_rounded (x := x) (k := 0) (by simpa using h)
  simpa using this

/-- The same from below. -/
theorem rounded_nonpos {x : ℚ} (h : x ≤ 0) : rounded x ≤ 0 := by
  have hneg : 0 ≤ rounded (-x) := rounded_nonneg (neg_nonneg.mpr h)
  rw [rounded_neg] at hneg
  exact neg_nonneg.mp hneg

/-- 0 is a double and is rounded to itself. -/
theorem rounded_zero : rounded 0 = 0 := le_antisymm (rounded_nonpos le_rfl) (rounded_nonneg le_rfl)

/-- Where the spacing grows, a power of two lies between. -/
theorem ulp_lt_ulp {x y : ℚ} (h : lastPlace x < lastPlace y) :
    2 ^ 53 * ulp x ≤ 2 ^ 52 * ulp y := by
  have hexp : (53 : ℤ) + lastPlace x ≤ 52 + lastPlace y := by omega
  calc 2 ^ 53 * ulp x = (2 : ℚ) ^ ((53 : ℤ) + lastPlace x) := by
        rw [zpow_add₀ (by norm_num)]; rfl
    _ ≤ 2 ^ ((52 : ℤ) + lastPlace y) := zpow_le_zpow_right₀ (by norm_num) hexp
    _ = 2 ^ 52 * ulp y := by rw [zpow_add₀ (by norm_num)]; rfl

/-- Of two numbers with the same last place the order is that of the integers they round
to in it. -/
theorem rounded_le_of_lastPlace_eq {x y : ℚ} (h : x ≤ y) (heq : lastPlace x = lastPlace y) :
    rounded x ≤ rounded y := by
  have hulp : ulp x = ulp y := by rw [ulp, heq, ulp]
  have hint : roundEven (x / ulp y) ≤ roundEven (y / ulp y) :=
    roundEven_mono (div_le_div_of_nonneg_right h (ulp_pos y).le)
  rw [rounded, hulp, rounded]
  exact mul_le_mul_of_nonneg_right (by exact_mod_cast hint) (ulp_pos y).le

/-- Where the last places differ, a power of two lies between the two numbers, and neither
of them is rounded past it. -/
theorem rounded_mono_of_pos {x y : ℚ} (hx : 0 < x) (h : x ≤ y) : rounded x ≤ rounded y := by
  have hy : 0 < y := hx.trans_le h
  have habs : |x| ≤ |y| := by rw [abs_of_pos hx, abs_of_pos hy]; exact h
  rcases (lastPlace_mono hx.ne' habs).lt_or_eq with hlt | heq
  · have hfar := ulp_le_abs hy.ne' (by
      have := le_max_right (Int.log 2 |x| - 52) (-1074)
      unfold lastPlace at hlt ⊢
      omega)
    rw [abs_of_pos hy] at hfar
    have hnear := abs_lt_ulp x
    rw [abs_of_pos hx] at hnear
    calc rounded x ≤ ((2 ^ 53 : ℤ) : ℚ) * ulp x := rounded_le (by push_cast; linarith)
      _ ≤ ((2 ^ 52 : ℤ) : ℚ) * ulp y := by
          have := ulp_lt_ulp hlt
          push_cast
          linarith
      _ ≤ rounded y := le_rounded (by push_cast; linarith)
  · exact rounded_le_of_lastPlace_eq h heq

/-- **Rounding is monotone.** -/
theorem rounded_mono {x y : ℚ} (h : x ≤ y) : rounded x ≤ rounded y := by
  rcases le_or_gt x 0 with hx | hx
  · rcases le_or_gt 0 y with hy | hy
    · exact (rounded_nonpos hx).trans (rounded_nonneg hy)
    · -- both negative: the order is turned round twice
      have hneg := rounded_mono_of_pos (neg_pos.mpr hy) (neg_le_neg h)
      rw [rounded_neg, rounded_neg] at hneg
      exact neg_le_neg_iff.mp hneg
  · exact rounded_mono_of_pos hx h

/-- What is a multiple of its last place is a double. -/
theorem rounded_of_mul_ulp {x : ℚ} {k : ℤ} (h : x = k * ulp x) : rounded x = x := by
  have hdiv : x / ulp x = k := by
    rw [div_eq_iff (ulp_pos x).ne']
    exact h
  rw [rounded, hdiv, roundEven_intCast, ← h]

/-- **53 bits and a power of two** make a double, down to the least power. -/
theorem rounded_eq_self {m e : ℤ} (hm : |m| < 2 ^ 53) (he : -1074 ≤ e) :
    rounded (m * 2 ^ e) = m * 2 ^ e := by
  rcases eq_or_ne m 0 with rfl | hne
  · rw [Int.cast_zero, zero_mul]
    exact rounded_zero
  have hm' : |(m : ℚ)| < 2 ^ 53 := by exact_mod_cast hm
  have hpow : (0 : ℚ) < 2 ^ e := zpow_pos (by norm_num) e
  have habs : |(m : ℚ) * 2 ^ e| < ((2 : ℕ) : ℚ) ^ (53 + e) := by
    rw [abs_mul, abs_of_pos hpow, Nat.cast_ofNat, zpow_add₀ (by norm_num)]
    exact mul_lt_mul_of_pos_right hm' hpow
  have hpos : 0 < |(m : ℚ) * 2 ^ e| :=
    abs_pos.mpr (mul_ne_zero (by exact_mod_cast hne) hpow.ne')
  have hlog := (Int.lt_zpow_iff_log_lt (by norm_num) hpos).mp habs
  have hplace : lastPlace (m * 2 ^ e) ≤ e := by
    unfold lastPlace
    omega
  apply rounded_of_mul_ulp (k := m * 2 ^ (e - lastPlace (m * 2 ^ e)).toNat)
  have hsplit : (2 : ℚ) ^ e = 2 ^ (e - lastPlace (m * 2 ^ e)).toNat * ulp (m * 2 ^ e) := by
    rw [ulp, ← zpow_natCast, ← zpow_add₀ (by norm_num), Int.toNat_of_nonneg (by omega)]
    congr 1
    omega
  push_cast
  rw [mul_assoc, ← hsplit]

/-- Rounding is done once. -/
theorem rounded_rounded (x : ℚ) : rounded (rounded x) = rounded x := by
  have hlo : -2 ^ 53 ≤ roundEven (x / ulp x) := by
    have h := le_rounded (x := x) (k := -2 ^ 53) (by
      have := neg_le_of_abs_le (abs_lt_ulp x).le
      push_cast
      linarith)
    exact_mod_cast le_of_mul_le_mul_right h (ulp_pos x)
  have hhi : roundEven (x / ulp x) ≤ 2 ^ 53 := by
    have h := rounded_le (x := x) (k := 2 ^ 53) (by
      have := le_of_abs_le (abs_lt_ulp x).le
      push_cast
      linarith)
    exact_mod_cast le_of_mul_le_mul_right h (ulp_pos x)
  have hplace : -1074 ≤ lastPlace x := le_max_right _ _
  -- 54 bits are reached only as a power of two
  rcases hlo.lt_or_eq with hlo | hlo
  · rcases hhi.lt_or_eq with hhi | hhi
    · exact rounded_eq_self (abs_lt.mpr ⟨hlo, hhi⟩) hplace
    · have h := rounded_eq_self (m := 2 ^ 52) (e := lastPlace x + 1) (by norm_num) (by omega)
      have heq : rounded x = ((2 ^ 52 : ℤ) : ℚ) * 2 ^ (lastPlace x + 1) := by
        rw [rounded, hhi, ulp, zpow_add₀ (by norm_num)]
        push_cast
        ring
      rw [heq, h]
  · have h := rounded_eq_self (m := -2 ^ 52) (e := lastPlace x + 1) (by norm_num) (by omega)
    have heq : rounded x = ((-2 ^ 52 : ℤ) : ℚ) * 2 ^ (lastPlace x + 1) := by
      rw [rounded, ← hlo, ulp, zpow_add₀ (by norm_num)]
      push_cast
      ring
    rw [heq, h]

/-- Every double is a multiple of the least one. -/
theorem exists_mul_least {x : ℚ} (h : rounded x = x) : ∃ n : ℤ, x = n * 2 ^ (-1074 : ℤ) := by
  have hplace : -1074 ≤ lastPlace x := le_max_right _ _
  refine ⟨roundEven (x / ulp x) * 2 ^ (lastPlace x + 1074).toNat, ?_⟩
  have hsplit : ulp x = 2 ^ (lastPlace x + 1074).toNat * (2 : ℚ) ^ (-1074 : ℤ) := by
    rw [ulp, ← zpow_natCast, ← zpow_add₀ (by norm_num), Int.toNat_of_nonneg (by omega)]
    congr 1
    omega
  rw [Int.cast_mul, Int.cast_pow, Int.cast_ofNat, mul_assoc, ← hsplit]
  exact h.symm

/-- **No difference is lost**: two doubles that differ do so by the least one at least. -/
theorem rounded_sub_pos {x y : ℚ} (hx : rounded x = x) (hy : rounded y = y) (h : x < y) :
    0 < rounded (y - x) ∧ rounded (x - y) < 0 := by
  obtain ⟨m, hm⟩ := exists_mul_least hx
  obtain ⟨n, hn⟩ := exists_mul_least hy
  have hleast : (0 : ℚ) < 2 ^ (-1074 : ℤ) := zpow_pos (by norm_num) _
  have hself := rounded_eq_self (m := 1) (e := -1074) (by norm_num) le_rfl
  rw [Int.cast_one, one_mul] at hself
  have hmn : m < n := by
    rw [hm, hn] at h
    exact_mod_cast lt_of_mul_lt_mul_right h hleast.le
  have hstep : (2 : ℚ) ^ (-1074 : ℤ) ≤ y - x := by
    have hone : (1 : ℚ) ≤ n - m := by exact_mod_cast Int.sub_pos.mpr hmn
    rw [hm, hn, ← sub_mul]
    exact le_mul_of_one_le_left hleast.le hone
  have hpos : 0 < rounded (y - x) :=
    calc 0 < rounded (2 ^ (-1074 : ℤ)) := by rw [hself]; exact hleast
      _ ≤ rounded (y - x) := rounded_mono hstep
  refine ⟨hpos, ?_⟩
  rw [← neg_sub, rounded_neg]
  exact neg_lt_zero.mpr hpos

/-! ## Numbers -/

/-- From here on a result is infinite. -/
def limit : ℚ := 2 ^ 1024

/-- The limit is positive, so a number that rounding has left at 0 is finite. -/
theorem limit_pos : 0 < limit := pow_pos two_pos _

/-- A finite double. -/
@[ext] structure Value where
  val : ℚ
  rounded_val : rounded val = val
  abs_lt : |val| < limit
deriving DecidableEq

def Value.zero : Value := ⟨0, rounded_zero, abs_zero.trans_lt limit_pos⟩

/-- 53 bits and a power of two in the range. -/
theorem abs_lt_limit {m e : ℤ} (hm : |m| < 2 ^ 53) (he : e ≤ 971) : |(m : ℚ) * 2 ^ e| < limit := by
  have hm' : |(m : ℚ)| < 2 ^ 53 := by exact_mod_cast hm
  have hpow : (0 : ℚ) < 2 ^ e := zpow_pos (by norm_num) e
  calc |(m : ℚ) * 2 ^ e| = |(m : ℚ)| * 2 ^ e := by rw [abs_mul, abs_of_pos hpow]
    _ < 2 ^ 53 * 2 ^ e := mul_lt_mul_of_pos_right hm' hpow
    _ = (2 : ℚ) ^ (53 + e) := by rw [zpow_add₀ (by norm_num)]; rfl
    _ ≤ 2 ^ (1024 : ℤ) := zpow_le_zpow_right₀ (by norm_num) (by omega)
    _ = limit := rfl

/-- The doubles that are numbers. -/
inductive Number
  | negInf
  | finite (x : Value)
  | posInf
deriving DecidableEq

namespace Number

/-- Where a number is in the order. -/
def place : Number → WithBot (WithTop ℚ)
  | negInf => ⊥
  | finite x => ((x.val : WithTop ℚ) : WithBot (WithTop ℚ))
  | posInf => ⊤

/-- The order of the doubles is that of their places, and no two have the same place. -/
theorem place_injective : Function.Injective place := by
  intro x y h
  cases x with
  | negInf => cases y <;> first | rfl | exact absurd h (by simp [place])
  | posInf => cases y <;> first | rfl | exact absurd h (by simp [place])
  | finite x =>
    cases y with
    | finite y => exact congrArg finite (Value.ext (by simpa [place] using h))
    | negInf => exact absurd h (by simp [place])
    | posInf => exact absurd h (by simp [place])

instance : LinearOrder Number := LinearOrder.lift' place place_injective

variable {x y : Number} {v w : Value} {p q : ℚ}

/-- Between two finite doubles the order is that of the numbers they stand for. -/
theorem finite_le_finite : finite v ≤ finite w ↔ v.val ≤ w.val := by
  change place (finite v) ≤ place (finite w) ↔ _
  simp [place]

theorem finite_lt_finite : finite v < finite w ↔ v.val < w.val := by
  change place (finite v) < place (finite w) ↔ _
  simp [place]

theorem negInf_le : negInf ≤ x := by
  change place negInf ≤ place x
  simp [place]

theorem le_posInf : x ≤ posInf := by
  change place x ≤ place posInf
  simp [place]

/-- The finite doubles are strictly between the two infinities. -/
theorem negInf_lt_finite : negInf < finite v := by
  change place negInf < place (finite v)
  simp [place]

theorem finite_lt_posInf : finite v < posInf := by
  change place (finite v) < place posInf
  exact WithBot.coe_lt_coe.mpr (WithTop.coe_lt_top v.val)

/-- What is between finite numbers is finite. -/
theorem exists_finite (hlo : finite v ≤ x) (hhi : x ≤ finite w) : ∃ u, x = finite u := by
  cases x with
  | negInf => exact absurd negInf_lt_finite hlo.not_gt
  | finite u => exact ⟨u, rfl⟩
  | posInf => exact absurd finite_lt_posInf hhi.not_gt

/-- The number that an exact result is rounded to. -/
def ofRat (x : ℚ) : Number :=
  if h : |rounded x| < limit then finite ⟨rounded x, rounded_rounded x, h⟩
  else if 0 < x then posInf else negInf

/-- The number that a double stands for is rounded to that double: nothing is lost a
second time. -/
theorem ofRat_value : ofRat v.val = finite v := by
  have hsmall : |rounded v.val| < limit := by
    rw [v.rounded_val]
    exact v.abs_lt
  unfold ofRat
  rw [dif_pos hsmall]
  exact congrArg finite (Value.ext v.rounded_val)

/-- A number that rounding leaves alone, and that is not too large, is a finite double. -/
theorem ofRat_of_round (hround : rounded q = q) (h : |q| < limit) :
    ofRat q = finite ⟨q, hround, h⟩ :=
  ofRat_value (v := ⟨q, hround, h⟩)

/-- 0 is a double, the one that the literal and a difference of equals give. -/
theorem ofRat_zero : ofRat 0 = finite .zero := ofRat_value (v := .zero)

/-- An integer of 53 bits, times a power of two. -/
theorem ofRat_of_eq {m e : ℤ} (hm : |m| < 2 ^ 53) (hlo : -1074 ≤ e) (hhi : e ≤ 971)
    (hq : q = m * 2 ^ e) : ∃ v : Value, v.val = q ∧ ofRat q = finite v := by
  subst hq
  exact ⟨⟨_, rounded_eq_self hm hlo, abs_lt_limit hm hhi⟩, rfl,
    ofRat_of_round (rounded_eq_self hm hlo) (abs_lt_limit hm hhi)⟩

/-- Integers of 53 bits are doubles, so an `int` is converted exactly. -/
theorem ofRat_intCast {n : ℤ} (h : |n| < 2 ^ 53) :
    ∃ v : Value, v.val = n ∧ ofRat n = finite v :=
  ofRat_of_eq (e := 0) h (by norm_num) (by norm_num) (by rw [zpow_zero, mul_one])

/-- **Rounding to a double is monotone**, over the finite ones and the infinities alike;
the monotonicity of every operation below follows from it. -/
theorem ofRat_mono (h : p ≤ q) : ofRat p ≤ ofRat q := by
  have hround := rounded_mono h
  unfold ofRat
  split_ifs with hp hq hq0 hp0 hq hq0 hq hq0
  · exact finite_le_finite.mpr hround
  · exact le_posInf
  · -- `q` is not above 0, so `p` is the larger one
    have hq' := rounded_nonpos (not_lt.mp hq0)
    rw [abs_of_nonpos hq'] at hq
    rw [abs_of_nonpos (hround.trans hq')] at hp
    linarith
  · have hp' := rounded_nonneg hp0.le
    rw [abs_of_nonneg hp'] at hp
    rw [abs_of_nonneg (hp'.trans hround)] at hq
    linarith
  · exact le_rfl
  · linarith
  · exact negInf_le
  · exact negInf_le
  · exact le_rfl

/-- What is rounded to something positive is above 0 as a double, also where it is too
large for a finite one. -/
theorem zero_lt_ofRat (h : 0 < rounded q) : finite .zero < ofRat q := by
  unfold ofRat
  split_ifs with hfin hpos
  · exact finite_lt_finite.mpr h
  · exact finite_lt_posInf
  · exact absurd (rounded_nonpos (not_lt.mp hpos)) h.not_ge

theorem ofRat_lt_zero (h : rounded q < 0) : ofRat q < finite .zero := by
  unfold ofRat
  split_ifs with hfin hpos
  · exact finite_lt_finite.mpr h
  · exact absurd (rounded_nonneg hpos.le) h.not_ge
  · exact negInf_lt_finite

/-! The operations with a finite operand -/

def addFinite : Number → ℚ → Number
  | negInf, _ => negInf
  | finite x, q => ofRat (x.val + q)
  | posInf, _ => posInf

/-- `q` minus a number. -/
def subFrom (q : ℚ) : Number → Number
  | negInf => posInf
  | finite x => ofRat (q - x.val)
  | posInf => negInf

/-- `q`, which is positive, times a number. -/
def scale (q : ℚ) : Number → Number
  | negInf => negInf
  | finite x => ofRat (q * x.val)
  | posInf => posInf

/-- A sum with a finite number grows with either of the two: exact sums do, and rounding
is monotone. -/
theorem addFinite_mono (hxy : x ≤ y) (hpq : p ≤ q) : x.addFinite p ≤ y.addFinite q := by
  cases x with
  | negInf => exact negInf_le
  | finite v =>
    cases y with
    | negInf => exact absurd negInf_lt_finite hxy.not_gt
    | finite w => exact ofRat_mono (add_le_add (finite_le_finite.mp hxy) hpq)
    | posInf => exact le_posInf
  | posInf =>
    cases le_antisymm hxy le_posInf
    exact le_rfl

/-- A difference grows with what is subtracted from; an infinity is subtracted with its
sign. -/
theorem subFrom_mono (h : p ≤ q) : subFrom p x ≤ subFrom q x := by
  cases x with
  | negInf => exact le_rfl
  | finite v => exact ofRat_mono (sub_le_sub_right h _)
  | posInf => exact le_rfl

/-- The sign of a difference is that of the comparison. -/
theorem zero_lt_subFrom_iff : finite .zero < subFrom v.val x ↔ x < finite v := by
  cases x with
  | negInf => exact iff_of_true finite_lt_posInf negInf_lt_finite
  | posInf => exact iff_of_false negInf_le.not_gt le_posInf.not_gt
  | finite w =>
    rw [finite_lt_finite]
    constructor
    · intro h
      by_contra hle
      have hnonpos : ofRat (v.val - w.val) ≤ ofRat 0 := ofRat_mono (by linarith)
      rw [ofRat_zero] at hnonpos
      exact hnonpos.not_gt h
    · exact fun h => zero_lt_ofRat (rounded_sub_pos w.rounded_val v.rounded_val h).1

/-- The sign of a difference of doubles is that of the comparison, because a difference
of two doubles is never rounded to 0 unless they are equal. -/
theorem subFrom_lt_zero_iff : subFrom v.val x < finite .zero ↔ finite v < x := by
  cases x with
  | negInf => exact iff_of_false le_posInf.not_gt negInf_le.not_gt
  | posInf => exact iff_of_true negInf_lt_finite finite_lt_posInf
  | finite w =>
    rw [finite_lt_finite]
    constructor
    · intro h
      by_contra hle
      have hnonneg : ofRat 0 ≤ ofRat (v.val - w.val) := ofRat_mono (by linarith)
      rw [ofRat_zero] at hnonneg
      exact hnonneg.not_gt h
    · exact fun h => ofRat_lt_zero (rounded_sub_pos v.rounded_val w.rounded_val h).2

/-- A product with a factor that is not negative keeps the order of what is multiplied. -/
theorem scale_mono (hq : 0 ≤ q) (h : x ≤ y) : scale q x ≤ scale q y := by
  cases x with
  | negInf => exact negInf_le
  | finite v =>
    cases y with
    | negInf => exact absurd negInf_lt_finite h.not_gt
    | finite w => exact ofRat_mono (mul_le_mul_of_nonneg_left (finite_le_finite.mp h) hq)
    | posInf => exact le_posInf
  | posInf =>
    cases le_antisymm h le_posInf
    exact le_rfl

end Number

/-! ## Doubles -/

inductive Double
  | nan
  | number (x : Number)
deriving DecidableEq

namespace Double

open Number

def add : Double → Double → Double
  | number (finite x), number (finite y) => number (ofRat (x.val + y.val))
  | number negInf, number posInf | number posInf, number negInf => nan
  | number negInf, number _ | number (finite _), number negInf => number negInf
  | number posInf, number _ | number (finite _), number posInf => number posInf
  | nan, _ | number _, nan => nan

def sub : Double → Double → Double
  | number (finite x), number (finite y) => number (ofRat (x.val - y.val))
  | number negInf, number negInf | number posInf, number posInf => nan
  | number negInf, number _ | number (finite _), number posInf => number negInf
  | number posInf, number _ | number (finite _), number negInf => number posInf
  | nan, _ | number _, nan => nan

def mul : Double → Double → Double
  | number (finite x), number (finite y) => number (ofRat (x.val * y.val))
  | number x, number y =>
    if x = ofRat 0 ∨ y = ofRat 0 then nan
    else if (ofRat 0 < x ↔ ofRat 0 < y) then number posInf
    else number negInf
  | nan, _ | number _, nan => nan

def neg : Double → Double
  | number negInf => number posInf
  | number (finite x) => number (ofRat (-x.val))
  | number posInf => number negInf
  | nan => nan

instance : Add Double := ⟨add⟩
instance : Sub Double := ⟨sub⟩
instance : Mul Double := ⟨mul⟩
instance : Neg Double := ⟨neg⟩
instance : RatCast Double := ⟨fun q => number (ofRat q)⟩
instance : IntCast Double := ⟨fun n => number (ofRat n)⟩
instance : Zero Double := ⟨number (ofRat 0)⟩

/-- A NaN is not less than anything, nor is anything less than it. -/
def Lt : Double → Double → Prop
  | number x, number y => x < y
  | _, _ => False

def Le : Double → Double → Prop
  | number x, number y => x ≤ y
  | _, _ => False

instance : LT Double := ⟨Lt⟩
instance : LE Double := ⟨Le⟩

instance : DecidableLT Double
  | number x, number y => inferInstanceAs (Decidable (x < y))
  | nan, _ => .isFalse id
  | number _, nan => .isFalse id

instance : DecidableLE Double
  | number x, number y => inferInstanceAs (Decidable (x ≤ y))
  | nan, _ => .isFalse id
  | number _, nan => .isFalse id

variable {x y : Number} {v : Value} {a b : Double}

/-- Among doubles that are no NaN, `<` is the order of the numbers. -/
theorem number_lt_number : number x < number y ↔ x < y := Iff.rfl

theorem number_le_number : number x ≤ number y ↔ x ≤ y := Iff.rfl

@[simp] theorem not_nan_lt : ¬ nan < a := id

@[simp] theorem not_lt_nan : ¬ a < nan := by
  cases a <;> exact id

@[simp] theorem not_nan_le : ¬ nan ≤ a := id

@[simp] theorem not_le_nan : ¬ a ≤ nan := by
  cases a <;> exact id

protected theorem not_lt_self : ¬ a < a := by
  cases a with
  | nan => exact id
  | number x => exact lt_irrefl x

protected theorem not_lt_of_lt (h : a < b) : ¬ b < a := by
  cases a with
  | nan => exact not_lt_nan
  | number x =>
    cases b with
    | nan => exact not_nan_lt
    | number y => exact lt_asymm (number_lt_number.mp h)

protected theorem not_lt_of_le (h : a ≤ b) : ¬ b < a := by
  cases a with
  | nan => exact not_lt_nan
  | number x =>
    cases b with
    | nan => exact not_nan_lt
    | number y => exact (number_le_number.mp h).not_gt

protected theorem le_trans {c : Double} (hab : a ≤ b) (hbc : b ≤ c) : a ≤ c := by
  cases a with
  | nan => exact absurd hab not_nan_le
  | number x =>
    cases b with
    | nan => exact absurd hab not_le_nan
    | number y =>
      cases c with
      | nan => exact absurd hbc not_le_nan
      | number z => exact (number_le_number.mp hab).trans (number_le_number.mp hbc)

@[simp] theorem nan_add : nan + a = nan := by
  cases a <;> rfl

@[simp] theorem add_nan : a + nan = nan := by
  cases a with
  | nan => rfl
  | number x => cases x <;> rfl

@[simp] theorem sub_nan : a - nan = nan := by
  cases a with
  | nan => rfl
  | number x => cases x <;> rfl

@[simp] theorem mul_nan : a * nan = nan := by
  cases a with
  | nan => rfl
  | number x => cases x <;> rfl

/-- A sum with a finite double is a number, never a NaN: only infinities of both signs
would cancel to one. -/
theorem number_add_finite : number x + number (finite v) = number (x.addFinite v.val) := by
  cases x <;> rfl

theorem finite_add_number : number (finite v) + number x = number (x.addFinite v.val) := by
  cases x with
  | finite w => exact congrArg (fun q => number (ofRat q)) (add_comm v.val w.val)
  | negInf => rfl
  | posInf => rfl

/-- The same for a difference from a finite double. -/
theorem finite_sub_number : number (finite v) - number x = number (subFrom v.val x) := by
  cases x <;> rfl

/-- A product with a positive finite double is a number: only 0 times an infinity would
be a NaN. -/
theorem finite_mul_number (hv : 0 < v.val) :
    number (finite v) * number x = number (scale v.val x) := by
  have hpos : ofRat 0 < finite v := by
    rw [ofRat_zero]
    exact finite_lt_finite.mpr hv
  have hv0 : finite v ≠ ofRat 0 := hpos.ne'
  cases x with
  | finite w => rfl
  | negInf =>
    have hlt : negInf < ofRat 0 := by
      rw [ofRat_zero]
      exact negInf_lt_finite
    change mul _ _ = _
    simp only [mul, hv0, hlt.ne, or_self, if_false, hpos, hlt.not_gt, scale, iff_false,
      not_true_eq_false]
  | posInf =>
    have hlt : ofRat 0 < posInf := by
      rw [ofRat_zero]
      exact finite_lt_posInf
    change mul _ _ = _
    simp only [mul, hv0, hlt.ne', or_self, if_false, hpos, hlt, scale, if_true]

/-- `std::clamp` compares only, and a NaN is not less than anything, so it comes out as
it went in. -/
theorem clamp_nan : Round.clamp nan a b = nan := by
  unfold Round.clamp
  rw [if_neg not_nan_lt, if_neg not_lt_nan]

/-- On numbers the clamp is the one of their order, as both of its comparisons are. -/
theorem clamp_number {lo hi : Number} :
    Round.clamp (number x) (number lo) (number hi) = number (Round.clamp x lo hi) := by
  unfold Round.clamp
  simp only [number_lt_number]
  split_ifs <;> rfl

/-- `std::lround`. What it returns for a double that does not fit a `long` or is no number
is not specified. -/
def lround (outside : Double → Int64) : Double → Int64
  | number (finite x) =>
    if -2 ^ 63 ≤ Round.lround x.val ∧ Round.lround x.val < 2 ^ 63 then .ofInt (Round.lround x.val)
    else outside (number (finite x))
  | a => outside a

/-- Where the result fits a `long`, `lround` rounds half away from zero; only outside of
it is it left open. -/
theorem lround_finite {outside : Double → Int64} (hlo : -2 ^ 63 ≤ Round.lround v.val)
    (hhi : Round.lround v.val < 2 ^ 63) :
    lround outside (number (finite v)) = .ofInt (Round.lround v.val) :=
  if_pos ⟨hlo, hhi⟩

end Double

end Binary64
