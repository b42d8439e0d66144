/-
Clamping and rounding, as the C++ standard library has them.

`clamp` is `std::clamp` and `stdMax` is `std::max`, on any type with a `<`; `lround` is
`std::lround` on any ordered field with a floor: to the nearest integer, halves away from
zero.
-/
import Mathlib.Algebra.Order.Floor.Ring
import Mathlib.Algebra.Order.Field.Basic
import Mathlib.Tactic.Linarith

set_option autoImplicit false

namespace Round

/-- `std::clamp(x, lo, hi)`. -/
def clamp {α : Type*} [LT α] [DecidableLT α] (x lo hi : α) : α :=
  if x < lo then lo else if hi < x then hi else x

/-- `std::max(x, y)`, which is `x` where the two do not compare. -/
def stdMax {α : Type*} [LT α] [DecidableLT α] (x y : α) : α := if x < y then y else x

section Clamp

variable {α : Type*} [LinearOrder α] {x y lo hi : α}

theorem stdMax_eq : stdMax x y = max x y := by
  unfold stdMax
  split_ifs with h
  · rw [max_eq_right h.le]
  · rw [max_eq_left (not_lt.mp h)]

theorem clamp_eq (h : lo ≤ hi) : clamp x lo hi = max lo (min x hi) := by
  unfold clamp
  split_ifs with h1 h2
  · rw [max_eq_left ((min_le_left _ _).trans h1.le)]
  · rw [min_eq_right h2.le, max_eq_right h]
  · rw [min_eq_left (not_lt.mp h2), max_eq_right (not_lt.mp h1)]

/-- Below the lower bound the clamp is that bound. -/
theorem clamp_of_le (h : lo ≤ hi) (hx : x ≤ lo) : clamp x lo hi = lo := by
  rw [clamp_eq h, max_eq_left ((min_le_left _ _).trans hx)]

theorem clamp_mem (h : lo ≤ hi) : lo ≤ clamp x lo hi ∧ clamp x lo hi ≤ hi := by
  rw [clamp_eq h]
  exact ⟨le_max_left _ _, max_le h (min_le_right _ _)⟩

/-- Clamping is monotone. -/
theorem clamp_le_clamp (h : lo ≤ hi) (hxy : x ≤ y) : clamp x lo hi ≤ clamp y lo hi := by
  rw [clamp_eq h, clamp_eq h]
  exact max_le_max le_rfl (min_le_min hxy le_rfl)

end Clamp

/-- Between whole bounds it does not matter what is done first. -/
theorem floor_clamp {α : Type*} [Ring α] [LinearOrder α] [IsStrictOrderedRing α] [FloorRing α]
    (x : α) (lo hi : ℤ) : ⌊clamp x (lo : α) hi⌋ = clamp ⌊x⌋ lo hi := by
  unfold clamp
  by_cases hlo : x < lo
  · rw [if_pos hlo, if_pos (Int.floor_lt.mpr hlo), Int.floor_intCast]
  rw [if_neg hlo, if_neg (Int.floor_lt.not.mpr hlo)]
  by_cases hhi : (hi : α) < x
  · -- the floor is at least `hi`, and `hi` is what both give
    have hle : hi ≤ ⌊x⌋ := Int.le_floor.mpr hhi.le
    rw [if_pos hhi, Int.floor_intCast]
    split_ifs with hlt
    · rfl
    · exact le_antisymm hle (not_lt.mp hlt)
  · rw [if_neg hhi, if_neg (not_lt.mpr ?_)]
    exact Int.floor_le_iff.mpr ((not_lt.mp hhi).trans_lt (lt_add_one _))

section Lround

variable {α : Type*} [Field α] [LinearOrder α] [FloorRing α]

/-- `std::lround`. -/
def lround (x : α) : ℤ := if 0 ≤ x then ⌊x + 1 / 2⌋ else ⌈x - 1 / 2⌉

@[simp] theorem lround_intCast [IsStrictOrderedRing α] (k : ℤ) : lround (k : α) = k := by
  unfold lround
  split_ifs
  · rw [Int.floor_intCast_add, Int.floor_eq_zero_iff.mpr ⟨by norm_num, by norm_num⟩, add_zero]
  · rw [sub_eq_add_neg, Int.ceil_intCast_add, add_eq_left, Int.ceil_eq_iff]
    constructor <;> norm_num

/-- What is rounded to `k`: the numbers from half below it on, up to half above it. -/
theorem lround_eq_iff [IsStrictOrderedRing α] {x : α} {k : ℤ} (hx : 0 ≤ x) :
    lround x = k ↔ k - 1 / 2 ≤ x ∧ x < k + 1 / 2 := by
  rw [lround, if_pos hx, Int.floor_eq_iff]
  constructor
  · rintro ⟨h1, h2⟩
    constructor <;> linarith
  · rintro ⟨h1, h2⟩
    constructor <;> linarith

/-- Rounding reaches `k` from half below it on, and stays below it until then. -/
theorem le_lround_iff [IsStrictOrderedRing α] {x : α} {k : ℤ} (hx : 0 ≤ x) :
    k ≤ lround x ↔ k - 1 / 2 ≤ x := by
  rw [lround, if_pos hx, Int.le_floor, sub_le_iff_le_add]

theorem lround_lt_iff [IsStrictOrderedRing α] {x : α} {k : ℤ} (hx : 0 ≤ x) :
    lround x < k ↔ x < k - 1 / 2 := by
  rw [← not_le, le_lround_iff hx, not_le]

/-- `std::lround` is at most half a unit off. -/
theorem abs_lround_sub_le [IsStrictOrderedRing α] {x : α} (hx : 0 ≤ x) :
    |(lround x : α) - x| ≤ 1 / 2 := by
  obtain ⟨hlo, hhi⟩ := (lround_eq_iff hx).mp rfl
  rw [abs_le]
  constructor <;> linarith

/-- The nearest integer; of two that are equally near, the one away from zero. -/
structure NearestAway (x : α) (k : ℤ) : Prop where
  near : |(k : α) - x| ≤ 1 / 2
  away : |(k : α) - x| = 1 / 2 → |x| ≤ |(k : α)|

/-- **What `std::lround` returns.** -/
theorem nearestAway_lround [IsStrictOrderedRing α] (x : α) : NearestAway x (lround x) := by
  unfold lround
  split_ifs with hx
  · obtain ⟨hlo, hhi⟩ := Int.floor_eq_iff.mp (rfl : ⌊x + 1 / 2⌋ = _)
    have hdown : -(1 / 2) < (⌊x + 1 / 2⌋ : α) - x := by linarith
    refine ⟨abs_le.mpr ⟨hdown.le, by linarith⟩, fun hhalf => ?_⟩
    -- a half below is rounded up, so the half is above
    rcases (abs_eq (by norm_num)).mp hhalf with h | h
    · rw [abs_of_nonneg hx, abs_of_nonneg (by linarith)]
      linarith
    · exact absurd hdown (by rw [h]; exact lt_irrefl _)
  · obtain ⟨hlo, hhi⟩ := Int.ceil_eq_iff.mp (rfl : ⌈x - 1 / 2⌉ = _)
    have hup : (⌈x - 1 / 2⌉ : α) - x < 1 / 2 := by linarith
    refine ⟨abs_le.mpr ⟨by linarith, hup.le⟩, fun hhalf => ?_⟩
    rcases (abs_eq (by norm_num)).mp hhalf with h | h
    · exact absurd hup (by rw [h]; exact lt_irrefl _)
    · rw [abs_of_neg (not_le.mp hx), abs_of_nonpos (by linarith)]
      linarith

end Lround

section Gap

variable {α : Type*} [Field α] [LinearOrder α] [IsStrictOrderedRing α] [FloorRing α]

/-- The integers further than 1 from `x` stay away from that distance. -/
theorem exists_gap (x : α) : ∃ γ > 0, ∀ k : ℤ, |x - k| < 1 + γ → |x - k| ≤ 1 := by
  have hlo := Int.fract_nonneg x
  have hhi := Int.fract_lt_one x
  have hsplit := Int.floor_add_fract x
  -- below, the next integer is `1 - fract x` too far; above, `fract x`, or 1 on an integer
  refine ⟨min (1 - Int.fract x) (if Int.fract x = 0 then 1 else Int.fract x), ?_, ?_⟩
  · apply lt_min (by linarith)
    split_ifs with h
    · exact one_pos
    · exact lt_of_le_of_ne hlo (Ne.symm h)
  · intro k hk
    have heq : x - k = ((⌊x⌋ - k : ℤ) : α) + Int.fract x := by
      rw [Int.cast_sub]
      linarith
    rw [heq] at hk ⊢
    obtain ⟨hk1, hk2⟩ := abs_lt.mp hk
    have hbelow : -2 < ⌊x⌋ - k := by
      have hγ := min_le_left (1 - Int.fract x) (if Int.fract x = 0 then 1 else Int.fract x)
      have : ((-2 : ℤ) : α) < ((⌊x⌋ - k : ℤ) : α) := by
        rw [Int.cast_neg, Int.cast_ofNat]
        linarith
      exact_mod_cast this
    have habove : ((⌊x⌋ - k : ℤ) : α) + Int.fract x ≤ 1 := by
      have hγ := min_le_right (1 - Int.fract x) (if Int.fract x = 0 then 1 else Int.fract x)
      split_ifs at hγ hk2 with h
      · rw [h] at hk2 ⊢
        have hlt : ((⌊x⌋ - k : ℤ) : α) < ((2 : ℤ) : α) := by
          rw [Int.cast_ofNat]
          linarith [min_le_right (1 - (0 : α)) 1]
        have hle : ⌊x⌋ - k ≤ 1 := by
          have := Int.cast_lt.mp hlt
          omega
        rw [add_zero]
        exact_mod_cast hle
      · have hlt : ((⌊x⌋ - k : ℤ) : α) < ((1 : ℤ) : α) := by
          rw [Int.cast_one]
          linarith
        have hle : ⌊x⌋ - k ≤ 0 := by
          have := Int.cast_lt.mp hlt
          omega
        have : ((⌊x⌋ - k : ℤ) : α) ≤ 0 := by exact_mod_cast hle
        linarith
    have hge : (-1 : α) ≤ ((⌊x⌋ - k : ℤ) : α) := by
      have : -1 ≤ ⌊x⌋ - k := by omega
      exact_mod_cast this
    rw [abs_le]
    constructor <;> linarith

end Gap

end Round
