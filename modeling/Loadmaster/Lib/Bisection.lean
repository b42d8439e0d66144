/-
Bisection.

An `Enclosure` is an interval in which a predicate turns from false to true at `t`;
it cannot be built where it does not hold `t`. To ask at the middle and keep the
half the answer leaves is `halve`, which is again an enclosure, half as wide and
inside the one before. The middle of an enclosure is off by at most half its width,
so after `k` halvings the middle is off by at most `width / 2 ^ (k + 1)`.
-/
import Mathlib.Algebra.Order.Field.Basic
import Mathlib.Logic.Function.Iterate
import Mathlib.Order.Interval.Set.Defs
import Mathlib.Tactic.Linarith
import Mathlib.Tactic.Ring

set_option autoImplicit false

namespace Bisection

-- the numeral of a field, so that no definition has a proof of its own in it
local instance two_atLeastTwo : Nat.AtLeastTwo 2 := ⟨le_rfl⟩

variable {α : Type*} [LinearOrder α]

/-- `p` is false in the interval below `t` and true in it above `t`; at `t`
itself it may be either. -/
structure Enclosure (p : α → Bool) (t : α) where
  lo : α
  hi : α
  lo_le : lo ≤ t
  le_hi : t ≤ hi
  below : ∀ x, lo ≤ x → x < t → p x = false
  above : ∀ x, t < x → x ≤ hi → p x = true

namespace Enclosure

variable {p : α → Bool} {t x lo hi : α}

/-- A predicate that says in the interval whether a position is above `t`. -/
def ofIff (ht : t ∈ Set.Icc lo hi) (h : ∀ x ∈ Set.Icc lo hi, p x = true ↔ t < x) :
    Enclosure p t where
  lo := lo
  hi := hi
  lo_le := ht.1
  le_hi := ht.2
  below x hx hxt := Bool.eq_false_of_not_eq_true fun hp =>
    lt_asymm hxt ((h x ⟨hx, hxt.le.trans ht.2⟩).mp hp)
  above x htx hx := (h x ⟨ht.1.trans htx.le, hx⟩).mpr htx

/-- Where the predicate holds one is at the point or above it. -/
theorem le_of_true (e : Enclosure p t) (hx : e.lo ≤ x) (h : p x = true) : t ≤ x := by
  by_contra hlt
  rw [e.below x hx (not_le.mp hlt)] at h
  exact Bool.false_ne_true h

/-- Where the predicate does not hold one is at the point or below it. -/
theorem le_of_false (e : Enclosure p t) (hx : x ≤ e.hi) (h : p x = false) : x ≤ t := by
  by_contra hlt
  rw [e.above x (not_le.mp hlt) hx] at h
  exact Bool.false_ne_true h.symm

variable [Field α]

/-- Where the predicate is asked. -/
def mid (e : Enclosure p t) : α := (e.lo + e.hi) / 2

def width (e : Enclosure p t) : α := e.hi - e.lo

variable [IsStrictOrderedRing α]

theorem lo_le_mid (e : Enclosure p t) : e.lo ≤ e.mid := by
  have := e.lo_le.trans e.le_hi
  unfold mid
  linarith

theorem mid_le_hi (e : Enclosure p t) : e.mid ≤ e.hi := by
  have := e.lo_le.trans e.le_hi
  unfold mid
  linarith

/-- The middle is off by at most half the width. -/
theorem abs_mid_sub_le (e : Enclosure p t) : |e.mid - t| ≤ e.width / 2 := by
  have hlo := e.lo_le
  have hhi := e.le_hi
  unfold mid width
  rw [abs_le]
  constructor <;> linarith

/-! ## Halving -/

/-- The half that the answer at the middle leaves. -/
def halve (e : Enclosure p t) : Enclosure p t :=
  if h : p e.mid = true then
    { lo := e.lo
      hi := e.mid
      lo_le := e.lo_le
      le_hi := e.le_of_true e.lo_le_mid h
      below := e.below
      above := fun x htx hx => e.above x htx (hx.trans e.mid_le_hi) }
  else
    { lo := e.mid
      hi := e.hi
      lo_le := e.le_of_false e.mid_le_hi (Bool.eq_false_of_not_eq_true h)
      le_hi := e.le_hi
      below := fun x hx hxt => e.below x (e.lo_le_mid.trans hx) hxt
      above := e.above }

theorem halve_lo (e : Enclosure p t) : e.halve.lo = if p e.mid then e.lo else e.mid := by
  unfold halve
  split_ifs <;> rfl

theorem halve_hi (e : Enclosure p t) : e.halve.hi = if p e.mid then e.mid else e.hi := by
  unfold halve
  split_ifs <;> rfl

theorem lo_le_halve_lo (e : Enclosure p t) : e.lo ≤ e.halve.lo := by
  rw [halve_lo]
  split_ifs
  · exact le_rfl
  · exact e.lo_le_mid

theorem halve_hi_le_hi (e : Enclosure p t) : e.halve.hi ≤ e.hi := by
  rw [halve_hi]
  split_ifs
  · exact e.mid_le_hi
  · exact le_rfl

/-- Halving keeps one of the ends and moves the other to the middle, so the width is
halved. -/
theorem width_halve (e : Enclosure p t) : e.halve.width = e.width / 2 := by
  unfold width
  rw [halve_lo, halve_hi]
  split_ifs <;> unfold mid <;> ring

/-! ## Halving again and again -/

/-- After `k` rounds the width is the `2 ^ k`-th part. -/
theorem width_iterate (e : Enclosure p t) (k : ℕ) : (halve^[k] e).width = e.width / 2 ^ k := by
  induction k with
  | zero => simp
  | succ k ih =>
    rw [Function.iterate_succ_apply', width_halve, ih]
    ring

/-- After any number of rounds the ends are within the first ones. -/
theorem lo_le_iterate_lo (e : Enclosure p t) (k : ℕ) : e.lo ≤ (halve^[k] e).lo := by
  induction k with
  | zero => exact le_rfl
  | succ k ih =>
    rw [Function.iterate_succ_apply']
    exact ih.trans (lo_le_halve_lo _)

theorem iterate_hi_le_hi (e : Enclosure p t) (k : ℕ) : (halve^[k] e).hi ≤ e.hi := by
  induction k with
  | zero => exact le_rfl
  | succ k ih =>
    rw [Function.iterate_succ_apply']
    exact (halve_hi_le_hi _).trans ih

/-- The middle stays inside the interval that was begun with. -/
theorem iterate_mid_mem (e : Enclosure p t) (k : ℕ) :
    (halve^[k] e).mid ∈ Set.Icc e.lo e.hi :=
  ⟨(e.lo_le_iterate_lo k).trans (lo_le_mid _), (mid_le_hi _).trans (e.iterate_hi_le_hi k)⟩

/-- **How far off the middle is after `k` halvings.** -/
theorem abs_iterate_mid_sub_le (e : Enclosure p t) (k : ℕ) :
    |(halve^[k] e).mid - t| ≤ e.width / 2 ^ (k + 1) := by
  calc |(halve^[k] e).mid - t| ≤ (halve^[k] e).width / 2 := abs_mid_sub_le _
    _ = e.width / 2 ^ (k + 1) := by
      rw [width_iterate]
      ring

end Enclosure

end Bisection
