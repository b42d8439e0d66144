/-
The ring buffer with a rolling mean (`util/rolling_sampler.h`), in exact
arithmetic.

The template takes its mean in one of two ways, for a `double` by dividing and
for an integer by rounding the quotient to the nearest one. `SampleMean` is that
choice.
-/
import Loadmaster.Lib.RingWindow
import Loadmaster.Lib.Round
import Mathlib.Algebra.BigOperators.Group.List.Basic
import Mathlib.Data.Rat.Floor

set_option autoImplicit false

namespace Loadmaster.Util

/-- The mean of `count` values that add up to `sum`. -/
class SampleMean (T : Type) where
  mean (sum : T) (count : ℕ) : T

instance : SampleMean ℚ where
  mean sum count := sum / count

instance : SampleMean ℤ where
  mean sum count := Round.lround ((sum : ℚ) / count)

structure RollingSampler (T : Type) [Zero T] where
  capacity : ℕ
  index : ℕ := 0
  values : List T := []
  sum : T := 0
  mean_cached : T := 0
deriving DecidableEq, Repr

namespace RollingSampler

variable {T : Type} [AddCommGroup T] [SampleMean T] {s : RollingSampler T} {value : T}

/-- `GetMean` -/
def getMean (s : RollingSampler T) : T := s.mean_cached

/-- `GetSampleCount` -/
def getSampleCount (s : RollingSampler T) : ℕ := s.values.length

/-- `InsertValue` -/
def insertValue (s : RollingSampler T) (value : T) : RollingSampler T :=
  let s :=
    if s.values.length < s.capacity then
      { s with values := s.values ++ [value], sum := s.sum + value }
    else
      { s with
        sum := s.sum - s.values.getD s.index 0 + value
        values := s.values.set s.index value
        index := if s.capacity ≤ s.index + 1 then 0 else s.index + 1 }
  { s with mean_cached := SampleMean.mean s.sum s.values.length }

@[simp] theorem capacity_insertValue : (s.insertValue value).capacity = s.capacity := by
  unfold insertValue
  dsimp only
  split_ifs <;> rfl

/-- A sampler never holds more than its capacity. -/
theorem length_insertValue_le (h : s.values.length ≤ s.capacity) :
    (s.insertValue value).values.length ≤ (s.insertValue value).capacity := by
  rw [capacity_insertValue]
  unfold insertValue
  dsimp only
  by_cases hroom : s.values.length < s.capacity
  · rw [if_pos hroom, List.length_append, List.length_singleton]
    omega
  · rw [if_neg hroom, List.length_set]
    exact h

/-! ## The windowed mean -/

open RingWindow

/-- The sampler after a sequence of values. -/
def insertAll (capacity : ℕ) (vs : List T) : RollingSampler T :=
  vs.foldl insertValue { capacity := capacity }

/-- **The invariant**, against all values so far: the ring is a window on them,
and the running sum and the cached mean are those of the ring. -/
structure Holds (s : RollingSampler T) (vs : List T) : Prop where
  ring : RingWindow.Holds s.capacity s.index s.values vs
  sum_eq : s.sum = s.values.sum
  mean_eq : vs ≠ [] → s.mean_cached = SampleMean.mean s.sum s.values.length

variable {vs : List T} {capacity : ℕ}

theorem Holds.nil (hcap : 0 < capacity) :
    ({ capacity := capacity } : RollingSampler T).Holds [] where
  ring := RingWindow.Holds.nil hcap
  sum_eq := rfl
  mean_eq h := absurd rfl h

omit [SampleMean T] in
/-- Swapping the value of a slot in the running sum. -/
theorem sum_set {values : List T} {i : ℕ} (h : i < values.length) :
    (values.set i value).sum = values.sum - values.getD i 0 + value := by
  rw [List.sum_set', dif_pos h, List.getD_eq_getElem?_getD, List.getElem?_eq_getElem h,
    Option.getD_some, ← add_assoc, sub_eq_add_neg]

/-- **One insertion.** -/
theorem Holds.insertValue (h : s.Holds vs) : (s.insertValue value).Holds (vs ++ [value]) := by
  have hlen := h.ring.length_eq
  have hlt := h.ring.index_lt
  unfold RollingSampler.insertValue
  dsimp only
  by_cases hroom : s.values.length < s.capacity
  · rw [if_pos hroom]
    refine ⟨h.ring.append hroom, ?_, fun _ => rfl⟩
    rw [h.sum_eq, List.sum_append, List.sum_singleton]
  · rw [if_neg hroom]
    refine ⟨h.ring.overwrite hroom, ?_, fun _ => rfl⟩
    rw [h.sum_eq, sum_set (by omega)]

theorem capacity_foldl_insertValue (s : RollingSampler T) (vs : List T) :
    (vs.foldl insertValue s).capacity = s.capacity := by
  induction vs generalizing s with
  | nil => rfl
  | cons v vs ih => rw [List.foldl_cons, ih, capacity_insertValue]

/-- **Any sequence of insertions.** -/
theorem holds_insertAll (hcap : 0 < capacity) (vs : List T) :
    (insertAll capacity vs).Holds vs := by
  induction vs using List.reverseRecOn with
  | nil => exact Holds.nil hcap
  | append_singleton vs v ih =>
    unfold insertAll at ih ⊢
    rw [List.foldl_append]
    exact ih.insertValue

/-- The cached mean is the mean of the window. -/
theorem getMean_insertAll (hcap : 0 < capacity) (hne : vs ≠ []) :
    (insertAll capacity vs).getMean =
      SampleMean.mean (lastN capacity vs).sum (lastN capacity vs).length := by
  have h := holds_insertAll hcap vs
  have hcapacity : (insertAll capacity vs).capacity = capacity :=
    capacity_foldl_insertValue _ vs
  have hperm : (insertAll capacity vs).values.Perm (lastN capacity vs) := by
    have hwindow := h.ring.window
    rw [hcapacity] at hwindow
    exact hwindow ▸ (List.rotate_perm _ _).symm
  rw [getMean, h.mean_eq hne, h.sum_eq, hperm.sum_eq, hperm.length_eq]

theorem getSampleCount_insertAll (hcap : 0 < capacity) (vs : List T) :
    (insertAll capacity vs).getSampleCount = min vs.length capacity := by
  rw [getSampleCount, (holds_insertAll hcap vs).ring.length_eq, insertAll,
    capacity_foldl_insertValue]

/-- **The sampler is the windowed mean.** After any sequence of insertions it counts
the values in the window, and its mean is their arithmetic mean, for integers the
nearest one with halves away from zero. By induction on the insertions, the running
sum is that of the values that the ring holds; it is kept exactly, so the mean is
computed from the true sum. -/
theorem sampler_windowed_mean (capacity : ℕ) (hcap : 0 < capacity) :
    (∀ vs : List ℚ, vs ≠ [] →
      (insertAll capacity vs).getSampleCount = min vs.length capacity ∧
        (insertAll capacity vs).getMean =
          (lastN capacity vs).sum / (min vs.length capacity : ℕ)) ∧
      ∀ vs : List ℤ, vs ≠ [] →
        (insertAll capacity vs).getSampleCount = min vs.length capacity ∧
          Round.NearestAway (((lastN capacity vs).sum : ℚ) / (min vs.length capacity : ℕ))
            (insertAll capacity vs).getMean := by
  refine ⟨fun vs hne => ⟨getSampleCount_insertAll hcap vs, ?_⟩,
    fun vs hne => ⟨getSampleCount_insertAll hcap vs, ?_⟩⟩
  · rw [getMean_insertAll hcap hne, length_lastN]
    rfl
  · rw [getMean_insertAll hcap hne, length_lastN]
    exact Round.nearestAway_lround _

/-- Three slots and five values: the ring has gone around. -/
theorem sampler_windowed_mean_three :
    (insertAll 3 [10, 20, 30, 41, 52] : RollingSampler ℤ).getSampleCount = 3 ∧
      Round.NearestAway (123 / 3 : ℚ) (insertAll 3 [10, 20, 30, 41, 52]).getMean :=
  (sampler_windowed_mean 3 (by decide)).2 [10, 20, 30, 41, 52] (by decide)

end RollingSampler

end Loadmaster.Util
