/-
The busy fraction of a DRM client (`gpu/contention/parse.cc`) for any two
readings.

The counters are unsigned, so a subtraction that the guards let through the
wrong way would give an enormous share. The checked fraction is the same
computation with every subtraction and every division tested; it never fails.
Then the fraction is what it should be in whole numbers: each class that is
counted adds its busy growth over its total growth.
-/
import Loadmaster.Gpu.Contention.Parse
import Mathlib.Algebra.Order.BigOperators.Ring.Multiset

set_option autoImplicit false

namespace Loadmaster.Gpu.Contention

/-! ## Checked arithmetic -/

/-- A subtraction that does not wrap. -/
def checkedSub (a b : UInt64) : Option UInt64 := if b ≤ a then some (a - b) else none

/-- A division that is not by zero. -/
def checkedDiv (x y : ℚ) : Option ℚ := if y = 0 then none else some (x / y)

def checkedClassFraction (before : Cycles) (engine_class : Text) (now : UInt64 × UInt64) :
    Option ℚ :=
  match before.lookup engine_class with
  | none => some 0
  | some then_ =>
    if now.2 ≤ then_.2 ∨ now.1 < then_.1 then some 0
    else do
      let busy ← checkedSub now.1 then_.1
      let total ← checkedSub now.2 then_.2
      checkedDiv busy.toNat total.toNat

/-- `DrmBusyFraction` with every operation checked; the outer `none` is an
operation that fails its check. -/
def checkedDrmBusyFraction (before after : DrmFdinfo) (wall_ns : ℚ) : Option (Option ℚ) :=
  if after.has_engine_ns then
    if wall_ns ≤ 0 then some none
    else do
      let busy ←
        if before.engine_ns ≤ after.engine_ns then checkedSub after.engine_ns before.engine_ns
        else some 0
      let fraction ← checkedDiv busy.toNat wall_ns
      return some fraction
  else if after.cycles.entries.card = 0 then some none
  else if ∀ e ∈ after.cycles.entries, (checkedClassFraction before.cycles e.1 e.2).isSome then
    some (some (after.cycles.entries.map fun e =>
      (checkedClassFraction before.cycles e.1 e.2).getD 0).sum)
  else none

theorem checkedSub_of_le {a b : UInt64} (h : b ≤ a) : checkedSub a b = some (a - b) := if_pos h

theorem checkedDiv_of_ne {x y : ℚ} (h : y ≠ 0) : checkedDiv x y = some (x / y) := if_neg h

variable {before : Cycles} {engine_class : Text} {now then_ : UInt64 × UInt64}

/-- The guards are those that the operations need. -/
theorem checkedClassFraction_eq (before : Cycles) (engine_class : Text) (now : UInt64 × UInt64) :
    checkedClassFraction before engine_class now =
      some (classFraction before engine_class now) := by
  unfold checkedClassFraction classFraction
  cases before.lookup engine_class with
  | none => rfl
  | some then_ =>
    dsimp only
    split_ifs with hskip
    · rfl
    · rw [not_or, UInt64.not_le, UInt64.not_lt] at hskip
      obtain ⟨htotal, hbusy⟩ := hskip
      have hne : ((now.2 - then_.2).toNat : ℚ) ≠ 0 := by
        rw [UInt64.toNat_sub_of_le _ _ (UInt64.le_of_lt htotal)]
        exact_mod_cast Nat.sub_ne_zero_of_lt (UInt64.lt_iff_toNat_lt.mp htotal)
      rw [checkedSub_of_le hbusy, checkedSub_of_le (UInt64.le_of_lt htotal)]
      exact checkedDiv_of_ne hne

/-- **No check fails.** -/
theorem checkedDrmBusyFraction_eq (before after : DrmFdinfo) (wall_ns : ℚ) :
    checkedDrmBusyFraction before after wall_ns = some (drmBusyFraction before after wall_ns) := by
  unfold checkedDrmBusyFraction drmBusyFraction
  simp only [checkedClassFraction_eq, Option.isSome_some, Option.getD_some, implies_true, if_true]
  split_ifs with hns hwall hle hempty
  · rfl
  · rw [checkedSub_of_le hle]
    simp [checkedDiv_of_ne (not_le.mp hwall).ne']
  · simp [checkedDiv_of_ne (not_le.mp hwall).ne']
  · rfl
  · rfl

/-! ## The classes that count -/

/-- By how much a class's busy cycles grew, as a whole number. -/
def busyGrowth (now then_ : UInt64 × UInt64) : ℤ := now.1.toNat - then_.1.toNat

/-- By how much its total cycles grew. -/
def totalGrowth (now then_ : UInt64 × UInt64) : ℤ := now.2.toNat - then_.2.toNat

/-- The class is in both readings, its total grew and its busy count did not
fall. -/
def Counted (before : Cycles) (e : (_ : Text) × (UInt64 × UInt64)) : Prop :=
  ∃ then_ ∈ before.lookup e.1, 0 < totalGrowth e.2 then_ ∧ 0 ≤ busyGrowth e.2 then_

instance (before : Cycles) (e : (_ : Text) × (UInt64 × UInt64)) :
    Decidable (Counted before e) := by
  unfold Counted
  infer_instance

/-- Busy growth over total growth. -/
def growthShare (before : Cycles) (e : (_ : Text) × (UInt64 × UInt64)) : ℚ :=
  match before.lookup e.1 with
  | none => 0
  | some then_ => busyGrowth e.2 then_ / totalGrowth e.2 then_

/-- **What a class adds.** -/
theorem classFraction_eq (before : Cycles) (e : (_ : Text) × (UInt64 × UInt64)) :
    classFraction before e.1 e.2 = if Counted before e then growthShare before e else 0 := by
  unfold classFraction growthShare
  cases hlookup : before.lookup e.1 with
  | none => rw [ite_self]
  | some then_ =>
    have hcounted : Counted before e ↔ ¬ (e.2.2 ≤ then_.2 ∨ e.2.1 < then_.1) := by
      rw [Counted, hlookup, not_or, UInt64.not_le, UInt64.not_lt, UInt64.lt_iff_toNat_lt,
        UInt64.le_iff_toNat_le]
      simp [totalGrowth, busyGrowth]
    dsimp only
    by_cases hskip : e.2.2 ≤ then_.2 ∨ e.2.1 < then_.1
    · rw [if_pos hskip, if_neg (hcounted.not.mpr (not_not.mpr hskip))]
    · rw [if_neg hskip, if_pos (hcounted.mpr hskip)]
      rw [not_or, UInt64.not_le, UInt64.not_lt] at hskip
      have hbusy := UInt64.toNat_sub_of_le _ _ hskip.2
      have htotal := UInt64.toNat_sub_of_le _ _ (UInt64.le_of_lt hskip.1)
      rw [hbusy, htotal, Nat.cast_sub (UInt64.le_iff_toNat_le.mp hskip.2),
        Nat.cast_sub (UInt64.lt_iff_toNat_lt.mp hskip.1).le, busyGrowth, totalGrowth]
      push_cast
      rfl

/-- A class that was no busier than its total adds at most one engine. -/
theorem growthShare_le_one {e : (_ : Text) × (UInt64 × UInt64)} (hcounted : Counted before e)
    (h : ∀ then_ ∈ before.lookup e.1, busyGrowth e.2 then_ ≤ totalGrowth e.2 then_) :
    growthShare before e ≤ 1 := by
  obtain ⟨then_, hlookup, htotal, -⟩ := hcounted
  have hle := h then_ hlookup
  have hpos : (0 : ℚ) < totalGrowth e.2 then_ := by exact_mod_cast htotal
  rw [growthShare, hlookup]
  exact (div_le_one₀ hpos).mpr (by exact_mod_cast hle)

/-- The fraction of an xe client. -/
theorem sum_classFraction (before : Cycles) (s : Multiset ((_ : Text) × (UInt64 × UInt64))) :
    (s.map fun e => classFraction before e.1 e.2).sum =
      ((s.filter (Counted before)).map (growthShare before)).sum := by
  induction s using Multiset.induction_on with
  | empty => rfl
  | cons e s ih =>
    rw [Multiset.map_cons, Multiset.sum_cons, classFraction_eq, ih, Multiset.filter_cons]
    split_ifs <;> simp

/-- **The busy fraction is well defined** for any two readings. No subtraction wraps
and no division is by zero; there is none exactly where engine times meet no time, or
there is nothing to go by; it is never negative; and an xe client's is the sum over
the classes that count, so at most their number if none was busier than its total. A
version that fails at every wrap and division by zero gives the same fraction
(`checkedDrmBusyFraction_eq`), and a class counts only where its total has grown and
its time has not fallen. -/
theorem drmBusyFraction_wellDefined (before after : DrmFdinfo) (wall_ns : ℚ) :
    checkedDrmBusyFraction before after wall_ns = some (drmBusyFraction before after wall_ns) ∧
    (drmBusyFraction before after wall_ns = none ↔
      (after.has_engine_ns = true ∧ wall_ns ≤ 0) ∨
        (after.has_engine_ns = false ∧ after.cycles = ∅)) ∧
    ∀ fraction, drmBusyFraction before after wall_ns = some fraction →
      0 ≤ fraction ∧
      (after.has_engine_ns = false →
        fraction = ((after.cycles.entries.filter (Counted before.cycles)).map
          (growthShare before.cycles)).sum ∧
        ((∀ e ∈ after.cycles.entries, ∀ then_ ∈ before.cycles.lookup e.1,
            busyGrowth e.2 then_ ≤ totalGrowth e.2 then_) →
          fraction ≤ (after.cycles.entries.filter (Counted before.cycles)).card)) := by
  have hempty : after.cycles.entries.card = 0 ↔ after.cycles = ∅ := by
    rw [Multiset.card_eq_zero]
    exact ⟨fun h => Finmap.ext h, fun h => h ▸ rfl⟩
  refine ⟨checkedDrmBusyFraction_eq before after wall_ns, ?_, fun fraction hsome =>
    ⟨drmBusyFraction_nonneg hsome, fun hns => ?_⟩⟩
  · rw [← hempty]
    unfold drmBusyFraction
    split_ifs with hns hwall hnone
    · simp [hns, hwall]
    · simp [hns, hwall]
    · simp [hns, hnone]
    · simp [hns, hnone]
  · have hsum : fraction = ((after.cycles.entries.filter (Counted before.cycles)).map
        (growthShare before.cycles)).sum := by
      rw [← sum_classFraction]
      unfold drmBusyFraction at hsome
      rw [if_neg (by simp [hns])] at hsome
      split_ifs at hsome
      exact (Option.some.inj hsome).symm
    refine ⟨hsum, fun hgrowth => ?_⟩
    -- every class that counts adds at most 1
    have hle : ∀ x ∈ (after.cycles.entries.filter (Counted before.cycles)).map
        (growthShare before.cycles), x ≤ 1 := by
      intro x hx
      obtain ⟨e, he, rfl⟩ := Multiset.mem_map.mp hx
      obtain ⟨hmem, hcounted⟩ := Multiset.mem_filter.mp he
      exact growthShare_le_one hcounted (hgrowth e hmem)
    have hcard := Multiset.sum_le_card_nsmul _ _ hle
    rwa [Multiset.card_map, nsmul_one, ← hsum] at hcard

end Loadmaster.Gpu.Contention
