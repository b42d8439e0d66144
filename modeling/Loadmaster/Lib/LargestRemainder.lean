/-
Largest-remainder rounding, with places that take no more.

A list of amounts is rounded to integers of a given total: every amount is
rounded down, and the units that are still missing are handed out one each, the
largest fractional part first. A place that is `full` is passed over. The total
comes out (`sum_round`) whenever the amounts themselves are short of it by less
than one: an amount that is not an integer has room for its unit, and there are
more such places than units missing. The order of the amounts is kept
(`round_le_round`).
-/
import Mathlib.Algebra.BigOperators.Group.List.Basic
import Mathlib.Algebra.Order.Floor.Ring
import Mathlib.Data.List.Count
import Mathlib.Data.List.GetD
import Mathlib.Data.List.Nodup
import Mathlib.Tactic.Linarith
import Mathlib.Tactic.Ring

set_option autoImplicit false

namespace LargestRemainder

/-! ## Handing out units -/

/-- One unit each to the places in `order`, until `target` is reached. -/
def handOut (full : ℤ → Bool) (target : ℤ) : List ℕ → List ℤ → ℤ → List ℤ
  | [], points, _ => points
  | i :: order, points, assigned =>
    if assigned < target then
      if full (points.getD i 0) then handOut full target order points assigned
      else handOut full target order (points.set i (points.getD i 0 + 1)) (assigned + 1)
    else points

/-- How many of the places in `order` have room. -/
def room (full : ℤ → Bool) (order : List ℕ) (points : List ℤ) : ℕ :=
  order.countP fun i => !full (points.getD i 0)

variable {full : ℤ → Bool} {target assigned : ℤ} {order : List ℕ} {points : List ℤ}

/-- Handing units out changes values, and not how many there are. -/
theorem length_handOut : (handOut full target order points assigned).length = points.length := by
  induction order generalizing points assigned with
  | nil => rfl
  | cons i order ih =>
    unfold handOut
    split_ifs
    · exact ih
    · rw [ih, List.length_set]
    · rfl

theorem getD_set_of_ne {i j : ℕ} {x : ℤ} (h : j ≠ i) :
    (points.set i x).getD j 0 = points.getD j 0 := by
  rw [List.getD_eq_getElem?_getD, List.getD_eq_getElem?_getD, List.getElem?_set_ne h.symm]

theorem getD_set_self {i : ℕ} {x : ℤ} (h : i < points.length) :
    (points.set i x).getD i 0 = x := by
  rw [List.getD_eq_getElem?_getD, List.getElem?_set_self h, Option.getD_some]

/-- There is room for one more unit at a place that is not full. -/
theorem room_cons {i : ℕ} :
    room full (i :: order) points =
      room full order points + if full (points.getD i 0) then 0 else 1 := by
  unfold room
  rw [List.countP_cons]
  cases full (points.getD i 0) <;> rfl

/-- A unit given to one place leaves the room at the others. -/
theorem room_set {i : ℕ} {x : ℤ} (hi : i ∉ order) :
    room full order (points.set i x) = room full order points := by
  refine List.countP_congr fun j hj => ?_
  have hne : j ≠ i := fun h => hi (h ▸ hj)
  rw [getD_set_of_ne hne]

/-- A place that is not in the order gets nothing. -/
theorem getD_handOut_of_notMem {j : ℕ} (hj : j ∉ order) :
    (handOut full target order points assigned).getD j 0 = points.getD j 0 := by
  induction order generalizing points assigned with
  | nil => rfl
  | cons i order ih =>
    obtain ⟨hne, hj⟩ : j ≠ i ∧ j ∉ order := by simpa using hj
    unfold handOut
    split_ifs
    · exact ih hj
    · rw [ih hj, getD_set_of_ne hne]
    · rfl

/-- A place that does not come up is left as it is. -/
theorem getD_mem_handOut {j : ℕ} (hj : j ∉ order) (hlen : j < points.length) :
    points.getD j 0 ∈ handOut full target order points assigned := by
  have hkept : (handOut full target order points assigned).getD j 0 = points.getD j 0 :=
    getD_handOut_of_notMem hj
  have hlen' : j < (handOut full target order points assigned).length := by rwa [length_handOut]
  rw [← hkept, List.getD_eq_getElem _ _ hlen']
  exact List.getElem_mem _

/-- **Where a unit can go**: a place gets at most one, and only if it has room. -/
theorem getD_handOut (hnodup : order.Nodup) (hrange : ∀ i ∈ order, i < points.length) (j : ℕ) :
    (handOut full target order points assigned).getD j 0 = points.getD j 0 ∨
      full (points.getD j 0) = false ∧
        (handOut full target order points assigned).getD j 0 = points.getD j 0 + 1 := by
  induction order generalizing points assigned with
  | nil => exact .inl rfl
  | cons i order ih =>
    obtain ⟨hi, hnodup⟩ := List.nodup_cons.mp hnodup
    obtain ⟨hlen, hrange⟩ := List.forall_mem_cons.mp hrange
    unfold handOut
    split_ifs with hmore hfull
    · exact ih hnodup hrange
    · by_cases hj : j = i
      · -- its place in the order is behind, so this unit was its only one
        subst hj
        rw [getD_handOut_of_notMem hi, getD_set_self hlen]
        exact .inr ⟨by simpa using hfull, rfl⟩
      · have hsame : (points.set i (points.getD i 0 + 1)).getD j 0 = points.getD j 0 :=
          getD_set_of_ne hj
        rw [← hsame]
        exact ih hnodup (by simpa using hrange)
    · exact .inl rfl

/-- **First come, first served**: if a place gets a unit, so has every place with
room that does not come up after it. -/
theorem getD_handOut_of_before {i j : ℕ} (hnodup : order.Nodup)
    (hrange : ∀ k ∈ order, k < points.length) (hj : j ∈ order)
    (hbefore : order.Pairwise fun a b => ¬ (a = i ∧ b = j))
    (hroom : full (points.getD j 0) = false)
    (hi : (handOut full target order points assigned).getD i 0 = points.getD i 0 + 1) :
    (handOut full target order points assigned).getD j 0 = points.getD j 0 + 1 := by
  induction order generalizing points assigned with
  | nil => contradiction
  | cons k order ih =>
    obtain ⟨hk, hnodup⟩ := List.nodup_cons.mp hnodup
    obtain ⟨hlen, hrange⟩ := List.forall_mem_cons.mp hrange
    obtain ⟨hhead, hbefore⟩ := List.pairwise_cons.mp hbefore
    unfold handOut at hi ⊢
    split_ifs at hi ⊢ with hmore hfull
    · -- a place that is passed over is not `j`, which has room
      have hjk : j ≠ k := by
        rintro rfl
        rw [hroom] at hfull
        contradiction
      exact ih hnodup hrange (List.mem_of_ne_of_mem hjk hj) hbefore hroom hi
    · by_cases hjk : j = k
      · subst hjk
        rw [getD_handOut_of_notMem hk, getD_set_self hlen]
      · have hj := List.mem_of_ne_of_mem hjk hj
        have hik : i ≠ k := fun h => hhead j hj ⟨h.symm, rfl⟩
        have hset : ∀ l, l ≠ k → (points.set k (points.getD k 0 + 1)).getD l 0 = points.getD l 0 :=
          fun l hl => getD_set_of_ne hl
        rw [← hset i hik] at hi
        rw [← hset j hjk] at hroom ⊢
        exact ih hnodup (by simpa using hrange) hj hbefore hroom hi
    · omega

/-- **How much is handed out**: what is missing, or one unit for each place with room. -/
theorem sum_handOut (hnodup : order.Nodup) (hrange : ∀ i ∈ order, i < points.length)
    (hle : assigned ≤ target) :
    (handOut full target order points assigned).sum =
      points.sum + min (target - assigned) (room full order points) := by
  induction order generalizing points assigned with
  | nil => simp [handOut, room, hle]
  | cons i order ih =>
    obtain ⟨hi, hnodup⟩ := List.nodup_cons.mp hnodup
    obtain ⟨hlen, hrange⟩ := List.forall_mem_cons.mp hrange
    unfold handOut
    rw [room_cons]
    by_cases hmore : assigned < target
    swap
    · have hdone : target - assigned = 0 := by omega
      rw [if_neg hmore, hdone]
      omega
    rw [if_pos hmore]
    split_ifs with hfull
    · rw [ih hnodup hrange hle, Nat.add_zero]
    · -- the unit takes up this place, which does not come up again
      have hset : (points.set i (points.getD i 0 + 1)).sum = points.sum + 1 := by
        rw [List.sum_set', dif_pos hlen, List.getD_eq_getElem _ _ hlen]
        ring
      rw [ih hnodup (by simpa using hrange) (by omega), room_set hi, hset]
      push_cast
      omega

/-! ## Rounding -/

section Rounding

variable {α : Type*} [Field α] [LinearOrder α] [FloorRing α]

def floors (vs : List α) : List ℤ := vs.map fun v => ⌊v⌋

/-- The places, the largest fractional part first; equal ones stay in order. -/
def remainderOrder (vs : List α) : List ℕ :=
  (List.range vs.length).mergeSort fun i j =>
    decide (vs.getD j 0 - ⌊vs.getD j 0⌋ ≤ vs.getD i 0 - ⌊vs.getD i 0⌋)

def round (full : ℤ → Bool) (target : ℤ) (vs : List α) : List ℤ :=
  handOut full target (remainderOrder vs) (floors vs) (floors vs).sum

variable {vs : List α}

@[simp] theorem length_floors : (floors vs).length = vs.length := List.length_map _

theorem length_round : (round full target vs).length = vs.length := by
  unfold round
  rw [length_handOut, length_floors]

/-- The order by remainders is one of all places, each of which comes once. -/
theorem remainderOrder_perm : (remainderOrder vs).Perm (List.range vs.length) :=
  List.mergeSort_perm _ _

theorem nodup_remainderOrder : (remainderOrder vs).Nodup :=
  remainderOrder_perm.nodup_iff.mpr List.nodup_range

theorem lt_of_mem_remainderOrder {i : ℕ} (hi : i ∈ remainderOrder vs) :
    i < (floors vs).length := by
  rw [length_floors]
  exact List.mem_range.mp (remainderOrder_perm.mem_iff.mp hi)

theorem map_getD_range (l : List ℤ) : (List.range l.length).map (fun i => l.getD i 0) = l := by
  refine List.ext_getElem (by simp) fun i hi _ => ?_
  rw [List.getElem_map, List.getElem_range, List.getD_eq_getElem]

/-- Every place is in the order once. -/
theorem room_remainderOrder :
    room full (remainderOrder vs) (floors vs) = (floors vs).countP fun p => !full p := by
  unfold room
  rw [remainderOrder_perm.countP_eq, ← length_floors]
  conv_rhs => rw [← map_getD_range (floors vs)]
  rw [List.countP_map]
  rfl

/-- A floor at a place is that of the value there. -/
theorem getD_floors {j : ℕ} (hj : j < vs.length) : (floors vs).getD j 0 = ⌊vs.getD j 0⌋ := by
  rw [List.getD_eq_getElem _ _ hj, List.getD_eq_getElem _ _ (by rwa [length_floors])]
  exact List.getElem_map _

/-- **What a place is rounded to**: its floor or, if there was room, the next
integer. -/
theorem getD_round {j : ℕ} (hj : j < vs.length) :
    (round full target vs).getD j 0 = ⌊vs.getD j 0⌋ ∨
      full ⌊vs.getD j 0⌋ = false ∧ (round full target vs).getD j 0 = ⌊vs.getD j 0⌋ + 1 := by
  rw [← getD_floors hj]
  exact getD_handOut nodup_remainderOrder (fun i => lt_of_mem_remainderOrder) j

/-- A rounded amount is its floor or, if there was room, the next integer. -/
theorem mem_round {p : ℤ} (hp : p ∈ round full target vs) :
    ∃ v ∈ vs, p = ⌊v⌋ ∨ full ⌊v⌋ = false ∧ p = ⌊v⌋ + 1 := by
  obtain ⟨j, hj, rfl⟩ := List.getElem_of_mem hp
  have hj' : j < vs.length := by rwa [length_round] at hj
  have hplace : (round full target vs).getD j 0 = _ ∨ _ := getD_round hj'
  rw [List.getD_eq_getElem _ _ hj, List.getD_eq_getElem _ _ hj'] at hplace
  exact ⟨vs[j], List.getElem_mem hj', hplace⟩

/-- Of two places the one with the larger fractional part comes up first. -/
theorem pairwise_remainderOrder {i j : ℕ}
    (h : vs.getD i 0 - ⌊vs.getD i 0⌋ < vs.getD j 0 - ⌊vs.getD j 0⌋) :
    (remainderOrder vs).Pairwise fun a b => ¬ (a = i ∧ b = j) := by
  have hsorted : (remainderOrder vs).Pairwise fun a b =>
      decide (vs.getD b 0 - ⌊vs.getD b 0⌋ ≤ vs.getD a 0 - ⌊vs.getD a 0⌋) = true := by
    refine List.pairwise_mergeSort (fun a b c hab hbc => ?_) (fun a b => ?_) _
    · simp only [decide_eq_true_eq] at hab hbc ⊢
      exact hbc.trans hab
    · simpa using le_total _ _
  refine hsorted.imp ?_
  rintro a b hab ⟨rfl, rfl⟩
  exact (of_decide_eq_true hab).not_gt h

variable [IsStrictOrderedRing α]

/-- **Rounding keeps the order**: a larger amount is never rounded to less. -/
theorem round_le_round {i j : ℕ} (hi : i < vs.length) (hj : j < vs.length)
    (h : vs.getD i 0 < vs.getD j 0) :
    (round full target vs).getD i 0 ≤ (round full target vs).getD j 0 := by
  have hfloor : ⌊vs.getD i 0⌋ ≤ ⌊vs.getD j 0⌋ := Int.floor_mono h.le
  have hplace : (round full target vs).getD j 0 = _ ∨ _ := getD_round hj
  have hlow : ⌊vs.getD j 0⌋ ≤ (round full target vs).getD j 0 := by omega
  rcases getD_round hi with hdown | ⟨hroom, hup⟩
  · rw [hdown]
    exact hfloor.trans hlow
  · rcases hfloor.lt_or_eq with hlt | heq
    · omega
    · -- the floors are equal, so the larger amount comes up first
      have hfract : vs.getD i 0 - ⌊vs.getD i 0⌋ < vs.getD j 0 - ⌊vs.getD j 0⌋ := by
        rw [heq]
        linarith
      have hmem : j ∈ remainderOrder vs :=
        remainderOrder_perm.mem_iff.mpr (List.mem_range.mpr hj)
      rw [← getD_floors hi] at hup
      rw [heq, ← getD_floors hj] at hroom
      have hunit := getD_handOut_of_before nodup_remainderOrder
        (fun k => lt_of_mem_remainderOrder) hmem (pairwise_remainderOrder hfract) hroom hup
      rw [hup, getD_floors hi, heq, ← getD_floors hj]
      exact hunit.ge

/-- Rounding down loses less than one for each place with room. -/
theorem sum_le_floors_add_room (hfull : ∀ v ∈ vs, full ⌊v⌋ → v = ⌊v⌋) :
    vs.sum ≤ (floors vs).sum + ((floors vs).countP fun p => !full p : ℕ) := by
  induction vs with
  | nil => simp [floors]
  | cons v vs ih =>
    obtain ⟨hv, hvs⟩ := List.forall_mem_cons.mp hfull
    have ih := ih hvs
    simp only [floors, List.map_cons, List.sum_cons, List.countP_cons, Int.cast_add,
      Nat.cast_add] at ih ⊢
    cases hroom : full ⌊v⌋ with
    | true =>
      rw [← hv hroom]
      simp only [Bool.not_true, Bool.false_eq_true, if_false, Nat.cast_zero]
      linarith
    | false =>
      -- what is lost here is made up for by the place itself
      have := Int.lt_floor_add_one v
      simp only [Bool.not_false, if_true, Nat.cast_one]
      linarith

/-- The floors add up to no more than the values. -/
theorem sum_floors_le : ((floors vs).sum : α) ≤ vs.sum := by
  induction vs with
  | nil => simp [floors]
  | cons v vs ih =>
    have := Int.floor_le v
    simp only [floors, List.map_cons, List.sum_cons, Int.cast_add] at ih ⊢
    linarith

/-- **The rounded amounts have the total asked for**, if that is no less than
the floors and less than one above the amounts. -/
theorem sum_round (hfull : ∀ v ∈ vs, full ⌊v⌋ → v = ⌊v⌋) (hle : (floors vs).sum ≤ target)
    (hlt : (target : α) < vs.sum + 1) : (round full target vs).sum = target := by
  have hroom := sum_le_floors_add_room hfull
  -- an integer that is less than `n + 1` is at most `n`
  have hmissing : target - (floors vs).sum ≤ ((floors vs).countP fun p => !full p : ℕ) := by
    have hlt' : (target : α) <
        (((floors vs).sum + ((floors vs).countP fun p => !full p : ℕ) + 1 : ℤ) : α) := by
      rw [Int.cast_add, Int.cast_add, Int.cast_natCast, Int.cast_one]
      linarith
    have := Int.cast_lt.mp hlt'
    omega
  unfold round
  rw [sum_handOut nodup_remainderOrder (fun i => lt_of_mem_remainderOrder) hle,
    room_remainderOrder, min_eq_left hmissing]
  ring

end Rounding

end LargestRemainder
