/-
How close the search of `FindXAxisPosition` comes (`util/normal_dist.cc`), in
exact arithmetic over any ordered field.

`AxisSearch.pass` is one pass of the loop as it is written, with its two exits:
the condition fails, or the interval has become narrow, which is seen only after
`x` was moved. It keeps a list of the positions the predicate was evaluated at.
After `k` evaluations the ends are those of `k` halvings of the range, and `x` is
the middle before the last of them (`Halved`), so the result is always a middle,
of an interval as narrow as the exit that was taken leaves it.
-/
import Loadmaster.Lib.Bisection
import Loadmaster.Lib.While
import Loadmaster.Util.NormalDist

set_option autoImplicit false

namespace Loadmaster.Util

open Bisection Bisection.Enclosure

attribute [local instance] two_atLeastTwo ten_atLeastTwo

variable {α : Type*}

/-! ## The loop -/

/-- The variables of the loop of `FindXAxisPosition`, and where `compare` has
been evaluated, the last position first. -/
structure AxisSearch (α : Type*) where
  l : α
  r : α
  iteration : ℕ
  x : α
  evaluated : List α

namespace AxisSearch

variable {compare compare' : α → Bool} {max_iteration fuel : ℕ} {x : α} {s s' result : AxisSearch α}

/-- The rest of the body: `compare(x)` decides which end moves to `x`. -/
def ask (compare : α → Bool) (x : α) (s : AxisSearch α) : AxisSearch α :=
  let s := { s with x := x, iteration := s.iteration + 1, evaluated := x :: s.evaluated }
  if compare x then { s with r := x } else { s with l := x }

@[simp] theorem ask_iteration : (s.ask compare x).iteration = s.iteration + 1 := by
  unfold ask
  split_ifs <;> rfl

@[simp] theorem ask_x : (s.ask compare x).x = x := by
  unfold ask
  split_ifs <;> rfl

@[simp] theorem ask_evaluated : (s.ask compare x).evaluated = x :: s.evaluated := by
  unfold ask
  split_ifs <;> rfl

/-- One evaluation moves an end of the range to the middle, the right one if the
comparison holds. -/
theorem ask_l : (s.ask compare x).l = if compare x then s.l else x := by
  unfold ask
  split_ifs <;> rfl

theorem ask_r : (s.ask compare x).r = if compare x then x else s.r := by
  unfold ask
  split_ifs <;> rfl

theorem ask_congr (h : compare' x = compare x) : s.ask compare' x = s.ask compare x := by
  unfold ask
  rw [h]

variable [Field α] [LinearOrder α]

/-- The variables before the loop. -/
def start (mean : α) : AxisSearch α where
  l := mean
  r := mean + kMaxRange
  iteration := 0
  x := 0
  evaluated := []

/-- One pass of the loop. -/
def pass (compare : α → Bool) (max_iteration : ℕ) (s : AxisSearch α) :
    AxisSearch α ⊕ AxisSearch α :=
  if s.l < s.r ∧ s.iteration < max_iteration then
    let x := (s.l + s.r) / 2
    if s.r - s.l < kLeftRightEpsilon then .inr { s with x := x }
    else .inl (s.ask compare x)
  else .inr s

/-- The loop goes round again after an evaluation. -/
theorem pass_eq_inl (h : s.pass compare max_iteration = .inl s') :
    s.l < s.r ∧ s.iteration < max_iteration ∧ ¬ s.r - s.l < kLeftRightEpsilon ∧
      s' = s.ask compare ((s.l + s.r) / 2) := by
  unfold pass at h
  split_ifs at h with hloop hnarrow
  cases h
  exact ⟨hloop.1, hloop.2, hnarrow, rfl⟩

/-- It is left by its condition, or by the `break`. -/
theorem pass_eq_inr (h : s.pass compare max_iteration = .inr s') :
    (¬ (s.l < s.r ∧ s.iteration < max_iteration) ∧ s' = s) ∨
      (s.l < s.r ∧ s.iteration < max_iteration ∧ s.r - s.l < kLeftRightEpsilon ∧
        s' = { s with x := (s.l + s.r) / 2 }) := by
  unfold pass at h
  split_ifs at h with hloop hnarrow
  · cases h
    exact .inr ⟨hloop.1, hloop.2, hnarrow, rfl⟩
  · cases h
    exact .inl ⟨hloop, rfl⟩

/-! ## The loop computes the position -/

/-- `bisect` with the loop's own count of its iterations. -/
theorem bisect_of_lt {iteration : ℕ} {l r : α} (hlr : l < r) (hlt : iteration < max_iteration) :
    bisect compare (max_iteration - iteration) l r x =
      if r - l < kLeftRightEpsilon then (l + r) / 2
      else if compare ((l + r) / 2) then
        bisect compare (max_iteration - (iteration + 1)) l ((l + r) / 2) ((l + r) / 2)
      else bisect compare (max_iteration - (iteration + 1)) ((l + r) / 2) r ((l + r) / 2) := by
  obtain ⟨rest, rfl⟩ := Nat.exists_eq_add_of_lt hlt
  rw [show iteration + rest + 1 - iteration = rest + 1 by omega,
    show iteration + rest + 1 - (iteration + 1) = rest by omega, bisect, if_pos hlr]

/-- What the loop leaves in `x` is what `bisect` returns. -/
theorem x_of_run (h : While.run (pass compare max_iteration) fuel s = some result) :
    result.x = bisect compare (max_iteration - s.iteration) s.l s.r s.x := by
  refine While.run_induction (P := fun s result =>
    result.x = bisect compare (max_iteration - s.iteration) s.l s.r s.x) ?_ ?_ h
  · intro s result hleave
    obtain ⟨hloop, rfl⟩ | ⟨hlr, hiteration, hnarrow, rfl⟩ := pass_eq_inr hleave
    · cases hrest : max_iteration - result.iteration with
      | zero => rfl
      | succ rest =>
        have hlr : ¬ result.l < result.r := fun hlr => hloop ⟨hlr, by omega⟩
        rw [bisect, if_neg hlr]
    · rw [bisect_of_lt hlr hiteration, if_pos hnarrow]
  · intro s s' result hnext hresult
    obtain ⟨hlr, hiteration, hwide, rfl⟩ := pass_eq_inl hnext
    rw [hresult, ask_iteration, ask_x, ask_l, ask_r, bisect_of_lt hlr hiteration, if_neg hwide]
    split_ifs <;> rfl

/-- A run keeps the positions it has evaluated. -/
theorem evaluated_subset_of_run
    (h : While.run (pass compare max_iteration) fuel s = some result) :
    s.evaluated ⊆ result.evaluated := by
  refine While.run_induction (P := fun s result => s.evaluated ⊆ result.evaluated) ?_ ?_ h
  · intro s result hleave
    obtain ⟨-, rfl⟩ | ⟨-, -, -, rfl⟩ := pass_eq_inr hleave
    · exact List.Subset.refl _
    · exact List.Subset.refl _
  · intro s s' result hnext hkept
    obtain ⟨-, -, -, rfl⟩ := pass_eq_inl hnext
    rw [ask_evaluated] at hkept
    exact List.Subset.trans (List.subset_cons_self _ _) hkept

/-- **The list is complete**: a predicate that answers alike at the positions of
the list has the same run. -/
theorem run_congr (h : While.run (pass compare max_iteration) fuel s = some result)
    (hsame : ∀ x ∈ result.evaluated, compare' x = compare x) :
    While.run (pass compare' max_iteration) fuel s = some result := by
  induction fuel generalizing s with
  | zero => simp at h
  | succ fuel ih =>
    cases hpass : s.pass compare max_iteration with
    | inr r =>
      have hpass' : s.pass compare' max_iteration = .inr r := by
        obtain ⟨hloop, rfl⟩ | ⟨hlr, hiteration, hnarrow, rfl⟩ := pass_eq_inr hpass
        · rw [pass, if_neg hloop]
        · rw [pass, if_pos ⟨hlr, hiteration⟩, if_pos hnarrow]
      rw [While.run_succ_of_inr hpass] at h
      rw [While.run_succ_of_inr hpass', h]
    | inl next =>
      obtain ⟨hlr, hiteration, hwide, rfl⟩ := pass_eq_inl hpass
      rw [While.run_succ_of_inl hpass] at h
      -- the position asked for next is in the list, since nothing leaves it
      have hmem : (s.l + s.r) / 2 ∈ result.evaluated :=
        evaluated_subset_of_run h (by rw [ask_evaluated]; exact List.mem_cons_self)
      have hpass' : s.pass compare' max_iteration = .inl (s.ask compare ((s.l + s.r) / 2)) := by
        rw [pass, if_pos ⟨hlr, hiteration⟩, if_neg hwide, ask_congr (hsame _ hmem)]
      rw [While.run_succ_of_inl hpass']
      exact ih h

/-! ## Where the loop stands -/

section Accuracy

variable [IsStrictOrderedRing α] {t : α} {e : Enclosure compare t}

/-- The ends are those of as many halvings of `e` as there were evaluations, and
`x` is the middle before the last of them. -/
structure Halved (e : Enclosure compare t) (s : AxisSearch α) : Prop where
  l_eq : s.l = (halve^[s.iteration] e).lo
  r_eq : s.r = (halve^[s.iteration] e).hi
  x_eq : ∀ k, s.iteration = k + 1 → s.x = (halve^[k] e).mid
  evaluated_length : s.evaluated.length = s.iteration

/-- The middle of the code's range is that of the enclosure. -/
theorem Halved.middle_eq (h : Halved e s) : (s.l + s.r) / 2 = (halve^[s.iteration] e).mid := by
  rw [h.l_eq, h.r_eq, mid]

/-- The width of the code's range is the first one, halved as often as it has been
asked. -/
theorem Halved.width_eq (h : Halved e s) : s.r - s.l = e.width / 2 ^ s.iteration := by
  rw [h.l_eq, h.r_eq, ← width_iterate, width]

/-- The ends never meet. -/
theorem Halved.l_lt_r (h : Halved e s) (he : 0 < e.width) : s.l < s.r := by
  have hwidth : 0 < s.r - s.l := by
    rw [h.width_eq]
    positivity
  exact sub_pos.mp hwidth

/-- An evaluation at the middle halves once more. -/
theorem Halved.ask (h : Halved e s) : Halved e (s.ask compare ((s.l + s.r) / 2)) where
  l_eq := by
    rw [ask_iteration, Function.iterate_succ_apply', halve_lo, ask_l, h.middle_eq, h.l_eq]
  r_eq := by
    rw [ask_iteration, Function.iterate_succ_apply', halve_hi, ask_r, h.middle_eq, h.r_eq]
  x_eq k hk := by
    rw [ask_iteration, Nat.add_right_cancel_iff] at hk
    rw [ask_x, h.middle_eq, hk]
  evaluated_length := by
    rw [ask_iteration, ask_evaluated, List.length_cons, h.evaluated_length]

/-- What holds when the loop is left. -/
structure Found (e : Enclosure compare t) (max_iteration : ℕ) (s : AxisSearch α) : Prop where
  evaluations : s.evaluated.length ≤ max_iteration
  mem_range : s.x ∈ Set.Icc e.lo e.hi
  abs_sub_le : |s.x - t| ≤ max (kLeftRightEpsilon / 2) (e.width / 2 ^ max_iteration)

/-- Out of iterations: `x` is the middle that was asked for last. -/
theorem Halved.found_of_limit (h : Halved e s) (hm : 1 ≤ max_iteration)
    (hlimit : s.iteration = max_iteration) : Found e max_iteration s := by
  obtain ⟨k, rfl⟩ : ∃ k, max_iteration = k + 1 := ⟨max_iteration - 1, by omega⟩
  have hx := h.x_eq k hlimit
  refine ⟨(h.evaluated_length.trans hlimit).le, ?_, ?_⟩
  · rw [hx]
    exact e.iterate_mid_mem k
  · rw [hx]
    exact (e.abs_iterate_mid_sub_le k).trans (le_max_right _ _)

/-- At the `break`: `x` is the middle of a narrow interval, and was not asked for. -/
theorem Halved.found_of_narrow (h : Halved e s) (hiteration : s.iteration < max_iteration)
    (hnarrow : s.r - s.l < kLeftRightEpsilon) :
    Found e max_iteration { s with x := (s.l + s.r) / 2 } := by
  have hx := h.middle_eq
  refine ⟨h.evaluated_length.trans_le hiteration.le, ?_, ?_⟩
  · rw [hx]
    exact e.iterate_mid_mem s.iteration
  · have hhalf : e.width / 2 ^ (s.iteration + 1) ≤ kLeftRightEpsilon / 2 := by
      rw [h.width_eq] at hnarrow
      rw [pow_succ, ← div_div]
      linarith
    rw [hx]
    exact ((e.abs_iterate_mid_sub_le s.iteration).trans hhalf).trans (le_max_left _ _)

/-- **The loop ends**, after as many passes as it has iterations left and one. -/
theorem exists_run (he : 0 < e.width) (hm : 1 ≤ max_iteration) (hs : Halved e s)
    (hle : s.iteration ≤ max_iteration) :
    ∃ result, Found e max_iteration result ∧ ∀ fuel, max_iteration - s.iteration < fuel →
      While.run (pass compare max_iteration) fuel s = some result := by
  refine While.exists_run (fun s => Halved e s ∧ s.iteration ≤ max_iteration)
    (fun s => max_iteration - s.iteration) ?_ ?_ ⟨hs, hle⟩
  · rintro s s' ⟨hhalved, -⟩ hnext
    obtain ⟨-, hiteration, -, rfl⟩ := pass_eq_inl hnext
    rw [ask_iteration]
    exact ⟨⟨hhalved.ask, hiteration⟩, by omega⟩
  · rintro s result ⟨hhalved, hle⟩ hleave
    obtain ⟨hloop, rfl⟩ | ⟨-, hiteration, hnarrow, rfl⟩ := pass_eq_inr hleave
    · have hlr := hhalved.l_lt_r he
      exact hhalved.found_of_limit hm (le_antisymm hle (not_lt.mp fun h => hloop ⟨hlr, h⟩))
    · exact hhalved.found_of_narrow hiteration hnarrow

theorem halved_start (e : Enclosure compare t) (hrange : e.hi = e.lo + kMaxRange) :
    Halved e (start e.lo) where
  l_eq := rfl
  r_eq := hrange.symm
  x_eq k hk := absurd hk (Nat.succ_ne_zero k).symm
  evaluated_length := rfl

/-- With one evaluation at least the loop ends, after at most so many passes, and the
position that it returns is that of the enclosure. -/
theorem exists_run_start (e : Enclosure compare t) (hrange : e.hi = e.lo + kMaxRange)
    (hm : 1 ≤ max_iteration) :
    ∃ result, Found e max_iteration result ∧
      result.x = findXAxisPosition e.lo compare max_iteration ∧ ∀ fuel, max_iteration < fuel →
        While.run (pass compare max_iteration) fuel (start e.lo) = some result := by
  have hwidth : 0 < e.width := by
    unfold width kMaxRange at *
    linarith [show (0 : α) < 100000 by norm_num]
  obtain ⟨result, hfound, hrun⟩ := exists_run hwidth hm (halved_start e hrange) (Nat.zero_le _)
  exact ⟨result, hfound, x_of_run (hrun _ (Nat.lt_succ_self _)), hrun⟩

end Accuracy

end AxisSearch

/-! ## How close the position is -/

section Position

variable [Field α] [LinearOrder α] [IsStrictOrderedRing α] {mean t : α} {compare : α → Bool} {m : ℕ}

/-- With the default number of iterations it is the width that counts. -/
theorem abs_findXAxisPosition_sub_lt (e : Enclosure compare t) (hrange : e.hi = e.lo + kMaxRange) :
    |findXAxisPosition e.lo compare kMaxIterationDefault - t| < kLeftRightEpsilon := by
  obtain ⟨result, hfound, hx, -⟩ :=
    AxisSearch.exists_run_start e hrange (show 1 ≤ kMaxIterationDefault by decide)
  have hwidth : e.width = kMaxRange := by
    unfold width
    linarith
  have hnear := hfound.abs_sub_le
  rw [hx, hwidth] at hnear
  refine hnear.trans_lt (max_lt ?_ ?_)
  · unfold kLeftRightEpsilon
    norm_num
  · unfold kMaxRange kMaxIterationDefault kLeftRightEpsilon
    norm_num

/-- **The search ends and is accurate**: at most `m` evaluations, a position in the
range, and the error of half a narrow interval or of `m` halvings. Each evaluation
keeps that the position is between the two ends and halves the distance of these
(`Enclosure`); the loop ends when that is narrow or the evaluations are used up. -/
theorem findXAxisPosition_accurate (hm : 1 ≤ m) (ht : t ∈ Set.Icc mean (mean + 100000))
    (hbelow : ∀ x < t, compare x = false) (habove : ∀ x, t < x → compare x = true) :
    (∃ result : AxisSearch α, result.x = findXAxisPosition mean compare m ∧
      result.evaluated.length ≤ m ∧ ∀ fuel, m < fuel →
        While.run (AxisSearch.pass compare m) fuel (AxisSearch.start mean) = some result) ∧
      findXAxisPosition mean compare m ∈ Set.Icc mean (mean + 100000) ∧
      |findXAxisPosition mean compare m - t| ≤ max (1 / (2 * 10 ^ 7)) (100000 / 2 ^ m) ∧
      |findXAxisPosition mean compare kMaxIterationDefault - t| < 1 / 10 ^ 7 := by
  let e : Enclosure compare t :=
    { lo := mean
      hi := mean + kMaxRange
      lo_le := ht.1
      le_hi := ht.2
      below := fun x _ hxt => hbelow x hxt
      above := fun x htx _ => habove x htx }
  obtain ⟨result, hfound, hx, hrun⟩ := AxisSearch.exists_run_start e rfl hm
  have hnear := hfound.abs_sub_le
  have hwidth : e.width = 100000 := add_sub_cancel_left mean kMaxRange
  have hhalf : (kLeftRightEpsilon / 2 : α) = 1 / (2 * 10 ^ 7) := by
    unfold kLeftRightEpsilon
    norm_num
  rw [hx, hwidth, hhalf] at hnear
  exact ⟨⟨result, hx, hfound.evaluations, hrun⟩, hx ▸ hfound.mem_range, hnear,
    abs_findXAxisPosition_sub_lt e rfl⟩

theorem findXAxisPosition_accurate_at_three :
    |findXAxisPosition (0 : ℚ) (fun x => decide (3 < x)) 20 - 3| ≤ 100000 / 2 ^ 20 := by
  have h3 : (3 : ℚ) ∈ Set.Icc 0 (0 + 100000) := ⟨by norm_num, by norm_num⟩
  have hbelow : ∀ x < (3 : ℚ), decide (3 < x) = false :=
    fun x hx => decide_eq_false (not_lt.mpr hx.le)
  have habove : ∀ x : ℚ, 3 < x → decide (3 < x) = true := fun x hx => decide_eq_true hx
  obtain ⟨-, -, hnear, -⟩ :=
    findXAxisPosition_accurate (show 1 ≤ 20 by decide) h3 hbelow habove
  refine hnear.trans (max_le ?_ le_rfl)
  norm_num

end Position

end Loadmaster.Util
