/-
`LoadController::Update` in doubles (`cpu/load_controller.cc`).

Whatever is measured, the integral is finite or a NaN: it is clamped between two
finite bounds, and a NaN is what a NaN in `system_avg` leaves for good. While it is
finite and `system_avg` is a number, everything that `Update` computes is a number, and
the order of the numbers decides. A NaN or an infinity in `process_avg` does no harm:
`std::max(0.0, x)` takes it for a 0 or passes it on to an output that is clamped.
-/
import Loadmaster.Lib.Binary64
import Loadmaster.Lib.Run
import Loadmaster.Cpu.LoadController

set_option autoImplicit false

namespace Loadmaster.Cpu

open Binary64 Double Number

/-- `static_cast<int>(std::lround(x))` -/
def lroundInt (outside : Double → Int64) (x : Double) : ℤ := (lround outside x).toInt32.toInt

/-- The boundary below which a demand of `k` is rounded down. -/
def boundary (k : ℤ) : Double := ((k - 1 / 2 : ℚ) : Double)

/-- `target` and `capacity` are of type `int`. -/
structure Reading.IsInt (r : Reading Double) : Prop where
  target_ge : -2 ^ 31 ≤ r.target
  target_lt : r.target < 2 ^ 31
  capacity_lt : r.capacity < 2 ^ 31

instance (r : Reading Double) : Decidable r.IsInt :=
  decidable_of_iff (-2 ^ 31 ≤ r.target ∧ r.target < 2 ^ 31 ∧ r.capacity < 2 ^ 31)
    ⟨fun ⟨h1, h2, h3⟩ => ⟨h1, h2, h3⟩, fun ⟨h1, h2, h3⟩ => ⟨h1, h2, h3⟩⟩

/-! ## Integers -/

/-- An `int` is a double, and a finite one. -/
theorem exists_intCast {n : ℤ} (hlo : -2 ^ 31 ≤ n) (hhi : n < 2 ^ 31) :
    ∃ v : Value, v.val = n ∧ (n : Double) = number (finite v) := by
  obtain ⟨v, hv, heq⟩ := ofRat_intCast (n := n) (abs_lt.mpr ⟨by omega, by omega⟩)
  exact ⟨v, hv, congrArg number heq⟩

/-- Halves of an `int` are doubles too, so the boundaries between two demands are exact. -/
theorem exists_boundary {k : ℤ} (hlo : 0 < k) (hhi : k < 2 ^ 31) :
    ∃ v : Value, v.val = k - 1 / 2 ∧ boundary k = number (finite v) := by
  have hhalf : (k : ℚ) - 1 / 2 = ((2 * k - 1 : ℤ) : ℚ) * 2 ^ (-1 : ℤ) := by
    push_cast
    ring
  obtain ⟨v, hv, heq⟩ := ofRat_of_eq (abs_lt.mpr ⟨by omega, by omega⟩) (by norm_num)
    (by norm_num) hhalf
  exact ⟨v, hv, congrArg number heq⟩

/-- The lower bound of the integral is exact. -/
theorem neg_intCast {n : ℤ} (hlo : 0 < n) (hhi : n < 2 ^ 31) :
    ∃ v : Value, v.val = -n ∧ -(n : Double) = number (finite v) := by
  obtain ⟨v, hv, heq⟩ := exists_intCast (by omega) hhi
  obtain ⟨w, hw, hneg⟩ := ofRat_intCast (n := -n) (abs_lt.mpr ⟨by omega, by omega⟩)
  rw [Int.cast_neg] at hw hneg
  refine ⟨w, hw, ?_⟩
  rw [heq]
  change number (ofRat (-v.val)) = _
  rw [hv, hneg]

/-! ## The demand of an output -/

section Output

variable {outside : Double → Int64} {capacity k : ℤ} {x : Number}

/-- An output that is a number is clamped to a finite one. -/
theorem exists_clamp (hcap : 0 < capacity) (hfits : capacity < 2 ^ 31) (x : Number) :
    ∃ v : Value, Round.clamp (number x) 0 (capacity : Double) = number (finite v) ∧
      0 ≤ v.val ∧ v.val ≤ capacity ∧
      ∀ k : ℤ, 1 ≤ k → k ≤ capacity → ((k : ℚ) - 1 / 2 ≤ v.val ↔ boundary k ≤ number x) := by
  obtain ⟨c, hc, hcapacity⟩ := exists_intCast (by omega) hfits
  have hzero : (0 : Double) = number (finite .zero) := congrArg number ofRat_zero
  have hcap' : (0 : ℚ) ≤ capacity := by exact_mod_cast hcap.le
  have hle : finite .zero ≤ finite c :=
    finite_le_finite.mpr (by rw [hc]; exact hcap')
  obtain ⟨hlo, hhi⟩ := Round.clamp_mem (x := x) hle
  obtain ⟨v, hv⟩ := exists_finite hlo hhi
  rw [hzero, hcapacity, clamp_number]
  refine ⟨v, by rw [hv], ?_, ?_, fun k hk hkcap => ?_⟩
  · exact finite_le_finite.mp (hv ▸ hlo)
  · exact hc ▸ finite_le_finite.mp (hv ▸ hhi)
  · obtain ⟨b, hb, hbound⟩ := exists_boundary (by omega) (by omega : k < 2 ^ 31)
    have hk' : (1 : ℚ) ≤ k := by exact_mod_cast hk
    have hkcap' : (k : ℚ) ≤ capacity := by exact_mod_cast hkcap
    have hpos : ¬ finite b ≤ finite .zero := by
      rw [finite_le_finite, hb]
      exact not_le.mpr (show (0 : ℚ) < k - 1 / 2 by linarith)
    have htop : finite b ≤ finite c := by
      rw [finite_le_finite, hb, hc]
      linarith
    rw [← hb, ← finite_le_finite, ← hv, hbound, number_le_number, Round.clamp_eq hle, le_max_iff,
      le_min_iff]
    exact ⟨fun h => (h.resolve_left hpos).1, fun h => .inr ⟨h, htop⟩⟩

/-- Within the capacity `lround` and the narrowing to `int` lose nothing. -/
theorem lroundInt_finite {v : Value} (hlo : 0 ≤ v.val) (hhi : v.val ≤ capacity)
    (hfits : capacity < 2 ^ 31) : lroundInt outside (number (finite v)) = Round.lround v.val := by
  have hnonneg : 0 ≤ Round.lround v.val := by
    rw [Round.le_lround_iff hlo, Int.cast_zero]
    linarith
  have hle : Round.lround v.val ≤ capacity := by
    rw [← Int.lt_add_one_iff, Round.lround_lt_iff hlo]
    push_cast
    linarith
  rw [lroundInt, lround_finite (by omega) (by omega), Int64.toInt_toInt32,
    Int64.toInt_ofInt_of_le (by omega) (by omega), Int.bmod_eq_of_le (by omega) (by omega)]

variable (outside)

/-- **The demand of an output**, by the boundaries that it has reached. -/
theorem le_lroundInt_iff (hcap : 0 < capacity) (hfits : capacity < 2 ^ 31) (hk : 1 ≤ k)
    (hkcap : k ≤ capacity) :
    k ≤ lroundInt outside (Round.clamp (number x) 0 (capacity : Double)) ↔
      boundary k ≤ number x := by
  obtain ⟨v, hv, hlo, hhi, hiff⟩ := exists_clamp hcap hfits x
  rw [hv, lroundInt_finite hlo hhi hfits, Round.le_lround_iff hlo, hiff k hk hkcap]

/-- The demand is between 0 and the capacity, because a clamped output is, whatever was
rounded before. -/
theorem lroundInt_mem (hcap : 0 < capacity) (hfits : capacity < 2 ^ 31) :
    0 ≤ lroundInt outside (Round.clamp (number x) 0 (capacity : Double)) ∧
      lroundInt outside (Round.clamp (number x) 0 (capacity : Double)) ≤ capacity := by
  obtain ⟨v, hv, hlo, hhi, -⟩ := exists_clamp hcap hfits x
  rw [hv, lroundInt_finite hlo hhi hfits]
  constructor
  · rw [Round.le_lround_iff hlo, Int.cast_zero]
    linarith
  · rw [← Int.lt_add_one_iff, Round.lround_lt_iff hlo]
    push_cast
    linarith

/-- Rounding puts the demand at the upper rail from half a unit below it on. -/
theorem lroundInt_eq_capacity_iff (hcap : 0 < capacity) (hfits : capacity < 2 ^ 31) :
    lroundInt outside (Round.clamp (number x) 0 (capacity : Double)) = capacity ↔
      boundary capacity ≤ number x := by
  rw [← le_lroundInt_iff outside hcap hfits (by omega) le_rfl]
  exact (lroundInt_mem outside hcap hfits).2.ge_iff_eq.symm

/-- And at 0 below half a unit. -/
theorem lroundInt_eq_zero_iff (hcap : 0 < capacity) (hfits : capacity < 2 ^ 31) :
    lroundInt outside (Round.clamp (number x) 0 (capacity : Double)) = 0 ↔
      number x < boundary 1 := by
  have hone := le_lroundInt_iff (x := x) outside hcap hfits le_rfl (by omega)
  have hnonneg := (lroundInt_mem (x := x) outside hcap hfits).1
  obtain ⟨b, -, hbound⟩ := exists_boundary one_pos (by norm_num)
  rw [hbound, number_le_number] at hone
  rw [hbound, number_lt_number, ← not_le, ← hone]
  omega

end Output

/-! ## What `Update` computes with -/

section Steps

variable {c : LoadController Double} {r : Reading Double}

namespace Reading

/-- What other processes take is never a NaN: the clamp at 0 makes one 0. -/
theorem exists_other (r : Reading Double) : ∃ o, r.other = number o := by
  unfold other Round.stdMax
  split_ifs with h
  · cases hdiff : r.system_avg - r.process_avg with
    | nan => exact absurd (hdiff ▸ h) not_lt_nan
    | number x => exact ⟨x, rfl⟩
  · exact ⟨ofRat 0, rfl⟩

/-- The feedforward is a number, whatever the readings are. -/
theorem IsInt.feedforward_eq (h : r.IsInt) {o : Number} (ho : r.other = number o) :
    r.feedforward = number (subFrom r.target o) := by
  obtain ⟨t, ht, htarget⟩ := exists_intCast h.target_ge h.target_lt
  rw [feedforward, ho, htarget, finite_sub_number, ht]

/-- The error is a number unless the average is a NaN. -/
theorem IsInt.error_eq (h : r.IsInt) {s : Number} (hs : r.system_avg = number s) :
    r.error = number (subFrom r.target s) := by
  obtain ⟨t, ht, htarget⟩ := exists_intCast h.target_ge h.target_lt
  rw [error, hs, htarget, finite_sub_number, ht]

/-- **The sign of the error** is that of the exact difference: no rounding can hide it. -/
theorem IsInt.error_sign (h : r.IsInt) :
    (0 < r.error ↔ r.system_avg < r.target) ∧
      (r.error < 0 ↔ (r.target : Double) < r.system_avg) := by
  obtain ⟨t, ht, htarget⟩ := exists_intCast h.target_ge h.target_lt
  cases hs : r.system_avg with
  | nan =>
    have he : r.error = nan := by rw [error, hs, sub_nan]
    rw [he]
    exact ⟨iff_of_false not_lt_nan not_nan_lt, iff_of_false not_nan_lt not_lt_nan⟩
  | number s =>
    have hzero : (0 : Double) = number (finite .zero) := congrArg number ofRat_zero
    rw [h.error_eq hs, htarget, hzero, ← ht]
    exact ⟨zero_lt_subFrom_iff, subFrom_lt_zero_iff⟩

end Reading

namespace LoadController

/-- The gain as a double. -/
def ki : Value where
  val := rounded kCpuLoadControllerKi
  rounded_val := rounded_rounded _
  abs_lt := by decide +kernel

theorem ki_pos : 0 < ki.val := by decide +kernel

theorem cast_ki : (kCpuLoadControllerKi : Double) = number (finite ki) :=
  congrArg number (dif_pos ki.abs_lt)

/-- The integral is a finite number, or a NaN. -/
def Bounded (c : LoadController Double) : Prop :=
  c.integral = nan ∨ ∃ i : Value, c.integral = number (finite i)

/-- The candidate is one rounded product and one rounded sum, of numbers. -/
theorem candidate_eq_number {i : Value} {e : Number} (hi : c.integral = number (finite i))
    (he : r.error = number e) :
    c.candidate r = number ((scale ki.val e).addFinite i.val) := by
  rw [candidate, hi, he, cast_ki, finite_mul_number ki_pos, finite_add_number]

/-- An error of 0 asks for the integral as it is. -/
theorem addFinite_scale_zero {i : Value} :
    (scale ki.val (finite .zero)).addFinite i.val = finite i := by
  have hscale : scale ki.val (finite .zero) = finite .zero := by
    change ofRat (ki.val * 0) = _
    rw [mul_zero, ofRat_zero]
  rw [hscale]
  change ofRat (0 + i.val) = _
  rw [zero_add, ofRat_value]

/-- The candidate lies the way of the error, or rounding has lost the error. -/
theorem le_candidate {i : Value} {e : Number} (h : 0 < number e) :
    finite i ≤ (scale ki.val e).addFinite i.val := by
  have hpos : finite .zero ≤ e := by
    rw [← ofRat_zero]
    exact (number_lt_number.mp h).le
  calc finite i = (scale ki.val (finite .zero)).addFinite i.val := addFinite_scale_zero.symm
    _ ≤ _ := addFinite_mono (scale_mono ki_pos.le hpos) le_rfl

/-- An error below 0 does not raise the integral, also where rounding loses it. -/
theorem candidate_le {i : Value} {e : Number} (h : number e < 0) :
    (scale ki.val e).addFinite i.val ≤ finite i := by
  have hneg : e ≤ finite .zero := by
    rw [← ofRat_zero]
    exact (number_lt_number.mp h).le
  calc (scale ki.val e).addFinite i.val
      ≤ (scale ki.val (finite .zero)).addFinite i.val :=
        addFinite_mono (scale_mono ki_pos.le hneg) le_rfl
    _ = finite i := addFinite_scale_zero

/-- **The two kinds of step**: one in which the candidate is a NaN, and one in which every
value is a number. -/
theorem candidate_cases (hc : c.Bounded) (r : Reading Double) :
    ((c.integral = nan ∨ r.system_avg = nan) ∧ c.candidate r = nan) ∨
      ∃ i s, c.integral = number (finite i) ∧ r.system_avg = number s := by
  rcases hc with hnan | ⟨i, hi⟩
  · refine .inl ⟨.inl hnan, ?_⟩
    rw [candidate, hnan, nan_add]
  · cases hs : r.system_avg with
    | nan =>
      refine .inl ⟨.inr rfl, ?_⟩
      rw [candidate, Reading.error, hs, sub_nan, mul_nan, add_nan]
    | number s => exact .inr ⟨i, s, hi, rfl⟩

/-! The demand of an update whose integral is finite -/

section Demand

variable (outside : Double → Int64) {j : Value} {k : ℤ}

/-- With a finite integral the output is a number, and the demand is its rounding within
the capacity. -/
theorem demand_eq_of_finite (hint : r.IsInt) (hcap : 0 < r.capacity)
    (hj : (c.next r).integral = number (finite j)) :
    ∃ x, r.feedforward + (c.next r).integral = number x ∧
      c.demand (lroundInt outside) r =
        lroundInt outside (Round.clamp (number x) 0 (r.capacity : Double)) := by
  obtain ⟨o, ho⟩ := r.exists_other
  have hout : r.feedforward + (c.next r).integral
      = number ((subFrom r.target o).addFinite j.val) := by
    rw [hint.feedforward_eq ho, hj, number_add_finite]
  exact ⟨_, hout, by rw [demand_eq hcap, hout]⟩

/-- The demand, by the boundaries its output has reached. -/
theorem le_demand_iff (hint : r.IsInt) (hcap : 0 < r.capacity)
    (hj : (c.next r).integral = number (finite j)) (hk : 1 ≤ k) (hkcap : k ≤ r.capacity) :
    k ≤ c.demand (lroundInt outside) r ↔
      boundary k ≤ r.feedforward + (c.next r).integral := by
  obtain ⟨x, hout, hdemand⟩ := demand_eq_of_finite outside hint hcap hj
  rw [hdemand, hout]
  exact le_lroundInt_iff outside hcap hint.capacity_lt hk hkcap

/-- With a finite integral the demand is between 0 and the capacity. -/
theorem demand_double_mem (hint : r.IsInt) (hcap : 0 < r.capacity)
    (hj : (c.next r).integral = number (finite j)) :
    0 ≤ c.demand (lroundInt outside) r ∧ c.demand (lroundInt outside) r ≤ r.capacity := by
  obtain ⟨x, -, hdemand⟩ := demand_eq_of_finite outside hint hcap hj
  rw [hdemand]
  exact lroundInt_mem outside hcap hint.capacity_lt

/-- The demand is at the upper rail exactly from the last boundary on. -/
theorem demand_eq_capacity_iff (hint : r.IsInt) (hcap : 0 < r.capacity)
    (hj : (c.next r).integral = number (finite j)) :
    c.demand (lroundInt outside) r = r.capacity ↔
      boundary r.capacity ≤ r.feedforward + (c.next r).integral := by
  obtain ⟨x, hout, hdemand⟩ := demand_eq_of_finite outside hint hcap hj
  rw [hdemand, hout]
  exact lroundInt_eq_capacity_iff outside hcap hint.capacity_lt

/-- The demand is at the lower rail exactly below the first boundary. -/
theorem demand_eq_zero_iff (hint : r.IsInt) (hcap : 0 < r.capacity)
    (hj : (c.next r).integral = number (finite j)) :
    c.demand (lroundInt outside) r = 0 ↔
      r.feedforward + (c.next r).integral < boundary 1 := by
  obtain ⟨x, hout, hdemand⟩ := demand_eq_of_finite outside hint hcap hj
  rw [hdemand, hout]
  exact lroundInt_eq_zero_iff outside hcap hint.capacity_lt

end Demand

/-- A NaN does not freeze anything. -/
theorem not_saturated_of_nan (h : c.candidate r = nan) : ¬ c.saturated r := by
  have hraw : c.raw r = nan := by rw [raw, h, add_nan]
  rintro (⟨hlt, -⟩ | ⟨hlt, -⟩)
  · exact not_lt_nan (hraw ▸ hlt)
  · exact not_nan_lt (hraw ▸ hlt)

/-- An update on a NaN leaves one. -/
theorem next_of_nan (hcap : 0 < r.capacity) (h : c.candidate r = nan) :
    (c.next r).integral = nan := by
  rw [integral_next hcap (not_saturated_of_nan h), h, clamp_nan]

/-- And asks `lround` for it. -/
theorem demand_of_nan {lround : Double → ℤ} (hcap : 0 < r.capacity) (h : c.candidate r = nan) :
    c.demand lround r = lround nan := by
  rw [demand_eq hcap, next_of_nan hcap h, add_nan, clamp_nan]

/-- The bounds of the integral. -/
theorem exists_bounds {capacity : ℤ} (hcap : 0 < capacity) (hfits : capacity < 2 ^ 31) :
    ∃ lo hi : Value, -(capacity : Double) = number (finite lo) ∧
      (capacity : Double) = number (finite hi) ∧ finite lo < finite hi := by
  obtain ⟨hi, hhi, hcapacity⟩ := exists_intCast (by omega) hfits
  obtain ⟨lo, hlo, hneg⟩ := neg_intCast hcap hfits
  have hcap' : (0 : ℚ) < capacity := by exact_mod_cast hcap
  refine ⟨lo, hi, hneg, hcapacity, ?_⟩
  rw [finite_lt_finite, hlo, hhi]
  linarith

/-- **An update that is not frozen**, in numbers: the candidate lies the way of the error,
or rounding has lost the error, and the integral becomes the candidate between the bounds. -/
theorem exists_moved {i : Value} {s : Number} (hi : c.integral = number (finite i))
    (hs : r.system_avg = number s) (hint : r.IsInt) (hcap : 0 < r.capacity)
    (hsat : ¬ c.saturated r) :
    ∃ (lo top : Value) (x : Number), -(r.capacity : Double) = number (finite lo) ∧
      (r.capacity : Double) = number (finite top) ∧ finite lo < finite top ∧
      c.candidate r = number x ∧
      (c.next r).integral = number (Round.clamp x (finite lo) (finite top)) ∧
      (0 < r.error → finite i ≤ x) ∧ (r.error < 0 → x ≤ finite i) := by
  obtain ⟨lo, top, hlo, htop, hlt⟩ := exists_bounds hcap hint.capacity_lt
  have herror := hint.error_eq hs
  have hcand := candidate_eq_number hi herror
  refine ⟨lo, top, _, hlo, htop, hlt, hcand, ?_, fun he => ?_, fun he => ?_⟩
  · rw [integral_next hcap hsat, hcand, hlo, htop, clamp_number]
  · exact le_candidate (herror ▸ he)
  · exact candidate_le (herror ▸ he)

/-- While everything is a number, the integral stays finite. -/
theorem exists_next {i : Value} {s : Number} (hi : c.integral = number (finite i))
    (hs : r.system_avg = number s) (hint : r.IsInt) (hcap : 0 < r.capacity) :
    ∃ j : Value, (c.next r).integral = number (finite j) := by
  by_cases hsat : c.saturated r
  · exact ⟨i, by rw [next_of_saturated hcap hsat, hi]⟩
  · obtain ⟨lo, top, x, -, -, hlt, -, hnext, -⟩ := exists_moved hi hs hint hcap hsat
    obtain ⟨hge, hle⟩ := Round.clamp_mem (x := x) hlt.le
    obtain ⟨j, hj⟩ := exists_finite hge hle
    exact ⟨j, by rw [hnext, hj]⟩

/-- An update leaves a NaN or a finite integral. -/
theorem Bounded.next (hc : c.Bounded) (hint : r.IsInt) : (c.next r).Bounded := by
  by_cases hcap : 0 < r.capacity
  · rcases candidate_cases hc r with ⟨-, hcand⟩ | ⟨i, s, hi, hs⟩
    · exact .inl (next_of_nan hcap hcand)
    · exact .inr (exists_next hi hs hint hcap)
  · have hnext : c.next r = c := if_pos (not_lt.mp hcap)
    rw [hnext]
    exact hc

theorem bounded_fresh : Bounded {} := .inr ⟨.zero, congrArg number ofRat_zero⟩

/-- **In every run** of a fresh controller. -/
theorem bounded_in_run {rs : List (Reading Double)} (hint : ∀ r ∈ rs, r.IsInt) (k : ℕ) :
    (Run.before next {} rs k).Bounded := by
  have hall : Run.Along next (fun _ r => r.IsInt) {} rs :=
    fun _ r hr => hint r (List.mem_of_getElem? hr)
  exact Run.inv bounded_fresh (fun _ _ hc hr => Bounded.next hc hr) hall k

end LoadController

end Steps

/-- Twenty-five ticks of a target of 1 and a load of 2, all ours, take the integral to half
a unit below 0. Exactly there the demand is rounded up; in doubles it is just missed. -/
example :
    let exact_reading : Reading ℚ := ⟨1, 2, 2, 100⟩
    let reading : Reading Double := ⟨1, ((2 : ℚ) : Double), ((2 : ℚ) : Double), 100⟩
    ((List.replicate 24 exact_reading).foldl LoadController.next {}).demand Round.lround
        exact_reading = 1 ∧
      ((List.replicate 24 reading).foldl LoadController.next {}).demand (lroundInt fun _ => 0)
        reading = 0 := by
  decide +kernel

end Loadmaster.Cpu
