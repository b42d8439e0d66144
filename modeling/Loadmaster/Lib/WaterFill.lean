/-
Water-filling in rounds.

A list of amounts is brought under a cap: each round clips what is above the
cap and pours the excess over the amounts below it, in proportion to their
size; it ends when the excess is within a tolerance or nothing is below the cap
any more. Pouring may push an amount above the cap again, so one round is not
enough. It settles all the same: an amount that reached the cap stays there, so
every round that pours for a later one to clip takes an amount off those
below the cap, and there are never more rounds than amounts (`settles`). All
amounts are scaled by one factor, and cut at the cap (`Settles.eq_map_min`).

Everything is over an ordered field; no amount is ever divided by zero, since
the weight of the amounts below the cap is what the loop tests.
-/
import Mathlib.Algebra.Order.BigOperators.Group.List
import Mathlib.Algebra.Order.Field.Basic
import Mathlib.Data.List.Count
import Mathlib.Tactic.FieldSimp
import Mathlib.Tactic.Linarith
import Mathlib.Tactic.Positivity
import Mathlib.Tactic.Ring

set_option autoImplicit false

namespace WaterFill

variable {α : Type*} [Field α] [LinearOrder α]

/-! ## One round -/

/-- What is above the cap. -/
def excess (cap : α) (vs : List α) : α := (vs.map fun v => if cap < v then v - cap else 0).sum

/-- The weight of the amounts below the cap. -/
def freeWeight (cap : α) (vs : List α) : α := (vs.map fun v => if v < cap then v else 0).sum

def clip (cap : α) (vs : List α) : List α := vs.map fun v => if cap < v then cap else v

/-- `amount` over those below the cap, whose weight is `weight`. -/
def pour (cap amount weight : α) (vs : List α) : List α :=
  vs.map fun v => if v < cap then v + amount * (v / weight) else v

/-- At most `rounds` rounds. -/
def waterFill (cap tolerance : α) : ℕ → List α → List α
  | 0, vs => vs
  | rounds + 1, vs =>
    if excess cap vs ≤ tolerance ∨ freeWeight cap vs ≤ 0 then clip cap vs
    else waterFill cap tolerance rounds
      (pour cap (excess cap vs) (freeWeight cap vs) (clip cap vs))

/-- How many amounts are below the cap. -/
def below (cap : α) (vs : List α) : ℕ := vs.countP fun v => v < cap

variable {cap amount weight tolerance : α} {vs : List α}

omit [Field α] in
@[simp] theorem length_clip : (clip cap vs).length = vs.length := List.length_map _

@[simp] theorem length_pour : (pour cap amount weight vs).length = vs.length := List.length_map _

omit [Field α] in
/-- Clipping leaves nothing above the cap. -/
theorem le_cap_of_mem_clip {v : α} (hv : v ∈ clip cap vs) : v ≤ cap := by
  obtain ⟨u, -, rfl⟩ := List.mem_map.mp hv
  split_ifs with h
  · exact le_rfl
  · exact not_lt.mp h

/-- The rounds change amounts, and not how many there are. -/
theorem length_waterFill (rounds : ℕ) : (waterFill cap tolerance rounds vs).length = vs.length := by
  induction rounds generalizing vs with
  | zero => rfl
  | succ rounds ih =>
    unfold waterFill
    split_ifs
    · exact length_clip
    · rw [ih, length_pour, length_clip]

/-- Clipping does not touch what is below the cap. -/
theorem freeWeight_clip : freeWeight cap (clip cap vs) = freeWeight cap vs := by
  unfold freeWeight clip
  rw [List.map_map]
  congr 1
  refine List.map_congr_left fun v _ => ?_
  by_cases h : cap < v
  · simp [h, h.le]
  · simp [h]

variable [IsStrictOrderedRing α]

/-! ## What a round keeps -/

/-- Clipping takes off the excess. -/
theorem sum_clip_add_excess : (clip cap vs).sum + excess cap vs = vs.sum := by
  induction vs with
  | nil => simp [clip, excess]
  | cons v vs ih =>
    simp only [clip, excess, List.map_cons, List.sum_cons] at ih ⊢
    split_ifs
    · linarith
    · linarith

/-- Pouring adds the amount in the proportion that the weight given has to that of the
amounts. -/
theorem sum_pour_eq : (pour cap amount weight vs).sum =
    vs.sum + amount * (freeWeight cap vs / weight) := by
  induction vs with
  | nil => simp [pour, freeWeight]
  | cons v vs ih =>
    simp only [pour, freeWeight, List.map_cons, List.sum_cons] at ih ⊢
    rw [ih]
    split_ifs
    · ring
    · ring

/-- Pouring over the amounts by their own weight adds the whole amount. -/
theorem sum_pour (h : 0 < freeWeight cap vs) :
    (pour cap amount (freeWeight cap vs) vs).sum = vs.sum + amount := by
  rw [sum_pour_eq, div_self h.ne', mul_one]

/-- The excess is a sum of what is above the cap, so it is not negative. -/
theorem excess_nonneg : 0 ≤ excess cap vs := by
  refine List.sum_nonneg fun x hx => ?_
  obtain ⟨v, -, rfl⟩ := List.mem_map.mp hx
  split_ifs with h
  · exact (sub_pos.mpr h).le
  · exact le_rfl

omit [IsStrictOrderedRing α] in
theorem exists_above_of_excess_pos (h : 0 < excess cap vs) : ∃ v ∈ vs, cap < v := by
  by_contra hnone
  push Not at hnone
  have hzero : excess cap vs = 0 := by
    refine List.sum_eq_zero fun x hx => ?_
    obtain ⟨v, hv, rfl⟩ := List.mem_map.mp hx
    rw [if_neg (hnone v hv).not_gt]
  exact h.ne' hzero

omit [IsStrictOrderedRing α] in
theorem pos_of_mem_clip (hcap : 0 < cap) (hpos : ∀ v ∈ vs, 0 < v) {v : α}
    (hv : v ∈ clip cap vs) : 0 < v := by
  obtain ⟨u, hu, rfl⟩ := List.mem_map.mp hv
  split_ifs
  · exact hcap
  · exact hpos u hu

theorem pos_of_mem_pour (hamount : 0 ≤ amount) (hweight : 0 < weight) (hpos : ∀ v ∈ vs, 0 < v)
    {v : α} (hv : v ∈ pour cap amount weight vs) : 0 < v := by
  obtain ⟨u, hu, rfl⟩ := List.mem_map.mp hv
  have hu0 := hpos u hu
  split_ifs
  · positivity
  · exact hu0

/-- With no weight below the cap, clipping leaves everything at the cap. -/
theorem eq_cap_of_freeWeight_nonpos (hpos : ∀ v ∈ vs, 0 < v) (h : freeWeight cap vs ≤ 0) {v : α}
    (hv : v ∈ clip cap vs) : v = cap := by
  obtain ⟨u, hu, rfl⟩ := List.mem_map.mp hv
  -- one amount below the cap would weigh as much as itself
  have hnot : ¬ u < cap := by
    intro hlow
    have hterm : u ≤ freeWeight cap vs := by
      refine List.single_le_sum (fun x hx => ?_) u (List.mem_map.mpr ⟨u, hu, if_pos hlow⟩)
      obtain ⟨w, hw, rfl⟩ := List.mem_map.mp hx
      split_ifs
      · exact (hpos w hw).le
      · exact le_rfl
    exact absurd (hpos u hu) (not_lt.mpr (hterm.trans h))
  split_ifs with habove
  · rfl
  · exact le_antisymm (not_lt.mp habove) (not_lt.mp hnot)

/-! ## The rounds suffice -/

omit [IsStrictOrderedRing α] in
/-- Where there is weight to pour on, some amount is below the cap. -/
theorem below_pos_of_freeWeight_pos (h : 0 < freeWeight cap vs) : 0 < below cap vs := by
  rw [below, List.countP_pos_iff]
  by_contra hnone
  push Not at hnone
  have hzero : freeWeight cap vs = 0 := by
    refine List.sum_eq_zero fun x hx => ?_
    obtain ⟨v, hv, rfl⟩ := List.mem_map.mp hx
    rw [if_neg (by simpa using hnone v hv)]
  exact h.ne' hzero

/-- One round on a single amount. -/
private def roundOne (cap amount weight v : α) : α :=
  if cap < v then cap else if v < cap then v + amount * (v / weight) else v

omit [IsStrictOrderedRing α] in
/-- A round acts on each amount by itself. -/
private theorem pour_clip : pour cap amount weight (clip cap vs) =
    vs.map (roundOne cap amount weight) := by
  unfold pour clip
  rw [List.map_map]
  refine List.map_congr_left fun v _ => ?_
  unfold roundOne
  by_cases h : cap < v
  · simp [h]
  · simp [h]

omit [IsStrictOrderedRing α] in
/-- An amount that is not below the cap is at it after the round. -/
private theorem roundOne_of_not_lt {v : α} (h : ¬ v < cap) :
    roundOne cap amount weight v = cap := by
  unfold roundOne
  rw [if_neg h]
  split_ifs with habove
  · rfl
  · exact le_antisymm (not_lt.mp habove) (not_lt.mp h)

omit [IsStrictOrderedRing α] in
/-- If pouring leaves something to clip, fewer amounts are below the cap. -/
theorem below_pour_lt (h : ∃ v ∈ pour cap amount weight (clip cap vs), cap < v) :
    below cap (pour cap amount weight (clip cap vs)) < below cap vs := by
  rw [pour_clip] at h ⊢
  obtain ⟨v, hv, habove⟩ := h
  obtain ⟨u, hu, rfl⟩ := List.mem_map.mp hv
  have hlow : u < cap := by
    by_contra hnot
    rw [roundOne_of_not_lt hnot] at habove
    exact absurd habove (lt_irrefl cap)
  -- `u` was below and is not any more; the others can only leave as well
  obtain ⟨pre, post, rfl⟩ := List.append_of_mem hu
  have hkeep : ∀ l : List α, below cap (l.map (roundOne cap amount weight)) ≤ below cap l := by
    intro l
    unfold below
    rw [List.countP_map]
    refine List.countP_mono_left fun w _ hw => ?_
    by_contra hnot
    have hat : roundOne cap amount weight w = cap := roundOne_of_not_lt (by simpa using hnot)
    simp [hat] at hw
  have hpre := hkeep pre
  have hpost := hkeep post
  have hnow : ¬ roundOne cap amount weight u < cap := habove.not_gt
  simp only [below, List.map_append, List.map_cons, List.countP_append, List.countP_cons,
    decide_eq_true_eq, hnow, hlow, if_true, if_false] at hpre hpost ⊢
  omega

/-- What is left of a list when the rounds are over: nothing above the cap, and
the total is short by the tolerance at most, unless everything is at the cap. -/
structure Filled (cap tolerance total : α) (vs : List α) : Prop where
  pos : ∀ v ∈ vs, 0 < v
  le_cap : ∀ v ∈ vs, v ≤ cap
  sum_le : vs.sum ≤ total
  complete : total ≤ vs.sum + tolerance ∨ ∀ v ∈ vs, v = cap

/-- The rounds end before they are used up: in one of them nothing is left to
pour, or nothing to pour it on. -/
def Settles (cap tolerance : α) : ℕ → List α → Prop
  | 0, _ => False
  | rounds + 1, vs =>
    (excess cap vs ≤ tolerance ∨ freeWeight cap vs ≤ 0) ∨
      Settles cap tolerance rounds (pour cap (excess cap vs) (freeWeight cap vs) (clip cap vs))

/-- **There are enough rounds** for positive amounts, as long as there is one,
and one for each amount below the cap where there is something to clip. -/
theorem settles (hcap : 0 < cap) (htol : 0 ≤ tolerance) (hpos : ∀ v ∈ vs, 0 < v)
    {rounds : ℕ} (hround : 0 < rounds)
    (henough : (∃ v ∈ vs, cap < v) → below cap vs < rounds) :
    Settles cap tolerance rounds vs := by
  induction rounds generalizing vs with
  | zero => exact absurd hround (lt_irrefl 0)
  | succ rounds ih =>
    by_cases hstop : excess cap vs ≤ tolerance ∨ freeWeight cap vs ≤ 0
    · exact .inl hstop
    obtain ⟨hlarge, hfree⟩ := not_or.mp hstop
    rw [not_le] at hlarge hfree
    -- the rounds left are no fewer than the amounts below the cap, and there is one
    have hbelow := henough (exists_above_of_excess_pos (htol.trans_lt hlarge))
    have hsome := below_pos_of_freeWeight_pos hfree
    refine .inr (ih (fun v hv => ?_) (by omega) fun hagain => ?_)
    · exact pos_of_mem_pour excess_nonneg hfree (fun u hu => pos_of_mem_clip hcap hpos hu) hv
    · have := below_pour_lt hagain
      omega

/-- By induction on the rounds: each keeps the total, up to the excess that the last one
clips off, which is within the tolerance. -/
theorem Settles.filled {rounds : ℕ} (h : Settles cap tolerance rounds vs) (hcap : 0 < cap)
    (hpos : ∀ v ∈ vs, 0 < v) :
    Filled cap tolerance vs.sum (waterFill cap tolerance rounds vs) := by
  induction rounds generalizing vs with
  | zero => exact h.elim
  | succ rounds ih =>
    have hsum : (clip cap vs).sum + excess cap vs = vs.sum := sum_clip_add_excess
    have hexcess : 0 ≤ excess cap vs := excess_nonneg
    unfold waterFill
    split_ifs with hstop
    · refine ⟨fun v hv => pos_of_mem_clip hcap hpos hv, fun v hv => le_cap_of_mem_clip hv,
        by linarith, ?_⟩
      rcases hstop with hsmall | hfree
      · exact .inl (by linarith)
      · exact .inr fun v hv => eq_cap_of_freeWeight_nonpos hpos hfree hv
    · have hfree : 0 < freeWeight cap vs := not_le.mp (not_or.mp hstop).2
      have hfree' : 0 < freeWeight cap (clip cap vs) := by rwa [freeWeight_clip]
      -- pouring what was clipped keeps the total
      have htotal : (pour cap (excess cap vs) (freeWeight cap vs) (clip cap vs)).sum = vs.sum := by
        rw [← freeWeight_clip, sum_pour hfree']
        exact hsum
      rw [← htotal]
      exact ih (h.resolve_left hstop) fun v hv =>
        pos_of_mem_pour hexcess hfree (fun u hu => pos_of_mem_clip hcap hpos hu) hv

/-! ## One factor for all -/

omit [Field α] [IsStrictOrderedRing α] in
theorem clip_eq_map_min : clip cap vs = vs.map (min cap) := by
  refine List.map_congr_left fun v _ => ?_
  split_ifs with h
  · rw [min_eq_left h.le]
  · rw [min_eq_right (not_lt.mp h)]

/-- **The factor of a round.** What is a multiple of `u`, cut at the cap, is a
larger multiple of it after the round. -/
theorem min_roundOne {u v l : α} (hcap : 0 < cap) (hamount : 0 ≤ amount) (hweight : 0 < weight)
    (h : min cap v = min cap (l * u)) :
    min cap (roundOne cap amount weight v) = min cap (l * (1 + amount / weight) * u) := by
  by_cases hlow : v < cap
  · -- below the cap the multiple is the amount itself
    rw [min_eq_right hlow.le] at h
    have hmultiple : l * u = v := by
      rcases min_choice cap (l * u) with hmin | hmin
      · exact absurd (h.trans hmin) hlow.ne
      · exact (h.trans hmin).symm
    have hround : roundOne cap amount weight v = v + amount * (v / weight) := by
      rw [roundOne, if_neg hlow.not_gt, if_pos hlow]
    have heq : l * (1 + amount / weight) * u = v + amount * (v / weight) := by
      rw [← hmultiple]
      ring
    rw [hround, heq]
  · rw [min_eq_left (not_lt.mp hlow)] at h
    have hmultiple : cap ≤ l * u := by
      rw [h]
      exact min_le_right _ _
    have hgrown : cap ≤ l * (1 + amount / weight) * u := by
      have hmore : 0 ≤ amount / weight * (l * u) := by
        have hlu := hcap.le.trans hmultiple
        positivity
      linarith
    rw [roundOne_of_not_lt hlow, min_self, min_eq_left hgrown]

/-- By induction on the rounds: each multiplies the factor, for all amounts alike. -/
theorem exists_factor {us : List α} {g : α → α} {l : α} {rounds : ℕ} (hcap : 0 < cap)
    (hl : 1 ≤ l) (h : ∀ u ∈ us, min cap (g u) = min cap (l * u))
    (hsettles : Settles cap tolerance rounds (us.map g)) :
    ∃ l', 1 ≤ l' ∧
      waterFill cap tolerance rounds (us.map g) = us.map fun u => min cap (l' * u) := by
  induction rounds generalizing g l with
  | zero => exact hsettles.elim
  | succ rounds ih =>
    unfold waterFill
    split_ifs with hstop
    · refine ⟨l, hl, ?_⟩
      rw [clip_eq_map_min, List.map_map]
      exact List.map_congr_left h
    · have hfree : 0 < freeWeight cap (us.map g) := not_le.mp (not_or.mp hstop).2
      have hexcess : 0 ≤ excess cap (us.map g) := excess_nonneg
      have hfactor : 0 ≤ excess cap (us.map g) / freeWeight cap (us.map g) := by positivity
      have hagain := hsettles.resolve_left hstop
      rw [pour_clip, List.map_map] at hagain ⊢
      have hlarger := one_le_mul_of_one_le_of_one_le hl (le_add_of_nonneg_right hfactor)
      refine ih hlarger (fun u hu => ?_) hagain
      exact min_roundOne hcap hexcess hfree (h u hu)

/-- **Water-filling scales all amounts by one factor**, and cuts them at the cap. -/
theorem Settles.eq_map_min {rounds : ℕ} (h : Settles cap tolerance rounds vs) (hcap : 0 < cap) :
    ∃ l, 1 ≤ l ∧ waterFill cap tolerance rounds vs = vs.map fun v => min cap (l * v) := by
  have hfirst : ∀ u ∈ vs, min cap (id u) = min cap (1 * u) := by simp
  rw [← List.map_id vs] at h ⊢
  obtain ⟨l, hl, heq⟩ := exists_factor hcap le_rfl hfirst h
  exact ⟨l, hl, by rw [heq, List.map_id]⟩

omit [IsStrictOrderedRing α] in
/-- What is under the cap stays as it is. -/
theorem waterFill_of_le {rounds : ℕ} (htol : 0 ≤ tolerance) (h : ∀ v ∈ vs, v ≤ cap) :
    waterFill cap tolerance rounds vs = vs := by
  cases rounds with
  | zero => rfl
  | succ rounds =>
    have hnone : excess cap vs = 0 := by
      refine List.sum_eq_zero fun x hx => ?_
      obtain ⟨v, hv, rfl⟩ := List.mem_map.mp hx
      exact if_neg (h v hv).not_gt
    rw [waterFill, if_pos (.inl (hnone.le.trans htol)), clip_eq_map_min]
    exact (List.map_congr_left fun v hv => min_eq_right (h v hv)).trans (List.map_id _)

/-- **The total after water-filling**, to within the tolerance. -/
theorem Filled.abs_sum_sub_le {total : α} (h : Filled cap tolerance total vs)
    (htol : 0 ≤ tolerance) : |vs.sum - min total (cap * vs.length)| ≤ tolerance := by
  have hcap : vs.sum ≤ cap * vs.length := by
    have hcard := List.sum_le_card_nsmul _ _ h.le_cap
    rw [nsmul_eq_mul] at hcard
    linarith
  have hle : vs.sum ≤ min total (cap * vs.length) := le_min h.sum_le hcap
  rw [abs_sub_comm, abs_of_nonneg (sub_nonneg.mpr hle)]
  rcases h.complete with hshort | hall
  · linarith [min_le_left total (cap * vs.length)]
  · have hsum : vs.sum = cap * vs.length := by
      rw [List.sum_eq_card_nsmul _ _ hall, nsmul_eq_mul, mul_comm]
    linarith [min_le_right total (cap * vs.length)]

end WaterFill
