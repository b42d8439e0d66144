/-
Calibration on a device whose launches take `a` ms a loop and an overhead of
`o` ms.

On such a device every sample is on the line, so a calibration is a run of
`nextCount` over the counts alone: it grows to a sample of at least 5 ms, and
then goes through at most three rounds. A round extrapolates through the origin
and so misses by the overhead's share of the sample: from 5 ms it gets to 79 ms
at least, and from there to within 3 ms of the period.
-/
import Loadmaster.Gpu.Calibration
import Mathlib.Tactic.Linarith
import Mathlib.Tactic.FieldSimp

set_option autoImplicit false

namespace Loadmaster.Gpu.GpuWorkerContext

open Effect

/-! ## The device -/

/-- A launch succeeds and takes `a` ms a loop and `o` ms; nothing else that a
calibration does takes time. -/
structure Linear {δ : Type} (device : Handler Call Answer δ) (clock : δ → ℚ) (a o : ℚ) : Prop where
  now_eq : ∀ d, (device d .now).1 = clock d ∧ clock (device d .now).2 = clock d
  run_eq : ∀ d site loop_count, (device d (.runKernel site loop_count 0)).1 = true ∧
    clock (device d (.runKernel site loop_count 0)).2 = clock d + (a * loop_count + o)

/-- What a launch of so many loops takes. -/
def lineMs (a o : ℚ) (count : ℤ) : ℚ := a * count + o

/-- The count a round goes to. -/
def nextCount (a o : ℚ) (count : ℤ) : ℤ := extrapolate count (lineMs a o count) kScheduleIntervalMS

/-- The count the rounds end with. -/
def refined (a o : ℚ) : ℕ → ℤ → ℤ
  | 0, count => count
  | rounds + 1, count =>
    let next := nextCount a o count
    if |lineMs a o next - kScheduleIntervalMS| ≤ kScheduleIntervalMS * kGpuCalibrationTolerance then
      next
    else refined a o rounds next

/-- The growing ends at a sample that is long enough, or at the last count. -/
structure Grown (a o : ℚ) (count : ℤ) : Prop where
  range : InRange count
  long : kGpuCalibrationMinSampleMs ≤ lineMs a o count ∨ (kGpuKernelLoopBaseMax : ℤ) ≤ count

section Device

variable {δ : Type} {device : Handler Call Answer δ} {clock : δ → ℚ} {a o : ℚ}

/-- On a linear device a timed launch yields the line's value at its count. -/
theorem timeKernelMs_run (h : Linear device clock a o) (site : Site) (w : Worker) (count : ℤ)
    (d : δ) : ∃ w' d', (timeKernelMs site w count).run device d
      = ((w', some (lineMs a o count)), d') := by
  obtain ⟨hstart, hclock⟩ := h.now_eq d
  obtain ⟨hok, hran⟩ := h.run_eq (device d .now).2 site count
  unfold timeKernelMs
  rw [Prog.run_perform_bind, Prog.run_perform_bind, hok, if_pos rfl, Prog.run_perform_bind,
    Prog.run_pure, (h.now_eq _).1, hran, hclock, hstart, add_sub_cancel_left]
  exact ⟨_, _, rfl⟩

/-- Of three equal times the median is that time. -/
theorem median_self (x : ℚ) : median x x x = x := by
  unfold median
  simp

theorem medianKernelMs_run (h : Linear device clock a o) (w : Worker) (count : ℤ) (d : δ) :
    ∃ w' d', (medianKernelMs w count).run device d = ((w', some (lineMs a o count)), d') := by
  obtain ⟨w₁, d₁, h₁⟩ := timeKernelMs_run h .refining w count d
  obtain ⟨w₂, d₂, h₂⟩ := timeKernelMs_run h .refining w₁ count d₁
  obtain ⟨w₃, d₃, h₃⟩ := timeKernelMs_run h .refining w₂ count d₂
  unfold medianKernelMs
  rw [Prog.run_bind, h₁]
  dsimp only
  rw [Prog.run_bind, h₂]
  dsimp only
  rw [Prog.run_bind, h₃]
  dsimp only
  rw [Prog.run_pure, median_self]
  exact ⟨_, _, rfl⟩

/-- By recursion on the count, which grows by four until a sample is long enough or the
count is the largest. -/
theorem growSample_run (h : Linear device clock a o) (w : Worker) {count : ℤ} (hcount : 0 < count)
    (hrange : InRange count) (d : δ) :
    ∃ w' d' count', (growSample w count hcount).run device d
      = ((w', some (count', lineMs a o count')), d') ∧ Grown a o count' := by
  fun_induction growSample w count hcount generalizing d with
  | case1 w count hcount ih =>
    obtain ⟨w₁, d₁, h₁⟩ := timeKernelMs_run h .growing w count d
    rw [Prog.run_bind, h₁]
    dsimp only
    split_ifs with hlong
    · exact ⟨_, _, _, rfl, hrange, hlong⟩
    · refine ih w₁ _ hlong ?_ d₁
      obtain ⟨hlo, hhi⟩ := hrange
      unfold InRange
      rw [kGpuKernelLoopBaseMax] at *
      omega

/-- By induction on the rounds, each of which goes by the line. -/
theorem refineCount_run (h : Linear device clock a o) (rounds : ℕ) (w : Worker) (count : ℤ) (d : δ) :
    ∃ w' d', (refineCount w rounds count (lineMs a o count)).run device d
      = ((w', some (refined a o rounds count, lineMs a o (refined a o rounds count))), d') := by
  induction rounds generalizing w count d with
  | zero => exact ⟨w, d, rfl⟩
  | succ rounds ih =>
    obtain ⟨w₁, d₁, h₁⟩ := medianKernelMs_run h w (nextCount a o count) d
    unfold refineCount refined
    dsimp only
    rw [← nextCount, Prog.run_bind, h₁]
    dsimp only
    split_ifs
    · exact ⟨_, _, rfl⟩
    · exact ih w₁ _ d₁

/-- **Calibration on a linear device** is growing, then three rounds. -/
theorem calibrateBaseLoopCount_run (h : Linear device clock a o) {w : Worker}
    (hw : w.has_device = true) (d : δ) :
    ∃ count, Grown a o count ∧
      let r := ((calibrateBaseLoopCount w).run device d).1
      r.2 = true ∧
        r.1.base_loop_count = max 1 (refined a o kGpuCalibrationRefineRounds count) := by
  obtain ⟨hok, -⟩ := h.run_eq d .warmUp 1
  obtain ⟨w₁, d₁, count, h₁, hgrown⟩ := growSample_run h w (show (0 : ℤ) < 1024 by decide)
    (by simp [InRange, kGpuKernelLoopBaseMax]) (device d (.runKernel .warmUp 1 0)).2
  obtain ⟨w₂, d₂, h₂⟩ := refineCount_run h kGpuCalibrationRefineRounds w₁ count d₁
  refine ⟨count, hgrown, ?_⟩
  unfold calibrateBaseLoopCount
  rw [hw, if_neg (by decide), Prog.run_perform_bind, hok, if_neg (by decide), Prog.run_bind, h₁]
  dsimp only
  rw [Prog.run_bind, h₂]
  dsimp only
  split_ifs
  · exact ⟨rfl, rfl⟩
  · exact ⟨rfl, rfl⟩

end Device

/-! ## Without an overhead -/

section Exact

variable {a : ℚ}

theorem lineMs_zero_pos (ha : 0 < a) {count : ℤ} (hcount : InRange count) : 0 < lineMs a 0 count := by
  have hpos : (0 : ℚ) < count := by exact_mod_cast hcount.1
  unfold lineMs
  rw [add_zero]
  exact mul_pos ha hpos

/-- Every round goes to the count that takes the period. -/
theorem nextCount_zero (ha : 0 < a) {count : ℤ} (hcount : InRange count) :
    nextCount a 0 count = Round.clamp ⌊(kScheduleIntervalMS : ℚ) / a⌋ 1 kGpuKernelLoopBaseMax := by
  have hpos : (0 : ℚ) < count := by exact_mod_cast hcount.1
  have heq : count * (kScheduleIntervalMS : ℚ) / lineMs a 0 count = kScheduleIntervalMS / a := by
    unfold lineMs
    field_simp
    ring
  unfold nextCount extrapolate
  rw [if_neg (lineMs_zero_pos ha hcount).not_ge, heq]
  exact Round.floor_clamp _ _ _

/-- Without overhead the first round is exact, and later ones stay there. -/
theorem refined_zero (ha : 0 < a) (rounds : ℕ) {count : ℤ} (hcount : InRange count) :
    refined a 0 (rounds + 1) count
      = Round.clamp ⌊(kScheduleIntervalMS : ℚ) / a⌋ 1 kGpuKernelLoopBaseMax := by
  induction rounds generalizing count with
  | zero =>
    unfold refined
    dsimp only
    rw [nextCount_zero ha hcount]
    split_ifs <;> rfl
  | succ rounds ih =>
    rw [refined]
    split_ifs
    · exact nextCount_zero ha hcount
    · exact ih (inRange_extrapolate _ _ _)

end Exact

/-! ## With a small overhead -/

section Overhead

variable {a o : ℚ}

/-- The period is in reach of the kernel. -/
structure Reaches (a o : ℚ) : Prop where
  a_pos : 0 < a
  a_le : a ≤ 1
  o_nonneg : 0 ≤ o
  o_le : o ≤ 1
  period : (kScheduleIntervalMS - o) / a ≤ kGpuKernelLoopBaseMax

/-- The longest launch takes the period. -/
theorem Reaches.le_lineMs (h : Reaches a o) : 100 ≤ lineMs a o kGpuKernelLoopBaseMax := by
  have hperiod := (div_le_iff₀ h.a_pos).mp h.period
  rw [kScheduleIntervalMS] at hperiod
  unfold lineMs
  push_cast at hperiod ⊢
  linarith

/-- The growing ends at a sample of 5 ms. -/
theorem Reaches.five_le (h : Reaches a o) {count : ℤ} (hcount : Grown a o count) :
    5 ≤ lineMs a o count := by
  rcases hcount.long with hlong | hmax
  · exact hlong
  · -- at the maximum a sample takes the period at least
    have heq : count = kGpuKernelLoopBaseMax := le_antisymm hcount.range.2 hmax
    rw [heq]
    linarith [h.le_lineMs]

/-- What a round aims at is more than one loop, and takes the period less the
overhead's share of the sample. -/
theorem Reaches.aim (h : Reaches a o) {count : ℤ} (hcount : InRange count)
    (hlong : 5 ≤ lineMs a o count) :
    1 ≤ count * 100 / lineMs a o count ∧
      a * (count * 100 / lineMs a o count) = 100 - 100 * o / lineMs a o count := by
  have hpos : 0 < lineMs a o count := by linarith
  have hone : (1 : ℚ) ≤ count := by exact_mod_cast hcount.1
  have hle : a * count ≤ 1 * count := mul_le_mul_of_nonneg_right h.a_le (by linarith)
  refine ⟨?_, ?_⟩
  · rw [le_div_iff₀ hpos]
    unfold lineMs
    linarith [h.o_le]
  · have hline : a * count = lineMs a o count - o := by
      unfold lineMs
      ring
    rw [← mul_div_assoc, ← mul_assoc, hline, sub_mul, sub_div, mul_div_cancel_left₀ _ hpos.ne',
      mul_comm o]

/-- **One round**: it misses the period by a loop at most, and by the overhead's
share of the sample. -/
theorem Reaches.lineMs_nextCount (h : Reaches a o) {count : ℤ} (hcount : InRange count)
    (hlong : 5 ≤ lineMs a o count) :
    99 - 100 * o / lineMs a o count ≤ lineMs a o (nextCount a o count) ∧
      lineMs a o (nextCount a o count) ≤ 101 := by
  obtain ⟨hone, haim⟩ := h.aim hcount hlong
  have hpos : 0 < lineMs a o count := by linarith
  have hshare : 0 ≤ 100 * o / lineMs a o count :=
    div_nonneg (mul_nonneg (by norm_num) h.o_nonneg) hpos.le
  have hnext : nextCount a o count
      = ⌊Round.clamp (count * 100 / lineMs a o count) 1 (kGpuKernelLoopBaseMax : ℚ)⌋ := by
    unfold nextCount extrapolate
    rw [if_neg hpos.not_ge]
    rfl
  by_cases hmax : (kGpuKernelLoopBaseMax : ℚ) < count * 100 / lineMs a o count
  · -- the longest launch, which is too short for what it aims at
    have hclamp : nextCount a o count = kGpuKernelLoopBaseMax := by
      rw [hnext, Round.clamp, if_neg hone.not_gt, if_pos hmax, Int.floor_natCast]
    have hle := h.le_lineMs
    have haim' : a * kGpuKernelLoopBaseMax ≤ a * (count * 100 / lineMs a o count) :=
      mul_le_mul_of_nonneg_left hmax.le h.a_pos.le
    rw [haim] at haim'
    rw [hclamp]
    refine ⟨by linarith, ?_⟩
    unfold lineMs at *
    push_cast
    linarith [h.o_le]
  · -- otherwise no clamp applies, and the floor costs less than a loop
    have hclamp : nextCount a o count = ⌊count * 100 / lineMs a o count⌋ := by
      rw [hnext, Round.clamp, if_neg hone.not_gt, if_neg hmax]
    have hfloor := Int.floor_le (count * 100 / lineMs a o count)
    have hlt := Int.lt_floor_add_one (count * 100 / lineMs a o count)
    rw [← hclamp] at hfloor hlt
    have hupper := mul_le_mul_of_nonneg_left hfloor h.a_pos.le
    have hlower := mul_le_mul_of_nonneg_left hlt.le h.a_pos.le
    rw [haim] at hupper hlower
    rw [mul_add, mul_one] at hlower
    have hnew : lineMs a o (nextCount a o count) = a * nextCount a o count + o := rfl
    rw [hnew]
    constructor
    · linarith [h.a_le, h.o_nonneg]
    · linarith [h.o_le]

/-- A sample of 5 ms gets close to the period. -/
theorem Reaches.seventyNine_le (h : Reaches a o) {count : ℤ} (hcount : InRange count)
    (hlong : 5 ≤ lineMs a o count) : 79 ≤ lineMs a o (nextCount a o count) := by
  have hshare : 100 * o / lineMs a o count ≤ 20 := by
    rw [div_le_iff₀ (by linarith)]
    linarith [h.o_le]
  linarith [(h.lineMs_nextCount hcount hlong).1]

/-- From there a round is precise. -/
theorem Reaches.within (h : Reaches a o) {count : ℤ} (hcount : InRange count)
    (hlong : 79 ≤ lineMs a o count) :
    |lineMs a o (nextCount a o count) - kScheduleIntervalMS|
      ≤ kScheduleIntervalMS * kGpuCalibrationTolerance := by
  obtain ⟨hlo, hhi⟩ := h.lineMs_nextCount hcount (by linarith)
  have hshare : 100 * o / lineMs a o count ≤ 2 := by
    rw [div_le_iff₀ (by linarith)]
    linarith [h.o_le]
  norm_num [kScheduleIntervalMS, kGpuCalibrationTolerance, abs_le]
  constructor <;> linarith

/-- **Two rounds are enough.** -/
theorem Reaches.refined_within (h : Reaches a o) (rounds : ℕ) {count : ℤ} (hcount : Grown a o count) :
    |lineMs a o (refined a o (rounds + 2) count) - kScheduleIntervalMS|
      ≤ kScheduleIntervalMS * kGpuCalibrationTolerance := by
  have hlong := h.seventyNine_le hcount.range (h.five_le hcount)
  have hwithin := h.within (inRange_extrapolate _ _ _) hlong
  rw [refined]
  -- a second round is made only if the first one is not close enough
  split_ifs with hfirst
  · exact hfirst
  · rw [refined]
    exact (if_pos hwithin).symm ▸ hwithin

end Overhead

/-- A refined count is clamped, so it is in range. -/
theorem inRange_refined (a o : ℚ) (rounds : ℕ) {count : ℤ} (hcount : InRange count) :
    InRange (refined a o rounds count) := by
  induction rounds generalizing count with
  | zero => exact hcount
  | succ rounds ih =>
    rw [refined]
    split_ifs
    · exact inRange_extrapolate _ _ _
    · exact ih (inRange_extrapolate _ _ _)

/-- **Calibration hits the period** on every linear device with a small overhead, and
exactly without one. The doubling stops at a count whose launch is long enough to go
by (`Grown`); two refinements from there are within the tolerance, the second for the
share that the overhead has of the first (`refined_within`). -/
theorem hits_period {δ : Type} {device : Handler Call Answer δ} {clock : δ → ℚ} {a o : ℚ}
    (h : Linear device clock a o) {w : Worker} (hw : w.has_device = true) (d : δ) :
    let r := ((calibrateBaseLoopCount w).run device d).1
    (0 < a → a ≤ 1 → 0 ≤ o → o ≤ 1 → (100 - o) / a ≤ 1000000000 →
        r.2 = true ∧ |a * r.1.base_loop_count + o - 100| ≤ 3) ∧
      (0 < a → o = 0 →
        r.2 = true ∧ r.1.base_loop_count = Round.clamp ⌊100 / a⌋ 1 1000000000) := by
  obtain ⟨count, hgrown, hok, hcount⟩ := calibrateBaseLoopCount_run h hw d
  have hrange := inRange_refined a o kGpuCalibrationRefineRounds hgrown.range
  rw [max_eq_right hrange.1] at hcount
  refine ⟨?_, ?_⟩
  · intro ha ha1 ho ho1 hperiod
    have hreaches : Reaches a o := ⟨ha, ha1, ho, ho1, by
      norm_num [kScheduleIntervalMS, kGpuKernelLoopBaseMax]
      exact hperiod⟩
    have hwithin := hreaches.refined_within 1 hgrown
    refine ⟨hok, ?_⟩
    rw [hcount]
    norm_num [kScheduleIntervalMS, kGpuCalibrationTolerance] at hwithin
    exact hwithin
  · intro ha ho
    subst ho
    refine ⟨hok, ?_⟩
    rw [hcount]
    exact refined_zero ha 2 hgrown.range

/-- Such a device, on a clock that only its launches move. -/
def lineAnswers (a o : ℚ) : Handler Call Answer ℚ
  | time, .stopRequested => (false, time)
  | time, .loadOthers => ((-1 : ℤ), time)
  | time, .loadLoadSet => ((0 : ℤ), time)
  | time, .now => (time, time)
  | time, .runKernel _ loop_count _ => (true, time + (a * loop_count + o))
  | time, .allocateMemory _ => (true, time)
  | time, .releaseMemory => ((), time)
  | time, .memoryBandwidth => ((none : Option ℚ), time)
  | time, .nextFactor _ => ((1 : ℚ), time)
  | time, .sleepFor _ => ((), time)
  | time, .sleepUntil _ => ((), time)
  | time, .log _ => ((), time)

/-- The device that answers by a line is linear. -/
theorem linear_lineAnswers (a o : ℚ) : Linear (lineAnswers a o) id a o where
  now_eq _ := ⟨rfl, rfl⟩
  run_eq _ _ _ := ⟨rfl, rfl⟩

/-- At a tenth of a millisecond a loop, with an overhead of half a millisecond and
without one. -/
theorem hits_period_tenth :
    (let r := ((calibrateBaseLoopCount {}).run (lineAnswers (1 / 10) (1 / 2)) 0).1
     r.2 = true ∧ |1 / 10 * (r.1.base_loop_count : ℚ) + 1 / 2 - 100| ≤ 3) ∧
    let r := ((calibrateBaseLoopCount {}).run (lineAnswers (1 / 10) 0) 0).1
    r.2 = true ∧ r.1.base_loop_count = 1000 := by
  have hsome := (hits_period (linear_lineAnswers (1 / 10) (1 / 2)) (w := {}) rfl 0).1
    (by norm_num) (by norm_num) (by norm_num) (by norm_num) (by norm_num)
  have hnone := (hits_period (linear_lineAnswers (1 / 10) 0) (w := {}) rfl 0).2 (by norm_num) rfl
  refine ⟨hsome, hnone.1, hnone.2.trans ?_⟩
  decide +kernel

end Loadmaster.Gpu.GpuWorkerContext
