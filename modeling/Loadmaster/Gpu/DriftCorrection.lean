/-
**The drift correction converges and then rests** (`AdaptBaseLoopCount` in
`gpu/worker.cc`, exact arithmetic), on a device that always needs the same
number of loops for a period.

A launch is told to take some loops and takes the time these need. The ratio of
its predicted and its actual time is then that of the needed loops and the base
loop count, whatever the launch was told, so a correction goes half of the way,
rounded down. Half of the way is a contraction and rounding disturbs it by less
than 1: the distance ends up below 4 where it would have to be above 4.7 for a
further correction.
-/
import Loadmaster.Gpu.Calibration
import Loadmaster.Lib.Contraction

set_option autoImplicit false

namespace Loadmaster.Gpu.GpuWorkerContext

/-- A device that always needs `loops` loops for a period. -/
structure SteadyDevice where
  loops : ℚ
  loops_ge : 100 ≤ loops
  loops_le : loops ≤ kGpuKernelLoopBaseMax

namespace SteadyDevice

variable (d : SteadyDevice)

/-- What a launch takes. -/
def aluMs (loop_count : ℤ) : ℚ := loop_count * kScheduleIntervalMS / d.loops

/-- What the worker thinks that it takes. -/
def predictedMs (w : Worker) (loop_count : ℤ) : ℚ :=
  loop_count * kScheduleIntervalMS / w.base_loop_count

/-- A traffic-free launch, and what is learnt from the time it takes. -/
def launched (w : Worker) (loop_count : ℤ) : Worker := learn w loop_count 0 (d.aluMs loop_count)

/-- The worker before launch number `k`. -/
def workerAt (w : Worker) (counts : ℕ → ℤ) : ℕ → Worker
  | 0 => w
  | k + 1 => d.launched (workerAt w counts k) (counts k)

/-- The base loop count is as good as the deadband asks for. -/
def InBand (w : Worker) : Prop := |d.loops / w.base_loop_count - 1| < kGpuAdaptDeadband

/-- The launch is long enough to tell the speed of the device. -/
def Tells (w : Worker) (loop_count : ℤ) : Prop := kGpuAdaptMinBusyMs ≤ predictedMs w loop_count

/-- The launch tells, and the base loop count is off. -/
def Corrects (w : Worker) (loop_count : ℤ) : Prop := Tells w loop_count ∧ ¬ d.InBand w

instance (w : Worker) (loop_count : ℤ) : Decidable (Tells w loop_count) :=
  inferInstanceAs (Decidable (_ ≤ _))

instance (w : Worker) : Decidable (d.InBand w) := inferInstanceAs (Decidable (_ < _))

instance (w : Worker) (loop_count : ℤ) : Decidable (d.Corrects w loop_count) :=
  inferInstanceAs (Decidable (_ ∧ _))

variable {d} {w : Worker} {loop_count : ℤ}

theorem loops_pos : 0 < d.loops := by
  have h := d.loops_ge
  linarith

/-! ## One launch -/

/-- What is left of a launch without traffic: its two times. -/
theorem launched_eq : d.launched w loop_count
    = (w.addBusy (d.aluMs loop_count)).adaptBaseLoopCount (predictedMs w loop_count)
        (d.aluMs loop_count) := by
  unfold launched learn
  dsimp only
  rw [if_neg (not_not.mpr rfl)]
  congr 1
  simp [mebibytes]

/-- The ratio of the two times does not depend on the launch. -/
theorem ratio_eq (hw : InRange w.base_loop_count) (hcount : 1 ≤ loop_count) :
    predictedMs w loop_count / d.aluMs loop_count = d.loops / w.base_loop_count := by
  have hloops := d.loops_pos
  have hbase : (0 : ℚ) < w.base_loop_count := by exact_mod_cast hw.1
  have hcount' : (0 : ℚ) < loop_count := by exact_mod_cast hcount
  unfold predictedMs aluMs kScheduleIntervalMS
  field_simp

/-- **What a launch does**: it goes half of the way, rounded down, or leaves the
base loop count alone. -/
theorem launched_base (hw : InRange w.base_loop_count) (hcount : 1 ≤ loop_count) :
    (d.launched w loop_count).base_loop_count
      = if d.Corrects w loop_count then ⌊(w.base_loop_count + d.loops) / 2⌋
        else w.base_loop_count := by
  have hloops := d.loops_pos
  have hbase : (1 : ℚ) ≤ w.base_loop_count := by exact_mod_cast hw.1
  have hcount' : (0 : ℚ) < loop_count := by exact_mod_cast hcount
  have halu : 0 < d.aluMs loop_count := by
    unfold aluMs kScheduleIntervalMS
    positivity
  rw [launched_eq]
  unfold Worker.adaptBaseLoopCount
  by_cases htells : Tells w loop_count
  swap
  · -- too short a launch
    rw [if_pos (.inl (not_le.mp htells)), if_neg fun h => htells h.1]
    rfl
  rw [if_neg (not_or.mpr ⟨not_lt.mpr htells, not_le.mpr halu⟩)]
  dsimp only
  rw [ratio_eq hw hcount]
  by_cases hband : |d.loops / w.base_loop_count - 1| < kGpuAdaptDeadband
  · rw [if_pos hband, if_neg fun h => h.2 hband]
    rfl
  rw [if_neg hband, if_pos ⟨htells, hband⟩]
  -- half of the way between two counts that are in range
  have hhalf : (w.base_loop_count : ℚ) * (1 + kGpuAdaptSmoothing
      * (d.loops / w.base_loop_count - 1)) = (w.base_loop_count + d.loops) / 2 := by
    unfold kGpuAdaptSmoothing
    field_simp
    ring
  have hle : (w.base_loop_count : ℚ) ≤ kGpuKernelLoopBaseMax := by exact_mod_cast hw.2
  have hclamp : Round.clamp (((w.base_loop_count : ℚ) + d.loops) / 2) 1 kGpuKernelLoopBaseMax
      = (w.base_loop_count + d.loops) / 2 := by
    have hge := d.loops_ge
    have hle' := d.loops_le
    rw [Round.clamp_eq (by linarith), min_eq_left (by linarith), max_eq_right (by linarith)]
  change ⌊Round.clamp ((w.base_loop_count : ℚ) * _) 1 kGpuKernelLoopBaseMax⌋ = _
  rw [hhalf, hclamp]

/-- A correction as a contraction towards the needed loops, with the rounding as
its disturbance. -/
theorem correction (hw : InRange w.base_loop_count) (hcount : 1 ≤ loop_count)
    (h : d.Corrects w loop_count) :
    ∃ b : ℚ, |b| ≤ 2 ∧ ((d.launched w loop_count).base_loop_count : ℚ) - d.loops
      = (1 - 1 / 2) * (w.base_loop_count - d.loops) + 1 / 2 * b := by
  set y := ((w.base_loop_count : ℚ) + d.loops) / 2 with hy
  refine ⟨2 * (⌊y⌋ - y), ?_, ?_⟩
  · have hlo := Int.floor_le y
    have hhi := Int.lt_floor_add_one y
    rw [abs_le]
    constructor <;> linarith
  · rw [launched_base hw hcount, if_pos h, hy]
    ring

/-- The base loop count stays one that a kernel can be asked for. -/
theorem inRange_launched (hw : InRange w.base_loop_count) (hcount : 1 ≤ loop_count) :
    InRange (d.launched w loop_count).base_loop_count := by
  rw [launched_base hw hcount]
  split_ifs
  · have hge := d.loops_ge
    have hle := d.loops_le
    have hbase : (1 : ℚ) ≤ w.base_loop_count := by exact_mod_cast hw.1
    have hbase' : (w.base_loop_count : ℚ) ≤ kGpuKernelLoopBaseMax := by exact_mod_cast hw.2
    refine ⟨Int.le_floor.mpr ?_, Int.le_of_lt_add_one (Int.floor_lt.mpr ?_)⟩
    · push_cast
      linarith
    · push_cast
      linarith
  · exact hw

/-- Outside the deadband the base loop count is at least a 21st of the needed
loops away from them. -/
theorem lt_of_not_inBand (hw : InRange w.base_loop_count) (h : ¬ d.InBand w) :
    4 < |(w.base_loop_count : ℚ) - d.loops| := by
  have hge := d.loops_ge
  have hbase : (0 : ℚ) < w.base_loop_count := by exact_mod_cast hw.1
  have hoff : kGpuAdaptDeadband * w.base_loop_count ≤ |d.loops - w.base_loop_count| := by
    have hratio : d.loops / w.base_loop_count - 1
        = (d.loops - w.base_loop_count) / w.base_loop_count := by field_simp
    have hnot := not_lt.mp h
    rw [hratio, abs_div, abs_of_pos hbase, le_div_iff₀ hbase] at hnot
    exact hnot
  rw [abs_sub_comm] at hoff
  unfold kGpuAdaptDeadband at hoff
  -- above the needed loops the band is the wider one
  rcases le_total (w.base_loop_count : ℚ) d.loops with hle | hle
  · rw [abs_of_nonpos (by linarith)] at hoff ⊢
    linarith
  · rw [abs_of_nonneg (by linarith)] at hoff ⊢
    linarith

/-! ## Any number of launches -/

variable {counts : ℕ → ℤ}

theorem inRange_workerAt (hw : InRange w.base_loop_count) (hcounts : ∀ k, 1 ≤ counts k) (k : ℕ) :
    InRange (d.workerAt w counts k).base_loop_count := by
  induction k with
  | zero => exact hw
  | succ k ih => exact inRange_launched ih (hcounts k)

/-- What is left of the distance after so many corrections. -/
theorem abs_sub_le (hw : InRange w.base_loop_count) (hcounts : ∀ k, 1 ≤ counts k) (n : ℕ) :
    |((d.workerAt w counts n).base_loop_count : ℚ) - d.loops|
      ≤ (1 / 2) ^ Nat.count (fun k => d.Corrects (d.workerAt w counts k) (counts k)) n
          * 1000000000 + 2 := by
  have hle := Contraction.abs_le_count (a := (1 / 2 : ℚ)) (B := 2)
    (x := fun k => ((d.workerAt w counts k).base_loop_count : ℚ) - d.loops)
    (S := fun k => d.Corrects (d.workerAt w counts k) (counts k)) (by norm_num) (by norm_num) n
    (fun k hk => correction (inRange_workerAt hw hcounts k) (hcounts k) hk)
    (fun k hk => by
      change ((d.launched _ _).base_loop_count : ℚ) - d.loops = _
      rw [launched_base (inRange_workerAt hw hcounts k) (hcounts k), if_neg hk])
  set c := Nat.count (fun k => d.Corrects (d.workerAt w counts k) (counts k)) n
  -- both counts are between 1 and the maximum, so no further apart than that
  have hstart : |(w.base_loop_count : ℚ) - d.loops| ≤ 1000000000 := by
    have hge := d.loops_ge
    have hle := d.loops_le
    have hbase : (1 : ℚ) ≤ w.base_loop_count := by exact_mod_cast hw.1
    have hbase' : (w.base_loop_count : ℚ) ≤ kGpuKernelLoopBaseMax := by exact_mod_cast hw.2
    unfold kGpuKernelLoopBaseMax at hle hbase'
    push_cast at hle hbase'
    rw [abs_le]
    constructor <;> linarith
  have hpow : (0 : ℚ) ≤ (1 / 2) ^ c := by positivity
  have hmul := mul_le_mul_of_nonneg_left hstart hpow
  rw [show (1 : ℚ) - 1 / 2 = 1 / 2 by norm_num] at hle
  change _ ≤ (1 / 2) ^ c * |(w.base_loop_count : ℚ) - d.loops| + _ at hle
  linarith

/-- The deadband is reached for good. -/
theorem rests_of_inBand (hw : InRange w.base_loop_count) (hcounts : ∀ k, 1 ≤ counts k) {n : ℕ}
    (h : d.InBand (d.workerAt w counts n)) {m : ℕ} (hm : n ≤ m) :
    (d.workerAt w counts m).base_loop_count = (d.workerAt w counts n).base_loop_count := by
  induction m, hm using Nat.le_induction with
  | base => rfl
  | succ m _ ih =>
    have hband : d.InBand (d.workerAt w counts m) := by
      unfold InBand
      rw [ih]
      exact h
    change (d.launched _ _).base_loop_count = _
    rw [launched_base (inRange_workerAt hw hcounts m) (hcounts m), if_neg fun hc => hc.2 hband]
    exact ih

/-- Twenty-nine corrections are enough from anywhere. -/
theorem inBand_of_corrected (hw : InRange w.base_loop_count) (hcounts : ∀ k, 1 ≤ counts k) {n : ℕ}
    (h : 29 ≤ Nat.count (fun k => d.Corrects (d.workerAt w counts k) (counts k)) n) :
    d.InBand (d.workerAt w counts n) := by
  by_contra hoff
  have hfar := lt_of_not_inBand (inRange_workerAt hw hcounts n) hoff
  have hnear := abs_sub_le (d := d) hw hcounts n
  have hpow : ((1 : ℚ) / 2) ^ Nat.count (fun k => d.Corrects (d.workerAt w counts k) (counts k)) n
      ≤ (1 / 2) ^ 29 := pow_le_pow_of_le_one (by norm_num) (by norm_num) h
  have hsmall : ((1 : ℚ) / 2) ^ 29 * 1000000000 < 2 := by norm_num
  linarith

/-- Every launch that tells is a correction until the deadband is reached. -/
theorem inBand_of_told (hw : InRange w.base_loop_count) (hcounts : ∀ k, 1 ≤ counts k) {n : ℕ}
    (h : 29 ≤ Nat.count (fun k => Tells (d.workerAt w counts k) (counts k)) n) :
    d.InBand (d.workerAt w counts n) := by
  by_contra hoff
  -- it has been outside all the time, as it cannot leave
  have hout : ∀ k < n, ¬ d.InBand (d.workerAt w counts k) := by
    intro k hk hband
    apply hoff
    unfold InBand
    rw [rests_of_inBand hw hcounts hband hk.le]
    exact hband
  have hcount : Nat.count (fun k => Tells (d.workerAt w counts k) (counts k)) n
      ≤ Nat.count (fun k => d.Corrects (d.workerAt w counts k) (counts k)) n := by
    rw [Nat.count_eq_card_filter_range, Nat.count_eq_card_filter_range]
    apply Finset.card_le_card
    intro k hk
    rw [Finset.mem_filter, Finset.mem_range] at hk ⊢
    exact ⟨hk.1, hk.2, hout k hk.1⟩
  exact hoff (inBand_of_corrected hw hcounts (h.trans hcount))

/-- **The drift correction converges and then rests.** Along any traffic-free
launches, of at least one loop each as `loopCount` has it: the base loop count stays
in its range; a launch that is long enough and finds it outside the deadband at least
halves its distance from the needed loops, up to 1, and any other launch leaves it
alone; and once there have been 29 corrections, or 29 launches that were long enough
for one, it is inside the deadband and never changes again. A correction goes half of
the way to the needed loops but for the rounding (`correction`), so 29 of them bring
any base in the range into the deadband, where nothing corrects it. -/
theorem drift_correction_rests (hw : InRange w.base_loop_count) (hcounts : ∀ k, 1 ≤ counts k) :
    let base := fun k => (d.workerAt w counts k).base_loop_count
    let corrects := fun k => d.Corrects (d.workerAt w counts k) (counts k)
    let tells := fun k => Tells (d.workerAt w counts k) (counts k)
    (∀ k, 1 ≤ base k ∧ base k ≤ kGpuKernelLoopBaseMax) ∧
      (∀ k, corrects k → |(base (k + 1) : ℚ) - d.loops| ≤ |(base k : ℚ) - d.loops| / 2 + 1) ∧
      (∀ k, ¬ corrects k → base (k + 1) = base k) ∧
      ∀ n, 29 ≤ Nat.count corrects n ∨ 29 ≤ Nat.count tells n →
        |d.loops / base n - 1| < 5 / 100 ∧ ∀ m ≥ n, base m = base n := by
  intro base corrects tells
  refine ⟨inRange_workerAt hw hcounts, ?_, ?_, ?_⟩
  · intro k hk
    obtain ⟨b, hb, heq⟩ := correction (inRange_workerAt hw hcounts k) (hcounts k) hk
    have hle := Contraction.abs_step_le (by norm_num) (by norm_num) heq hb
    change |((d.launched _ _).base_loop_count : ℚ) - d.loops| ≤ _
    linarith
  · intro k hk
    change (d.launched _ _).base_loop_count = _
    rw [launched_base (inRange_workerAt hw hcounts k) (hcounts k), if_neg hk]
  · -- either count of launches gets it into the deadband, where nothing corrects it
    intro n hn
    have hband : d.InBand (d.workerAt w counts n) := by
      rcases hn with hn | hn
      · exact inBand_of_corrected hw hcounts hn
      · exact inBand_of_told hw hcounts hn
    exact ⟨hband, fun m hm => rests_of_inBand hw hcounts hband hm⟩

/-- A device that needs 1000 loops for a period. -/
def thousandLoops : SteadyDevice where
  loops := 1000
  loops_ge := by norm_num
  loops_le := by norm_num [kGpuKernelLoopBaseMax]

/-- Taken for a thousand times as fast at first, it is known after 29 launches of
a million loops. -/
theorem drift_correction_rests_thousand :
    let w : Worker := { base_loop_count := 1000000 }
    let n := 29
    |1000 / ((thousandLoops.workerAt w (fun _ => 1000000) n).base_loop_count : ℚ) - 1| < 5 / 100 := by
  intro w n
  have h := @drift_correction_rests thousandLoops w (fun _ => 1000000) ⟨by decide, by decide⟩
    (fun _ => by decide)
  exact (h.2.2.2 n (.inr (by decide +kernel))).1

end SteadyDevice

end Loadmaster.Gpu.GpuWorkerContext
