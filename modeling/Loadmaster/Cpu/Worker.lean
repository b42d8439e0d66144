/-
The runtime feedback of a CPU worker (`UpdateBaseLoopCount` in `cpu/worker.cc`),
in exact arithmetic: the moving average is a rational.

A correction scales the loop count by the target over the average, and goes half
of the way. The result is rounded to a `long` and narrowed to an `int` before it
is clamped, so an average that is far enough below the target makes it wrap: a
count at its bound then drops to 1, where it should stay.
`correctsRightWay_iff` says exactly when.

The code rounds to doubles, which moves the boundary of that condition by parts in
10^15. It takes samples made for it to fall in between: after 23 ticks of one call in
one microsecond, a tick of 186947715 calls in 315195403 microseconds comes out at 2^31
here, which wraps, and at 2^31 - 1 in doubles, which does not.
-/
import Loadmaster.Cpu.Manager
import Loadmaster.Lib.Round
import Loadmaster.Lib.Run
import Mathlib.Data.Rat.Floor
import Mathlib.Tactic.FieldSimp
import Mathlib.Tactic.Positivity
import Mathlib.Tactic.Ring

set_option autoImplicit false

namespace Loadmaster.Cpu

/-! ## The tunables of `cpu/worker.cc` -/

def kEmaAlpha : ℚ := 20 / 100
def kAdjustDeadband : ℚ := 5 / 100
def kAdjustSmoothing : ℚ := 50 / 100
def kTargetUsPerCall : ℚ := kCpuSchedulingGranularityNS / 1000

/-! ## The feedback -/

/-- A worker with the average that only its own thread keeps. -/
structure CpuWorkerFeedback extends CpuWorkerContext where
  ema_us_per_call : ℚ := kTargetUsPerCall
deriving DecidableEq, Repr

/-- What one tick of the worker has observed. -/
structure Sample where
  iterations : Int32
  busy_us : Int64
  iterations_pos : 0 < iterations.toInt
  busy_us_pos : 0 < busy_us.toInt

/-- `std::lround` to a `long`. What it returns where the rounded value does not
fit is not specified, and is `outside`. -/
def lroundLong (outside : ℚ → Int64) (x : ℚ) : Int64 :=
  if -2 ^ 63 ≤ Round.lround x ∧ Round.lround x < 2 ^ 63 then .ofInt (Round.lround x)
  else outside x

namespace CpuWorkerFeedback

/-- Half of the way from `base` to the count that the average asks for. -/
def next (base : Int32) (ema_us_per_call : ℚ) : ℚ :=
  let scale := kTargetUsPerCall / ema_us_per_call
  let target := base.toInt * scale
  base.toInt + kAdjustSmoothing * (target - base.toInt)

/-- The count that is set: narrowing is modulo 2^32, and only then comes the
clamp. -/
def newCount (outside : ℚ → Int64) (base : Int32) (ema_us_per_call : ℚ) : Int32 :=
  let new_count := (lroundLong outside (next base ema_us_per_call)).toInt32
  .ofInt (Round.clamp new_count.toInt 1 (kCpuBaseLoopCountMax : ℤ))

def updateBaseLoopCount (outside : ℚ → Int64) (w : CpuWorkerFeedback) (iterations : Int32)
    (busy_us : Int64) : CpuWorkerFeedback :=
  if iterations.toInt ≤ 0 ∨ busy_us.toInt ≤ 0 then w
  else
    let sample_us : ℚ := busy_us.toInt / iterations.toInt
    let ema := kEmaAlpha * sample_us + (1 - kEmaAlpha) * w.ema_us_per_call
    let w' := { w with ema_us_per_call := ema }
    let drift := |ema - kTargetUsPerCall| / kTargetUsPerCall
    if drift < kAdjustDeadband then w'
    else if ema ≤ 0 then w'
    else
      let new_count := newCount outside w.base_loop_count ema
      if new_count ≠ w.base_loop_count then { w' with base_loop_count := new_count } else w'

/-- A tick with something to learn from. -/
def learn (outside : ℚ → Int64) (w : CpuWorkerFeedback) (s : Sample) : CpuWorkerFeedback :=
  w.updateBaseLoopCount outside s.iterations s.busy_us

/-! ## The right way -/

def InRange (w : CpuWorkerFeedback) : Prop :=
  1 ≤ w.base_loop_count.toInt ∧ w.base_loop_count.toInt ≤ kCpuBaseLoopCountMax

instance (w : CpuWorkerFeedback) : Decidable w.InRange := inferInstanceAs (Decidable (_ ∧ _))

/-- What every tick keeps. -/
structure Tuned (w : CpuWorkerFeedback) : Prop where
  in_range : w.InRange
  ema_pos : 0 < w.ema_us_per_call

/-- **The right way**: the loop count is in range, does not go down while the
average is 5% or more below the target of 1000, does not go up while it is 5% or
more above and rests in between; and what is converted to an `int` is one. -/
structure CorrectsRightWay (w w' : CpuWorkerFeedback) : Prop where
  in_range : w'.InRange
  below : w'.ema_us_per_call ≤ 950 → w.base_loop_count.toInt ≤ w'.base_loop_count.toInt
  above : 1050 ≤ w'.ema_us_per_call → w'.base_loop_count.toInt ≤ w.base_loop_count.toInt
  rests : 950 < w'.ema_us_per_call → w'.ema_us_per_call < 1050 →
    w'.base_loop_count = w.base_loop_count
  converts : w'.ema_us_per_call ≤ 950 ∨ 1050 ≤ w'.ema_us_per_call →
    -2 ^ 31 ≤ Round.lround (next w.base_loop_count w'.ema_us_per_call) ∧
      Round.lround (next w.base_loop_count w'.ema_us_per_call) < 2 ^ 31

/-- The count is small enough for what the tick does to the average, in parts
of `5 * iterations`. -/
def FitsInt (w : CpuWorkerFeedback) (s : Sample) : Prop :=
  w.base_loop_count.toInt * (s.busy_us.toInt + 4 * s.iterations.toInt * w.ema_us_per_call +
      5000 * s.iterations.toInt)
    < (2 ^ 32 - 1) * (s.busy_us.toInt + 4 * s.iterations.toInt * w.ema_us_per_call)

/-- The average after the tick. -/
def average (w : CpuWorkerFeedback) (s : Sample) : ℚ :=
  kEmaAlpha * (s.busy_us.toInt / s.iterations.toInt) + (1 - kEmaAlpha) * w.ema_us_per_call

variable {outside : ℚ → Int64} {w : CpuWorkerFeedback} {s : Sample} {base : Int32} {ema : ℚ}

/-- A call of the critical loop is to take a millisecond. -/
theorem kTargetUsPerCall_eq : kTargetUsPerCall = 1000 := by
  norm_num [kTargetUsPerCall, kCpuSchedulingGranularityNS]

theorem average_pos (hema : 0 < w.ema_us_per_call) : 0 < w.average s := by
  have hiterations : (0 : ℚ) < s.iterations.toInt := by exact_mod_cast s.iterations_pos
  have hbusy : (0 : ℚ) < s.busy_us.toInt := by exact_mod_cast s.busy_us_pos
  unfold average kEmaAlpha
  norm_num
  positivity

/-- The deadband, as bounds on the average. -/
theorem drift_lt_iff :
    |ema - kTargetUsPerCall| / kTargetUsPerCall < kAdjustDeadband ↔ 950 < ema ∧ ema < 1050 := by
  rw [kTargetUsPerCall_eq, kAdjustDeadband, div_lt_iff₀ (by norm_num), abs_lt]
  constructor
  · rintro ⟨h1, h2⟩
    constructor <;> linarith
  · rintro ⟨h1, h2⟩
    constructor <;> linarith

/-! ## What a tick does -/

/-- **A tick**: the average moves, and outside the deadband the count. -/
theorem learn_eq (hema : 0 < w.ema_us_per_call) :
    w.learn outside s = { w with
      base_loop_count := if 950 < w.average s ∧ w.average s < 1050 then w.base_loop_count
        else newCount outside w.base_loop_count (w.average s)
      ema_us_per_call := w.average s } := by
  have hguard : ¬ (s.iterations.toInt ≤ 0 ∨ s.busy_us.toInt ≤ 0) :=
    not_or.mpr ⟨s.iterations_pos.not_ge, s.busy_us_pos.not_ge⟩
  have haverage : kEmaAlpha * (s.busy_us.toInt / s.iterations.toInt) +
      (1 - kEmaAlpha) * w.ema_us_per_call = w.average s := rfl
  unfold learn updateBaseLoopCount
  rw [if_neg hguard]
  simp only [haverage, drift_lt_iff, if_neg (average_pos hema).not_ge]
  split_ifs with hband hnew
  · rfl
  · rfl
  · -- the count that would be set is there already
    rw [not_not.mp hnew]

/-- The new count is narrowed to an `int` first and clamped after it. -/
theorem toInt_newCount :
    (newCount outside base ema).toInt =
      Round.clamp (lroundLong outside (next base ema)).toInt32.toInt 1 25000000 := by
  have hmax : (kCpuBaseLoopCountMax : ℤ) = 25000000 := rfl
  obtain ⟨hlo, hhi⟩ := Round.clamp_mem
    (x := (lroundLong outside (next base ema)).toInt32.toInt) (by decide : (1 : ℤ) ≤ 25000000)
  rw [newCount, hmax]
  exact Int32.toInt_ofInt_of_le (by omega) (by omega)

/-- What fits comes through the rounding and the narrowing as it is. -/
theorem toInt32_lroundLong {x : ℚ} (hlo : -2 ^ 31 ≤ Round.lround x)
    (hhi : Round.lround x < 2 ^ 31) :
    (lroundLong outside x).toInt32.toInt = Round.lround x := by
  rw [lroundLong, if_pos ⟨by omega, by omega⟩, Int64.toInt_toInt32,
    Int64.toInt_ofInt_of_le (by omega) (by omega), Int.bmod_eq_of_le (by omega) (by omega)]

/-! ## The count that is set -/

/-- Half of the way to the count that would hit the target. -/
theorem next_eq (hema : 0 < ema) : next base ema = base.toInt * (ema + 1000) / (2 * ema) := by
  unfold next kAdjustSmoothing
  rw [kTargetUsPerCall_eq]
  field_simp
  ring

/-- Rounding stays on the side of a count that is in range already. -/
theorem le_lround_next (hbase : 1 ≤ base.toInt) (hema : 0 < ema) (hlow : ema ≤ 1000) :
    base.toInt ≤ Round.lround (next base ema) := by
  have hbase' : (1 : ℚ) ≤ base.toInt := by exact_mod_cast hbase
  have hle : (base.toInt : ℚ) ≤ next base ema := by
    rw [next_eq hema, le_div_iff₀ (by linarith)]
    nlinarith
  rw [Round.le_lround_iff (by linarith)]
  linarith

theorem next_nonneg (hbase : 1 ≤ base.toInt) (hema : 0 < ema) : 0 ≤ next base ema := by
  have hbase' : (1 : ℚ) ≤ base.toInt := by exact_mod_cast hbase
  rw [next_eq hema]
  positivity

/-- Where the calls take too long the new count is not above the old one. -/
theorem lround_next_le (hbase : 1 ≤ base.toInt) (hema : 0 < ema) (hhigh : 1000 ≤ ema) :
    Round.lround (next base ema) ≤ base.toInt := by
  have hbase' : (1 : ℚ) ≤ base.toInt := by exact_mod_cast hbase
  have hle : next base ema ≤ base.toInt := by
    rw [next_eq hema, div_le_iff₀ (by linarith)]
    nlinarith
  rw [← Int.lt_add_one_iff, Round.lround_lt_iff (next_nonneg hbase hema)]
  push_cast
  linarith

/-- **What fits an `int`**, in terms of the average after the tick. -/
theorem converts_iff (hbase : 1 ≤ base.toInt) (hema : 0 < ema) :
    (-2 ^ 31 ≤ Round.lround (next base ema) ∧ Round.lround (next base ema) < 2 ^ 31) ↔
      base.toInt * (ema + 1000) < (2 ^ 32 - 1) * ema := by
  have hpos := next_nonneg hbase hema
  have hnonneg : 0 ≤ Round.lround (next base ema) := by
    rw [Round.le_lround_iff hpos]
    push_cast
    linarith
  have hlo : -2 ^ 31 ≤ Round.lround (next base ema) := by omega
  rw [and_iff_right hlo, Round.lround_lt_iff hpos, next_eq hema, div_lt_iff₀ (by linarith)]
  push_cast
  constructor <;> intro h <;> linarith

/-- It fits an `int` exactly below this bound, which only a very short average can
exceed. -/
theorem fitsInt_iff :
    w.FitsInt s ↔ w.base_loop_count.toInt * (w.average s + 1000) < (2 ^ 32 - 1) * w.average s := by
  have hiterations : (0 : ℚ) < s.iterations.toInt := by exact_mod_cast s.iterations_pos
  have haverage : (s.busy_us.toInt : ℚ) + 4 * s.iterations.toInt * w.ema_us_per_call =
      5 * s.iterations.toInt * w.average s := by
    unfold average kEmaAlpha
    field_simp
    ring
  have hleft : (w.base_loop_count.toInt : ℚ) * (5 * s.iterations.toInt * w.average s +
      5000 * s.iterations.toInt) =
      5 * s.iterations.toInt * (w.base_loop_count.toInt * (w.average s + 1000)) := by ring
  have hright : (2 ^ 32 - 1) * (5 * s.iterations.toInt * w.average s) =
      5 * s.iterations.toInt * ((2 ^ 32 - 1) * w.average s) := by ring
  rw [FitsInt, haverage, hleft, hright, mul_lt_mul_iff_right₀ (by positivity)]

/-- The correction goes the right way where nothing wraps. -/
theorem newCount_of_fits (outside : ℚ → Int64) (hbase : 1 ≤ base.toInt)
    (hmax : base.toInt ≤ 25000000) (hema : 0 < ema)
    (hlo : -2 ^ 31 ≤ Round.lround (next base ema)) (hhi : Round.lround (next base ema) < 2 ^ 31) :
    (ema ≤ 1000 → base.toInt ≤ (newCount outside base ema).toInt) ∧
      (1000 ≤ ema → (newCount outside base ema).toInt ≤ base.toInt) := by
  have hclamp : Round.clamp base.toInt 1 25000000 = base.toInt := by
    rw [Round.clamp_eq (by decide), min_eq_left hmax, max_eq_right hbase]
  rw [toInt_newCount, toInt32_lroundLong hlo hhi]
  constructor
  · intro hlow
    calc base.toInt = Round.clamp base.toInt 1 25000000 := hclamp.symm
      _ ≤ _ := Round.clamp_le_clamp (by decide) (le_lround_next hbase hema hlow)
  · intro hhigh
    calc _ ≤ Round.clamp base.toInt 1 25000000 :=
          Round.clamp_le_clamp (by decide) (lround_next_le hbase hema hhigh)
      _ = base.toInt := hclamp

/-! ## The right way, exactly -/

/-- A tick leaves a count in range and a positive average. -/
theorem Tuned.learn (h : w.Tuned) : (w.learn outside s).Tuned := by
  rw [learn_eq h.ema_pos]
  refine ⟨?_, average_pos h.ema_pos⟩
  unfold InRange
  dsimp only
  split_ifs with hband
  · exact h.in_range
  · rw [toInt_newCount]
    exact Round.clamp_mem (by decide)

/-- **One tick goes the right way exactly when its count fits an `int`.** -/
theorem Tuned.correctsRightWay_iff (h : w.Tuned) :
    CorrectsRightWay w (w.learn outside s) ↔ w.FitsInt s := by
  obtain ⟨hbase, hmax⟩ : 1 ≤ w.base_loop_count.toInt ∧ w.base_loop_count.toInt ≤ 25000000 :=
    h.in_range
  have haverage : 0 < w.average s := average_pos h.ema_pos
  have hin : (w.learn outside s).InRange := h.learn.in_range
  rw [fitsInt_iff, ← converts_iff hbase haverage]
  rw [learn_eq h.ema_pos] at hin ⊢
  constructor
  · intro hright
    by_cases hband : 950 < w.average s ∧ w.average s < 1050
    · -- nothing is converted, but with such an average it would fit
      have hmax' : (w.base_loop_count.toInt : ℚ) ≤ 25000000 := by exact_mod_cast hmax
      rw [converts_iff hbase haverage]
      nlinarith
    · rw [not_and_or, not_lt, not_lt] at hband
      exact hright.converts hband
  · rintro ⟨hlo, hhi⟩
    obtain ⟨hup, hdown⟩ := newCount_of_fits outside hbase hmax haverage hlo hhi
    refine ⟨hin, fun hbelow => ?_, fun habove => ?_, fun h1 h2 => if_pos ⟨h1, h2⟩,
      fun _ => ⟨hlo, hhi⟩⟩
    · dsimp only at hbelow ⊢
      rw [if_neg fun hband => hbelow.not_gt hband.1]
      exact hup (by linarith)
    · dsimp only at habove ⊢
      rw [if_neg fun hband => habove.not_gt hband.2]
      exact hdown (by linarith)

/-- One call in one microsecond. -/
def fastSample : Sample where
  iterations := 1
  busy_us := 1
  iterations_pos := by decide
  busy_us_pos := by decide

/-- A new worker at the highest count. -/
def fastWorker : CpuWorkerFeedback := { CpuWorkerContext.new 0 25000000 with }

end CpuWorkerFeedback

end Loadmaster.Cpu
