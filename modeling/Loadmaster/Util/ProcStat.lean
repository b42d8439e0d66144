/-
The load of this process (`util/proc_stat.cc`), in exact arithmetic; times are
nanoseconds of the steady clock.

A load is computed from two readings of a counter of ticks. `TickSample` is what
goes into it: the ticks between the readings, taken as none if the counter went
backwards, and the time. The system's load is computed from the same data.
-/
import Loadmaster.Constants
import Mathlib.Data.Rat.Floor

set_option autoImplicit false

namespace Loadmaster.Util

/-! ## Samples -/

/-- The ticks between two readings; a counter that went backwards counts as one
that stood still. -/
def ticksDiff (prev current : UInt64) : UInt64 := if prev ≤ current then current - prev else 0

/-- The difference never wraps. -/
theorem toNat_ticksDiff (prev current : UInt64) :
    (ticksDiff prev current).toNat = current.toNat - prev.toNat := by
  unfold ticksDiff
  split_ifs with h
  · exact UInt64.toNat_sub_of_le _ _ h
  · rw [UInt64.le_iff_toNat_le] at h
    rw [UInt64.toNat_zero]
    omega

structure TickSample where
  ticks_diff : UInt64
  elapsed_ns : ℤ
deriving DecidableEq, Repr

/-- The load of a sample, 100 for each core, with the platform's conversion of
ticks to nanoseconds. -/
def TickSample.load (toNs : UInt64 → UInt64) (s : TickSample) : ℚ :=
  (toNs s.ticks_diff).toNat / s.elapsed_ns * 100

theorem TickSample.load_nonneg {toNs : UInt64 → UInt64} {s : TickSample} (h : 0 < s.elapsed_ns) :
    0 ≤ s.load toNs := by
  have hpos : (0 : ℚ) < s.elapsed_ns := by exact_mod_cast h
  unfold load
  positivity

/-! ## `ProcStat` -/

structure ProcStat where
  time_point : ℤ := 0
  has_baseline : Bool := false
  prev_cpu_ticks : UInt64 := 0
  cpu_load_cached : ℚ := 0
deriving DecidableEq, Repr

namespace ProcStat

/-- The ways out of `UpdateCpuStat`. -/
inductive Update
  | throttled
  | readFailed
  | refreshed (computed : Option TickSample)
deriving DecidableEq, Repr

/-- `UpdateCpuStat`; `cpu_ticks` is what `ReadProcessCpuTicks` answers if it is
called. -/
def updateCpuStat (toNs : UInt64 → UInt64) (p : ProcStat) (now : ℤ) (force : Bool)
    (cpu_ticks : Option UInt64) : ProcStat × Update :=
  let elapsed_ms := (now - p.time_point).tdiv 1000000
  if p.has_baseline ∧ !force ∧ elapsed_ms < kProcStatIntervalMS then (p, .throttled)
  else
    match cpu_ticks with
    | none => (p, .readFailed)
    | some ticks =>
      let elapsed_ns := now - p.time_point
      let next : ProcStat :=
        { p with time_point := now, has_baseline := true, prev_cpu_ticks := ticks }
      if p.has_baseline ∧ 0 < elapsed_ns then
        let sample : TickSample := ⟨ticksDiff p.prev_cpu_ticks ticks, elapsed_ns⟩
        ({ next with cpu_load_cached := sample.load toNs }, .refreshed (some sample))
      else (next, .refreshed none)

end ProcStat

end Loadmaster.Util
