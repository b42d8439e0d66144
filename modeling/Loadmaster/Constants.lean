/-
The tunables of `core/constants.h`, `gpu/constants.h`, `cpu/constants.h`,
`memory/constants.h` and `util/proc_stat.cc`, under their names there. A `double`
constant is the rational it denotes.
-/
import Mathlib.Algebra.Group.Nat.Defs
import Mathlib.Data.Rat.Defs

set_option autoImplicit false

namespace Loadmaster

/-! ## `core/constants.h` -/

def kDefaultCpuLoad : ℕ := 200
def kDefaultMemoryLoadMiB : ℕ := 0
def kDefaultGpuLoad : ℕ := 0
def kDefaultGpuMemoryMiB : ℕ := 0
def kMillisecondsPerSecond : ℕ := 1000
def kScheduleIntervalMS : ℕ := 100
def kSmallBufferLength : ℕ := 128
def kKibiByte : ℕ := 1024
def kMebiByte : ℕ := 1024 * 1024

/-! ## `gpu/constants.h` -/

def kGpuMaxLoadPerDevice : ℕ := 100
def kGpuKernelGridSize : ℕ := 1024
def kGpuKernelBlockSize : ℕ := 256

/-- Upper bound for the per-thread loop count. -/
def kGpuKernelLoopBaseMax : ℕ := 1000000000

def kGpuCalibrationMinSampleMs : ℚ := 5
def kGpuCalibrationTolerance : ℚ := 3 / 100
def kGpuCalibrationRefineRounds : ℕ := 3
def kGpuAdaptMinBusyMs : ℕ := 10
def kGpuAdaptDeadband : ℚ := 5 / 100
def kGpuAdaptSmoothing : ℚ := 1 / 2
def kGpuMemTrafficBandwidthShare : ℚ := 1 / 100
def kGpuMemTrafficMiBPerSecond : ℕ := 1024

/-- Deviation and time constant of the logarithm of the factor that makes the
traffic fluctuate. -/
def kGpuMemTrafficLogSigma : ℚ := 8 / 10
def kGpuMemTrafficTimeConstantMS : ℕ := 3000

/-- Hard bounds on the factor. -/
def kGpuMemTrafficMinFactor : ℚ := 5 / 100
def kGpuMemTrafficMaxFactor : ℚ := 5

/-- One access reads a 32-bit word and writes it back. -/
def kGpuMemTrafficBytesPerAccess : ℕ := 8

/-- Longest window of the block the kernel indexes with 32-bit word offsets. -/
def kGpuMemSweepWindowMaxBytes : ℕ := 2 ^ 30

def kGpuMemCostForget : ℚ := 5 / 100
def kGpuMemCostMinLaunches : ℕ := 10
def kGpuMemCostMinSpread : ℚ := 1 / 10
def kGpuMemCostMaxShare : ℚ := 1 / 2
def kGpuMaxConsecutiveFailures : ℕ := 50

/-- How long a sighting of other processes counts, in milliseconds. -/
def kGpuYieldResumeMS : ℕ := 30000

def kGpuYieldUnknownWarnPolls : ℕ := 3

/-- Where a source measures processes, how busy one has to keep the device. -/
def kGpuYieldMinBusyPercent : ℚ := 5

def kGpuRandNormalCdfTarget : ℚ := 95 / 100
def kGpuRandNormalSchedulePeriodMS : ℕ := 600000
def kGpuRandNormalScheduleIntervalMS : ℕ := 10000
def kGpuRandNormalSchedulePointCount : ℕ :=
  kGpuRandNormalSchedulePeriodMS / kGpuRandNormalScheduleIntervalMS

/-! ## `cpu/constants.h` -/

def kCpuSchedulingGranularityNS : ℕ := 1000000
def kCpuMaxLoadPerCore : ℕ := 100
def kCpuBaseLoopCountMax : ℕ := 25000000

def kCpuRandNormalMu : ℚ := 0
def kCpuRandNormalSigma : ℚ := 2
def kCpuRandNormalCdfTarget : ℚ := 95 / 100
def kCpuRandNormalSchedulePeriodMS : ℕ := 600000
def kCpuRandNormalScheduleIntervalMS : ℕ := 10000
def kCpuRandNormalSchedulePointCount : ℕ :=
  kCpuRandNormalSchedulePeriodMS / kCpuRandNormalScheduleIntervalMS

/-- Window of the rolling averages, in ticks. -/
def kCpuAvgLoadSamplingCount : ℕ := 10

/-- Integral gain of the load controller, per tick. -/
def kCpuLoadControllerKi : ℚ := 2 / 100

/-! ## `memory/constants.h` -/

def kMemoryScheduleIntervalSecond : ℕ := 45
def kMemoryMinimumRatio : ℚ := 1 / 2
def kMemoryBackgroundThreadThresholdMiB : ℕ := 32

/-! ## `util/proc_stat.cc` -/

def kProcStatIntervalMS : ℕ := 500

end Loadmaster
