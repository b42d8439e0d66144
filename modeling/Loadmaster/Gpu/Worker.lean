/-
The worker that drives one GPU (`gpu/worker.cc`), as programs over the calls it
makes: reads of the atomics the other threads write, the clock, the device, the
traffic's random factor, sleeping and logging. What the worker keeps in its own
fields is passed along explicitly.

`double` arithmetic is exact here, over the rationals; times are milliseconds of
the steady clock. The factor of `MemTrafficEnvelope` comes from outside, within
the bounds its last line clamps it to. Trace lines of the log are left out.

The last section puts the loop among the threads that store its settings: the
manager and the contention monitor may do so between any two calls.
-/
import Loadmaster.Gpu.Settings
import Loadmaster.Lib.Effect
import Mathlib.Algebra.Order.Floor.Semiring
import Mathlib.Data.List.Sort
import Mathlib.Data.Rat.Floor

set_option autoImplicit false

namespace Loadmaster.Gpu.GpuWorkerContext

open Effect

/-! ## Calls -/

/-- Which launch of the source a kernel run is. -/
inductive Site
  | warmUp | growing | refining | tick
deriving DecidableEq, Repr

/-- What the worker logs, short of its trace lines. -/
inductive Line
  | launchFailedDuringCalibration
  | tooFast
  | calibrated (base_loop_count : ℤ) (elapsed_ms : ℚ)
  | bandwidth (bytes_per_second : Option ℚ) (traffic_bytes_per_second : ℚ)
  | allocationFailed (bytes : ℕ)
  | calibrationFailedGivingUp
  | launchesFailedGivingUp (consecutive_failures : ℕ)
  | backingOff
deriving DecidableEq, Repr

inductive Call
  | stopRequested
  | loadOthers
  | loadLoadSet
  | now
  | runKernel (site : Site) (loop_count : ℤ) (mem_traffic_bytes : ℕ)
  | allocateMemory (bytes : ℕ)
  | releaseMemory
  | memoryBandwidth
  | nextFactor (elapsed_ms : ℚ)
  | sleepFor (ms : ℚ)
  | sleepUntil (time : ℚ)
  | log (line : Line)
deriving DecidableEq, Repr

abbrev Answer : Call → Type
  | .stopRequested => Bool
  | .loadOthers => ℤ
  | .loadLoadSet => ℤ
  | .now => ℚ
  | .runKernel _ _ _ => Bool
  | .allocateMemory _ => Bool
  | .releaseMemory => Unit
  | .memoryBandwidth => Option ℚ
  | .nextFactor _ => ℚ
  | .sleepFor _ => Unit
  | .sleepUntil _ => Unit
  | .log _ => Unit

abbrev WorkerProg (α : Type) := Prog Call Answer α

abbrev stopRequested : WorkerProg Bool := .perform Call.stopRequested
abbrev loadOthers : WorkerProg ℤ := .perform Call.loadOthers
abbrev loadLoadSet : WorkerProg ℤ := .perform Call.loadLoadSet
abbrev now : WorkerProg ℚ := .perform Call.now
abbrev runKernel (site : Site) (loop_count : ℤ) (mem_traffic_bytes : ℕ) : WorkerProg Bool :=
  .perform (Call.runKernel site loop_count mem_traffic_bytes)
abbrev allocateMemory (bytes : ℕ) : WorkerProg Bool := .perform (Call.allocateMemory bytes)
abbrev releaseMemory : WorkerProg Unit := .perform Call.releaseMemory
abbrev memoryBandwidth : WorkerProg (Option ℚ) := .perform Call.memoryBandwidth
abbrev nextFactor (elapsed_ms : ℚ) : WorkerProg ℚ := .perform (Call.nextFactor elapsed_ms)
abbrev sleepFor (ms : ℚ) : WorkerProg Unit := .perform (Call.sleepFor ms)
abbrev sleepUntil (time : ℚ) : WorkerProg Unit := .perform (Call.sleepUntil time)
abbrev log (line : Line) : WorkerProg Unit := .perform (Call.log line)

/-! ## The worker's own fields -/

/-- Exponentially weighted sums over the launches that moved memory. -/
structure MemCostFit where
  launches : ℕ := 0
  w : ℚ := 0
  x : ℚ := 0
  y : ℚ := 0
  xx : ℚ := 0
  xy : ℚ := 0
deriving DecidableEq, Repr

/-- `GpuWorkerContext`, less its atomics; `has_device` is `device_ != nullptr`. -/
structure Worker where
  has_device : Bool := true
  base_loop_count : ℤ := 1
  calibrated : Bool := false
  busy_us : ℤ := 0
  memory_bytes : ℕ := 0
  memory_held : Bool := false
  memory_failed : Bool := false
  traffic_stepped_at : Option ℚ := none
  mem_ms_per_mib : ℚ := 0
  mem_cost_fit : MemCostFit := {}
  traffic_bytes_per_second : ℚ := 0
deriving DecidableEq, Repr

namespace Worker

/-- Kernel time counts in whole microseconds. -/
def addBusy (w : Worker) (elapsed_ms : ℚ) : Worker :=
  { w with busy_us := w.busy_us + ⌊elapsed_ms * 1000⌋ }

/-- The base loop count follows the observed speed of the device, half of the
way at a time, unless the launch was short or the drift is small. -/
def adaptBaseLoopCount (w : Worker) (alu_target_ms alu_elapsed_ms : ℚ) : Worker :=
  if alu_target_ms < kGpuAdaptMinBusyMs ∨ alu_elapsed_ms ≤ 0 then w
  else
    let ratio := alu_target_ms / alu_elapsed_ms
    if |ratio - 1| < kGpuAdaptDeadband then w
    else
      let next := w.base_loop_count * (1 + kGpuAdaptSmoothing * (ratio - 1))
      { w with base_loop_count := ⌊Round.clamp next 1 kGpuKernelLoopBaseMax⌋ }

/-- The fit with one more launch in it. -/
def MemCostFit.add (f : MemCostFit) (mib residual_ms : ℚ) : MemCostFit :=
  let keep := 1 - kGpuMemCostForget
  { launches := min (f.launches + 1) kGpuMemCostMinLaunches
    w := f.w * keep + 1
    x := f.x * keep + mib
    y := f.y * keep + residual_ms
    xx := f.xx * keep + mib * mib
    xy := f.xy * keep + mib * residual_ms }

/-- `UpdateMemCost`: the slope of the fit, once it has enough launches and they
spread enough. -/
def updateMemCost (w : Worker) (mib residual_ms : ℚ) : Worker :=
  let f := MemCostFit.add w.mem_cost_fit mib residual_ms
  let w := { w with mem_cost_fit := f }
  if f.launches < kGpuMemCostMinLaunches then w
  else
    let mean_x := f.x / f.w
    let var_x := f.xx / f.w - mean_x * mean_x
    if var_x < kGpuMemCostMinSpread * kGpuMemCostMinSpread * mean_x * mean_x then w
    else { w with mem_ms_per_mib := (f.xy / f.w - mean_x * f.y / f.w) / var_x }

/-- It writes the fit and the cost alone. -/
theorem updateMemCost_frame (w : Worker) (mib residual_ms : ℚ) :
    ∃ cost, w.updateMemCost mib residual_ms = { w with
      mem_cost_fit := MemCostFit.add w.mem_cost_fit mib residual_ms
      mem_ms_per_mib := cost } := by
  unfold updateMemCost
  dsimp only
  split_ifs
  · exact ⟨w.mem_ms_per_mib, rfl⟩
  · exact ⟨w.mem_ms_per_mib, rfl⟩
  · exact ⟨_, rfl⟩

end Worker

/-! ## Calibration -/

/-- Loop count that should take `target_ms` given that `count` took `elapsed_ms`. -/
def extrapolate (count : ℤ) (elapsed_ms target_ms : ℚ) : ℤ :=
  if elapsed_ms ≤ 0 then kGpuKernelLoopBaseMax
  else ⌊Round.clamp (count * target_ms / elapsed_ms) 1 kGpuKernelLoopBaseMax⌋

/-- One timed launch; it counts as busy time. -/
def timeKernelMs (site : Site) (w : Worker) (loop_count : ℤ) : WorkerProg (Worker × Option ℚ) := do
  let start ← now
  if ← runKernel site loop_count 0 then
    let elapsed := (← now) - start
    return (w.addBusy elapsed, some elapsed)
  else
    return (w, none)

/-- The middle one of three samples. -/
def median (a b c : ℚ) : ℚ := ([a, b, c].insertionSort (· ≤ ·)).getD 1 0

def medianKernelMs (w : Worker) (loop_count : ℤ) : WorkerProg (Worker × Option ℚ) := do
  let (w, a) ← timeKernelMs .refining w loop_count
  let some a := a | return (w, none)
  let (w, b) ← timeKernelMs .refining w loop_count
  let some b := b | return (w, none)
  let (w, c) ← timeKernelMs .refining w loop_count
  let some c := c | return (w, none)
  return (w, some (median a b c))

/-- The first loop of `CalibrateBaseLoopCount`: four times the loop count until
one launch is long enough to time reliably. -/
def growSample (w : Worker) (count : ℤ) (hcount : 0 < count) :
    WorkerProg (Worker × Option (ℤ × ℚ)) := do
  let (w, elapsed) ← timeKernelMs .growing w count
  let some elapsed := elapsed | return (w, none)
  if h : kGpuCalibrationMinSampleMs ≤ elapsed ∨ (kGpuKernelLoopBaseMax : ℤ) ≤ count then
    return (w, some (count, elapsed))
  else
    growSample w (min (count * 4) kGpuKernelLoopBaseMax) (by unfold kGpuKernelLoopBaseMax; omega)
termination_by ((kGpuKernelLoopBaseMax : ℤ) - count).toNat
decreasing_by unfold kGpuKernelLoopBaseMax at *; omega

/-- The second loop, with the rounds it has left. -/
def refineCount (w : Worker) : ℕ → ℤ → ℚ → WorkerProg (Worker × Option (ℤ × ℚ))
  | 0, count, elapsed => return (w, some (count, elapsed))
  | rounds + 1, count, elapsed => do
    let target_ms : ℚ := kScheduleIntervalMS
    let next := extrapolate count elapsed target_ms
    let (w, elapsed) ← medianKernelMs w next
    let some elapsed := elapsed | return (w, none)
    if |elapsed - target_ms| ≤ target_ms * kGpuCalibrationTolerance then
      return (w, some (next, elapsed))
    else
      refineCount w rounds next elapsed

def calibrateBaseLoopCount (w : Worker) : WorkerProg (Worker × Bool) := do
  if !w.has_device then return (w, false)
  -- the first launch pays for the set-up, so it is not timed
  if !(← runKernel .warmUp 1 0) then
    log .launchFailedDuringCalibration
    return (w, false)
  let (w, sample) ← growSample w 1024 (by decide)
  let some (count, elapsed) := sample
    | log .launchFailedDuringCalibration
      return (w, false)
  let (w, refined) ← refineCount w kGpuCalibrationRefineRounds count elapsed
  let some (count, elapsed) := refined
    | log .launchFailedDuringCalibration
      return (w, false)
  if (kGpuKernelLoopBaseMax : ℤ) ≤ count ∧ elapsed < kScheduleIntervalMS then
    log .tooFast
  let w := { w with base_loop_count := max 1 count, calibrated := true }
  log (.calibrated w.base_loop_count elapsed)
  return (w, true)

/-! ## The `-gm` block -/

/-- Free the block while sharing the device, allocate it otherwise. -/
def syncMemory (w : Worker) (sharing : Bool) : WorkerProg Worker := do
  if !w.has_device ∨ w.memory_bytes = 0 then return w
  if sharing then
    if w.memory_held then
      releaseMemory
      return { w with memory_held := false, memory_failed := false }
    return { w with memory_failed := false }
  if w.memory_held ∨ w.memory_failed then return w
  let held ← allocateMemory w.memory_bytes
  if !held then
    log (.allocationFailed w.memory_bytes)
    return { w with memory_held := false, memory_failed := true }
  if w.traffic_bytes_per_second ≤ 0 then
    let bandwidth ← memoryBandwidth
    let traffic : ℚ := match bandwidth with
      | some b => b * kGpuMemTrafficBandwidthShare
      | none => kGpuMemTrafficMiBPerSecond * kMebiByte
    log (.bandwidth bandwidth traffic)
    return { w with memory_held := true, traffic_bytes_per_second := traffic }
  return { w with memory_held := true }

/-! ## The loop -/

/-- The locals of `Loop` that outlive a tick. -/
structure LoopState where
  worker : Worker := {}
  consecutive_failures : ℕ := 0
deriving DecidableEq, Repr

inductive GivenUp
  | calibrationFailed | launchesFailed
deriving DecidableEq, Repr

/-- How a worker ends; `dropped` is the manager's answer to a device that cannot
run the kernel at startup. -/
inductive Exit
  | stopped (w : Worker)
  | gaveUp (why : GivenUp) (w : Worker)
  | dropped (w : Worker)
deriving DecidableEq, Repr

/-- What the budget leaves after the others' share. -/
def leftOver (load_set others : ℤ) : ℤ :=
  load_set - max others 0 * kScheduleIntervalMS / kGpuMaxLoadPerDevice

/-- How much of the block this launch moves, in bytes. -/
def takeTraffic (w : Worker) (start : ℚ) (target_ms : ℤ) : WorkerProg (Worker × ℕ) := do
  if w.memory_held then
    let stepped_ms := match w.traffic_stepped_at with
      | some t => start - t
      | none => 0
    let mean := w.traffic_bytes_per_second * target_ms / kMillisecondsPerSecond
    let factor ← nextFactor stepped_ms
    return ({ w with traffic_stepped_at := some start }, ⌊mean * factor⌋₊)
  else
    return (w, 0)

def mebibytes (traffic : ℕ) : ℚ := traffic / kMebiByte

/-- The ALU loop gets what the traffic's cost leaves of the budget. -/
def loopCount (w : Worker) (target_ms : ℤ) (traffic : ℕ) : ℤ :=
  let mem_ms := Round.clamp (w.mem_ms_per_mib * mebibytes traffic) 0
    (target_ms * kGpuMemCostMaxShare)
  ⌊max (w.base_loop_count * (target_ms - mem_ms) / kScheduleIntervalMS) 1⌋

/-- What a successful launch teaches: the traffic's cost, then the ALU's speed. -/
def learn (w : Worker) (loop_count : ℤ) (traffic : ℕ) (elapsed_ms : ℚ) : Worker :=
  let mib := mebibytes traffic
  let alu_ms : ℚ := loop_count * kScheduleIntervalMS / w.base_loop_count
  let w := w.addBusy elapsed_ms
  let w := if traffic ≠ 0 then w.updateMemCost mib (elapsed_ms - alu_ms) else w
  w.adaptBaseLoopCount alu_ms (elapsed_ms - max w.mem_ms_per_mib 0 * mib)

/-- The end of a tick: sleep for what is left of the period. -/
def sleepRest (start : ℚ) : WorkerProg Unit := do
  if (← now) < start + kScheduleIntervalMS then
    sleepUntil (start + kScheduleIntervalMS)

/-- The part of a tick that launches the kernel. -/
def launch (s : LoopState) (start : ℚ) (target_ms : ℤ) : WorkerProg (LoopState ⊕ Exit) := do
  let (w, traffic) ← takeTraffic s.worker start target_ms
  let loop_count := loopCount w target_ms traffic
  if ← runKernel .tick loop_count traffic then
    let elapsed_ms := (← now) - start
    let w := learn w loop_count traffic elapsed_ms
    sleepRest start
    return .inl { worker := w, consecutive_failures := 0 }
  else
    let failures := s.consecutive_failures + 1
    if kGpuMaxConsecutiveFailures ≤ failures then
      log (.launchesFailedGivingUp failures)
      -- nobody follows the sharing state from here on
      let w ← syncMemory w true
      return .inr (.gaveUp .launchesFailed w)
    else
      log .backingOff
      sleepFor kScheduleIntervalMS
      return .inl { worker := w, consecutive_failures := failures }

/-- One round of `Loop`. -/
def tick (s : LoopState) : WorkerProg (LoopState ⊕ Exit) := do
  if ← stopRequested then return .inr (.stopped s.worker)
  let others ← loadOthers
  let w ← syncMemory s.worker (0 ≤ others)
  let start ← now
  let load_set ← loadLoadSet
  let target_ms := max 0 (leftOver load_set others)
  if 0 < target_ms ∧ w.has_device ∧ !w.calibrated then
    let (w, ok) ← calibrateBaseLoopCount w
    if ok then
      -- a fresh tick: calibration time is not this tick's work
      return .inl { s with worker := w }
    else
      log .calibrationFailedGivingUp
      let w ← syncMemory w true
      return .inr (.gaveUp .calibrationFailed w)
  else if 0 < target_ms ∧ w.has_device then
    launch { s with worker := w } start target_ms
  else
    sleepRest start
    return .inl { s with worker := w }

/-- What the manager does with a new worker: it calibrates it, unless others use
the device, and then starts its thread. -/
def start (calibrate_first : Bool) (w : Worker) : WorkerProg (LoopState ⊕ Exit) := do
  if calibrate_first then
    let (w, ok) ← calibrateBaseLoopCount w
    if ok then return .inl { worker := w } else return .inr (.dropped w)
  else
    return .inl { worker := w }

/-! ## The worker among the other threads -/

/-- What the worker shares with the other threads, and the steady clock. -/
structure Shared where
  settings : Settings := {}
  stop_requested : Bool := false
  clock : ℚ := 0

/-- What the other threads and time can do between two calls of the worker. -/
inductive OthersMove : Shared → Shared → Prop
  | setOthers (m : Shared) (percent : Option ℤ) :
      OthersMove m { m with settings := m.settings.setOthers percent }
  | setLoadSet (m : Shared) (load_ms : ℤ) :
      OthersMove m { m with settings := m.settings.setLoadSet load_ms }
  | requestStop (m : Shared) : OthersMove m { m with stop_requested := true }
  | wait (m : Shared) (ms : ℚ) (h : 0 ≤ ms) : OthersMove m { m with clock := m.clock + ms }

/-- A read answers what is stored; the device may answer anything. -/
def CanAnswer (m : Shared) : (c : Call) → Answer c → Prop
  | .stopRequested, b => b = m.stop_requested
  | .loadOthers, percent => percent = m.settings.others_percent
  | .loadLoadSet, load_ms => load_ms = m.settings.load_set
  | .now, time => time = m.clock
  | .nextFactor _, factor => kGpuMemTrafficMinFactor ≤ factor ∧ factor ≤ kGpuMemTrafficMaxFactor
  | .sleepUntil time, _ => time ≤ m.clock
  | _, _ => True

def workerSystem : System Call Answer LoopState Exit Shared where
  body := tick
  others := OthersMove
  answers := CanAnswer

abbrev WorkerConfig := Config Call Answer LoopState Exit Shared

/-- A new worker with a `-gm` of `memory_bytes`, about to be started. -/
def newWorker (has_device calibrate_first : Bool) (memory_bytes : ℕ) : WorkerConfig where
  memory := {}
  thread := .running (start calibrate_first { has_device, memory_bytes })

end Loadmaster.Gpu.GpuWorkerContext
