/-
How the GPU manager brings its devices up (`gpu/manager.cc`).

A device that is bound has an identity, its name and its locator, and answers a
worker's calls from a state of its own: what its launches and the clock do in a
calibration is up to it. The monitor reaches the workers through two callbacks
that are given an index into `workers_`, so `pollMonitor` is a poll with these
callbacks. What the platform's sources see in a first poll comes with it.
-/
import Loadmaster.Core.Options
import Loadmaster.Gpu.Contention.Monitor
import Loadmaster.Gpu.ManagerRandomNormal
import Loadmaster.Gpu.Worker

set_option autoImplicit false

namespace Loadmaster.Gpu

open Contention Effect GpuWorkerContext

/-! ## Devices and workers -/

/-- A device after its `Init`; `Name` and `Locator` stay as they are then. -/
structure BoundDevice where
  name : String
  locator : DeviceLocator
  State : Type
  state : State
  answers : Handler Call Answer State

/-- A `GpuDevice` before; `init` is `Init`, for a vendor-local index. -/
structure PendingDevice where
  init : ℤ → Option BoundDevice

/-- A worker, with what it shares with other threads. -/
structure WorkerContext where
  id : ℕ
  device : BoundDevice
  worker : Worker := {}
  settings : Settings := {}

namespace WorkerContext

def setOthers (w : WorkerContext) (percent : Option ℤ) : WorkerContext :=
  { w with settings := w.settings.setOthers percent }

def setLoadSet (w : WorkerContext) (load_ms : ℤ) : WorkerContext :=
  { w with settings := w.settings.setLoadSet load_ms }

def sharing (w : WorkerContext) : Bool := w.settings.sharing

def busyMs (w : WorkerContext) : ℚ := w.worker.busy_us / 1000

/-- `CalibrateBaseLoopCount`, on the device as it is. -/
def calibrateBaseLoopCount (w : WorkerContext) : WorkerContext × Bool :=
  let r := (GpuWorkerContext.calibrateBaseLoopCount w.worker).run w.device.answers w.device.state
  ({ w with device := { w.device with state := r.2 }, worker := r.1.1 }, r.1.2)

end WorkerContext

/-! ## The manager -/

/-- `GpuResourceManager`, less its pending devices. -/
structure GpuResourceManager where
  workers : List WorkerContext := []
  monitor : Option (Σ n, Monitor n) := none

/-- What a monitor finds when it is polled for the first time. -/
structure FirstPoll where
  sources : ∀ n, List (Source n)
  now : ℤ

namespace GpuResourceManager

/-- `own_busy_ms`, the callback. -/
def ownBusyMs (m : GpuResourceManager) (i : ℕ) : ℚ :=
  match m.workers[i]? with
  | some w => w.busyMs
  | none => 0

/-- `on_change`, the other one; the rest of an event is for the log. -/
def onChange {n : ℕ} (workers : List WorkerContext) : Contention.Event n → List WorkerContext
  | .change i _ others _ => workers.modify i fun w => w.setOthers others
  | .warn _ => workers

/-- A poll of the monitor. -/
def pollMonitor (m : GpuResourceManager) (now : ℤ) : GpuResourceManager :=
  match m.monitor with
  | none => m
  | some ⟨n, monitor⟩ =>
    let (monitor', outcome) := monitor.poll { now, busy_ms := fun i => m.ownBusyMs i }
    { workers := outcome.events.foldl onChange m.workers, monitor := some ⟨n, monitor'⟩ }

/-- The monitor over the devices of the workers. -/
def monitorOf (devices : List BoundDevice) (sources : ∀ n, List (Source n)) :
    Monitor devices.length :=
  .create (fun i => (devices.get i).name) (fun i => (devices.get i).locator) (sources _) true

def initContentionMonitor (m : GpuResourceManager) (p : FirstPoll) : GpuResourceManager :=
  pollMonitor
    { -- the poll decides afresh
      workers := m.workers.map fun w => w.setOthers none
      monitor := some ⟨_, monitorOf (m.workers.map fun w => w.device) p.sources⟩ } p.now

/-- What the predicate of `std::erase_if` keeps: a worker that shares its device,
or that calibrates. -/
def keep (w : WorkerContext) : Option WorkerContext :=
  if w.sharing then some w
  else
    let (w, ok) := w.calibrateBaseLoopCount
    if ok then some w else none

def calibrateWorkers (options : Core.Options) (m : GpuResourceManager) (p : FirstPoll) :
    GpuResourceManager × Bool :=
  let before := m.workers.length
  let m := { m with workers := m.workers.filterMap keep }
  if m.workers.isEmpty then (m, false)
  else
    let m := if m.workers.length ≠ before then m.initContentionMonitor p else m
    let load_ms := loadPercentToBusyMs options.gpu_load.toInt
    ({ m with workers := m.workers.map fun w => w.setLoadSet load_ms }, true)

/-- A new worker for a device, with the memory it is to hold if that is positive. -/
def newWorker (options : Core.Options) (id : ℕ) (device : BoundDevice) : WorkerContext where
  id := id
  device := device
  worker := { memory_bytes := options.gpu_memory_bytes.toInt.toNat }

/-- The loop of `Init` from `next_id` on. -/
def bindDevices (options : Core.Options) : ℕ → List (ℤ × PendingDevice) → List WorkerContext
  | _, [] => []
  | next_id, (idx, dev) :: rest =>
    match dev.init idx with
    | none => bindDevices options next_id rest
    | some device => newWorker options next_id device :: bindDevices options (next_id + 1) rest

/-- `Init`; `second` is for the monitor that is set up when devices were dropped. -/
def init (options : Core.Options) (pending_devices : List (ℤ × PendingDevice))
    (first second : FirstPoll) : GpuResourceManager × Bool :=
  if pending_devices.isEmpty then ({}, false)
  else if options.gpu_load.toInt ≤ 0 ∧ options.gpu_memory_bytes.toInt ≤ 0 then ({}, false)
  else
    let workers := bindDevices options 0 pending_devices
    if workers.isEmpty then ({}, false)
    else
      let m := initContentionMonitor { workers } first
      if 0 < options.gpu_load.toInt then m.calibrateWorkers options second else (m, true)

end GpuResourceManager

/-- `GpuResourceManagerRandomNormal::Init`, given what that of its base class did. -/
def GpuResourceManagerRandomNormal.initFrom (base : List ℤ) (shuffles : ℕ → Cycle.Shuffle ℤ)
    (r : GpuResourceManager × Bool) : Option GpuResourceManagerRandomNormal :=
  if r.2 then some (.init base (r.1.workers.map fun w => w.settings) shuffles) else none

end Loadmaster.Gpu
