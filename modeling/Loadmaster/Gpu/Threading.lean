/-
Who calls a GPU device, and when (`gpu/manager.cc`, with the threads of its workers
and of its monitor). `gpu/device.h` promises of every device:

    calls are never concurrent, but they are NOT all made from one thread. Init(),
    Locator() and the calibration RunKernel() calls happen on the main thread; the
    steady-state RunKernel() and the AllocateMemory() / ReleaseMemory() calls happen on
    the device's worker thread; destruction happens on the main thread again after the
    worker joined.

The manager is a program from its construction to its destruction that starts and joins
these threads. A device, and the worker it becomes, goes by its place among the pending
ones; the monitors, of which `Init` may make a second, are numbered. What a device
answers and what a poll finds is left open. `touched` says what every call is on: the
device; its worker, whose atomics anyone may use who may reach it; the worker's own
fields; the vector `workers_`; the monitor and the fields of its `Poll`.
-/
import Loadmaster.Gpu.Manager
import Loadmaster.Lib.Threads

set_option autoImplicit false

namespace Loadmaster.Gpu

open Contention Effect GpuWorkerContext Threads

/-! ## The calls -/

inductive GpuCall
  | deviceInit (d : ℕ) (device_index : ℤ)
  | deviceName (d : ℕ)
  | deviceLocator (d : ℕ)
  | destroyDevice (d : ℕ)
  | newWorker (d : ℕ)
  | setMemoryBytes (d bytes : ℕ)
  /-- The worker and its device. -/
  | destroyWorker (d : ℕ)
  | setOthers (d : ℕ) (percent : Option ℤ)
  | sharing (d : ℕ)
  | setLoadSet (d : ℕ) (load_ms : ℤ)
  | busyMs (d : ℕ)
  | requestStop (d : ℕ)
  /-- A call that the worker's own code makes. -/
  | worker (d : ℕ) (c : Call)
  /-- `workers_` is looked at, or changed. -/
  | viewWorkers
  | changeWorkers
  | newMonitor (k : ℕ)
  /-- `Poll` on its own fields: the devices, by their indices, whose share has changed. -/
  | pollMonitor (k : ℕ)
  /-- The monitor waits for its period, or for a request to stop. -/
  | waitMonitor (k : ℕ)
  | requestMonitorStop (k : ℕ)
  | destroyMonitor (k : ℕ)

abbrev GpuAnswer : GpuCall → Type
  | .deviceInit _ _ => Bool
  | .deviceName _ => String
  | .deviceLocator _ => DeviceLocator
  | .sharing _ => Bool
  | .busyMs _ => ℚ
  | .worker _ c => Answer c
  | .pollMonitor _ => List (ℕ × Option ℤ)
  | .waitMonitor _ => Bool
  | _ => Unit

abbrev GpuProg (α : Type) := Prog GpuCall GpuAnswer α

/-! ## The monitor's poll -/

/-- `own_busy_ms` of every device. -/
def readBusyMs : List ℕ → GpuProg Unit
  | [] => return ()
  | d :: ds => do
    .perform GpuCall.viewWorkers
    let _ ← .perform (GpuCall.busyMs d)
    readBusyMs ds

/-- `on_change`, for each device that is reported; the rest of it is for the log. -/
def onChanges (workers : List ℕ) : List (ℕ × Option ℤ) → GpuProg Unit
  | [] => return ()
  | (i, others) :: changes =>
    match workers[i]? with
    | none => onChanges workers changes
    | some d => do
      .perform GpuCall.viewWorkers
      let _ ← .perform (GpuCall.sharing d)
      .perform (GpuCall.setOthers d others)
      onChanges workers changes

/-- `Poll` of monitor number `k`, over these workers. -/
def poll (k : ℕ) (workers : List ℕ) : GpuProg Unit := do
  readBusyMs workers
  let changes ← .perform (GpuCall.pollMonitor k)
  onChanges workers changes

/-! ## The threads -/

inductive ThreadId
  | worker (d : ℕ)
  | monitor (k : ℕ)
deriving DecidableEq, Repr

abbrev ThreadState : ThreadId → Type
  | .worker _ => LoopState
  | .monitor _ => List ℕ

abbrev ThreadExit : ThreadId → Type
  | .worker _ => Exit
  | .monitor _ => Unit

/-- A round of `GpuWorkerContext::Loop`, or of `Monitor::Loop`. -/
def threadBody : (t : ThreadId) → ThreadState t → GpuProg (ThreadState t ⊕ ThreadExit t)
  | .worker d, s => (tick s).embed (GpuCall.worker d)
  -- a request to stop wakes the wait; else the period is over
  | .monitor k, workers => do
    if ← .perform (GpuCall.waitMonitor k) then return .inr ()
    poll k workers
    return .inl workers

/-! ## What the calls touch -/

inductive Res
  | device (d : ℕ)
  /-- Its `Init` has succeeded. -/
  | ready (d : ℕ)
  | worker (d : ℕ)
  | fields (d : ℕ)
  | workers
  | monitor (k : ℕ)
  | polling (k : ℕ)
deriving DecidableEq, Repr

/-- The worker's own fields are its code's alone; some of its calls are the device's. -/
def workerTouched (d : ℕ) : Call → List (Res × Use)
  | .runKernel _ _ _ | .allocateMemory _ | .releaseMemory | .memoryBandwidth =>
    [(.device d, .alone), (.ready d, .shared), (.worker d, .shared), (.fields d, .alone)]
  | _ => [(.worker d, .shared), (.fields d, .alone)]

def touched : GpuCall → List (Res × Use)
  | .deviceInit d _ => [(.device d, .alone)]
  | .deviceName d | .deviceLocator d => [(.device d, .alone), (.ready d, .shared)]
  | .destroyDevice d => [(.device d, .alone)]
  | .newWorker d => [(.device d, .alone), (.ready d, .shared)]
  | .setMemoryBytes d _ => [(.worker d, .shared), (.fields d, .alone)]
  | .destroyWorker d =>
    [(.device d, .alone), (.ready d, .alone), (.worker d, .alone), (.fields d, .alone)]
  | .setOthers d _ | .sharing d | .setLoadSet d _ | .busyMs d | .requestStop d =>
    [(.worker d, .shared)]
  | .worker d c => workerTouched d c
  | .viewWorkers => [(.workers, .shared)]
  | .changeWorkers => [(.workers, .alone)]
  | .newMonitor _ => []
  | .pollMonitor k => [(.monitor k, .shared), (.polling k, .alone)]
  | .waitMonitor k | .requestMonitorStop k => [(.monitor k, .shared)]
  | .destroyMonitor k => [(.monitor k, .alone), (.polling k, .alone)]

/-- The access of a list of them, which has each once. -/
def accessOf (rs : List (Res × Use)) (r : Res) : Use :=
  match rs.find? fun e => e.1 = r with
  | some e => e.2
  | none => .untouched

theorem accessOf_of_mem {rs : List (Res × Use)} (hnodup : (rs.map Prod.fst).Nodup) {r : Res}
    {a : Use} (h : (r, a) ∈ rs) : accessOf rs r = a := by
  unfold accessOf
  cases hfind : rs.find? fun e => e.1 = r with
  | none => exact absurd (decide_eq_true rfl) (List.find?_eq_none.mp hfind _ h)
  | some e =>
    have he : e.1 = r := by simpa using List.find?_some hfind
    have hsame := List.inj_on_of_nodup_map hnodup (List.mem_of_find?_eq_some hfind) h he
    rw [hsame]

theorem mem_of_accessOf {rs : List (Res × Use)} {r : Res} (h : accessOf rs r ≠ .untouched) :
    (r, accessOf rs r) ∈ rs := by
  unfold accessOf at h ⊢
  cases hfind : rs.find? fun e => e.1 = r with
  | none =>
    rw [hfind] at h
    exact absurd rfl h
  | some e =>
    have he : e.1 = r := by simpa using List.find?_some hfind
    rw [← he]
    exact List.mem_of_find?_eq_some hfind

def makes : (c : GpuCall) → GpuAnswer c → Res → Prop
  | .deviceInit d _, ok, r => ok = true ∧ r = .ready d
  | .newWorker d, _, r => r = .worker d ∨ r = .fields d
  | .newMonitor k, _, r => r = .monitor k ∨ r = .polling k
  | _, _, _ => False

def ends : GpuCall → Res → Prop
  | .destroyDevice d, r => r = .device d
  | .destroyWorker d, r => r = .device d ∨ r = .ready d ∨ r = .worker d ∨ r = .fields d
  | .destroyMonitor k, r => r = .monitor k ∨ r = .polling k
  | _, _ => False

/-- What a worker's thread is lent: the device and its own fields. -/
def workerGrant (d : ℕ) : Res → Use
  | .device d' => Use.alone.onlyIf (d' = d)
  | .ready d' => Use.shared.onlyIf (d' = d)
  | .worker d' => Use.shared.onlyIf (d' = d)
  | .fields d' => Use.alone.onlyIf (d' = d)
  | _ => .untouched

/-- The monitor's looks at `workers_` and reaches the workers' atomics. -/
def monitorGrant (k : ℕ) (workers : List ℕ) : Res → Use
  | .workers => .shared
  | .worker d => Use.shared.onlyIf (d ∈ workers)
  | .monitor k' => Use.shared.onlyIf (k' = k)
  | .polling k' => Use.alone.onlyIf (k' = k)
  | _ => .untouched

def granted : (t : ThreadId) → ThreadState t → Res → Use
  | .worker d, _ => workerGrant d
  | .monitor k, workers => monitorGrant k workers

/-- The calls of a calibration. -/
def OfCalibration : Call → Prop
  | .runKernel site _ _ => site ≠ .tick
  | .now | .log _ => True
  | _ => False

/-- Whose calls they are, by `gpu/device.h`: in the main thread a worker's code does no
more than calibrate, its own thread does no more than run its code, and a monitor polls. -/
def madeBy : Option ThreadId → GpuCall → Prop
  | none, .worker _ c => OfCalibration c
  | none, .waitMonitor _ => False
  | none, _ => True
  | some (.worker d), .worker d' _ => d' = d
  | some (.monitor k), .pollMonitor k' | some (.monitor k), .waitMonitor k' => k' = k
  | some (.monitor _), .viewWorkers | some (.monitor _), .busyMs _ | some (.monitor _), .sharing _
  | some (.monitor _), .setOthers _ _ => True
  | _, _ => False

def gpuThreads : Family GpuCall GpuAnswer Res ThreadId ThreadState ThreadExit where
  uses c := accessOf (touched c)
  makes := makes
  ends := ends
  ends_alone c r h := by
    cases c with
    | destroyDevice d =>
      subst h
      exact accessOf_of_mem (by simp [touched]) (by simp [touched])
    | destroyWorker d =>
      rcases h with rfl | rfl | rfl | rfl <;>
        exact accessOf_of_mem (by simp [touched]) (by simp [touched])
    | destroyMonitor k =>
      rcases h with rfl | rfl <;> exact accessOf_of_mem (by simp [touched]) (by simp [touched])
    | _ => exact h.elim
  body := threadBody
  grant := granted
  may := madeBy

/-! ## The manager -/

abbrev MainProg (α : Type) :=
  Prog (Act GpuCall ThreadId ThreadState) (Threads.Answer GpuAnswer) α

/-- A call of the main thread. -/
abbrev main (c : GpuCall) : MainProg (GpuAnswer c) := .perform (Act.call c)

/-- The same for a program of them. -/
abbrev onMain {α : Type} (p : GpuProg α) : MainProg α := p.embed Act.call

abbrev startThread (t : ThreadId) (s : ThreadState t) : MainProg Unit := .perform (Act.start t s)

abbrev joinThread (t : ThreadId) : MainProg Unit := .perform (Act.join t)

/-- An entry of `workers_`. -/
structure Entry where
  d : ℕ
  worker : Worker := {}

/-- `GpuResourceManager`: the monitor by its number and the workers it was made for. -/
structure ManagerState where
  pending : List ℕ
  workers : List Entry := []
  monitor : Option (ℕ × List ℕ) := none

/-- The same call for every one of them, through the vector. -/
def forWorkers (c : ℕ → GpuCall) : List ℕ → MainProg Unit
  | [] => return ()
  | d :: ds => do
    main .viewWorkers
    let _ ← main (c d)
    forWorkers c ds

namespace GpuManager

variable (options : Core.Options)

/-- The loop of `Init` over the pending devices and their indices. -/
def bindDevices : List (ℕ × ℤ) → MainProg (List Entry)
  | [] => return []
  | (d, idx) :: rest => do
    if ← main (.deviceInit d idx) then
      let _ ← main (.deviceName d)
      main (.newWorker d)
      let memory_bytes := options.gpu_memory_bytes.toInt.toNat
      if 0 < memory_bytes then main (.setMemoryBytes d memory_bytes)
      main .changeWorkers
      return ⟨d, { memory_bytes }⟩ :: (← bindDevices rest)
    -- it stays among the pending devices, until they are cleared
    else bindDevices rest

/-- Devices that no worker has. -/
def destroyDevices : List ℕ → MainProg Unit
  | [] => return ()
  | d :: ds => do
    main (.destroyDevice d)
    destroyDevices ds

def destroyWorkers : List ℕ → MainProg Unit
  | [] => return ()
  | d :: ds => do
    main (.destroyWorker d)
    destroyWorkers ds

/-- The loop of `InitContentionMonitor`. -/
def describe : List ℕ → MainProg Unit
  | [] => return ()
  | d :: ds => do
    main .viewWorkers
    main (.setOthers d none)
    let _ ← main (.deviceName d)
    let _ ← main (.deviceLocator d)
    describe ds

/-- `InitContentionMonitor`: a new monitor in the place of the one before, if any. -/
def initContentionMonitor (m : ManagerState) : MainProg ManagerState := do
  let workers := m.workers.map Entry.d
  describe workers
  match m.monitor with
  | none =>
    main (.newMonitor 0)
    onMain (poll 0 workers)
    return { m with monitor := some (0, workers) }
  | some (k, _) =>
    -- the new one is made before it takes the other's place
    main (.newMonitor (k + 1))
    main (.destroyMonitor k)
    onMain (poll (k + 1) workers)
    return { m with monitor := some (k + 1, workers) }

/-- The predicate of `std::erase_if`: `none` to drop the worker. -/
def keep (w : Entry) : MainProg (Option Entry) := do
  main .viewWorkers
  -- it calibrates on its own thread once there is room
  if ← main (.sharing w.d) then return some w
  let (worker, ok) ← onMain ((calibrateBaseLoopCount w.worker).embed (GpuCall.worker w.d))
  if ok then return some { w with worker }
  let _ ← main (.deviceName w.d)
  return none

/-- `std::erase_if`. A worker that is kept moves into the first of the places that are
given up, of which some hold a dropped worker still; it is destroyed then, or when the
rest of the vector is erased. -/
def eraseIf : List Entry → List (Option ℕ) → MainProg (List Entry)
  | [], given_up => do
    main .changeWorkers
    destroyWorkers (given_up.filterMap id)
    return []
  | w :: ws, given_up => do
    match ← keep w, given_up with
    | none, _ => eraseIf ws (given_up ++ [some w.d])
    | some w, [] => return w :: (← eraseIf ws [])
    | some w, place :: places =>
      main .changeWorkers
      destroyWorkers place.toList
      return w :: (← eraseIf ws (places ++ [none]))

def calibrateWorkers (m : ManagerState) : MainProg (ManagerState × Bool) := do
  let before := m.workers.length
  let workers ← eraseIf m.workers []
  let m := { m with workers }
  if workers.isEmpty then return (m, false)
  -- the monitor addresses the devices by their index in `workers_`
  let m ← if workers.length ≠ before then initContentionMonitor m else pure m
  let load_ms := loadPercentToBusyMs options.gpu_load.toInt
  forWorkers (.setLoadSet · load_ms) (m.workers.map Entry.d)
  return (m, true)

/-- `Init`, with the indices of the pending devices. -/
def init (indices : List ℤ) : MainProg (ManagerState × Bool) := do
  let pending := List.range indices.length
  if pending.isEmpty then return ({ pending }, false)
  if options.gpu_load.toInt ≤ 0 ∧ options.gpu_memory_bytes.toInt ≤ 0 then
    return ({ pending }, false)
  let workers ← bindDevices options (pending.zip indices)
  -- a device that a worker has been made for is no longer among them
  destroyDevices (pending.filter fun d => d ∉ workers.map Entry.d)
  let m : ManagerState := { pending := [], workers }
  if workers.isEmpty then return (m, false)
  let m ← initContentionMonitor m
  if 0 < options.gpu_load.toInt then calibrateWorkers options m
  else return (m, true)

def startWorkers : List Entry → MainProg Unit
  | [] => return ()
  | w :: ws => do
    main .viewWorkers
    startThread (.worker w.d) { worker := w.worker }
    startWorkers ws

/-- `CreateWorkerThreads`; without sources there is no thread for the monitor. -/
def createWorkerThreads (has_sources : Bool) (m : ManagerState) : MainProg Unit := do
  startWorkers m.workers
  match m.monitor with
  | some (k, workers) => if has_sources then startThread (.monitor k) workers else pure ()
  | none => pure ()

/-- `Schedule`: the loads that this pass sets, by index. -/
def schedule (m : ManagerState) : List (ℕ × ℤ) → MainProg Unit
  | [] => return ()
  | (i, load_ms) :: loads => do
    match m.workers[i]? with
    | some w =>
      main .viewWorkers
      main (.setLoadSet w.d load_ms)
    | none => pure ()
    schedule m loads

def passes (m : ManagerState) : List (List (ℕ × ℤ)) → MainProg Unit
  | [] => return ()
  | loads :: rest => do
    schedule m loads
    passes m rest

def requestWorkerThreadsStop (m : ManagerState) : MainProg Unit := do
  match m.monitor with
  | some (k, _) => main (.requestMonitorStop k)
  | none => pure ()
  forWorkers .requestStop (m.workers.map Entry.d)

def joinWorkers : List ℕ → MainProg Unit
  | [] => return ()
  | d :: ds => do
    main .viewWorkers
    joinThread (.worker d)
    joinWorkers ds

/-- `JoinWorkerThreads`: the monitor first, as it calls into the workers. -/
def joinWorkerThreads (has_sources : Bool) (m : ManagerState) : MainProg ManagerState := do
  match m.monitor with
  | some (k, _) =>
    if has_sources then joinThread (.monitor k)
    main (.destroyMonitor k)
  | none => pure ()
  joinWorkers (m.workers.map Entry.d)
  main .changeWorkers
  destroyWorkers (m.workers.map Entry.d)
  return { m with workers := [], monitor := none }

/-- The destructor: the members, the last one first. -/
def destroy (m : ManagerState) : MainProg Unit := do
  match m.monitor with
  | some (k, _) => main (.destroyMonitor k)
  | none => pure ()
  main .changeWorkers
  destroyWorkers (m.workers.map Entry.d)
  destroyDevices m.pending

/-- The whole life of a manager: what the runtime does with it. -/
def life (has_sources : Bool) (indices : List ℤ) (loads : List (List (ℕ × ℤ))) :
    MainProg Unit := do
  let (m, ok) ← init options indices
  if ok then
    createWorkerThreads has_sources m
    passes m loads
    requestWorkerThreadsStop m
    let m ← joinWorkerThreads has_sources m
    destroy m
  else destroy m

end GpuManager

end Loadmaster.Gpu
