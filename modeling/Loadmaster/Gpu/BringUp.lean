/-
Device bring-up keeps every index consistent.

`Addresses` says that a monitor and a list of workers fit: device `i` of the
monitor is worker `i`, by name and locator, and the worker is told what the
monitor last reported of that device. A poll keeps it, so does what the workers'
threads and the scheduler do, and it holds from the first poll on. `Init` ends
with it because a drop, and only a drop, has the monitor built again.
-/
import Loadmaster.Gpu.LinearCalibration
import Loadmaster.Gpu.Manager

set_option autoImplicit false

namespace Loadmaster.Gpu

open Contention Effect

namespace GpuResourceManager

/-! ## What a poll tells the workers -/

section Modify

variable {α : Type*} {n : ℕ} (f : Fin n → α → α)

/-- Elements changed one after another, each once. -/
theorem getElem?_foldl_modify (l : List (Fin n)) (hl : l.Nodup) (ws : List α) (j : Fin n) :
    (l.foldl (fun ws i => ws.modify i (f i)) ws)[(j : ℕ)]?
      = if j ∈ l then ws[(j : ℕ)]?.map (f j) else ws[(j : ℕ)]? := by
  induction l generalizing ws with
  | nil => rw [List.foldl_nil, if_neg (List.not_mem_nil)]
  | cons i l ih =>
    obtain ⟨hi, hl⟩ := List.nodup_cons.mp hl
    rw [List.foldl_cons, ih hl]
    by_cases hij : i = j
    · -- its turn is now, and does not come again
      subst hij
      rw [if_neg hi, if_pos List.mem_cons_self, List.getElem?_modify_eq]
      rfl
    · rw [List.getElem?_modify_ne _ _ (fun h => hij (Fin.ext h))]
      simp only [List.mem_cons, Ne.symm hij, false_or]

/-- Changing workers in place keeps how many there are. -/
theorem length_foldl_modify (l : List (Fin n)) (ws : List α) :
    (l.foldl (fun ws i => ws.modify i (f i)) ws).length = ws.length := by
  induction l generalizing ws with
  | nil => rfl
  | cons i l ih => rw [List.foldl_cons, ih, List.length_modify]

end Modify

variable {n : ℕ} {monitor : Monitor n} {workers : List WorkerContext}

/-- What a poll tells the worker of device `i`. -/
def told (monitor : Monitor n) (p : PollInput n) (i : Fin n) (w : WorkerContext) : WorkerContext :=
  if monitor.report p i ≠ monitor.reported i then w.setOthers (monitor.report p i) else w

/-- The events of a device reach its worker. -/
theorem foldl_onChange_deviceEvents (monitor : Monitor n) (p : PollInput n) (i : Fin n)
    (workers : List WorkerContext) :
    (monitor.deviceEvents p i).foldl onChange workers = workers.modify i (told monitor p i) := by
  -- a warning is for the log only
  have hwarn : ∀ (c : Prop) [Decidable c] (name : String) (es : List (Contention.Event n)),
      ((if c then [Contention.Event.warn name] else []) ++ es).foldl onChange workers
        = es.foldl onChange workers := by
    intro c _ name es
    split_ifs <;> rfl
  unfold Monitor.deviceEvents told
  rw [hwarn]
  split_ifs with hchange
  · rfl
  · exact (List.modify_id _ _).symm

/-- The events of a poll act on each worker by itself, at most once. -/
theorem foldl_onChange (monitor : Monitor n) (p : PollInput n) (workers : List WorkerContext) :
    (monitor.poll p).2.events.foldl onChange workers
      = (List.finRange n).foldl (fun ws i => ws.modify i (told monitor p i)) workers := by
  unfold Monitor.poll
  dsimp only
  rw [List.foldl_flatMap]
  congr 1
  funext ws i
  exact foldl_onChange_deviceEvents monitor p i ws

/-- What a worker is told depends on its own device alone. -/
theorem getElem?_foldl_onChange (monitor : Monitor n) (p : PollInput n)
    (workers : List WorkerContext) (i : Fin n) :
    ((monitor.poll p).2.events.foldl onChange workers)[(i : ℕ)]?
      = workers[(i : ℕ)]?.map (told monitor p i) := by
  rw [foldl_onChange, getElem?_foldl_modify _ _ (List.nodup_finRange n),
    if_pos (List.mem_finRange i)]

theorem length_foldl_onChange (monitor : Monitor n) (p : PollInput n)
    (workers : List WorkerContext) :
    ((monitor.poll p).2.events.foldl onChange workers).length = workers.length := by
  rw [foldl_onChange, length_foldl_modify]

/-- Being told of others does not change which device a worker drives. -/
@[simp] theorem device_told (monitor : Monitor n) (p : PollInput n) (i : Fin n)
    (w : WorkerContext) : (told monitor p i w).device = w.device := by
  unfold told
  split_ifs <;> rfl

/-- What a change of one worker leaves alone. -/
theorem map_modify_of {α : Type*} {f : WorkerContext → WorkerContext} {g : WorkerContext → α}
    (h : ∀ w, g (f w) = g w) (workers : List WorkerContext) (i : ℕ) :
    (workers.modify i f).map g = workers.map g := by
  refine List.ext_getElem? fun j => ?_
  rw [List.getElem?_map, List.getElem?_map, List.getElem?_modify]
  cases workers[j]? with
  | none => rfl
  | some w =>
    by_cases hij : i = j
    · simp [hij, h]
    · simp [hij]

/-- What does not look at the others' share does not see a poll. -/
theorem map_foldl_onChange {α : Type*} (g : WorkerContext → α)
    (hg : ∀ w percent, g (w.setOthers percent) = g w) (monitor : Monitor n) (p : PollInput n)
    (workers : List WorkerContext) :
    ((monitor.poll p).2.events.foldl onChange workers).map g = workers.map g := by
  have htold : ∀ i w, g (told monitor p i w) = g w := by
    intro i w
    unfold told
    split_ifs
    · exact hg w _
    · rfl
  rw [foldl_onChange]
  generalize List.finRange n = l
  induction l generalizing workers with
  | nil => rfl
  | cons i l ih => rw [List.foldl_cons, ih, map_modify_of (htold i)]

/-! ## That monitor and workers fit -/

structure Addresses (monitor : Monitor n) (workers : List WorkerContext) : Prop where
  size : workers.length = n
  own_busy : monitor.own_busy_ms = true
  device : ∀ (i : Fin n) (w : WorkerContext), workers[(i : ℕ)]? = some w →
    monitor.names i = w.device.name ∧ monitor.devices i = w.device.locator ∧
      w.settings.others_percent = Settings.encodeOthers (monitor.reported i)

/-- A worker that has what was last reported has, after the poll, what is reported now. -/
theorem others_percent_told (p : PollInput n) (i : Fin n) {w : WorkerContext}
    (h : w.settings.others_percent = Settings.encodeOthers (monitor.reported i)) :
    (told monitor p i w).settings.others_percent
      = Settings.encodeOthers (monitor.report p i) := by
  unfold told
  split_ifs with hchange
  · rfl
  · rw [h, not_not.mp hchange]

/-- **A poll tells every worker what is reported of its own device.** -/
theorem Addresses.poll (h : Addresses monitor workers) (p : PollInput n) :
    Addresses (monitor.step p) ((monitor.poll p).2.events.foldl onChange workers) where
  size := (length_foldl_onChange monitor p workers).trans h.size
  own_busy := h.own_busy
  device := by
    intro i w' hw'
    rw [getElem?_foldl_onChange] at hw'
    obtain ⟨w, hw, rfl⟩ := Option.map_eq_some_iff.mp hw'
    obtain ⟨hname, hlocator, hothers⟩ := h.device i w hw
    refine ⟨?_, ?_, ?_⟩
    · rw [Monitor.step_names, device_told]
      exact hname
    · rw [Monitor.step_devices, device_told]
      exact hlocator
    · rw [Monitor.step_reported]
      exact others_percent_told p i hothers

/-- Workers that differ in nothing that is said here. -/
theorem Addresses.congr {workers' : List WorkerContext} (h : Addresses monitor workers)
    (hmap : workers'.map (fun w => (w.device.name, w.device.locator, w.settings.others_percent))
      = workers.map fun w => (w.device.name, w.device.locator, w.settings.others_percent)) :
    Addresses monitor workers' where
  size := by
    have hlength := congrArg List.length hmap
    rw [List.length_map, List.length_map] at hlength
    exact hlength.trans h.size
  own_busy := h.own_busy
  device := by
    intro i w' hw'
    have hi := congrArg (fun l => l[(i : ℕ)]?) hmap
    rw [List.getElem?_map, List.getElem?_map, hw'] at hi
    obtain ⟨w, hw, heq⟩ := Option.map_eq_some_iff.mp hi.symm
    rw [Prod.mk.injEq, Prod.mk.injEq] at heq
    obtain ⟨hname, hlocator, hothers⟩ := h.device i w hw
    exact ⟨hname.trans heq.1, hlocator.trans heq.2.1, heq.2.2.symm.trans hothers⟩

/-- The monitor that is set up over workers nobody has told anything. -/
theorem addresses_monitorOf (workers : List WorkerContext) (sources : ∀ n, List (Source n)) :
    Addresses (monitorOf (workers.map fun w => w.device) sources)
      (workers.map fun w => w.setOthers none) where
  size := by rw [List.length_map, List.length_map]
  own_busy := rfl
  device := by
    intro i w' hw'
    rw [List.getElem?_map] at hw'
    obtain ⟨w, hw, rfl⟩ := Option.map_eq_some_iff.mp hw'
    have hget : (workers.map fun w => w.device).get i = w.device := by
      rw [List.get_eq_getElem, List.getElem_map]
      exact congrArg _ ((List.getElem?_eq_some_iff.mp hw).2)
    refine ⟨?_, ?_, rfl⟩
    · exact congrArg BoundDevice.name hget
    · exact congrArg BoundDevice.locator hget

/-- The manager has a monitor, and it fits its workers. -/
def Steers (m : GpuResourceManager) : Prop :=
  ∃ (n : ℕ) (monitor : Monitor n), m.monitor = some ⟨n, monitor⟩ ∧ Addresses monitor m.workers

/-- A poll of the monitor keeps the workers in step with its reports. -/
theorem Steers.poll {m : GpuResourceManager} (h : m.Steers) (now : ℤ) :
    (m.pollMonitor now).Steers := by
  obtain ⟨n, monitor, hmonitor, haddresses⟩ := h
  unfold pollMonitor
  rw [hmonitor]
  exact ⟨n, _, rfl, haddresses.poll _⟩

theorem steers_initContentionMonitor (m : GpuResourceManager) (p : FirstPoll) :
    (m.initContentionMonitor p).Steers :=
  Steers.poll ⟨_, _, rfl, addresses_monitorOf m.workers p.sources⟩ p.now

/-! ## Once the threads run -/

/-- The monitor polls, a worker's thread changes its own fields and its device,
and the scheduler sets a load. -/
inductive Later
  | poll (now : ℤ)
  | work (i : ℕ) (worker : GpuWorkerContext.Worker) (state : ∀ d : BoundDevice, d.State)
  | setLoadSet (i : ℕ) (load_ms : ℤ)

def next (m : GpuResourceManager) : Later → GpuResourceManager
  | .poll now => m.pollMonitor now
  | .work i worker state =>
    { m with
      workers := m.workers.modify i fun w =>
        { w with device := { w.device with state := state w.device }, worker := worker } }
  | .setLoadSet i load_ms =>
    { m with workers := m.workers.modify i fun w => w.setLoadSet load_ms }

/-- A worker keeps its device, and what it was told of the others. -/
theorem Steers.modify {m : GpuResourceManager} (h : m.Steers) (i : ℕ)
    {f : WorkerContext → WorkerContext}
    (hf : ∀ w, ((f w).device.name, (f w).device.locator, (f w).settings.others_percent)
      = (w.device.name, w.device.locator, w.settings.others_percent)) :
    { m with workers := m.workers.modify i f }.Steers := by
  obtain ⟨n, monitor, hmonitor, haddresses⟩ := h
  exact ⟨n, monitor, hmonitor, haddresses.congr (map_modify_of hf _ _)⟩

theorem Steers.next {m : GpuResourceManager} (h : m.Steers) (move : Later) :
    (m.next move).Steers := by
  cases move with
  | poll now => exact h.poll now
  | work i worker state => exact h.modify i fun _ => rfl
  | setLoadSet i load_ms => exact h.modify i fun _ => rfl

theorem Steers.foldl {m : GpuResourceManager} (h : m.Steers) (moves : List Later) :
    (moves.foldl GpuResourceManager.next m).Steers :=
  List.foldlRecOn moves _ h fun _ hm move _ => hm.next move

/-! ## The first poll -/

/-- The devices whose `Init` succeeds, in order. -/
def bound (pending_devices : List (ℤ × PendingDevice)) : List BoundDevice :=
  pending_devices.filterMap fun p => p.2.init p.1

/-- What the first poll of a new monitor reports of a device. -/
def firstReport (devices : List BoundDevice) (p : FirstPoll) (i : Fin devices.length) : Option ℤ :=
  (monitorOf devices p.sources).report { now := p.now, busy_ms := fun _ => 0 } i

/-- A new monitor has nothing to subtract, whatever it is told. -/
theorem report_monitorOf (devices : List BoundDevice) (p : FirstPoll)
    (busy_ms : Fin devices.length → ℚ) (i : Fin devices.length) :
    (monitorOf devices p.sources).report { now := p.now, busy_ms } i = firstReport devices p i :=
  rfl

/-- The first poll decides afresh. -/
theorem told_monitorOf (devices : List BoundDevice) (p : FirstPoll)
    (busy_ms : Fin devices.length → ℚ) (i : Fin devices.length) (w : WorkerContext) :
    told (monitorOf devices p.sources) { now := p.now, busy_ms } i (w.setOthers none)
      = w.setOthers (firstReport devices p i) := by
  unfold told
  rw [report_monitorOf]
  split_ifs with hchange
  · rfl
  · rw [not_not.mp hchange]
    rfl

/-- The worker at a place is that of the bound device there, with the next id. -/
theorem getElem?_bindDevices (options : Core.Options) (pending_devices : List (ℤ × PendingDevice))
    (next_id i : ℕ) : (bindDevices options next_id pending_devices)[i]?
      = (bound pending_devices)[i]?.map (newWorker options (next_id + i)) := by
  induction pending_devices generalizing next_id i with
  | nil => rfl
  | cons p rest ih =>
    obtain ⟨idx, dev⟩ := p
    unfold bindDevices bound
    rw [List.filterMap_cons]
    cases dev.init idx with
    | none => exact ih next_id i
    | some device =>
      cases i with
      | zero => rfl
      | succ i =>
        rw [List.getElem?_cons_succ, List.getElem?_cons_succ, ih]
        congr 2
        omega

/-- The workers' devices are those that bind, in order. -/
theorem map_device_bindDevices (options : Core.Options)
    (pending_devices : List (ℤ × PendingDevice)) (next_id : ℕ) :
    (bindDevices options next_id pending_devices).map (fun w => w.device)
      = bound pending_devices := by
  refine List.ext_getElem? fun i => ?_
  rw [List.getElem?_map, getElem?_bindDevices, Option.map_map]
  exact Option.map_id'

/-- The worker of a device after the first poll. -/
def polled (options : Core.Options) (devices : List BoundDevice) (p : FirstPoll)
    (i : Fin devices.length) : WorkerContext :=
  (newWorker options i (devices.get i)).setOthers (firstReport devices p i)

/-- **After the first poll** every worker is told what was reported of its device. -/
theorem workers_initContentionMonitor (options : Core.Options)
    (pending_devices : List (ℤ × PendingDevice)) (p : FirstPoll) :
    (initContentionMonitor { workers := bindDevices options 0 pending_devices } p).workers
      = (List.finRange _).map (polled options (bound pending_devices) p) := by
  unfold initContentionMonitor pollMonitor
  dsimp only
  rw [map_device_bindDevices]
  refine List.ext_getElem? fun j => ?_
  rw [List.getElem?_map]
  by_cases hj : j < (bound pending_devices).length
  · have hbound : (bound pending_devices)[j]? = some ((bound pending_devices).get ⟨j, hj⟩) :=
      List.getElem?_eq_getElem hj
    have hfin : (List.finRange (bound pending_devices).length)[j]? = some ⟨j, hj⟩ := by
      rw [List.getElem?_eq_getElem (by rw [List.length_finRange]; exact hj), List.getElem_finRange]
      rfl
    rw [getElem?_foldl_onChange _ _ _ ⟨j, hj⟩, List.getElem?_map, getElem?_bindDevices, hbound,
      hfin, Nat.zero_add]
    exact congrArg some (told_monitorOf _ _ _ _ _)
  · rw [List.getElem?_eq_none, List.getElem?_eq_none (l := List.finRange _)]
    · rfl
    · rw [List.length_finRange]
      exact not_lt.mp hj
    · rw [length_foldl_onChange, List.length_map, ← List.length_map (f := fun w => w.device),
        map_device_bindDevices]
      exact not_lt.mp hj

/-! ## What is kept -/

/-- The first poll finds others on the device. -/
def usedByOthers (devices : List BoundDevice) (p : FirstPoll) (i : Fin devices.length) : Bool :=
  (firstReport devices p i).isSome

/-- A new worker for the device calibrates. -/
def runsKernel (options : Core.Options) (device : BoundDevice) : Bool :=
  (newWorker options 0 device).calibrateBaseLoopCount.2

/-- The devices that are not dropped, by their number among the bound ones. -/
def left (options : Core.Options) (devices : List BoundDevice) (p : FirstPoll) :
    List (Fin devices.length) :=
  (List.finRange devices.length).filter fun i =>
    usedByOthers devices p i || runsKernel options (devices.get i)

/-- Which device a worker is for. -/
def identity (w : WorkerContext) : ℕ × String × DeviceLocator :=
  (w.id, w.device.name, w.device.locator)

/-- A worker is sharing exactly if it has been told a percentage. -/
theorem sharing_setOthers (w : WorkerContext) (percent : Option ℤ) :
    (w.setOthers percent).sharing = percent.isSome := by
  cases percent with
  | none => rfl
  | some percent =>
    have hle := (Round.clamp_mem (x := percent) (Int.natCast_nonneg kGpuMaxLoadPerDevice)).1
    exact decide_eq_true hle

/-- A calibration that reports success is recorded. -/
theorem calibrated_of_ok {w : WorkerContext} (h : w.calibrateBaseLoopCount.2 = true) :
    w.calibrateBaseLoopCount.1.worker.calibrated = true := by
  unfold WorkerContext.calibrateBaseLoopCount at h ⊢
  have hreports := (GpuWorkerContext.calibrateBaseLoopCount_reports.returns
    ((GpuWorkerContext.calibrateBaseLoopCount w.worker).returns_handle w.device.answers
      w.device.state)).2
  have hrun := Prog.handle_eq_run w.device.answers
    (GpuWorkerContext.calibrateBaseLoopCount w.worker) w.device.state []
  rw [Prod.ext_iff] at hrun
  dsimp only at hrun h ⊢
  rw [← hrun.1] at h ⊢
  exact (hreports.succeeded h).2.2

/-- What is kept is the same worker, told the same. -/
theorem keep_eq_some {w w' : WorkerContext} (h : keep w = some w') :
    identity w' = identity w ∧ w'.settings = w.settings ∧
      (w.sharing = true ∨ w'.worker.calibrated = true) := by
  unfold keep at h
  by_cases hsharing : w.sharing = true
  · rw [if_pos hsharing] at h
    cases h
    exact ⟨rfl, rfl, .inl hsharing⟩
  · rw [if_neg hsharing] at h
    dsimp only at h
    by_cases hok : w.calibrateBaseLoopCount.2 = true
    · rw [if_pos hok] at h
      cases h
      exact ⟨rfl, rfl, .inr (calibrated_of_ok hok)⟩
    · rw [if_neg hok] at h
      cases h

/-- Whether a worker is kept after the first poll. -/
theorem isSome_keep_polled (options : Core.Options) (devices : List BoundDevice) (p : FirstPoll)
    (i : Fin devices.length) : (keep (polled options devices p i)).isSome
      = (usedByOthers devices p i || runsKernel options (devices.get i)) := by
  unfold keep polled
  rw [sharing_setOthers]
  change _ = ((firstReport devices p i).isSome || runsKernel options (devices.get i))
  cases (firstReport devices p i).isSome with
  | true => rfl
  | false =>
    rw [if_neg (by decide), Bool.false_or]
    change (if runsKernel options (devices.get i) = true then some _ else none).isSome = _
    cases runsKernel options (devices.get i) <;> rfl

/-- **The workers that are kept**, in order. -/
theorem map_identity_keep (options : Core.Options) (devices : List BoundDevice) (p : FirstPoll) :
    (((List.finRange _).map (polled options devices p)).filterMap keep).map identity
      = (left options devices p).map fun i : Fin devices.length =>
        ((i : ℕ), (devices.get i).name, (devices.get i).locator) := by
  unfold left
  generalize List.finRange devices.length = l
  induction l with
  | nil => rfl
  | cons i l ih =>
    have hkeep := isSome_keep_polled options devices p i
    rw [List.map_cons, List.filterMap_cons, List.filter_cons, ← hkeep]
    cases hw : keep (polled options devices p i) with
    | none => exact ih
    | some w =>
      rw [Option.isSome_some, if_pos rfl, List.map_cons, List.map_cons, ih, (keep_eq_some hw).1]
      rfl

/-- Nobody was dropped: then the workers are the same, told the same. -/
theorem map_keep_of_length {α : Type*} {g : WorkerContext → α}
    (hg : ∀ w w', keep w = some w' → g w' = g w) {workers : List WorkerContext}
    (hlength : (workers.filterMap keep).length = workers.length) :
    (workers.filterMap keep).map g = workers.map g := by
  have hsome := List.filterMap_length_eq_length.mp hlength
  clear hlength
  induction workers with
  | nil => rfl
  | cons w workers ih =>
    obtain ⟨hw, hrest⟩ := List.forall_mem_cons.mp hsome
    obtain ⟨w', hw'⟩ := Option.isSome_iff_exists.mp hw
    rw [List.filterMap_cons_some hw', List.map_cons, List.map_cons, ih hrest, hg w w' hw']

/-! ## `Init` -/

section Init

variable {options : Core.Options} {m : GpuResourceManager} {p : FirstPoll}

/-- What does not look at the others' share does not see a new monitor. -/
theorem map_initContentionMonitor {α : Type*} {g : WorkerContext → α}
    (hg : ∀ w percent, g (w.setOthers percent) = g w) (m : GpuResourceManager) (p : FirstPoll) :
    (m.initContentionMonitor p).workers.map g = m.workers.map g := by
  unfold initContentionMonitor pollMonitor
  dsimp only
  rw [map_foldl_onChange g hg, List.map_map]
  exact List.map_congr_left fun w _ => hg w none

/-- With no worker left the bring-up fails. -/
theorem calibrateWorkers_of_nil (options : Core.Options) (p : FirstPoll)
    (h : m.workers.filterMap keep = []) :
    (m.calibrateWorkers options p).2 = false := by
  unfold calibrateWorkers
  dsimp only
  rw [h]
  rfl

/-- Whoever is left starts with the load asked for, under a monitor that fits. -/
theorem calibrateWorkers_of_ne_nil (options : Core.Options) (p : FirstPoll)
    (h : m.workers.filterMap keep ≠ []) (hm : m.Steers) :
    let r := m.calibrateWorkers options p
    r.2 = true ∧ r.1.Steers ∧
      (∀ w ∈ r.1.workers, w.settings.load_set = loadPercentToBusyMs options.gpu_load.toInt) ∧
      ∀ {α : Type} (g : WorkerContext → α), (∀ w percent, g (w.setOthers percent) = g w) →
        (∀ w load_ms, g (w.setLoadSet load_ms) = g w) →
        r.1.workers.map g = (m.workers.filterMap keep).map g := by
  have hload : ∀ workers : List WorkerContext, ∀ load_ms,
      ∀ w ∈ workers.map fun w => w.setLoadSet load_ms, w.settings.load_set = load_ms := by
    intro workers load_ms w' hw'
    obtain ⟨w, -, rfl⟩ := List.mem_map.mp hw'
    rfl
  unfold calibrateWorkers
  dsimp only
  rw [if_neg (by simpa using h)]
  by_cases hdropped : (m.workers.filterMap keep).length ≠ m.workers.length
  · -- the monitor is built again, over those that are left
    rw [if_pos hdropped]
    obtain ⟨n, monitor, hmonitor, haddresses⟩ := steers_initContentionMonitor
      { m with workers := m.workers.filterMap keep } p
    refine ⟨rfl, ⟨n, monitor, hmonitor, haddresses.congr ?_⟩, hload _ _, ?_⟩
    · rw [List.map_map]
      rfl
    · intro α g hothers hset
      rw [List.map_map]
      exact (List.map_congr_left fun w _ => hset w _).trans (map_initContentionMonitor hothers _ p)
  · -- nobody was dropped, so the monitor of the first poll still fits
    rw [if_neg hdropped]
    obtain ⟨n, monitor, hmonitor, haddresses⟩ := hm
    refine ⟨rfl, ⟨n, monitor, hmonitor, haddresses.congr ?_⟩, hload _ _, ?_⟩
    · rw [List.map_map]
      refine map_keep_of_length ?_ (not_not.mp hdropped)
      intro w w' hw'
      obtain ⟨hidentity, hsettings, -⟩ := keep_eq_some hw'
      unfold identity at hidentity
      rw [Prod.mk.injEq, Prod.mk.injEq] at hidentity
      change (w'.device.name, w'.device.locator, w'.settings.others_percent) = _
      rw [hidentity.2.1, hidentity.2.2, hsettings]
      rfl
    · intro α g hothers hset
      rw [List.map_map]
      exact List.map_congr_left fun w _ => hset w _

/-- The stages of `Init` with a load to run. -/
theorem init_eq (hload : 0 < options.gpu_load.toInt)
    (pending_devices : List (ℤ × PendingDevice)) (first second : FirstPoll) :
    init options pending_devices first second =
      if bound pending_devices = [] then ({}, false)
      else calibrateWorkers options
        (initContentionMonitor { workers := bindDevices options 0 pending_devices } first) second := by
  have hempty : (bindDevices options 0 pending_devices).isEmpty = true ↔
      bound pending_devices = [] := by
    rw [List.isEmpty_iff, ← map_device_bindDevices options pending_devices 0, List.map_eq_nil_iff]
  unfold init
  by_cases hbound : bound pending_devices = []
  · rw [if_pos hbound]
    dsimp only
    rw [if_pos (hempty.mpr hbound)]
    split_ifs <;> rfl
  · have hpending : ¬ pending_devices.isEmpty = true := by
      intro hnil
      rw [List.isEmpty_iff.mp hnil] at hbound
      exact hbound rfl
    rw [if_neg hbound, if_neg hpending, if_neg (by omega)]
    dsimp only
    rw [if_neg (hempty.not.mpr hbound), if_pos hload]

/-- Someone is left after the first poll if some device is. -/
theorem filterMap_keep_eq_nil_iff (options : Core.Options) (devices : List BoundDevice)
    (p : FirstPoll) : ((List.finRange _).map (polled options devices p)).filterMap keep = [] ↔
      left options devices p = [] := by
  have hmap := map_identity_keep options devices p
  constructor
  · intro hnil
    rw [hnil] at hmap
    exact List.map_eq_nil_iff.mp hmap.symm
  · intro hnil
    rw [hnil] at hmap
    exact List.map_eq_nil_iff.mp hmap

/-- A worker that was kept is calibrated, or others use its device. -/
theorem calibrated_or_used {devices : List BoundDevice} {w : WorkerContext}
    (hw : w ∈ ((List.finRange _).map (polled options devices p)).filterMap keep) :
    w.worker.calibrated = true ∨
      ∃ i : Fin devices.length, w.id = i ∧ usedByOthers devices p i = true := by
  obtain ⟨w₀, hw₀, hkeep⟩ := List.mem_filterMap.mp hw
  obtain ⟨i, -, rfl⟩ := List.mem_map.mp hw₀
  obtain ⟨hidentity, -, hsharing | hcalibrated⟩ := keep_eq_some hkeep
  · refine .inr ⟨i, congrArg Prod.fst hidentity, ?_⟩
    rw [polled, sharing_setOthers] at hsharing
    exact hsharing
  · exact .inl hcalibrated

/-- **Bring-up keeps every index consistent.** With a load to run, `Init` fails
exactly when no device is left: none that binds and is in use by others at the first
poll, or calibrates. Otherwise the workers are these devices in order, each calibrated
or in use, with the load asked for and a walk of its own; and from then on the monitor
that is started fits them, whatever the threads do. `Init` is followed through its
three passes, binding, the first poll and the calibration: each keeps some of the
workers in their order, and none touches the settings of those it keeps. -/
theorem bring_up (hload : 0 < options.gpu_load.toInt)
    (pending_devices : List (ℤ × PendingDevice)) (first second : FirstPoll) :
    let devices := bound pending_devices
    let r := init options pending_devices first second
    (r.2 = false ↔ left options devices first = []) ∧
      (r.2 = true →
        (∀ moves : List Later, (moves.foldl GpuResourceManager.next r.1).Steers) ∧
        (∀ (i : ℕ) (w : WorkerContext), r.1.workers[i]? = some w → r.1.ownBusyMs i = w.busyMs) ∧
        (r.1.workers.map identity = (left options devices first).map fun i : Fin devices.length =>
          ((i : ℕ), (devices.get i).name, (devices.get i).locator)) ∧
        (∀ w ∈ r.1.workers, w.worker.calibrated = true ∨
          ∃ i : Fin devices.length, w.id = i ∧ usedByOthers devices first i = true) ∧
        (∀ w ∈ r.1.workers,
          w.settings.load_set = loadPercentToBusyMs options.gpu_load.toInt) ∧
        ∀ (base : List ℤ) (shuffles : ℕ → Cycle.Shuffle ℤ),
          ∃ m, GpuResourceManagerRandomNormal.initFrom base shuffles r = some m ∧
            m.workers = r.1.workers.map (fun w => w.settings) ∧
            m.states.length = r.1.workers.length) := by
  dsimp only
  rw [init_eq hload]
  by_cases hbound : bound pending_devices = []
  · -- no device binds
    rw [if_pos hbound]
    refine ⟨iff_of_true rfl ?_, fun h => absurd h (by decide)⟩
    rw [hbound]
    rfl
  rw [if_neg hbound]
  have hsteers := steers_initContentionMonitor
    { workers := bindDevices options 0 pending_devices } first
  have hworkers := workers_initContentionMonitor options pending_devices first
  have hnil := filterMap_keep_eq_nil_iff options (bound pending_devices) first
  rw [← hworkers] at hnil
  by_cases hleft : left options (bound pending_devices) first = []
  · -- every device that binds is dropped
    have hfalse := calibrateWorkers_of_nil options second (hnil.mpr hleft)
    rw [hfalse]
    exact ⟨iff_of_true rfl hleft, fun h => absurd h (by decide)⟩
  obtain ⟨hok, hfits, hloads, hmap⟩ :=
    calibrateWorkers_of_ne_nil options second (hnil.not.mpr hleft) hsteers
  refine ⟨iff_of_false (by rw [hok]; decide) hleft, fun _ => ⟨hfits.foldl, ?_, ?_, ?_, hloads, ?_⟩⟩
  · intro i w hw
    unfold ownBusyMs
    rw [hw]
  · rw [hmap identity (fun _ _ => rfl) fun _ _ => rfl, hworkers]
    exact map_identity_keep options (bound pending_devices) first
  · intro w hw
    -- setting up the monitor and the load changes neither the id nor the calibration
    have hsame := hmap (fun w => (w.id, w.worker.calibrated)) (fun _ _ => rfl) fun _ _ => rfl
    have hmem := List.mem_map_of_mem (f := fun w : WorkerContext => (w.id, w.worker.calibrated)) hw
    rw [hsame, hworkers] at hmem
    obtain ⟨w₀, hw₀, heq⟩ := List.mem_map.mp hmem
    rw [Prod.mk.injEq] at heq
    rw [← heq.1, ← heq.2]
    exact calibrated_or_used hw₀
  · intro base shuffles
    refine ⟨_, if_pos hok, rfl, ?_⟩
    unfold GpuResourceManagerRandomNormal.init
    rw [List.length_map, List.length_range, List.length_map]

end Init

/-- One device that does not bind, and one that runs ten loops a millisecond. -/
def twoDevices : List (ℤ × PendingDevice) :=
  [(0, ⟨fun _ => none⟩),
    (1, ⟨fun _ => some
      { name := "linear", locator := {}, State := ℚ, state := 0,
        answers := GpuWorkerContext.lineAnswers (1 / 10) 0 }⟩)]

def nobody : FirstPoll := ⟨fun _ => [], 0⟩

/-- The second one is left, as device 0. -/
theorem bring_up_twoDevices :
    (init { gpu_load := 50 } twoDevices nobody nobody).2 = true ∧
      (init { gpu_load := 50 } twoDevices nobody nobody).1.workers.map identity
        = [(0, "linear", {})] := by
  have hload : 0 < ({ gpu_load := 50 } : Core.Options).gpu_load.toInt := by decide
  have hup := bring_up hload twoDevices nobody nobody
  have hleft : left { gpu_load := 50 } (bound twoDevices) nobody = [⟨0, by decide⟩] := by
    decide +kernel
  have hok : (init { gpu_load := 50 } twoDevices nobody nobody).2 = true := by
    rw [← Bool.not_eq_false, hup.1, hleft]
    exact List.cons_ne_nil _ _
  refine ⟨hok, ?_⟩
  rw [(hup.2 hok).2.2.1, hleft]
  rfl

end GpuResourceManager

end Loadmaster.Gpu
