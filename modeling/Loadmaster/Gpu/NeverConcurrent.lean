/-
**Calls on a GPU device are never concurrent** (`gpu/device.h`), in any interleaving of
the main thread with the workers' threads and the monitor's, whatever the devices answer
and the polls find.

The device's own worker is the only thread besides the main one that calls it; `Init` is
first and succeeds once, nothing follows the destruction, and a worker is destroyed with
its device only after its thread has been joined.
-/
import Loadmaster.Gpu.ManagerRules

set_option autoImplicit false

namespace Loadmaster.Gpu

open Effect GpuWorkerContext Threads

/-- The device that a call is on; a worker takes its device with it. -/
def calledDevice : GpuCall → Option ℕ
  | .deviceInit d _ | .deviceName d | .deviceLocator d | .destroyDevice d | .destroyWorker d
  | .worker d (.runKernel _ _ _) | .worker d (.allocateMemory _) | .worker d .releaseMemory
  | .worker d .memoryBandwidth => some d
  | _ => none

abbrev GpuEvent := Event (Act GpuCall ThreadId ThreadState) (Threads.Answer GpuAnswer)

/-- Its `Init` has succeeded. -/
def Inited (d : ℕ) (hist : List GpuEvent) : Prop :=
  ∃ idx, ⟨.call (.deviceInit d idx), true⟩ ∈ hist

def Destroyed (d : ℕ) (hist : List GpuEvent) : Prop :=
  ⟨.call (.destroyDevice d), ()⟩ ∈ hist ∨ ⟨.call (.destroyWorker d), ()⟩ ∈ hist

/-- What `gpu/device.h` promises of the calls on each of `n` devices. -/
structure DeviceContract (n : ℕ) (c : gpuThreads.Config) : Prop where
  /-- Calls are never concurrent. -/
  apart : ∀ t t' op op' d, c.Next t op → c.Next t' op' → calledDevice op = some d →
    calledDevice op' = some d → t = t'
  /-- Another thread that calls the device is its worker's, and runs the worker's code. -/
  worker : ∀ t op d, c.Next (some t) op → calledDevice op = some d →
    t = .worker d ∧ ∃ call, op = .worker d call
  /-- In the main thread the worker's code does no more than calibrate. -/
  calibration : ∀ d call, c.Next none (.worker d call) → OfCalibration call
  /-- `Init` has succeeded before, unless this is it or the end of an unusable device. -/
  inited : ∀ t op d, c.Next t op → calledDevice op = some d → (∀ idx, op ≠ .deviceInit d idx) →
    op ≠ .destroyDevice d → Inited d c.history
  init_once : ∀ t d idx, c.Next t (.deviceInit d idx) → ¬ Inited d c.history
  /-- Nothing is called on a device that has been destroyed. -/
  not_destroyed : ∀ t op d, c.Next t op → calledDevice op = some d → ¬ Destroyed d c.history
  /-- Destruction comes after the worker has joined. -/
  joined : ∀ t d, c.Next t (.destroyWorker d) → c.threads (.worker d) = none
  ended : c.main = .done () → (∀ t, c.threads t = none) ∧ ∀ d < n, Destroyed d c.history

section History

variable {n d : ℕ} {hist : List GpuEvent}

/-- What is known at the start. -/
abbrev unbound (n : ℕ) : Held Res ThreadId := idle ⟨Finset.range n, ∅, ∅, ∅⟩

theorem alive_append (e : GpuEvent) (r : Res) :
    (gpuThreads.rules.after (unbound n) (hist ++ [e])).alive r
      = (gpuThreads.see (gpuThreads.rules.after (unbound n) hist) e).alive r := by
  rw [Watch.after_append_singleton]
  rfl

/-- **A device is there until it is destroyed.** -/
theorem device_alive_iff : (gpuThreads.rules.after (unbound n) hist).alive (.device d) ↔
    d < n ∧ ¬ Destroyed d hist := by
  induction hist using List.reverseRecOn with
  | nil =>
    change d ∈ Finset.range n ↔ _
    simp [Destroyed]
  | append_singleton hist e ih =>
    rw [alive_append]
    obtain ⟨act, a⟩ := e
    have hdestroyed : Destroyed d (hist ++ [⟨act, a⟩]) ↔
        Destroyed d hist ∨ Destroyed d [⟨act, a⟩] := by
      unfold Destroyed
      simp only [List.mem_append]
      tauto
    rw [hdestroyed]
    cases act with
    | call c =>
      change (_ ∧ ¬ ends c (.device d)) ∨ makes c a (.device d) ↔ _
      rw [ih]
      cases c <;> simp [ends, makes, Destroyed, eq_comm, and_assoc]
    | start t s =>
      change (gpuThreads.rules.after (unbound n) hist).alive (.device d) ↔ _
      rw [ih]
      simp [Destroyed]
    | join t =>
      change (gpuThreads.rules.after (unbound n) hist).alive (.device d) ↔ _
      rw [ih]
      simp [Destroyed]

theorem inited_append {e : GpuEvent} :
    Inited d (hist ++ [e]) ↔ Inited d hist ∨ ∃ idx, e = ⟨.call (.deviceInit d idx), true⟩ := by
  unfold Inited
  simp only [List.mem_append, List.mem_singleton, exists_or, eq_comm]

/-- A device that is there is ready once its `Init` has succeeded. -/
theorem ready_alive_iff (hdevice : (gpuThreads.rules.after (unbound n) hist).alive (.device d)) :
    (gpuThreads.rules.after (unbound n) hist).alive (.ready d) ↔ Inited d hist := by
  induction hist using List.reverseRecOn with
  | nil =>
    change d ∈ (∅ : Finset ℕ) ↔ _
    simp [Inited]
  | append_singleton hist e ih =>
    rw [alive_append] at hdevice ⊢
    rw [inited_append]
    obtain ⟨act, a⟩ := e
    cases act with
    | call c =>
      -- no call makes a device, so it was there before
      change (_ ∧ ¬ ends c (.device d)) ∨ makes c a (.device d) at hdevice
      change (_ ∧ ¬ ends c (.ready d)) ∨ makes c a (.ready d) ↔ _
      have hbefore : (gpuThreads.rules.after (unbound n) hist).alive (.device d) := by
        rcases hdevice with hdevice | hmakes
        · exact hdevice.1
        · cases c <;> simp [makes] at hmakes
      rw [ih hbefore]
      cases c with
      | deviceInit d' idx => simp [ends, makes, eq_comm, and_comm]
      | destroyWorker d' =>
        have hne : d ≠ d' := fun h => by simp [ends, makes, h] at hdevice
        simp [ends, makes, hne]
      | _ => simp [ends, makes]
    | start t s =>
      rw [show (gpuThreads.see _ ⟨.start t s, a⟩).alive (.ready d) ↔ _ from ih hdevice]
      simp
    | join t =>
      rw [show (gpuThreads.see _ ⟨.join t, a⟩).alive (.ready d) ↔ _ from ih hdevice]
      simp

end History

theorem uses_device {op : GpuCall} {d : ℕ} (h : calledDevice op = some d) :
    gpuThreads.uses op (.device d) = .alone := by
  have hmem : (.device d, .alone) ∈ touched op := by
    unfold calledDevice at h
    split at h <;> simp_all [touched, workerTouched]
  refine accessOf_of_mem ?_ hmem
  unfold calledDevice at h
  split at h <;> simp_all [touched, workerTouched]

theorem uses_ready {op : GpuCall} {d : ℕ} (h : calledDevice op = some d)
    (hinit : ∀ idx, op ≠ .deviceInit d idx) (hdestroy : op ≠ .destroyDevice d) :
    gpuThreads.uses op (.ready d) ≠ .untouched := by
  unfold calledDevice at h
  split at h <;> simp_all [gpuThreads, accessOf, touched, workerTouched, List.find?]

/-- A device's worker is the only thread that may call it. -/
theorem worker_of_madeBy {t : ThreadId} {op : GpuCall} {d : ℕ} (hmay : madeBy (some t) op)
    (hop : calledDevice op = some d) : t = .worker d ∧ ∃ call, op = .worker d call := by
  cases t with
  | worker d' =>
    cases op with
    | worker d'' call =>
      obtain rfl : d'' = d' := hmay
      have hd : d'' = d := by
        unfold calledDevice at hop
        split at hop <;> simp_all
      exact ⟨congrArg ThreadId.worker hd, call, congrArg (GpuCall.worker · call) hd⟩
    | _ => exact hmay.elim
  | monitor k =>
    cases op with
    | viewWorkers | sharing | setOthers | busyMs | pollMonitor | waitMonitor => exact nomatch hop
    | _ => exact hmay.elim

/-- **Calls are never concurrent**, and all else that `gpu/device.h` promises of them:
in every configuration that a manager's life reaches. A rule of ownership is checked
at every call of a manager's life, as the main thread and the workers make it
(`life_meets`); that an interleaving keeps the rule is a fact about threads with
grants (`Family.reaches_orderly`). -/
theorem calls_never_concurrent (options : Core.Options) (has_sources : Bool) (indices : List ℤ)
    (loads : List (List (ℕ × ℤ))) {c : gpuThreads.Config}
    (hreach : gpuThreads.Reaches { main := GpuManager.life options has_sources indices loads } c) :
    DeviceContract indices.length c := by
  have horderly := Family.reaches_orderly threads_keep rfl
    (life_meets options has_sources indices loads) hreach
  have hdevice : ∀ t op d, c.Next t op → calledDevice op = some d →
      (c.held (unbound indices.length)).alive (.device d) := by
    intro t op d hnext hop
    refine horderly.alive t op hnext (.device d) ?_
    rw [uses_device hop]
    decide
  have hworker : ∀ t op d, c.Next (some t) op → calledDevice op = some d →
      t = .worker d ∧ ∃ call, op = .worker d call := fun t op d hnext hop =>
    worker_of_madeBy (horderly.may (some t) op hnext) hop
  -- no thread but the main one makes these
  have hmain : ∀ t op d, c.Next t op → calledDevice op = some d → (∀ call, op ≠ .worker d call) →
      t = none := by
    intro t op d hnext hop hne
    cases t with
    | none => rfl
    | some t =>
      obtain ⟨-, call, hcall⟩ := hworker t op d hnext hop
      exact absurd hcall (hne call)
  constructor
  · -- each of the calls has the device alone, and two such uses clash
    intro t t' op op' d hnext hnext' hop hop'
    by_contra hne
    have hapart := horderly.apart t t' op op' hne hnext hnext' (.device d)
    rw [uses_device hop, uses_device hop'] at hapart
    exact hapart (by decide)
  · exact hworker
  · exact fun d call hnext => horderly.may none _ hnext
  · -- they use what only a successful `Init` makes
    intro t op d hnext hop hinit hdestroy
    refine (ready_alive_iff (hdevice t op d hnext hop)).mp ?_
    exact horderly.alive t op hnext (.ready d) (uses_ready hop hinit hdestroy)
  · -- it would make a second time what is there
    intro t d idx hnext hinited
    obtain rfl := hmain t _ d hnext rfl fun _ => GpuCall.noConfusion
    refine horderly.fresh _ hnext true (.ready d) ⟨rfl, rfl⟩ ?_
    exact (ready_alive_iff (hdevice none _ d hnext rfl)).mpr hinited
  · intro t op d hnext hop
    exact (device_alive_iff.mp (hdevice t op d hnext hop)).2
  · -- a running worker would have the device on loan
    intro t d hnext
    obtain rfl := hmain t _ d hnext rfl fun _ => GpuCall.noConfusion
    refine horderly.gone _ (.worker d) (.device d) hnext fun s => ?_
    have hgrant : gpuThreads.grant (.worker d) s (.device d) = .alone := if_pos rfl
    rw [uses_device rfl, hgrant]
    decide
  · intro hdone
    obtain ⟨hnothing, hgone⟩ := horderly.ended hdone
    rw [hnothing] at hgone
    refine ⟨fun t => hgone t rfl, fun d hd => ?_⟩
    by_contra hnot
    -- nothing is left, so nothing that was there has not been destroyed
    have halive := device_alive_iff.mpr ⟨hd, hnot⟩
    rw [show gpuThreads.rules.after (unbound indices.length) c.history = _ from hnothing] at halive
    exact absurd halive (Finset.notMem_empty d)

theorem reaches_call {c : GpuCall} {k : GpuAnswer c → MainProg Unit} {threads}
    {h : List GpuEvent} {d : gpuThreads.Config} (a : GpuAnswer c)
    (hrest : gpuThreads.Reaches ⟨k a, threads, h ++ [⟨.call c, a⟩]⟩ d) :
    gpuThreads.Reaches ⟨.call (.call c) k, threads, h⟩ d :=
  .head (.call a) hrest

/-- A device that only holds memory: when the manager is told to stop at once, its worker's
thread is about to allocate the block while the main thread is about to tell it. -/
theorem calls_never_concurrent_allocating : ∃ c : gpuThreads.Config,
    gpuThreads.Reaches
        { main := GpuManager.life { gpu_load := 0, gpu_memory_bytes := 4096 } true [0] [] } c ∧
      c.Next (some (.worker 0)) (.worker 0 (.allocateMemory 4096)) ∧
      c.Next none (.requestStop 0) ∧ DeviceContract 1 c := by
  have hreach : ∃ c : gpuThreads.Config,
      gpuThreads.Reaches
          { main := GpuManager.life { gpu_load := 0, gpu_memory_bytes := 4096 } true [0] [] } c ∧
        c.Next (some (.worker 0)) (.worker 0 (.allocateMemory 4096)) ∧
        c.Next none (.requestStop 0) := by
    refine ⟨?c, ?reach, ?next⟩
    case reach =>
      -- the device is bound
      refine reaches_call (c := GpuCall.deviceInit 0 0) true ?_
      refine reaches_call (c := GpuCall.deviceName 0) "gpu" ?_
      refine reaches_call (c := GpuCall.newWorker 0) () ?_
      refine reaches_call (c := GpuCall.setMemoryBytes 0 4096) () ?_
      refine reaches_call (c := GpuCall.changeWorkers) () ?_
      -- the monitor is made, and polled once
      refine reaches_call (c := GpuCall.viewWorkers) () ?_
      refine reaches_call (c := GpuCall.setOthers 0 none) () ?_
      refine reaches_call (c := GpuCall.deviceName 0) "gpu" ?_
      refine reaches_call (c := GpuCall.deviceLocator 0) {} ?_
      refine reaches_call (c := GpuCall.newMonitor 0) () ?_
      refine reaches_call (c := GpuCall.viewWorkers) () ?_
      refine reaches_call (c := GpuCall.busyMs 0) (0 : ℚ) ?_
      refine reaches_call (c := GpuCall.pollMonitor 0) [] ?_
      -- both threads are started
      refine reaches_call (c := GpuCall.viewWorkers) () ?_
      refine .head (Family.Step.start (F := gpuThreads)) ?_
      refine .head (Family.Step.start (F := gpuThreads)) ?_
      refine reaches_call (c := GpuCall.requestMonitorStop 0) () ?_
      refine reaches_call (c := GpuCall.viewWorkers) () ?_
      -- and the worker's begins its first tick
      refine .head (Family.Step.goOn (F := gpuThreads) (t := ThreadId.worker 0)
        (c := GpuCall.worker 0 .stopRequested) rfl false) ?_
      refine .head (Family.Step.goOn (F := gpuThreads) (t := ThreadId.worker 0)
        (c := GpuCall.worker 0 .loadOthers) rfl (-1 : ℤ)) ?_
      exact .refl
    case next => exact ⟨⟨_, rfl⟩, ⟨_, rfl⟩⟩
  obtain ⟨c, hreach, hworker, hmain⟩ := hreach
  exact ⟨c, hreach, hworker, hmain,
    calls_never_concurrent { gpu_load := 0, gpu_memory_bytes := 4096 } true [0] [] hreach⟩

end Loadmaster.Gpu
