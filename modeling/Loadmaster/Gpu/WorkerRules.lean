/-
Rules for the pieces of the worker's loop (`gpu/worker.cc`), for any watcher of
its calls.

What a watcher knows changes with few of the calls. A piece that makes none of
those leaves it as it is, whatever the calls answer; and calibration, which
times launch after launch until one fails, keeps for the watcher whatever a
timed launch keeps.
-/
import Loadmaster.Gpu.Worker

set_option autoImplicit false

namespace Loadmaster.Gpu.GpuWorkerContext

open Effect

variable {V : Type*} {P : Watch Call Answer V} {v : V} {w : Worker}

/-! ## The block, the traffic and the rest of a tick -/

/-- The watcher does not look at what `SyncMemory` does. -/
structure IgnoresBlock (P : Watch Call Answer V) : Prop where
  allocate : ∀ bytes, P.Blind (.allocateMemory bytes)
  release : P.Blind .releaseMemory
  bandwidth : P.Blind .memoryBandwidth
  log : ∀ line, P.Blind (.log line)

/-- **`SyncMemory`** changes the block's flags and the rate of the traffic alone. -/
theorem IgnoresBlock.meets_syncMemory (h : IgnoresBlock P) (sharing : Bool) :
    P.Meets (fun v' w' => v' = v ∧ ∃ held failed rate,
      w' = { w with memory_held := held, memory_failed := failed, traffic_bytes_per_second := rate })
      v (syncMemory w sharing) := by
  unfold syncMemory
  split_ifs
  · exact ⟨rfl, _, _, _, rfl⟩
  · exact h.release.meets_bind fun _ => ⟨rfl, _, _, _, rfl⟩
  · exact ⟨rfl, _, _, _, rfl⟩
  · exact ⟨rfl, _, _, _, rfl⟩
  · -- the first block: its bandwidth is asked for as well
    apply (h.allocate _).meets_bind
    rintro (_ | _)
    · exact (h.log _).meets_bind fun _ => ⟨rfl, _, _, _, rfl⟩
    · exact h.bandwidth.meets_bind fun _ => (h.log _).meets_bind fun _ => ⟨rfl, _, _, _, rfl⟩
  · apply (h.allocate _).meets_bind
    rintro (_ | _)
    · exact (h.log _).meets_bind fun _ => ⟨rfl, _, _, _, rfl⟩
    · exact ⟨rfl, _, _, _, rfl⟩

/-- Traffic is taken while the block is held, and only its clock is set. -/
theorem meets_takeTraffic (hfactor : ∀ ms, P.Blind (.nextFactor ms)) (start : ℚ) (target_ms : ℤ) :
    P.Meets (fun v' r => v' = v ∧ (∃ stepped, r.1 = { w with traffic_stepped_at := stepped }) ∧
      (0 < r.2 → w.memory_held = true)) v (takeTraffic w start target_ms) := by
  unfold takeTraffic
  by_cases hheld : w.memory_held = true
  · rw [if_pos hheld]
    exact (hfactor _).meets_bind fun _ => ⟨rfl, ⟨_, rfl⟩, fun _ => hheld⟩
  · rw [if_neg hheld]
    exact ⟨rfl, ⟨_, rfl⟩, fun hpos => absurd hpos (lt_irrefl 0)⟩

/-- The end of a tick reads the clock once. -/
theorem meets_sleepRest {Q : V → Unit → Prop} {start : ℚ} (hnow : P.ok v .now)
    (hsleep : ∀ time, P.Blind (.sleepUntil time)) (hQ : ∀ time, Q (P.see v ⟨.now, time⟩) ()) :
    P.Meets Q v (sleepRest start) := by
  unfold sleepRest
  refine Watch.meets_perform_bind.mpr ⟨hnow, fun time => ?_⟩
  split_ifs
  · exact (hsleep _).meets_bind fun _ => hQ time
  · exact hQ time

/-! ## Calibration -/

section Calibration

variable {I F : V → Worker → Prop} {count : ℤ} {elapsed : ℚ} {β : Type}

/-- What a piece comes back with: a result and `I`, or none and `F`, because a
launch has failed. -/
def Comes (I F : V → Worker → Prop) (v : V) : Worker × Option β → Prop
  | (w, some _) => I v w
  | (w, none) => F v w

/-- A timed launch in `I` stays there, or fails and ends in `F`. -/
def Timed (P : Watch Call Answer V) (site : Site) (I F : V → Worker → Prop) : Prop :=
  ∀ v w count, I v w → P.Meets (Comes I F) v (timeKernelMs site w count)

/-- **The rule for a timed launch**, of a watcher that does not look at the clock. -/
theorem timed {site : Site} (hnow : P.Blind .now)
    (hok : ∀ v w count, I v w → P.ok v (.runKernel site count 0))
    (hran : ∀ v w count elapsed, I v w →
      I (P.see v ⟨.runKernel site count 0, true⟩) (w.addBusy elapsed))
    (hfailed : ∀ v w count, I v w → F (P.see v ⟨.runKernel site count 0, false⟩) w) :
    Timed P site I F := by
  intro v w count h
  unfold timeKernelMs
  refine hnow.meets_bind fun start => Watch.meets_perform_bind.mpr ⟨hok v w count h, ?_⟩
  rintro (_ | _)
  · exact Watch.meets_pure.mpr (hfailed v w count h)
  · exact hnow.meets_bind fun stop => Watch.meets_pure.mpr (hran v w count _ h)

theorem meets_medianKernelMs (htime : Timed P .refining I F) (h : I v w) :
    P.Meets (Comes I F) v (medianKernelMs w count) := by
  unfold medianKernelMs
  -- three times: a timed launch, and out if it failed
  apply (htime v w count h).bind
  rintro v ⟨w, _ | a⟩ h
  · exact Watch.meets_pure.mpr h
  apply (htime v w count h).bind
  rintro v ⟨w, _ | b⟩ h
  · exact Watch.meets_pure.mpr h
  apply (htime v w count h).bind
  rintro v ⟨w, _ | c⟩ h
  · exact Watch.meets_pure.mpr h
  · exact Watch.meets_pure.mpr h

theorem meets_growSample (htime : Timed P .growing I F) (h : I v w) (hcount : 0 < count) :
    P.Meets (Comes I F) v (growSample w count hcount) := by
  -- the induction is the loop's own, on how far the count is from its maximum
  fun_induction growSample w count hcount generalizing v with
  | case1 w count hcount ih =>
    apply (htime v w count h).bind
    rintro v ⟨w, _ | elapsed⟩ h
    · exact Watch.meets_pure.mpr h
    · dsimp only
      split_ifs with hlong
      · exact Watch.meets_pure.mpr h
      · exact ih _ _ hlong h

theorem meets_refineCount (htime : Timed P .refining I F) (h : I v w) (rounds : ℕ) :
    P.Meets (Comes I F) v (refineCount w rounds count elapsed) := by
  induction rounds generalizing v w count elapsed with
  | zero => exact Watch.meets_pure.mpr h
  | succ rounds ih =>
    apply (meets_medianKernelMs htime h).bind
    rintro v ⟨w, _ | elapsed⟩ h
    · exact Watch.meets_pure.mpr h
    · dsimp only
      split_ifs
      · exact Watch.meets_pure.mpr h
      · exact ih h

/-- Without a device there is nothing to calibrate. -/
theorem calibrateBaseLoopCount_of_no_device (h : w.has_device = false) :
    calibrateBaseLoopCount w = pure (w, false) := by
  unfold calibrateBaseLoopCount
  exact if_pos (by simp [h])

/-- **The rule for a calibration** of a worker with a device: what a timed launch
keeps holds up to the line that it ends with. -/
theorem meets_calibrateBaseLoopCount {Q : V → Worker × Bool → Prop}
    (hdevice : w.has_device = true) (hgrow : Timed P .growing I F) (hrefine : Timed P .refining I F)
    (hok : P.ok v (.runKernel .warmUp 1 0))
    (hran : I (P.see v ⟨.runKernel .warmUp 1 0, true⟩) w)
    (hfailed : F (P.see v ⟨.runKernel .warmUp 1 0, false⟩) w)
    (hfast : P.Blind (.log .tooFast))
    (hout : ∀ v w, F v w →
      P.Meets Q v (do log .launchFailedDuringCalibration; return (w, false)))
    (hdone : ∀ v w base elapsed, I v w → P.Meets Q v (do
      log (.calibrated base elapsed)
      return ({ w with base_loop_count := base, calibrated := true }, true))) :
    P.Meets Q v (calibrateBaseLoopCount w) := by
  unfold calibrateBaseLoopCount
  rw [if_neg (by simp [hdevice])]
  refine Watch.meets_perform_bind.mpr ⟨hok, ?_⟩
  rintro (_ | _)
  · exact hout _ w hfailed
  apply (meets_growSample hgrow hran _).bind
  rintro v ⟨w, _ | ⟨count, elapsed⟩⟩ h
  · exact hout v w h
  apply (meets_refineCount hrefine h _).bind
  rintro v ⟨w, _ | ⟨count, elapsed⟩⟩ h
  · exact hout v w h
  dsimp only
  split_ifs
  · exact hfast.meets_bind fun _ => hdone v w _ elapsed h
  · exact hdone v w _ elapsed h

end Calibration

end Loadmaster.Gpu.GpuWorkerContext
