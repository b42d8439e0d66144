/-
**The worker gives a device up exactly when it should** (`Loop` in
`gpu/worker.cc`).

A watcher notes the launches that the loop makes, with their outcomes, whatever
else happens around them. From these alone it tells whether the device is to be
given up: a launch of a deferred calibration has failed, or the last
`kGpuMaxConsecutiveFailures` launches of ticks have. The counter of the loop is
the number of ticks' launches that have failed in a row, and the loop goes on
exactly as long as there is no reason to give up.
-/
import Loadmaster.Gpu.Calibration
import Loadmaster.Gpu.MakeRoom
import Mathlib.Data.List.DropRight

set_option autoImplicit false

namespace Loadmaster.Gpu.GpuWorkerContext

open Effect

/-! ## Reasons to give up -/

/-- The launches of ticks. -/
def tickRuns (runs : List KernelRun) : List KernelRun := runs.filter fun r => r.site = .tick

/-- A launch of a calibration has failed, and the calibration with it. -/
def CalibrationFailed (runs : List KernelRun) : Prop := ∃ r ∈ runs, r.site ≠ .tick ∧ r.ok = false

/-- The last launches of ticks have all failed, as many as are allowed to. -/
def LaunchesFailed (runs : List KernelRun) : Prop :=
  ∃ before last, tickRuns runs = before ++ last ∧ last.length = kGpuMaxConsecutiveFailures ∧
    ∀ r ∈ last, r.ok = false

/-- How many launches of ticks have failed since the last that did not. -/
def failedInARow (runs : List KernelRun) : ℕ := ((tickRuns runs).rtakeWhile fun r => !r.ok).length

variable {runs : List KernelRun} {site : Site} {count : ℤ} {ok : Bool}

/-- Enough failures in a row at the end of a history are counted by its last failures. -/
theorem launchesFailed_iff :
    LaunchesFailed runs ↔ kGpuMaxConsecutiveFailures ≤ failedInARow runs := by
  unfold LaunchesFailed failedInARow
  constructor
  · rintro ⟨before, last, hsplit, hlength, hfailed⟩
    have hall : ∀ r ∈ last.reverse, (!r.ok) = true := by
      intro r hr
      rw [hfailed r (List.mem_reverse.mp hr)]
      rfl
    rw [hsplit, List.rtakeWhile, List.reverse_append, List.takeWhile_append_of_pos hall,
      List.length_reverse, List.length_append, List.length_reverse, hlength]
    exact Nat.le_add_right _ _
  · intro hle
    -- the last of those that failed in a row
    set failed := (tickRuns runs).rtakeWhile fun r => !r.ok with hfailed
    set extra := failed.length - kGpuMaxConsecutiveFailures with hextra
    refine ⟨(tickRuns runs).rdropWhile (fun r => !r.ok) ++ failed.take extra, failed.drop extra,
      ?_, ?_, ?_⟩
    · rw [List.append_assoc, List.take_append_drop, hfailed, List.rdropWhile_append_rtakeWhile]
    · rw [List.length_drop]
      omega
    · intro r hr
      have hmem := List.mem_rtakeWhile_imp (List.mem_of_mem_drop hr)
      simpa using hmem

@[simp] theorem failedInARow_nil : failedInARow [] = 0 := rfl

theorem failedInARow_append_of_ne (h : site ≠ .tick) :
    failedInARow (runs ++ [⟨site, count, ok⟩]) = failedInARow runs := by
  unfold failedInARow tickRuns
  rw [List.filter_append]
  simp [h]

/-- Launches of the calibration do not count, and of a tick's a success ends the row. -/
theorem failedInARow_append_tick : failedInARow (runs ++ [⟨.tick, count, ok⟩])
    = if ok then 0 else failedInARow runs + 1 := by
  unfold failedInARow tickRuns
  rw [List.filter_append]
  cases ok <;> simp

/-- The calibration has failed once a launch of it has. -/
theorem calibrationFailed_append : CalibrationFailed (runs ++ [⟨site, count, ok⟩])
    ↔ CalibrationFailed runs ∨ site ≠ .tick ∧ ok = false := by
  unfold CalibrationFailed
  simp [or_and_right, exists_or]

/-! ## The watcher -/

/-- What is noted of the loop; before it begins, nothing is. -/
structure Attempts where
  in_loop : Bool := false
  stop_read : Bool := false
  runs : List KernelRun := []

namespace Attempts

def see (v : Attempts) : Event Call Answer → Attempts
  | ⟨.stopRequested, stop⟩ => { v with in_loop := true, stop_read := stop }
  | ⟨.runKernel site loop_count _, ok⟩ =>
    if v.in_loop then { v with runs := v.runs ++ [⟨site, loop_count, ok⟩] } else v
  | _ => v

/-- There is a reason to give the device up. -/
def GivesUp (v : Attempts) : Prop := CalibrationFailed v.runs ∨ LaunchesFailed v.runs

/-- It allows no launch once there is a reason to give up. -/
def watch : Watch Call Answer Attempts where
  see := see
  ok := fun v c => match c with
    | .runKernel _ _ _ => ¬ v.GivesUp
    | _ => True

/-- So many launches have failed in a row, and there is no reason to give up. -/
structure Going (failures : ℕ) (v : Attempts) : Prop where
  calibrated : ¬ CalibrationFailed v.runs
  failures_eq : failures = failedInARow v.runs
  few : failures < kGpuMaxConsecutiveFailures

variable {v : Attempts} {failures : ℕ} {w : Worker}

/-- A worker that goes on has no reason to give up. -/
theorem Going.not_givesUp (h : Going failures v) : ¬ v.GivesUp := by
  rintro (hcalibration | hlaunches)
  · exact h.calibrated hcalibration
  · have hle := launchesFailed_iff.mp hlaunches
    rw [← h.failures_eq] at hle
    exact absurd hle (not_le.mpr h.few)

theorem going_empty : Going 0 {} := ⟨by simp [CalibrationFailed], rfl, by decide⟩

/-! ## Calibration -/

section Calibration

/-- What is known inside a calibration: as long as its launches succeed, what was
known before it; once one has failed, that. Before the loop nothing is noted. -/
structure Calibrating (failures : ℕ) (loop stop succeeded : Bool) (v : Attempts) : Prop where
  in_loop : v.in_loop = loop
  stop_read : v.stop_read = stop
  failures_eq : failures = failedInARow v.runs
  few : failures < kGpuMaxConsecutiveFailures
  failed : CalibrationFailed v.runs ↔ succeeded = false ∧ loop = true

variable {loop stop succeeded : Bool}

/-- When the calibration is over the worker goes on as it did before. -/
theorem Calibrating.going (h : Calibrating failures loop stop true v) : Going failures v :=
  ⟨fun hfailed => by simpa using (h.failed.mp hfailed).1, h.failures_eq, h.few⟩

theorem Going.calibrating (h : Going failures v) :
    Calibrating failures v.in_loop v.stop_read true v :=
  ⟨rfl, rfl, h.failures_eq, h.few, by simp [h.calibrated]⟩

/-- One launch of a calibration that has gone well so far. -/
theorem Calibrating.launched (h : Calibrating failures loop stop true v) (hsite : site ≠ .tick)
    (count : ℤ) (ok : Bool) :
    Calibrating failures loop stop ok (watch.see v ⟨.runKernel site count 0, ok⟩) := by
  have hnot := h.going.calibrated
  change Calibrating failures loop stop ok
    (if v.in_loop then { v with runs := v.runs ++ [⟨site, count, ok⟩] } else v)
  cases hloop : v.in_loop with
  | true =>
    rw [if_pos rfl]
    refine ⟨hloop ▸ h.in_loop, h.stop_read, ?_, h.few, ?_⟩
    · exact h.failures_eq.trans (failedInARow_append_of_ne hsite).symm
    · have heq : loop = true := h.in_loop.symm.trans hloop
      change CalibrationFailed (v.runs ++ _) ↔ _
      rw [calibrationFailed_append]
      simp [hnot, hsite, heq]
  | false =>
    have heq : loop = false := h.in_loop.symm.trans hloop
    rw [if_neg (by decide)]
    exact ⟨h.in_loop, h.stop_read, h.failures_eq, h.few, by simp [hnot, heq]⟩

/-- A launch of the calibration that fails is a reason to give up, and one that succeeds
changes nothing. -/
theorem timed_calibrating (hsite : site ≠ .tick) :
    Timed watch site (fun v _ => Calibrating failures loop stop true v)
      fun v _ => Calibrating failures loop stop false v := by
  apply timed
  · exact fun _ => ⟨trivial, fun _ => rfl⟩
  · exact fun v _ _ h => h.going.not_givesUp
  · exact fun v _ count _ h => h.launched hsite count true
  · exact fun v _ count h => h.launched hsite count false

/-- **A calibration** of a worker with a device fails exactly when one of its
launches does, and makes no launch after that. -/
theorem calibrateBaseLoopCount_meets (hdevice : w.has_device = true)
    (h : Calibrating failures loop stop true v) :
    watch.Meets (fun v' r => Calibrating failures loop stop r.2 v') v
      (calibrateBaseLoopCount w) := by
  have hwarm := h.launched (show Site.warmUp ≠ .tick by decide) 1
  apply meets_calibrateBaseLoopCount hdevice (timed_calibrating (by decide))
    (timed_calibrating (by decide)) h.going.not_givesUp (hwarm true) (hwarm false)
    (fun _ => ⟨trivial, fun _ => rfl⟩)
  · exact fun v w h => ⟨trivial, fun _ => h⟩
  · exact fun v w _ _ h => ⟨trivial, fun _ => h⟩

end Calibration

/-! ## The loop -/

/-- What is known between two ticks. -/
def Between (v : Attempts) (s : LoopState) : Prop := Going s.consecutive_failures v

/-- What is known at the end; a worker that was dropped was in no loop. -/
def AtExit (v : Attempts) : Exit → Prop
  | .gaveUp .calibrationFailed _ => v.stop_read = false ∧ CalibrationFailed v.runs
  | .gaveUp .launchesFailed _ => v.stop_read = false ∧ LaunchesFailed v.runs
  | .stopped _ => v.stop_read = true ∧ ¬ v.GivesUp
  | .dropped _ => v.in_loop = false

abbrev Post : Attempts → LoopState ⊕ Exit → Prop := System.Between Between AtExit

/-- The attempts are launches; what happens to the block is not among them. -/
theorem ignoresBlock : IgnoresBlock watch where
  allocate _ _ := ⟨trivial, fun _ => rfl⟩
  release _ := ⟨trivial, fun _ => rfl⟩
  bandwidth _ := ⟨trivial, fun _ => rfl⟩
  log _ _ := ⟨trivial, fun _ => rfl⟩

theorem sleepRest_meets (start : ℚ) : watch.Meets (fun v' _ => v' = v) v (sleepRest start) :=
  meets_sleepRest trivial (fun _ _ => ⟨trivial, fun _ => rfl⟩) fun _ => rfl

/-- Giving up frees the block and makes no launch. -/
theorem giveUp_meets {why : GivenUp} (h : ∀ w, AtExit v (.gaveUp why w)) :
    watch.Meets Post v (do let w ← syncMemory w true; return .inr (.gaveUp why w)) := by
  apply (ignoresBlock.meets_syncMemory true).bind
  rintro v w ⟨rfl, -⟩
  exact h w

/-- **A launch** resets the count or adds to it. -/
theorem launch_meets {s : LoopState} {start : ℚ} {target_ms : ℤ} (hloop : v.in_loop = true)
    (hstop : v.stop_read = false) (h : Between v s) :
    watch.Meets Post v (launch s start target_ms) := by
  unfold launch
  apply (meets_takeTraffic (fun _ _ => ⟨trivial, fun _ => rfl⟩) start target_ms).bind
  rintro v ⟨w, traffic⟩ ⟨rfl, -⟩
  rw [Watch.meets_perform_bind]
  refine ⟨h.not_givesUp, fun ok => ?_⟩
  -- the launch is noted, and it is no launch of a calibration
  set run : KernelRun := ⟨.tick, loopCount w target_ms traffic, ok⟩ with hrun
  have hsee : watch.see v ⟨.runKernel .tick (loopCount w target_ms traffic) traffic, ok⟩
      = { v with runs := v.runs ++ [run] } := if_pos hloop
  have hcalibrated : ¬ CalibrationFailed (v.runs ++ [run]) := by
    rw [hrun, calibrationFailed_append]
    simp [h.calibrated]
  rw [hsee]
  cases ok with
  | true =>
    rw [if_pos rfl, Watch.meets_perform_bind]
    refine ⟨trivial, fun time => ?_⟩
    apply (sleepRest_meets start).bind
    rintro v' - rfl
    have hreset : failedInARow (v.runs ++ [run]) = 0 := failedInARow_append_tick
    exact ⟨hcalibrated, hreset.symm, Nat.zero_lt_succ _⟩
  | false =>
    have hcounted : failedInARow (v.runs ++ [run]) = failedInARow v.runs + 1 :=
      failedInARow_append_tick
    have hfailures : s.consecutive_failures + 1 = failedInARow (v.runs ++ [run]) := by
      rw [hcounted, h.failures_eq]
    rw [if_neg (by decide)]
    dsimp only
    split_ifs with hmany
    · refine ⟨trivial, fun _ => giveUp_meets fun w => ⟨hstop, ?_⟩⟩
      rw [hfailures] at hmany
      exact launchesFailed_iff.mpr hmany
    · exact ⟨trivial, fun _ => ⟨trivial, fun _ => ⟨hcalibrated, hfailures, not_le.mp hmany⟩⟩⟩

/-- **A tick**, whatever it reads. -/
theorem tick_meets {s : LoopState} (h : Between v s) : watch.Meets Post v (tick s) := by
  unfold tick
  rw [Watch.meets_perform_bind]
  refine ⟨trivial, fun stop => ?_⟩
  -- of what the tick reads, only the stop flag is noted
  set v₁ : Attempts := { v with in_loop := true, stop_read := stop } with hv₁
  change watch.Meets Post v₁ _
  have h₁ : Between v₁ s := ⟨h.calibrated, h.failures_eq, h.few⟩
  cases stop with
  | true => exact ⟨rfl, h₁.not_givesUp⟩
  | false =>
    rw [if_neg (by decide), Watch.meets_perform_bind]
    refine ⟨trivial, fun others => ?_⟩
    apply (ignoresBlock.meets_syncMemory _).bind
    rintro v₂ w ⟨rfl, -⟩
    rw [Watch.meets_perform_bind]
    refine ⟨trivial, fun start => ?_⟩
    rw [Watch.meets_perform_bind]
    refine ⟨trivial, fun load_set => ?_⟩
    change watch.Meets Post v₁ (if _ then _ else _)
    split_ifs with hcalibrate hlaunch
    · -- the deferred calibration: out of the loop, or on to a fresh tick
      apply (calibrateBaseLoopCount_meets hcalibrate.2.1 h₁.calibrating).bind
      rintro v₂ ⟨w, ok⟩ h₂
      cases ok with
      | true => exact h₂.going
      | false =>
        exact ⟨trivial, fun _ => giveUp_meets fun w => ⟨h₂.stop_read, h₂.failed.mpr ⟨rfl, rfl⟩⟩⟩
    · exact launch_meets rfl rfl h₁
    · apply (sleepRest_meets start).bind
      rintro v₂ - rfl
      exact h₁

/-- Nothing is noted before the loop, so a worker begins with no failures. -/
theorem start_meets (calibrate_first : Bool) :
    watch.Meets Post {} (start calibrate_first w) := by
  unfold start
  split_ifs
  swap
  · exact going_empty
  cases hdevice : w.has_device with
  | false =>
    rw [calibrateBaseLoopCount_of_no_device hdevice]
    rfl
  | true =>
    apply (calibrateBaseLoopCount_meets hdevice going_empty.calibrating).bind
    rintro v ⟨w, ok⟩ h
    cases ok with
    | true => exact h.going
    | false => exact h.in_loop

/-! ## Every run -/

/-- What a history shows, from the worker's construction on. -/
abbrev attempts (h : List (Event Call Answer)) : Attempts := watch.after {} h

/-- **The worker gives up exactly when it should.** In every run of a worker,
among threads that store its settings and on a device that answers anything,
and with the launches that its loop has made so far:

* between two ticks there is no reason to give up, and the worker's count is
  that of the ticks' launches that failed since the last one that succeeded;
* a loop that has ended gave up exactly when there is a reason to, as it says;
  else a stop was requested;
* no launch is made once there is a reason, and none after the end.

The count of failures that the history shows and the worker's own are kept equal by
every round of the loop (`tick_meets`); `System.reach_inv` takes that to every point
of every interleaving. -/
theorem gives_up_exactly {has_device calibrate_first : Bool} {memory_bytes : ℕ} {c : WorkerConfig}
    (hc : workerSystem.Reaches (newWorker has_device calibrate_first memory_bytes) c) :
    (∀ s, c.thread = .running (.done (.inl s)) →
        ¬ CalibrationFailed (attempts c.history).runs ∧ ¬ LaunchesFailed (attempts c.history).runs ∧
          s.consecutive_failures = failedInARow (attempts c.history).runs) ∧
      (∀ e, c.thread = .ended e → (attempts c.history).in_loop = true →
        ((∃ why w, e = .gaveUp why w) ↔
            CalibrationFailed (attempts c.history).runs ∨
              LaunchesFailed (attempts c.history).runs) ∧
          ((∃ w, e = .stopped w) ↔ (attempts c.history).stop_read = true)) ∧
      (∀ pre site loop_count traffic ok post,
        c.history = pre ++ ⟨.runKernel site loop_count traffic, ok⟩ :: post →
        ¬ CalibrationFailed (attempts pre).runs ∧ ¬ LaunchesFailed (attempts pre).runs) ∧
      ∀ e, c.thread = .ended e → ∀ c', workerSystem.Reaches c c' → c'.history = c.history := by
  have hstart : System.ThreadMeets watch Between AtExit {}
      (newWorker has_device calibrate_first memory_bytes).thread := start_meets calibrate_first
  have hinv := System.reach_inv (fun v s h => tick_meets h) ⟨Watch.allows_nil, hstart⟩ hc
  refine ⟨?_, ?_, ?_, fun e hended c' hc' => (System.ended_stays hended hc').2⟩
  · intro s hs
    have hbetween := hinv.2
    rw [hs] at hbetween
    have hnot := hbetween.not_givesUp
    exact ⟨hbetween.calibrated, fun h => hnot (.inr h), hbetween.failures_eq⟩
  · intro e he hloop
    have hexit := hinv.2
    rw [he] at hexit
    cases e with
    | stopped w => exact ⟨by simpa using not_or.mp hexit.2, by simpa using hexit.1⟩
    | gaveUp why w =>
      cases why with
      | calibrationFailed => exact ⟨by simpa using .inl hexit.2, by simpa using hexit.1⟩
      | launchesFailed => exact ⟨by simpa using .inr hexit.2, by simpa using hexit.1⟩
    | dropped w =>
      have hnot : (attempts c.history).in_loop = false := hexit
      rw [hloop] at hnot
      contradiction
  · intro pre site loop_count traffic ok post hsplit
    exact not_or.mp (hinv.1 pre _ post hsplit)

/-- A worker that gives up after it has calibrated, launched and been refused fifty
times in a row: the launches are the reason, not the calibration. -/
theorem gives_up_exactly_sharedRun :
    ¬ CalibrationFailed (attempts sharedRun.2.2).runs ∧
      LaunchesFailed (attempts sharedRun.2.2).runs := by
  obtain ⟨memory, w, hreach⟩ := sharedRun_reaches
  -- the run is evaluated once
  obtain ⟨hloop, hcalibrated⟩ : (attempts sharedRun.2.2).in_loop = true ∧
      ¬ CalibrationFailed (attempts sharedRun.2.2).runs := by
    unfold CalibrationFailed
    decide +kernel
  have hexact := gives_up_exactly hreach
  exact ⟨hcalibrated, ((hexact.2.1 _ rfl hloop).1.mp ⟨_, w, rfl⟩).resolve_left hcalibrated⟩

end Attempts

end Loadmaster.Gpu.GpuWorkerContext
