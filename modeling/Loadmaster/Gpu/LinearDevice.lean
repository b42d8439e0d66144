/-
A worker on a device whose launches take time in proportion to the loops and to
the memory they move (`gpu/worker.cc`, exact arithmetic). Three feedbacks act in
every tick: the loop count leaves room for the traffic, the fit learns what the
traffic costs, and the base loop count follows the speed of the loop alone.
Once calibrated they stand still, whatever the traffic is.

The feedbacks come first, as functions of one launch. A watcher of the tick's
calls then says which launch a tick of the program makes and how long it took.
-/
import Loadmaster.Gpu.TrafficCost
import Loadmaster.Gpu.WorkerRules

set_option autoImplicit false

namespace Loadmaster.Gpu.GpuWorkerContext

open Effect

/-! ## The device -/

/-- A loop takes `a` ms and a MiB takes `c` ms; `loops` of them fill a period. -/
structure LinearDevice where
  a : ℚ
  c : ℚ
  loops : ℕ
  a_pos : 0 < a
  c_nonneg : 0 ≤ c
  period : loops * a = kScheduleIntervalMS
  loops_ge : 200 ≤ loops
  loops_le : loops ≤ kGpuKernelLoopBaseMax

/-- What a tick asks for. -/
structure Demand where
  target_ms : ℤ
  traffic : ℕ
deriving DecidableEq, Repr

namespace LinearDevice

variable (d : LinearDevice)

def launchMs (loop_count : ℤ) (traffic : ℕ) : ℚ := d.a * loop_count + d.c * mebibytes traffic

/-- A tick with a busy time to fill and with traffic that costs half of it at
most. -/
structure Allowed (t : Demand) : Prop where
  target_pos : 1 ≤ t.target_ms
  target_le : t.target_ms ≤ 100
  traffic_ne : t.traffic ≠ 0
  cost_le : d.c * mebibytes t.traffic ≤ t.target_ms / 2

/-- The launch of a tick. -/
def tickLoops (w : Worker) (t : Demand) : ℤ := loopCount w t.target_ms t.traffic

/-- A tick's launch, and what the worker learns from the time it takes. -/
def tickWorker (w : Worker) (t : Demand) : Worker :=
  learn w (tickLoops w t) t.traffic (d.launchMs (tickLoops w t) t.traffic)

/-- The fit holds launches that took what their traffic costs on top of their
loops, and no others. -/
def FitHolds (f : MemCostFit) : Prop :=
  ∃ mibs : List ℚ, (∀ mib ∈ mibs, 0 < mib) ∧
    f = mibs.foldl (fun f mib => Worker.MemCostFit.add f mib (d.c * mib)) {}

structure Calibrated (w : Worker) : Prop where
  calibrated : w.calibrated = true
  base : w.base_loop_count = d.loops
  cost : w.mem_ms_per_mib = d.c
  fit : d.FitHolds w.mem_cost_fit

variable {d} {w : Worker} {t : Demand} {f : MemCostFit}

/-- A loop takes half a millisecond at most, as a period has 200 loops or more. -/
theorem a_le_half : d.a ≤ 1 / 2 := by
  have hloops : (200 : ℚ) ≤ d.loops := by exact_mod_cast d.loops_ge
  have hperiod := d.period
  have hmul := mul_le_mul_of_nonneg_right hloops d.a_pos.le
  rw [hperiod] at hmul
  unfold kScheduleIntervalMS at hmul
  norm_num at hmul
  linarith

theorem mebibytes_pos {traffic : ℕ} (h : traffic ≠ 0) : 0 < mebibytes traffic := by
  have htraffic : (0 : ℚ) < traffic := by exact_mod_cast Nat.pos_of_ne_zero h
  unfold mebibytes kMebiByte
  positivity

/-! ## The fit -/

/-- The sums of launches on the line through 0 with slope `c`. -/
structure OnLine (c : ℚ) (f : MemCostFit) : Prop where
  y_eq : f.y = c * f.x
  xy_eq : f.xy = c * f.xx
  w_nonneg : 0 ≤ f.w
  x_nonneg : 0 ≤ f.x

/-- A launch on the line keeps the sums on it, and makes them positive. -/
theorem OnLine.add {c mib : ℚ} (h : OnLine c f) (hmib : 0 < mib) :
    OnLine c (Worker.MemCostFit.add f mib (c * mib)) ∧
      0 < (Worker.MemCostFit.add f mib (c * mib)).w ∧
      0 < (Worker.MemCostFit.add f mib (c * mib)).x := by
  obtain ⟨hw', hx'⟩ := MemCostFit.add_pos (c * mib) h.w_nonneg h.x_nonneg hmib
  refine ⟨⟨?_, ?_, hw'.le, hx'.le⟩, hw', hx'⟩
  · change f.y * (1 - kGpuMemCostForget) + c * mib = c * (f.x * (1 - kGpuMemCostForget) + mib)
    rw [h.y_eq]
    ring
  · change f.xy * (1 - kGpuMemCostForget) + mib * (c * mib)
      = c * (f.xx * (1 - kGpuMemCostForget) + mib * mib)
    rw [h.xy_eq]
    ring

/-- A fit that holds launches of the device is on the device's line. -/
theorem FitHolds.onLine (h : d.FitHolds f) : OnLine d.c f := by
  obtain ⟨mibs, hpos, rfl⟩ := h
  refine List.foldlRecOn mibs _ ⟨by simp, by simp, le_rfl, le_rfl⟩ ?_
  intro f hf mib hmib
  exact (hf.add (hpos mib hmib)).1

/-- A fit that holds launches of the device can hold one more. -/
theorem FitHolds.add {mib : ℚ} (h : d.FitHolds f) (hmib : 0 < mib) :
    d.FitHolds (Worker.MemCostFit.add f mib (d.c * mib)) := by
  obtain ⟨mibs, hpos, rfl⟩ := h
  refine ⟨mibs ++ [mib], ?_, by rw [List.foldl_append]; rfl⟩
  intro x hx
  rcases List.mem_append.mp hx with hx | hx
  · exact hpos x hx
  · rw [List.mem_singleton.mp hx]
    exact hmib

/-- It is the line with no intercept. -/
theorem OnLine.follows {c : ℚ} (h : OnLine c f) : MemCostFit.Follows c 0 f where
  y_eq := by rw [h.y_eq, zero_mul, add_zero]
  xy_eq := by rw [h.xy_eq, zero_mul, add_zero]

/-- **What the fit makes of the cost**: it stays, or it is learnt anew as the
same. -/
theorem updateMemCost_cost {c mib : ℚ} (h : OnLine c w.mem_cost_fit) (hmib : 0 < mib)
    (hcost : w.mem_ms_per_mib = c) :
    (w.updateMemCost mib (c * mib)).mem_ms_per_mib = c := by
  obtain ⟨hline, hw, hx⟩ := h.add hmib
  rcases @updateMemCost_cases w mib (c * mib) with ⟨htells, heq⟩ | ⟨-, heq⟩
  · rw [heq]
    exact hline.follows.slope hw (htells.varX_pos hw hx).ne'
  · rw [heq]
    exact hcost

/-! ## A tick -/

/-- The traffic's cost leaves at least half of the budget to the loop. -/
theorem tickLoops_eq (hw : d.Calibrated w) (ht : d.Allowed t) :
    tickLoops w t = ⌊(t.target_ms - d.c * mebibytes t.traffic) / d.a⌋ := by
  have ha := d.a_pos
  have hhalf := a_le_half (d := d)
  have hloops : (d.loops : ℚ) = kScheduleIntervalMS / d.a := by
    rw [eq_div_iff ha.ne']
    exact d.period
  have hcost := mul_nonneg d.c_nonneg (mebibytes_pos ht.traffic_ne).le
  have htarget : (1 : ℚ) ≤ t.target_ms := by exact_mod_cast ht.target_pos
  have hle := ht.cost_le
  have hclamp : Round.clamp (w.mem_ms_per_mib * mebibytes t.traffic) 0
      (t.target_ms * kGpuMemCostMaxShare) = d.c * mebibytes t.traffic := by
    have hshare : (t.target_ms : ℚ) * kGpuMemCostMaxShare = t.target_ms / 2 := by
      unfold kGpuMemCostMaxShare
      ring
    rw [hw.cost, hshare, Round.clamp_eq (by linarith), min_eq_left hle, max_eq_right hcost]
  have hscaled : (w.base_loop_count : ℚ) * (t.target_ms - d.c * mebibytes t.traffic)
      / kScheduleIntervalMS = (t.target_ms - d.c * mebibytes t.traffic) / d.a := by
    rw [hw.base, Int.cast_natCast, hloops]
    unfold kScheduleIntervalMS
    field_simp
  have hone : 1 ≤ (t.target_ms - d.c * mebibytes t.traffic) / d.a := by
    rw [le_div_iff₀ ha]
    linarith
  unfold tickLoops loopCount
  dsimp only
  rw [hclamp, hscaled, max_eq_left hone]

/-- **The launch fills the budget**, to within one loop. -/
theorem launchMs_mem (hw : d.Calibrated w) (ht : d.Allowed t) :
    t.target_ms - d.a < d.launchMs (tickLoops w t) t.traffic ∧
      d.launchMs (tickLoops w t) t.traffic ≤ t.target_ms := by
  have ha := d.a_pos
  set x := (t.target_ms - d.c * mebibytes t.traffic) / d.a with hx
  have hfull : d.a * x = t.target_ms - d.c * mebibytes t.traffic := by
    rw [hx]
    field_simp
  have hlo := mul_lt_mul_of_pos_left (Int.sub_one_lt_floor x) ha
  have hhi := mul_le_mul_of_nonneg_left (Int.floor_le x) ha.le
  unfold launchMs
  rw [tickLoops_eq hw ht, ← hx]
  constructor <;> linarith

/-- The loop took what the base loop count says, so the drift is none. -/
theorem adaptBaseLoopCount_exact {alu_ms : ℚ} (w : Worker) :
    w.adaptBaseLoopCount alu_ms alu_ms = w := by
  unfold Worker.adaptBaseLoopCount
  split_ifs with hshort
  · rfl
  · have hpos : 0 < alu_ms := by
      by_contra h
      exact hshort (.inr (not_lt.mp h))
    dsimp only
    rw [if_pos]
    rw [div_self hpos.ne', sub_self, abs_zero]
    norm_num [kGpuAdaptDeadband]

/-- **One tick** leaves a calibrated worker calibrated. -/
theorem Calibrated.after_launch (hw : d.Calibrated w) (ht : d.Allowed t) :
    d.Calibrated (d.tickWorker w t) := by
  have hmib := mebibytes_pos ht.traffic_ne
  have halu : (tickLoops w t : ℚ) * kScheduleIntervalMS / w.base_loop_count
      = d.a * tickLoops w t := by
    have hloops : (d.loops : ℚ) ≠ 0 := by
      have := d.loops_ge
      exact_mod_cast (by omega : d.loops ≠ 0)
    rw [hw.base, Int.cast_natCast, ← d.period]
    field_simp
  have hresidual : d.launchMs (tickLoops w t) t.traffic - d.a * tickLoops w t
      = d.c * mebibytes t.traffic := by
    unfold launchMs
    ring
  -- the worker with the launch counted as busy time and in the fit
  set w₁ := (w.addBusy (d.launchMs (tickLoops w t) t.traffic)).updateMemCost
    (mebibytes t.traffic) (d.c * mebibytes t.traffic) with hw₁
  have hcost : w₁.mem_ms_per_mib = d.c :=
    updateMemCost_cost hw.fit.onLine hmib hw.cost
  have htick : d.tickWorker w t = w₁ := by
    have hrest : d.launchMs (tickLoops w t) t.traffic - max w₁.mem_ms_per_mib 0
        * mebibytes t.traffic = d.a * tickLoops w t := by
      rw [hcost, max_eq_left d.c_nonneg]
      linarith
    unfold tickWorker learn
    dsimp only
    rw [if_pos ht.traffic_ne, halu, hresidual, ← hw₁, hrest]
    exact adaptBaseLoopCount_exact w₁
  rw [htick]
  -- the update writes the fit and the cost alone
  obtain ⟨cost, hframe⟩ := Worker.updateMemCost_frame
    (w.addBusy (d.launchMs (tickLoops w t) t.traffic)) (mebibytes t.traffic)
    (d.c * mebibytes t.traffic)
  refine ⟨?_, ?_, hcost, ?_⟩
  · rw [hw₁, hframe]
    exact hw.calibrated
  · rw [hw₁, hframe]
    exact hw.base
  · rw [hw₁, hframe]
    exact hw.fit.add hmib

/-! ## What a tick's calls say -/

/-- What a tick reads before it launches, its launch, and the first reading of
the clock after it. -/
structure Ledger where
  others : ℤ := -1
  start : ℚ := 0
  load_set : ℤ := 0
  launched : Option (ℤ × ℕ × Bool) := none
  stop : Option ℚ := none
deriving DecidableEq

namespace Ledger

def see (v : Ledger) : Event Call Answer → Ledger
  | ⟨.loadOthers, others⟩ => { v with others }
  | ⟨.loadLoadSet, load_set⟩ => { v with load_set }
  | ⟨.runKernel .tick loop_count traffic, ok⟩ =>
    { v with launched := some (loop_count, traffic, ok) }
  | ⟨.now, time⟩ =>
    if v.launched = none then { v with start := time }
    else { v with stop := v.stop.or (some time) }
  | _ => v

/-- It allows every call: what counts is what it has seen. -/
def watch : Watch Call Answer Ledger where
  see := see
  ok _ _ := True

def target_ms (v : Ledger) : ℤ := max 0 (leftOver v.load_set v.others)

end Ledger

def ledger (h : List (Event Call Answer)) : Ledger := Ledger.watch.after {} h

/-- The calls of a tick whose launch succeeds, takes its time on the device, and
is one of a demand that is allowed. -/
def LaunchedIn (d : LinearDevice) (h : List (Event Call Answer)) (t : Demand) (loop_count : ℤ) :
    Prop :=
  d.Allowed t ∧ (ledger h).target_ms = t.target_ms ∧
    (ledger h).launched = some (loop_count, t.traffic, true) ∧
    (ledger h).stop = some ((ledger h).start + d.launchMs loop_count t.traffic)

/-- Rounds of the loop, one after the other, with the calls of each. -/
def Rounds : LoopState → List (List (Event Call Answer)) → LoopState → Prop
  | s, [], s' => s = s'
  | s, h :: hs, s' => ∃ s₁, (tick s).Returns h (.inl s₁) ∧ Rounds s₁ hs s'

/-- The fields that a launch goes by. -/
structure SameFit (w w' : Worker) : Prop where
  calibrated : w'.calibrated = w.calibrated
  base : w'.base_loop_count = w.base_loop_count
  cost : w'.mem_ms_per_mib = w.mem_ms_per_mib
  fit : w'.mem_cost_fit = w.mem_cost_fit

theorem SameFit.trans {w₁ w₂ w₃ : Worker} (h : SameFit w₁ w₂) (h' : SameFit w₂ w₃) :
    SameFit w₁ w₃ where
  calibrated := h'.calibrated.trans h.calibrated
  base := h'.base.trans h.base
  cost := h'.cost.trans h.cost
  fit := h'.fit.trans h.fit

/-- Being calibrated is a matter of the fit, the base and the cost alone. -/
theorem Calibrated.of_sameFit {w' : Worker} (hw : d.Calibrated w) (h : SameFit w w') :
    d.Calibrated w' where
  calibrated := h.calibrated.trans hw.calibrated
  base := h.base.trans hw.base
  cost := h.cost.trans hw.cost
  fit := by
    rw [h.fit]
    exact hw.fit

/-- What a tick that goes on has learnt from its launch, if it made one. -/
def Learnt (w : Worker) (v : Ledger) : LoopState ⊕ Exit → Prop
  | .inl s => ∀ loop_count traffic, v.launched = some (loop_count, traffic, true) →
      ∃ w' time, SameFit w w' ∧ v.stop = some time ∧
        loop_count = loopCount w' v.target_ms traffic ∧
        s.worker = learn w' loop_count traffic (time - v.start)
  | .inr _ => True

variable {v : Ledger} {s : LoopState}

/-- The ledger is about times and launches, so what happens to the block does not show
in it. -/
theorem Ledger.ignoresBlock : IgnoresBlock Ledger.watch where
  allocate _ _ := ⟨trivial, fun _ => rfl⟩
  release _ := ⟨trivial, fun _ => rfl⟩
  bandwidth _ := ⟨trivial, fun _ => rfl⟩
  log _ _ := ⟨trivial, fun _ => rfl⟩

theorem syncMemory_meets (sharing : Bool) :
    Ledger.watch.Meets (fun v' w' => v' = v ∧ SameFit w w') v (syncMemory w sharing) := by
  refine (Ledger.ignoresBlock.meets_syncMemory sharing).mono ?_
  rintro _ _ ⟨rfl, _, _, _, rfl⟩
  exact ⟨rfl, rfl, rfl, rfl, rfl⟩

/-- Taking the traffic of a tick keeps the fit, as syncing the block does. -/
theorem takeTraffic_meets {start : ℚ} {target_ms : ℤ} :
    Ledger.watch.Meets (fun v' r => v' = v ∧ SameFit w r.1) v (takeTraffic w start target_ms) := by
  refine (meets_takeTraffic (fun _ _ => ⟨trivial, fun _ => rfl⟩) start target_ms).mono ?_
  rintro _ ⟨_, traffic⟩ ⟨rfl, ⟨stepped, rfl⟩, -⟩
  exact ⟨rfl, rfl, rfl, rfl, rfl⟩

/-- Once the reading after a launch is known, a later one tells nothing. -/
theorem Ledger.see_now {time : ℚ} (hlaunched : v.launched ≠ none) (hstop : v.stop ≠ none) :
    Ledger.watch.see v ⟨.now, time⟩ = v := by
  obtain ⟨stop, hstop⟩ := Option.ne_none_iff_exists'.mp hstop
  change (if v.launched = none then _ else _) = v
  rw [if_neg hlaunched, hstop, Option.some_or, ← hstop]

/-- The rest of a period is slept away, and only the clock moves. -/
theorem sleepRest_meets {Q : Ledger → Unit → Prop} {start : ℚ}
    (hQ : ∀ time, Q (Ledger.watch.see v ⟨.now, time⟩) ()) :
    Ledger.watch.Meets Q v (sleepRest start) :=
  meets_sleepRest trivial (fun _ _ => ⟨trivial, fun _ => rfl⟩) hQ

/-- A launch is begun and ended at times that the ledger has, and what the worker learns
is computed from these. -/
theorem launch_meets {start : ℚ} {target_ms : ℤ} (hnone : v.launched = none) (hstop : v.stop = none)
    (hstart : v.start = start) (htarget : v.target_ms = target_ms) :
    Ledger.watch.Meets (Learnt s.worker) v (launch s start target_ms) := by
  subst hstart htarget
  unfold launch
  apply takeTraffic_meets.bind
  rintro v ⟨w, traffic⟩ ⟨rfl, hsame⟩
  rw [Watch.meets_perform_bind]
  refine ⟨trivial, ?_⟩
  intro ok
  -- what the ledger holds after the launch
  set v₁ := Ledger.watch.see v ⟨.runKernel .tick (loopCount w v.target_ms traffic) traffic, ok⟩
    with hv₁
  by_cases hran : ok = true
  · rw [if_pos hran, Watch.meets_perform_bind]
    refine ⟨trivial, ?_⟩
    intro time
    have hseen : Ledger.watch.see v₁ ⟨.now, time⟩ = { v₁ with stop := some time } := by
      change (if v₁.launched = none then { v₁ with start := time }
        else { v₁ with stop := v₁.stop.or (some time) }) = _
      rw [if_neg (by simp [hv₁, Ledger.watch, Ledger.see])]
      simp [hv₁, Ledger.watch, Ledger.see, hstop]
    rw [hseen]
    have hdone : ∀ failures, Learnt s.worker { v₁ with stop := some time } (.inl
        { worker := learn w (loopCount w v.target_ms traffic) traffic (time - v.start)
          consecutive_failures := failures }) := by
      intro failures loop_count traffic' hlaunched
      obtain ⟨rfl, rfl, -⟩ : loopCount w v.target_ms traffic = loop_count ∧ traffic = traffic' ∧
          ok = true := by simpa [hv₁, Ledger.watch, Ledger.see] using hlaunched
      exact ⟨w, time, hsame, rfl, rfl, rfl⟩
    apply (sleepRest_meets (Q := fun v' _ => v' = { v₁ with stop := some time }) ?_).bind
    · rintro v' - rfl
      exact hdone 0
    · intro time'
      exact Ledger.see_now (v := { v₁ with stop := some time })
        (by simp [hv₁, Ledger.watch, Ledger.see]) (by simp)
  · rw [if_neg hran]
    have hfailed : ∀ (v' : Ledger) loop_count traffic', v'.launched = v₁.launched →
        v'.launched ≠ some (loop_count, traffic', true) := by
      intro v' loop_count traffic' heq
      simp [heq, hv₁, Ledger.watch, Ledger.see, hran]
    dsimp only
    split_ifs
    · refine ⟨trivial, fun _ => ?_⟩
      apply (syncMemory_meets true).bind
      rintro v' w' -
      trivial
    · refine ⟨trivial, fun _ => ⟨trivial, fun _ => ?_⟩⟩
      intro loop_count traffic' hlaunched
      exact absurd hlaunched (hfailed _ _ _ rfl)

/-- **A tick of a calibrated worker**, whatever it reads. -/
theorem tick_meets (hw : s.worker.calibrated = true) :
    Ledger.watch.Meets (Learnt s.worker) {} (tick s) := by
  unfold tick
  rw [Watch.meets_perform_bind]
  refine ⟨trivial, ?_⟩
  intro stop
  split_ifs
  · trivial
  rw [Watch.meets_perform_bind]
  refine ⟨trivial, ?_⟩
  intro others
  apply (syncMemory_meets _).bind
  rintro v w ⟨rfl, hsame⟩
  rw [Watch.meets_perform_bind]
  refine ⟨trivial, ?_⟩
  intro start
  rw [Watch.meets_perform_bind]
  refine ⟨trivial, ?_⟩
  intro load_set
  change Ledger.watch.Meets _ { others, start, load_set } _
  dsimp only
  split_ifs with hcalibrate hlaunch
  · -- it is calibrated already
    rw [hsame.calibrated, hw] at hcalibrate
    exact absurd hcalibrate.2.2 (by decide)
  · have hlearnt := launch_meets (v := { others, start, load_set }) (s := { s with worker := w })
      rfl rfl rfl rfl
    refine hlearnt.mono ?_
    rintro v' (s' | e) h
    · intro loop_count traffic hlaunched
      obtain ⟨w', time, hsame', hrest⟩ := h loop_count traffic hlaunched
      exact ⟨w', time, hsame.trans hsame', hrest⟩
    · trivial
  · apply (sleepRest_meets (Q := fun v' _ => v'.launched = none) ?_).bind
    · rintro v' - hnone loop_count traffic hlaunched
      rw [hnone] at hlaunched
      contradiction
    · intro time
      rfl

/-- **One tick of the program**: its launch fills the budget, and the worker is
calibrated as before. -/
theorem Calibrated.after_tick {s' : LoopState} {h : List (Event Call Answer)} {loop_count : ℤ}
    (hw : d.Calibrated s.worker) (hret : (tick s).Returns h (.inl s'))
    (hin : d.LaunchedIn h t loop_count) :
    d.Calibrated s'.worker ∧ t.target_ms - d.a < d.launchMs loop_count t.traffic ∧
      d.launchMs loop_count t.traffic ≤ t.target_ms := by
  obtain ⟨hallowed, htarget, hlaunched, hstop⟩ := hin
  obtain ⟨w', time, hsame, htime, hloops, hlearn⟩ :=
    ((tick_meets hw.calibrated).returns hret).2 loop_count t.traffic hlaunched
  have hw' := hw.of_sameFit hsame
  change (ledger h).stop = some time at htime
  change loop_count = loopCount w' (ledger h).target_ms t.traffic at hloops
  rw [htarget] at hloops
  change s'.worker = learn w' loop_count t.traffic (time - (ledger h).start) at hlearn
  have helapsed : time - (ledger h).start = d.launchMs loop_count t.traffic := by
    rw [hstop] at htime
    linarith [Option.some.inj htime]
  rw [helapsed, hloops] at hlearn
  rw [hloops, hlearn]
  exact ⟨hw'.after_launch hallowed, launchMs_mem hw' hallowed⟩

/-! ## Every tick -/

/-- **The worker stays calibrated**, and every launch fills its budget to within one
loop, along every sequence of ticks of the program. The induction is on the ticks,
with `Calibrated` as the invariant: a tick that launches learns from the device's own
line, so what it learns is what it knew (`after_tick`). -/
theorem stays_calibrated {hs : List (List (Event Call Answer))} {s s' : LoopState}
    (hw : d.Calibrated s.worker) (hrun : Rounds s hs s')
    (hticks : ∀ h ∈ hs, ∃ t loop_count, d.LaunchedIn h t loop_count) :
    s'.worker.base_loop_count = d.loops ∧ s'.worker.mem_ms_per_mib = d.c ∧
      ∀ h ∈ hs, ∀ t loop_count, d.LaunchedIn h t loop_count →
        t.target_ms - d.a < d.launchMs loop_count t.traffic ∧
          d.launchMs loop_count t.traffic ≤ t.target_ms := by
  induction hs generalizing s with
  | nil =>
    cases hrun
    exact ⟨hw.base, hw.cost, by simp⟩
  | cons h hs ih =>
    obtain ⟨s₁, hret, hrest⟩ := hrun
    obtain ⟨t, loop_count, hin⟩ := hticks h List.mem_cons_self
    have hnext := hw.after_tick hret hin
    obtain ⟨hbase, hcost, hall⟩ :=
      ih hnext.1 hrest (fun h' hh' => hticks h' (List.mem_cons_of_mem h hh'))
    refine ⟨hbase, hcost, ?_⟩
    intro h' hh' t' loop_count' hin'
    rcases List.mem_cons.mp hh' with rfl | hh'
    · exact (hw.after_tick hret hin').2
    · exact hall h' hh' t' loop_count' hin'

/-- A loop of this device takes half a millisecond. -/
theorem slowLoop_pos : (0 : ℚ) < 1 / 2 := by norm_num

/-- 0.5 ms for a loop and 0.3 ms for a MiB. -/
def slowDevice : LinearDevice where
  a := 1 / 2
  c := 3 / 10
  loops := 200
  a_pos := slowLoop_pos
  c_nonneg := by norm_num
  period := by norm_num [kScheduleIntervalMS]
  loops_ge := le_rfl
  loops_le := by decide

/-- The slow device under a worker that is alone on it, with the traffic's
factor at 1, against a clock that only launches and sleeping move. -/
def slowAnswers (load_set : ℤ) : Handler Call Answer ℚ
  | time, .stopRequested => (false, time)
  | time, .loadOthers => ((-1 : ℤ), time)
  | time, .loadLoadSet => (load_set, time)
  | time, .now => (time, time)
  | time, .runKernel _ loop_count traffic =>
    (true, time + slowDevice.launchMs loop_count traffic)
  | time, .allocateMemory _ => (true, time)
  | time, .releaseMemory => ((), time)
  | time, .memoryBandwidth => ((none : Option ℚ), time)
  | time, .nextFactor _ => ((1 : ℚ), time)
  | time, .sleepFor ms => ((), time + max ms 0)
  | time, .sleepUntil wake => ((), max wake time)
  | time, .log _ => ((), time)

/-- 20 MiB out of 50 ms. -/
def slowState : LoopState where
  worker :=
    { calibrated := true, base_loop_count := 200, mem_ms_per_mib := 3 / 10, memory_held := true
      traffic_bytes_per_second := 419430400 }

/-- The calls of the tick, with their answers, and the state it ends in. -/
def slowCalls : List (Event Call Answer) := ((tick slowState).handle (slowAnswers 50) 0 []).2.2

def slowNext : LoopState where
  worker :=
    { slowState.worker with
      busy_us := 50000, traffic_stepped_at := some 0
      mem_cost_fit := { launches := 1, w := 1, x := 20, y := 6, xx := 400, xy := 120 } }

theorem stays_calibrated_slow :
    Rounds slowState [slowCalls] slowNext ∧ slowNext.worker.base_loop_count = 200 ∧
      slowNext.worker.mem_ms_per_mib = 3 / 10 ∧
      slowDevice.LaunchedIn slowCalls ⟨50, 20971520⟩ 88 ∧
      50 - slowDevice.a < slowDevice.launchMs 88 20971520 ∧
      slowDevice.launchMs 88 20971520 ≤ 50 := by
  have hresult : ((tick slowState).handle (slowAnswers 50) 0 []).1 = .inl slowNext := by
    decide +kernel
  have hrun : Rounds slowState [slowCalls] slowNext :=
    ⟨slowNext, hresult ▸ Prog.returns_handle (slowAnswers 50) (tick slowState) 0, rfl⟩
  have hin : slowDevice.LaunchedIn slowCalls ⟨50, 20971520⟩ 88 :=
    ⟨⟨by decide, by decide, by decide, by norm_num [slowDevice, mebibytes, kMebiByte]⟩,
      by decide +kernel, by decide +kernel, by decide +kernel⟩
  have hstays := stays_calibrated (d := slowDevice) ⟨rfl, rfl, rfl, [], by simp, rfl⟩ hrun
    (by
      intro h hh
      rw [List.mem_singleton.mp hh]
      exact ⟨_, _, hin⟩)
  exact ⟨hrun, hstays.1, hstays.2.1, hin, hstays.2.2 _ (List.mem_singleton_self _) _ _ hin⟩

end LinearDevice

end Loadmaster.Gpu.GpuWorkerContext
