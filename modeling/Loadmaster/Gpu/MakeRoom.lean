/-
**The worker makes room for others** (`gpu/worker.cc`).

A watcher of the worker's calls knows what the current tick has read, whether
the device holds the `-gm` block and whether a calibration has succeeded; all of
it comes from the calls and their answers alone. `LaunchOk` is what it demands
of a launch. The worker's own `memory_held` and `calibrated` follow the watcher
(`Kept`), and every piece of the loop is shown to keep that, whatever the calls
answer: the other threads may store new settings at any moment, so nothing may
rest on two reads agreeing.
-/
import Loadmaster.Gpu.WorkerRules
import Mathlib.Data.List.Induction

set_option autoImplicit false

namespace Loadmaster.Gpu.GpuWorkerContext

open Effect

/-! ## What the calls tell -/

/-- What is known from the calls so far: the reads are those of the current
tick, and before the loop there is none. -/
structure Seen where
  in_loop : Bool := false
  others : Option ℤ := none
  load_set : Option ℤ := none
  holds_block : Bool := false
  calibrated : Bool := false
deriving DecidableEq, Repr

def Seen.next (v : Seen) : Event Call Answer → Seen
  | ⟨.stopRequested, _⟩ => { v with in_loop := true, others := none, load_set := none }
  | ⟨.loadOthers, percent⟩ => { v with others := some percent }
  | ⟨.loadLoadSet, load_ms⟩ => { v with load_set := some load_ms }
  | ⟨.allocateMemory _, ok⟩ => { v with holds_block := ok }
  | ⟨.releaseMemory, _⟩ => { v with holds_block := false }
  | ⟨.log (.calibrated _ _), _⟩ => { v with calibrated := true }
  | _ => v

/-- What is asked of a launch, calibration launches included. -/
structure LaunchOk (v : Seen) (site : Site) (traffic : ℕ) : Prop where
  budget : v.in_loop → ∃ others load_set, v.others = some others ∧ v.load_set = some load_set ∧
    0 < leftOver load_set others
  calibrated : site = .tick → v.in_loop ∧ v.calibrated
  no_block : ∀ others, v.others = some others → 0 ≤ others → v.holds_block = false
  traffic : 0 < traffic → v.holds_block

/-- The watcher that asks it. -/
def watch : Watch Call Answer Seen where
  see := Seen.next
  ok := fun v c => match c with
    | .runKernel site _ traffic => LaunchOk v site traffic
    | _ => True

/-- What a history shows, from the worker's construction on. -/
abbrev seen (h : List (Event Call Answer)) : Seen := watch.after {} h

/-! ## What the worker keeps -/

/-- The worker's fields and the watcher's knowledge agree. -/
structure Kept (v : Seen) (w : Worker) : Prop where
  held : v.holds_block = w.memory_held
  calibrated : w.calibrated → v.calibrated
  device : w.memory_held → w.has_device ∧ w.memory_bytes ≠ 0

variable {v : Seen} {w : Worker}

theorem kept_new {has_device : Bool} {memory_bytes : ℕ} :
    Kept {} { has_device, memory_bytes } where
  held := rfl
  calibrated := by simp
  device := by simp

theorem Kept.addBusy (h : Kept v w) (ms : ℚ) : Kept v (w.addBusy ms) :=
  ⟨h.held, h.calibrated, h.device⟩

theorem Kept.adaptBaseLoopCount (h : Kept v w) (target elapsed : ℚ) :
    Kept v (w.adaptBaseLoopCount target elapsed) := by
  unfold Worker.adaptBaseLoopCount
  split_ifs
  · exact h
  · dsimp only
    split_ifs
    · exact h
    · exact ⟨h.held, h.calibrated, h.device⟩

/-- What a launch teaches the worker, its busy time, its base and its cost, leaves the
flags of the block alone. -/
theorem Kept.updateMemCost (h : Kept v w) (mib residual : ℚ) :
    Kept v (w.updateMemCost mib residual) := by
  obtain ⟨cost, heq⟩ := w.updateMemCost_frame mib residual
  rw [heq]
  exact ⟨h.held, h.calibrated, h.device⟩

theorem Kept.learn (h : Kept v w) (loop_count : ℤ) (traffic : ℕ) (elapsed : ℚ) :
    Kept v (learn w loop_count traffic elapsed) := by
  unfold GpuWorkerContext.learn
  dsimp only
  split_ifs
  · exact ((h.addBusy _).updateMemCost _ _).adaptBaseLoopCount _ _
  · exact (h.addBusy _).adaptBaseLoopCount _ _

/-! ## Calibration -/

section Calibration

variable {site : Site} {β : Type}

/-- The watcher has learnt nothing, and the worker still agrees with it. -/
def Silent (v : Seen) (v' : Seen) (r : Worker × β) : Prop := v' = v ∧ Kept v r.1

/-- The watcher looks at neither the clock nor the outcome of a launch. -/
theorem timed_silent (hok : LaunchOk v site 0) :
    Timed watch site (fun v' w => Silent v v' (w, ())) fun v' w => Silent v v' (w, ()) := by
  apply timed
  · exact fun _ => ⟨trivial, fun _ => rfl⟩
  · rintro _ w count ⟨rfl, -⟩
    exact hok
  · rintro _ w count elapsed ⟨rfl, h⟩
    exact ⟨rfl, h.addBusy elapsed⟩
  · rintro _ w count ⟨rfl, h⟩
    exact ⟨rfl, h⟩

/-- **Calibration** launches only where a launch is allowed; afterwards the
watcher knows of it exactly when it reports success. -/
theorem calibrateBaseLoopCount_meets (h : Kept v w)
    (hok : ∀ site, site ≠ .tick → LaunchOk v site 0) :
    watch.Meets (fun v' r => v' = { v with calibrated := r.2 || v.calibrated } ∧ Kept v' r.1) v
      (calibrateBaseLoopCount w) := by
  cases hdevice : w.has_device with
  | false =>
    rw [calibrateBaseLoopCount_of_no_device hdevice]
    exact ⟨rfl, h⟩
  | true =>
    apply meets_calibrateBaseLoopCount hdevice (timed_silent (hok .growing (by decide)))
      (timed_silent (hok .refining (by decide))) (hok .warmUp (by decide)) ⟨rfl, h⟩ ⟨rfl, h⟩
      (fun _ => ⟨trivial, fun _ => rfl⟩)
    · rintro _ w ⟨rfl, h⟩
      exact ⟨trivial, fun _ => ⟨rfl, h⟩⟩
    · -- the line that tells of the base loop count is what the watcher goes by
      rintro _ w base elapsed ⟨rfl, h⟩
      exact ⟨trivial, fun _ => ⟨rfl, h.held, fun _ => rfl, h.device⟩⟩

end Calibration

/-! ## The block -/

/-- Allocating the block, for a worker that neither holds it nor failed to get
it: the answer is what the device holds from then on. -/
theorem allocate_meets {Q : Seen → Worker → Prop} {f : Bool → WorkerProg Worker}
    (hfalse : watch.Meets Q { v with holds_block := false } (f false))
    (htrue : watch.Meets Q { v with holds_block := true } (f true)) :
    watch.Meets Q v (allocateMemory w.memory_bytes >>= f) := by
  rw [Watch.meets_perform_bind]
  refine ⟨trivial, ?_⟩
  intro ok
  cases ok with
  | false => exact hfalse
  | true => exact htrue

/-- **`SyncMemory`** changes what is held and nothing else that matters to a
launch; while sharing, the device holds no block afterwards. -/
theorem syncMemory_meets (h : Kept v w) (sharing : Bool) :
    watch.Meets
      (fun v' w' => Kept v' w' ∧ (sharing → v'.holds_block = false) ∧
        v' = { v with holds_block := v'.holds_block })
      v (syncMemory w sharing) := by
  unfold syncMemory
  by_cases hnone : !w.has_device ∨ w.memory_bytes = 0
  · -- no device or no `-gm`: then no block was ever allocated
    have hfree : v.holds_block = false := by
      rw [h.held]
      by_contra hheld
      have := h.device (by simpa using hheld)
      simp_all
    rw [if_pos hnone]
    exact ⟨h, fun _ => hfree, rfl⟩
  rw [if_neg hnone]
  have hdevice : w.has_device ∧ w.memory_bytes ≠ 0 := by simpa using hnone
  by_cases hsharing : sharing = true
  · rw [if_pos hsharing]
    by_cases hheld : w.memory_held
    · rw [if_pos hheld, Watch.meets_perform_bind]
      refine ⟨trivial, ?_⟩
      intro _
      exact ⟨⟨rfl, h.calibrated, by simp⟩, fun _ => rfl, rfl⟩
    · have hfree : v.holds_block = false := by
        rw [h.held]
        simpa using hheld
      rw [if_neg hheld]
      exact ⟨⟨h.held, h.calibrated, h.device⟩, fun _ => hfree, rfl⟩
  rw [if_neg hsharing]
  by_cases hskip : w.memory_held ∨ w.memory_failed
  · -- held already, or not to be tried again in this spell
    rw [if_pos hskip]
    exact ⟨h, fun hs => absurd hs hsharing, rfl⟩
  rw [if_neg hskip]
  by_cases hrate : w.traffic_bytes_per_second ≤ 0
  · rw [if_pos hrate]
    refine allocate_meets ?_ ?_
    · exact ⟨trivial, fun _ =>
        ⟨⟨rfl, h.calibrated, by simp⟩, fun hs => absurd hs hsharing, rfl⟩⟩
    · -- the bandwidth is asked for once, with the block there
      exact ⟨trivial, fun _ => ⟨trivial, fun _ =>
        ⟨⟨rfl, h.calibrated, fun _ => hdevice⟩, fun hs => absurd hs hsharing, rfl⟩⟩⟩
  · rw [if_neg hrate]
    refine allocate_meets ?_ ?_
    · exact ⟨trivial, fun _ =>
        ⟨⟨rfl, h.calibrated, by simp⟩, fun hs => absurd hs hsharing, rfl⟩⟩
    · exact ⟨⟨rfl, h.calibrated, fun _ => hdevice⟩, fun hs => absurd hs hsharing, rfl⟩

/-! ## The loop -/

/-- What holds between two ticks. -/
def Between (v : Seen) (s : LoopState) : Prop := Kept v s.worker

/-- What holds when the thread has returned: a device given up holds nothing. -/
def AtExit (v : Seen) : Exit → Prop
  | .gaveUp _ _ => v.holds_block = false
  | _ => True

abbrev Post : Seen → LoopState ⊕ Exit → Prop := System.Between Between AtExit

/-- A worker gives up through a sharing sync, so its block is gone. -/
theorem giveUp_meets (h : Kept v w) (why : GivenUp) :
    watch.Meets Post v (do let w ← syncMemory w true; return .inr (.gaveUp why w)) := by
  apply (syncMemory_meets h true).bind
  rintro v w ⟨-, hfree, -⟩
  exact hfree rfl

theorem sleepRest_meets (start : ℚ) :
    watch.Meets (fun v' _ => v' = v) v (sleepRest start) :=
  meets_sleepRest trivial (fun _ _ => ⟨trivial, fun _ => rfl⟩) fun _ => rfl

/-- Only a worker that holds its block asks for traffic. -/
theorem takeTraffic_meets (h : Kept v w) (start : ℚ) (target_ms : ℤ) :
    watch.Meets (fun v' r => Silent v v' r ∧ (0 < r.2 → v.holds_block)) v
      (takeTraffic w start target_ms) := by
  refine (meets_takeTraffic (fun _ _ => ⟨trivial, fun _ => rfl⟩) start target_ms).mono ?_
  rintro _ ⟨_, traffic⟩ ⟨rfl, ⟨stepped, rfl⟩, htraffic⟩
  refine ⟨⟨rfl, h.held, h.calibrated, h.device⟩, fun hpos => ?_⟩
  rw [h.held]
  exact htraffic hpos

/-- **A launch** of a tick whose reads left room. -/
theorem launch_meets {s : LoopState} {start : ℚ} {target_ms : ℤ} (h : Kept v s.worker)
    (hok : ∀ traffic, (0 < traffic → v.holds_block) → LaunchOk v .tick traffic) :
    watch.Meets Post v (launch s start target_ms) := by
  unfold launch
  apply (takeTraffic_meets h start target_ms).bind
  rintro v ⟨w, traffic⟩ ⟨⟨rfl, h⟩, htraffic⟩
  rw [Watch.meets_perform_bind]
  refine ⟨hok traffic htraffic, ?_⟩
  intro ok
  by_cases hran : ok = true
  · rw [if_pos hran, Watch.meets_perform_bind]
    refine ⟨trivial, ?_⟩
    intro t
    apply (sleepRest_meets start).bind
    rintro v _ rfl
    exact h.learn _ _ _
  · rw [if_neg hran]
    by_cases hmany : kGpuMaxConsecutiveFailures ≤ s.consecutive_failures + 1
    · rw [if_pos hmany]
      exact ⟨trivial, fun _ => giveUp_meets h .launchesFailed⟩
    · rw [if_neg hmany]
      exact ⟨trivial, fun _ => ⟨trivial, fun _ => h⟩⟩

/-- **A tick**, whatever it reads. -/
theorem tick_meets {s : LoopState} (h : Between v s) : watch.Meets Post v (tick s) := by
  unfold tick
  rw [Watch.meets_perform_bind]
  refine ⟨trivial, ?_⟩
  intro stop
  by_cases hstop : stop = true
  · rw [if_pos hstop]
    trivial
  rw [if_neg hstop, Watch.meets_perform_bind]
  refine ⟨trivial, ?_⟩
  intro others
  -- what the watcher knows once the others' share is read
  have h₁ : Kept { v with in_loop := true, others := some others, load_set := none } s.worker :=
    ⟨h.held, h.calibrated, h.device⟩
  change watch.Meets Post _ (syncMemory s.worker (0 ≤ others) >>= _)
  apply (syncMemory_meets h₁ (0 ≤ others)).bind
  rintro v' w ⟨h', hfree, hframe⟩
  rw [Watch.meets_perform_bind]
  refine ⟨trivial, ?_⟩
  intro start
  rw [Watch.meets_perform_bind]
  refine ⟨trivial, ?_⟩
  intro load_set
  have h₂ : Kept { v' with load_set := some load_set } w := ⟨h'.held, h'.calibrated, h'.device⟩
  have hread : v'.others = some others := by rw [hframe]
  -- both reads are known now; a launch is allowed if they leave room
  have hok : 0 < max 0 (leftOver load_set others) → ∀ site traffic,
      (site = .tick → w.calibrated) → (0 < traffic → v'.holds_block) →
      LaunchOk { v' with load_set := some load_set } site traffic := by
    intro hroom site traffic hsite htraffic
    refine ⟨fun _ => ⟨others, load_set, hread, rfl, by omega⟩, ?_, ?_, htraffic⟩
    · intro htick
      exact ⟨by rw [hframe], h'.calibrated (hsite htick)⟩
    · intro others' hothers' hshare
      have heq : others' = others := by simpa [hread] using hothers'.symm
      exact hfree (by simpa [heq] using hshare)
  change watch.Meets Post { v' with load_set := some load_set } (if _ then _ else _)
  split_ifs with hcalibrate hlaunch
  · -- the deferred calibration: out of the loop, or on to a fresh tick
    have hok' : ∀ site, site ≠ .tick → LaunchOk { v' with load_set := some load_set } site 0 := by
      intro site hsite
      apply hok hcalibrate.1 site 0
      · exact fun htick => absurd htick hsite
      · exact fun hpos => absurd hpos (lt_irrefl 0)
    apply (calibrateBaseLoopCount_meets h₂ hok').bind
    rintro v₃ ⟨w₃, ok⟩ ⟨-, h₃⟩
    cases ok with
    | true => exact h₃
    | false => exact ⟨trivial, fun _ => giveUp_meets h₃ .calibrationFailed⟩
  · have hcalibrated : w.calibrated := by
      by_contra hnot
      exact hcalibrate ⟨hlaunch.1, hlaunch.2, by simpa using hnot⟩
    apply launch_meets h₂
    intro traffic htraffic
    exact hok hlaunch.1 .tick traffic (fun _ => hcalibrated) htraffic
  · apply (sleepRest_meets start).bind
    rintro v₃ _ rfl
    exact h₂

/-- Before the loop no tick has read anything, so calibration may launch. -/
theorem start_meets (h : Kept v w) (hv : v.in_loop = false ∧ v.others = none)
    (calibrate_first : Bool) : watch.Meets Post v (start calibrate_first w) := by
  unfold start
  by_cases hfirst : calibrate_first = true
  swap
  · rw [if_neg hfirst]
    exact h
  rw [if_pos hfirst]
  have hok : ∀ site, site ≠ .tick → LaunchOk v site 0 := by
    intro site hsite
    refine ⟨fun hloop => ?_, fun htick => absurd htick hsite, ?_, by simp⟩
    · rw [hv.1] at hloop
      contradiction
    · intro others hothers
      rw [hv.2] at hothers
      contradiction
  apply (calibrateBaseLoopCount_meets h hok).bind
  rintro v' ⟨w', ok⟩ ⟨-, h'⟩
  cases ok with
  | true => exact h'
  | false => trivial

/-! ## Every run -/

/-- **The worker makes room.** In every run of a worker among threads that store its
settings at any moment and on a device that answers anything: every launch is one that
`LaunchOk` allows by what the tick has read and by what the device holds; and a worker
that gave its device up has left no block there and makes no call any more.
`tick_meets` is the step, what one round of the loop keeps on a device that answers
anything; `System.reach_inv` takes it to every point of every interleaving. -/
theorem makes_room {has_device calibrate_first : Bool} {memory_bytes : ℕ} {c : WorkerConfig}
    (hc : workerSystem.Reaches (newWorker has_device calibrate_first memory_bytes) c) :
    (∀ pre site loop_count traffic ok post,
        c.history = pre ++ ⟨.runKernel site loop_count traffic, ok⟩ :: post →
        LaunchOk (seen pre) site traffic) ∧
      ∀ why w, c.thread = .ended (.gaveUp why w) →
        (seen c.history).holds_block = false ∧
          ∀ c', workerSystem.Reaches c c' → c'.history = c.history := by
  have hstart : System.ThreadMeets watch Between AtExit {}
      (newWorker has_device calibrate_first memory_bytes).thread :=
    start_meets kept_new ⟨rfl, rfl⟩ calibrate_first
  have hinv := System.reach_inv (fun v s h => tick_meets h) ⟨Watch.allows_nil, hstart⟩ hc
  refine ⟨?_, ?_⟩
  · intro pre site loop_count traffic ok post hsplit
    exact hinv.1 pre _ post hsplit
  · intro why w hended
    refine ⟨?_, fun c' hc' => (System.ended_stays hended hc').2⟩
    have hexit := hinv.2
    rw [hended] at hexit
    exact hexit

/-! A device that others come to and that breaks later -/

/-- A device on which a thousand rounds of the kernel take a millisecond while it works;
only launches and sleeping take time. -/
def sharedDevice (settings : Settings) (works : Bool) : Handler Call Answer ℚ
  | t, .stopRequested => (false, t)
  | t, .loadOthers => (settings.others_percent, t)
  | t, .loadLoadSet => (settings.load_set, t)
  | t, .now => (t, t)
  | t, .runKernel _ loop_count _ =>
    (works, if works then t + max ((loop_count : ℚ) / 1000) 0 else t)
  | t, .allocateMemory _ => (true, t)
  | t, .releaseMemory => ((), t)
  | t, .memoryBandwidth => ((none : Option ℚ), t)
  | t, .nextFactor _ => ((1 : ℚ), t)
  | t, .sleepFor ms => ((), t + max ms 0)
  | t, .sleepUntil time => ((), t + max (time - t) 0)
  | t, .log _ => ((), t)

theorem sharedDevice_possible (settings : Settings) (works : Bool) (t : ℚ) (c : Call) :
    ∃ m, Relation.ReflTransGen workerSystem.others { settings, clock := t } m ∧
      workerSystem.answers m c (sharedDevice settings works t c).1 ∧
      Relation.ReflTransGen workerSystem.others m
        { settings, clock := (sharedDevice settings works t c).2 } := by
  cases c with
  | runKernel site loop_count traffic =>
    refine ⟨_, .refl, trivial, ?_⟩
    cases works with
    | true => exact .single (.wait _ _ (le_max_right ((loop_count : ℚ) / 1000) 0))
    | false => exact .refl
  | sleepFor ms =>
    exact ⟨_, .refl, trivial, .single (.wait _ _ (le_max_right ms 0))⟩
  | sleepUntil time =>
    refine ⟨_, .single (.wait _ _ (le_max_right (time - t) 0)), ?_, .refl⟩
    change time ≤ t + max (time - t) 0
    linarith [le_max_left (time - t) 0]
  | nextFactor _ =>
    refine ⟨_, .refl, ?_, .refl⟩
    constructor <;> norm_num [kGpuMemTrafficMinFactor, kGpuMemTrafficMaxFactor, sharedDevice]
  | _ => exact ⟨_, .refl, by simp [workerSystem, CanAnswer, sharedDevice], .refl⟩

/-- What a tick ends with there, the time and the calls so far. -/
abbrev Ticked := (LoopState ⊕ Exit) × ℚ × List (Event Call Answer)

/-- One more tick, with half of the period to burn, that many percent taken by others,
and a device that works or does not. -/
def Ticked.next : Ticked → Option ℤ × Bool → Ticked
  | (.inl s, t, h), (percent, works) =>
    (tick s).handle (sharedDevice (Settings.setOthers { load_set := 50 } percent) works) t h
  | ended, _ => ended

/-- A worker that holds 4 KiB, as it is after these ticks. -/
def ticked (ticks : List (Option ℤ × Bool)) : Ticked :=
  ticks.foldl Ticked.next (.inl { worker := { memory_bytes := 4096 } }, 0, [])

theorem reaches_ticked (ticks : List (Option ℤ × Bool)) :
    ∃ percent, workerSystem.Reaches (newWorker true false 4096)
      ⟨{ settings := Settings.setOthers { load_set := 50 } percent, clock := (ticked ticks).2.1 },
        .running (.done (ticked ticks).1), (ticked ticks).2.2⟩ := by
  induction ticks using List.reverseRecOn with
  | nil => exact ⟨none, .single (.other (.setLoadSet _ 50))⟩
  | append_singleton ticks last ih =>
    obtain ⟨percent, hreach⟩ := ih
    have hlast : ticked (ticks ++ [last]) = (ticked ticks).next last := by
      rw [ticked, List.foldl_append]
      rfl
    rw [hlast]
    generalize ticked ticks = before at hreach ⊢
    obtain ⟨s | e, t, h⟩ := before
    · exact ⟨last.1, ((hreach.tail (.other (.setOthers _ last.1))).tail .again).trans
        (System.reaches_handle workerSystem (sharedDevice _ last.2) (sharedDevice_possible _ last.2)
          (tick s) t h)⟩
    · exact ⟨percent, hreach⟩

/-- It calibrates and launches alone, then others take 20 percent, and in the end every
launch fails. -/
def sharedRun : Ticked :=
  ticked ([(none, true), (none, true), (some 20, true)] ++ List.replicate 50 (none, false))

/-- The share of others and the traffic, for every launch of a tick. -/
def tickLaunches : Seen → List (Event Call Answer) → List (Option ℤ × ℕ)
  | _, [] => []
  | v, e :: h =>
    match e.call with
    | .runKernel .tick _ traffic => (v.others, traffic) :: tickLaunches (v.next e) h
    | _ => tickLaunches (v.next e) h

theorem sharedRun_ended : ∃ w, sharedRun.1 = .inr (.gaveUp .launchesFailed w) := by
  have h : (match sharedRun.1 with
      | .inr (.gaveUp .launchesFailed _) => true
      | _ => false) = true := by decide +kernel
  split at h
  · next w heq => exact ⟨w, heq⟩
  · cases h

theorem sharedRun_reaches : ∃ memory w, workerSystem.Reaches (newWorker true false 4096)
    ⟨memory, .ended (.gaveUp .launchesFailed w), sharedRun.2.2⟩ := by
  obtain ⟨w, hended⟩ := sharedRun_ended
  obtain ⟨percent, hreach⟩ := reaches_ticked
    ([(none, true), (none, true), (some 20, true)] ++ List.replicate 50 (none, false))
  change workerSystem.Reaches _ ⟨_, .running (.done sharedRun.1), sharedRun.2.2⟩ at hreach
  rw [hended] at hreach
  exact ⟨_, w, hreach.tail .finish⟩

/-- The first two launches of `sharedRun` in a tick: 51.2 MiB are moved while the worker is
alone, and nothing once others are there. When it has given up, it holds no block. -/
theorem makes_room_sharedRun :
    (tickLaunches {} sharedRun.2.2).take 2 = [(some (-1), 53687091), (some 20, 0)] ∧
      (∀ pre site loop_count traffic ok post,
        sharedRun.2.2 = pre ++ ⟨.runKernel site loop_count traffic, ok⟩ :: post →
        LaunchOk (seen pre) site traffic) ∧
      (seen sharedRun.2.2).holds_block = false := by
  obtain ⟨memory, w, hreach⟩ := sharedRun_reaches
  obtain ⟨hlaunches, hgaveUp⟩ := makes_room hreach
  exact ⟨by decide +kernel, hlaunches, (hgaveUp _ _ rfl).1⟩

end Loadmaster.Gpu.GpuWorkerContext
