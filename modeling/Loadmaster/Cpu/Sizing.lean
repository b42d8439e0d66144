/-
How the CPU's `rand_normal` scheduler sizes its workers
(`CpuResourceManagerRandomNormal::Init`), and that both managers can deliver
what the validator of the command line accepts.

The validator knows the load, not the schedule: the points average to the load
and the highest of them may be well above it. So the default manager never fails
on accepted options, and this one fails exactly when a point is beyond the
threads it may use. The schedule is the one of the normal distribution over the
reals, its rounding and all that follows it are in ints.
-/
import Loadmaster.Cpu.Manager
import Loadmaster.Cpu.ManagerRandomNormal
import Loadmaster.Util.NormalQuantile
import Loadmaster.Util.NormalScheduleInts

set_option autoImplicit false

namespace Loadmaster.Cpu

open Loadmaster.Core Cycle Outcome Util

variable {α : Type*} [Field α] [LinearOrder α] [FloorRing α] {ε : Type}

/-! ## The scheduler's `Init` -/

/-- `generateSchedulePoints`, in ints. -/
def generateSchedulePointsInts (dist : NormalDistribution α) (cpu_load : Int32) :
    Outcome ε (List Int32) :=
  buildNormalSchedulePointsInts dist (.ofNat kCpuRandNormalSchedulePointCount)
    (kCpuRandNormalCdfTarget : ℚ) cpu_load 0

/-- The highest of the points. -/
def maxLoad (points : List Int32) : Int32 :=
  points.foldl (fun max_load load => if max_load.toInt < load.toInt then load else max_load) 0

/-- The manager's workers and its walk through the points. -/
structure RandomNormalManager where
  pool : CpuResourceManager
  walk : CpuResourceManagerRandomNormal

namespace RandomNormalManager

/-- `CpuResourceManagerRandomNormal::Init`, for the points of its constructor. -/
def init (options : Options) (core_count : Int32) (points : List Int32) (shuffle : Shuffle ℤ)
    (pool : CpuResourceManager) : Outcome String RandomNormalManager :=
  if options.cpu_load.toInt ≤ 0 then .failed "CPU module disabled (-l 0)"
  else do
    let max_load := maxLoad points
    let count ← workerCount options.cpu_count max_load
    if count.toInt ≤ 0 then .failed ""
    else if core_count.toInt < count.toInt then
      .failed <| s!"rand_normal peak load={max_load} needs {count} CPU cores, " ++
        s!"have {core_count} (avg target={options.cpu_load})"
    else do
      let reachable ← int32 (count.toInt * kCpuMaxLoadPerCore)
      if reachable.toInt < max_load.toInt then
        .failed <| s!"rand_normal peak load={max_load} is unreachable with -c {count} " ++
          s!"(avg target={options.cpu_load})"
      else
        let pool := pool.constructWorkerThreads count
        pure { pool, walk := .init (points.map Int32.toInt) shuffle }

/-- The loads it will ask its workers for: the points, and its target after any
number of ticks. -/
def loads (m : RandomNormalManager) : Set ℤ :=
  {load | load ∈ m.walk.schedule_points ∨ ∃ (ticks : List (ℤ × Shuffle ℤ)) (k : ℕ),
    load = (Run.before (fun w t => w.updateLoadTarget t.1 t.2) m.walk ticks k).load_target}

end RandomNormalManager

/-! ## The highest point -/

section MaxLoad

variable {points : List Int32} {a : Int32}

theorem foldl_maxLoad :
    let peak := points.foldl (fun (m load : Int32) => if m.toInt < load.toInt then load else m) a
    a.toInt ≤ peak.toInt ∧ (∀ p ∈ points, p.toInt ≤ peak.toInt) ∧ (peak = a ∨ peak ∈ points) := by
  induction points generalizing a with
  | nil => simp
  | cons p points ih =>
    rw [List.foldl_cons]
    obtain ⟨hinit, hall, hmem⟩ := ih (a := if a.toInt < p.toInt then p else a)
    have hmax : a.toInt ≤ (if a.toInt < p.toInt then p else a).toInt ∧
        p.toInt ≤ (if a.toInt < p.toInt then p else a).toInt := by
      split_ifs <;> omega
    refine ⟨hmax.1.trans hinit, ?_, ?_⟩
    · exact List.forall_mem_cons.mpr ⟨hmax.2.trans hinit, hall⟩
    · rcases hmem with hsame | hmem
      · rw [hsame]
        split_ifs
        · exact .inr List.mem_cons_self
        · exact .inl rfl
      · exact .inr (List.mem_cons_of_mem _ hmem)

theorem le_maxLoad {p : Int32} (hp : p ∈ points) : p.toInt ≤ (maxLoad points).toInt :=
  foldl_maxLoad.2.1 p hp

theorem maxLoad_mem (h : 0 < (maxLoad points).toInt) : maxLoad points ∈ points := by
  refine foldl_maxLoad.2.2.resolve_left fun hzero => ?_
  rw [maxLoad, hzero] at h
  exact absurd h (by decide)

end MaxLoad

/-! ## The points -/

section Points

variable [IsStrictOrderedRing α] {dist : NormalDistribution α} {points : List Int32}
  {cpu_load : Int32} {F : ε → Prop}

theorem ensures_generateSchedulePointsInts
    (hmass : ∀ m ∈ binMasses dist kCpuRandNormalSchedulePointCount (kCpuRandNormalCdfTarget : ℚ),
      0 < m) (hfits : cpu_load.toInt * 60 < 2 ^ 31) :
    Ensures (fun points : List Int32 =>
        points.map Int32.toInt = generateSchedulePoints dist cpu_load.toInt)
      F (generateSchedulePointsInts dist cpu_load) :=
  ensures_buildNormalSchedulePointsInts (by decide) hmass hfits

/-- The points are loads with the right total, so one of them is positive. -/
theorem maxLoad_bounds
    (hmass : ∀ m ∈ binMasses dist kCpuRandNormalSchedulePointCount (kCpuRandNormalCdfTarget : ℚ),
      0 < m) (hload : 0 < cpu_load.toInt)
    (hpoints : points.map Int32.toInt = generateSchedulePoints dist cpu_load.toInt) :
    1 ≤ (maxLoad points).toInt ∧ (maxLoad points).toInt ≤ cpu_load.toInt * 60 := by
  have hcount : (1 : ℤ) ≤ kCpuRandNormalSchedulePointCount := by decide
  obtain ⟨-, hbounds, hsum⟩ := buildNormalSchedulePoints_exact hcount hload (le_refl 0) hmass
  have hcount' : (kCpuRandNormalSchedulePointCount : ℤ) = 60 := rfl
  rw [← generateSchedulePoints, ← hpoints] at hbounds hsum
  rw [if_pos (.inl rfl), hcount'] at hsum
  have hpos : 0 < (maxLoad points).toInt := by
    by_contra hzero
    -- nothing above 0 would leave no total
    have hnone : ∀ x ∈ points.map Int32.toInt, x ≤ 0 := by
      intro x hx
      obtain ⟨p, hp, rfl⟩ := List.mem_map.mp hx
      exact (le_maxLoad hp).trans (not_lt.mp hzero)
    have hcard := List.sum_le_card_nsmul _ _ hnone
    rw [smul_zero] at hcard
    omega
  refine ⟨hpos, ?_⟩
  rw [← hsum]
  exact List.single_le_sum (fun x hx => (hbounds x hx).1) _ (List.mem_map_of_mem (maxLoad_mem hpos))

end Points

/-! ## Its workers and its walk -/

section Init

variable {options : Options} {core_count loop_count : Int32} {points : List Int32}
  {shuffle : Shuffle ℤ} {w : CpuResourceManagerRandomNormal} {c : ℤ}

/-- No load of the walk is above `c`. -/
def Below (c : ℤ) (w : CpuResourceManagerRandomNormal) : Prop :=
  (∀ p ∈ w.schedule_points, p ≤ c) ∧ w.load_target ≤ c

theorem Below.updateLoadTarget (h : Below c w) (hc : 0 ≤ c) (time_point : ℤ) :
    Below c (w.updateLoadTarget time_point shuffle) := by
  by_cases hdue : w.walk.due kCpuRandNormalScheduleIntervalMS time_point = true
  · obtain ⟨hwalk, htarget⟩ := CpuResourceManagerRandomNormal.updateLoadTarget_due shuffle hdue
    have hpoints : (w.updateLoadTarget time_point shuffle).schedule_points = w.order shuffle :=
      congrArg Walk.schedule_points hwalk
    have hbelow : ∀ p ∈ w.order shuffle, p ≤ c := fun p hp =>
      h.1 p ((CpuResourceManagerRandomNormal.order_perm (List.Perm.refl _)).mem_iff.mp hp)
    refine ⟨hpoints ▸ hbelow, ?_⟩
    rw [htarget]
    change (w.order shuffle).getD w.point_idx 0 ≤ c
    by_cases hidx : w.point_idx < (w.order shuffle).length
    · rw [List.getD_eq_getElem _ _ hidx]
      exact hbelow _ (List.getElem_mem hidx)
    · rw [List.getD_eq_default _ _ (not_lt.mp hidx)]
      exact hc
  · rw [CpuResourceManagerRandomNormal.updateLoadTarget_idle (by simpa using hdue)]
    exact h

/-- What the walk asks for is a point, after any ticks. -/
theorem loads_le {pool : CpuResourceManager} (hc : 0 ≤ c)
    (hpoints : ∀ p ∈ points.map Int32.toInt, p ≤ c) :
    ∀ load ∈ RandomNormalManager.loads
      { pool, walk := .init (points.map Int32.toInt) shuffle }, load ≤ c := by
  have hinit : Below c (.init (points.map Int32.toInt) shuffle) :=
    ⟨fun p hp => hpoints p ((shuffle.perm _).mem_iff.mp hp), hc⟩
  rintro load (hmem | ⟨ticks, k, rfl⟩)
  · exact hinit.1 load hmem
  · exact (Run.before_induction hinit (fun _ t _ h => h.updateLoadTarget hc t.1) k).2

/-- **The scheduler's `Init`** delivers every point, or there is one beyond the
threads that it may use. -/
theorem RandomNormalManager.ensures_init (hmax : core_count.toInt ≤ 100000)
    (h : options.Fits core_count) (hload : 0 < options.cpu_load.toInt)
    (hpeak : 1 ≤ (maxLoad points).toInt)
    (hpeak_le : (maxLoad points).toInt ≤ options.cpu_load.toInt * 60) :
    Ensures
      (fun m => m.pool.Delivers core_count m.loads ∧
        m.walk.schedule_points.Perm (points.map Int32.toInt))
      (fun _ => ∃ p ∈ points, (options.threads core_count).toInt * 100 < p.toInt)
      (RandomNormalManager.init options core_count points shuffle
        { base_loop_count := loop_count }) := by
  have hcount_le := h.count_le
  have hpeak_mem := maxLoad_mem hpeak
  have hfits := h.cpu_load_le_max hmax
  unfold RandomNormalManager.init
  rw [if_neg (by omega)]
  refine Ensures.bind (ensures_workerCount (by omega) (by omega)) fun count hcount => ?_
  have hpos : 1 ≤ count.toInt := by split_ifs at hcount <;> omega
  rw [if_neg (by omega)]
  split_ifs with hcores
  · -- more cores than there are, so the count is that of the peak
    refine ⟨_, hpeak_mem, ?_⟩
    rw [Options.toInt_threads]
    split_ifs at hcount ⊢ <;> omega
  rw [natCast_kCpuMaxLoadPerCore]
  refine ensures_bind.mpr (ensures_int32 (by omega) (by omega) fun reachable hreachable => ?_)
  split_ifs with hbeyond
  · refine ⟨_, hpeak_mem, ?_⟩
    rw [Options.toInt_threads]
    split_ifs at hcount ⊢ <;> omega
  · refine ensures_pure.mpr ⟨?_, shuffle.perm _⟩
    apply CpuResourceManager.delivers_constructWorkerThreads hpos (by omega) hmax
    apply loads_le (by omega)
    intro x hx
    obtain ⟨p, hp, rfl⟩ := List.mem_map.mp hx
    have := le_maxLoad hp
    omega

end Init

/-! ## From the command line to the workers -/

section Accepted

/-- The distribution of the CPU's schedule. -/
noncomputable def cpuDistribution : NormalDistribution ℝ :=
  realNormalDistribution (kCpuRandNormalMu : ℚ) (kCpuRandNormalSigma : ℚ)

/-- The default manager has workers for the load. -/
def DefaultDelivers (core_count : Int32) (o : Options) : Prop :=
  ∀ loop_count : Int32,
    Ensures (CpuResourceManager.Delivers core_count {o.cpu_load.toInt}) (fun _ => False)
      (CpuResourceManagerDefault.init o core_count { base_loop_count := loop_count })

/-- The `rand_normal` manager has its points, and workers for each of them
unless one is beyond the threads. -/
def RandomNormalDelivers (core_count : Int32) (o : Options) : Prop :=
  ∃ points : List Int32,
    generateSchedulePointsInts cpuDistribution o.cpu_load = (.ok points : Outcome Empty _) ∧
      points.map Int32.toInt = generateSchedulePoints cpuDistribution o.cpu_load.toInt ∧
      ∀ (shuffle : Shuffle ℤ) (loop_count : Int32),
        Ensures
          (fun m => m.pool.Delivers core_count m.loads ∧
            m.walk.schedule_points.Perm (points.map Int32.toInt))
          (fun _ => ∃ p ∈ points, (o.threads core_count).toInt * 100 < p.toInt)
          (RandomNormalManager.init o core_count points shuffle { base_loop_count := loop_count })

variable {core_count : Int32}

theorem binMasses_cpuDistribution_pos :
    ∀ m ∈ binMasses cpuDistribution kCpuRandNormalSchedulePointCount
      (kCpuRandNormalCdfTarget : ℚ), 0 < m := by
  apply binMasses_realNormalDistribution_pos
  norm_num [kCpuRandNormalSigma]

/-- **The bins end where they should**: at the position around which 95% of the
mass lie, up to the width at which the search stops. -/
theorem cpuDistribution_upper :
    ∃ t, centralMass erf √2 (kCpuRandNormalMu : ℚ) (kCpuRandNormalSigma : ℚ) t
        = ((kCpuRandNormalCdfTarget : ℚ) : ℝ) ∧
      |cpuDistribution.findXAxisPositionCDF (kCpuRandNormalCdfTarget : ℚ) - t| < 1 / 10 ^ 7 := by
  have hsigma : (0 : ℝ) < (kCpuRandNormalSigma : ℚ) ∧ ((kCpuRandNormalSigma : ℚ) : ℝ) ≤ 1000 := by
    norm_num [kCpuRandNormalSigma]
  have htarget : ((kCpuRandNormalCdfTarget : ℚ) : ℝ) = 95 / 100 := by
    norm_num [kCpuRandNormalCdfTarget]
  obtain ⟨t, -, hmass, hnear⟩ :=
    exists_position_of_mass hsigma.1 (by rw [htarget]; norm_num)
      (htarget.le.trans (mass_le_of_stddev_le hsigma.1 hsigma.2))
  exact ⟨t, hmass, hnear⟩

/-- **What the validator accepts, the CPU managers can deliver.** Whatever the
arguments are, no int overflows, from the first check to the last point. The validator
bounds the load by what the cores can burn (`cpu_load_le_max`), and below that bound
every sum, product and narrowing on the way to the points fits an int. -/
theorem accepted_loads_are_delivered (hmin : 1 ≤ core_count.toInt)
    (hmax : core_count.toInt ≤ 100000) (args : CliArgument) :
    Ensures
      (fun o => 0 < o.cpu_load.toInt →
        DefaultDelivers core_count o ∧ RandomNormalDelivers core_count o)
      (fun _ => True) (Options.processCliArguments {} args core_count) := by
  apply (Options.ensures_processCliArguments hmin).mono _ (fun _ h => h)
  intro o h hload
  refine ⟨fun _ => CpuResourceManagerDefault.ensures_init hmax h hload, ?_⟩
  have hfits := h.cpu_load_le_max hmax
  obtain ⟨points, hok, hpoints⟩ := Ensures.exists_ok
    (ensures_generateSchedulePointsInts (ε := Empty) binMasses_cpuDistribution_pos
      (by omega : o.cpu_load.toInt * 60 < 2 ^ 31))
  obtain ⟨hpeak, hpeak_le⟩ := maxLoad_bounds binMasses_cpuDistribution_pos hload hpoints
  exact ⟨points, hok, hpoints, fun _ _ =>
    RandomNormalManager.ensures_init hmax h hload hpeak hpeak_le⟩

/-- `-l 250 -c 3` on four cores. -/
theorem accepted_loads_are_delivered_three_threads :
    ∃ o, Options.processCliArguments {} { cpu_load := some 250, cpu_count := some 3 } 4 = .ok o ∧
      DefaultDelivers 4 o ∧ RandomNormalDelivers 4 o :=
  have hok : Options.processCliArguments {} { cpu_load := some 250, cpu_count := some 3 } 4 =
      .ok { cpu_load := 250, cpu_count := 3 } := by decide +kernel
  ⟨_, hok, (accepted_loads_are_delivered (by decide) (by decide) _).of_ok hok (by decide)⟩

end Accepted

end Loadmaster.Cpu
