/-
The GPUs' `rand_normal` scheduler (`gpu/manager_random_normal.cc`): every device
walks through a shuffled copy of the same points on its own, and gets a fresh
copy each time its walk begins anew.

The last section puts both schedulers side by side: the CPU's and each device's
walk average exactly over every period.
-/
import Loadmaster.Cpu.ManagerRandomNormal
import Loadmaster.Gpu.Settings

set_option autoImplicit false

namespace Loadmaster.Gpu

open Cycle Util

variable {α : Type*} [Field α] [LinearOrder α] [FloorRing α]

/-! ## The scheduler -/

/-- `DeviceState`. -/
structure DeviceState where
  schedule_points : List ℤ
  point_idx : ℕ := 0
  last_change : ℤ := 0
  started : Bool := false
deriving DecidableEq, Repr

/-- The workers are what the scheduler stores into them. -/
structure GpuResourceManagerRandomNormal where
  base_schedule_points : List ℤ
  states : List DeviceState
  workers : List Settings
deriving DecidableEq, Repr

/-- `GenerateBaseSchedulePoints`, for a `-g` of `gpu_load`: no point above 100. -/
def generateBaseSchedulePoints (dist : NormalDistribution α) (gpu_load : ℤ) : List ℤ :=
  buildNormalSchedulePoints dist kGpuRandNormalSchedulePointCount (kGpuRandNormalCdfTarget : ℚ)
    gpu_load kGpuMaxLoadPerDevice

/-- `LoadPercentToBusyMs`. -/
def loadPercentToBusyMs (load_percent : ℤ) : ℤ :=
  (load_percent * kScheduleIntervalMS).tdiv kGpuMaxLoadPerDevice

/-- The order a change at this tick goes by: a fresh copy where the walk begins
anew, but not at the very start. -/
def DeviceState.order (state : DeviceState) (base : List ℤ) (shuffle : Shuffle ℤ) : List ℤ :=
  if state.point_idx = 0 ∧ state.started then shuffle.run base else state.schedule_points

/-- A device's part of `AdvanceDevice`: its new state and load, if a change is
due; `shuffle` is what `std::shuffle` makes of a copy. -/
def DeviceState.advance (state : DeviceState) (base : List ℤ) (time_point : ℤ)
    (shuffle : Shuffle ℤ) : Option (DeviceState × ℤ) :=
  if state.started ∧
      durationMs (time_point - state.last_change) < kGpuRandNormalScheduleIntervalMS then none
  else
    let points := state.order base shuffle
    some
      ({ schedule_points := points
         point_idx := if state.point_idx + 1 = points.length then 0 else state.point_idx + 1
         last_change := time_point
         started := true },
       points.getD state.point_idx 0)

namespace GpuResourceManagerRandomNormal

/-- `Init`: a shuffled copy for each of the workers. -/
def init (base : List ℤ) (workers : List Settings) (shuffles : ℕ → Shuffle ℤ) :
    GpuResourceManagerRandomNormal where
  base_schedule_points := base
  states := (List.range workers.length).map fun i => { schedule_points := (shuffles i).run base }
  workers := workers

/-- What `AdvanceDevice` changes of a device, if it changes anything. -/
def step (m : GpuResourceManagerRandomNormal) (worker_index : ℕ) (time_point : ℤ)
    (shuffle : Shuffle ℤ) : Option (DeviceState × ℤ) :=
  m.states[worker_index]?.bind fun state =>
    state.advance m.base_schedule_points time_point shuffle

/-- `AdvanceDevice`. -/
def advanceDevice (m : GpuResourceManagerRandomNormal) (worker_index : ℕ) (time_point : ℤ)
    (shuffle : Shuffle ℤ) : GpuResourceManagerRandomNormal :=
  match m.step worker_index time_point shuffle with
  | none => m
  | some (state, load_percent) =>
    { m with
      workers := m.workers.modify worker_index fun w =>
        w.setLoadSet (loadPercentToBusyMs load_percent)
      states := m.states.set worker_index state }

/-- A call of it. -/
structure Advance where
  worker_index : ℕ
  time_point : ℤ
  shuffle : Shuffle ℤ

/-- The calls that `Schedule` makes. -/
def calls (m : GpuResourceManagerRandomNormal) (time_point : ℤ) (shuffles : ℕ → Shuffle ℤ) :
    List Advance :=
  (List.range m.workers.length).map fun i => ⟨i, time_point, shuffles i⟩

/-- `Schedule`. -/
def schedule (m : GpuResourceManagerRandomNormal) (time_point : ℤ) (shuffles : ℕ → Shuffle ℤ) :
    GpuResourceManagerRandomNormal :=
  (m.calls time_point shuffles).foldl
    (fun m c => m.advanceDevice c.worker_index c.time_point c.shuffle) m

end GpuResourceManagerRandomNormal

/-! ## Its walks -/

def DeviceState.walk (state : DeviceState) : Walk where
  schedule_points := state.schedule_points
  point_idx := state.point_idx
  last_change := state.last_change
  started := state.started

section Device

variable {state : DeviceState} {base : List ℤ} {time : ℤ} {shuffle : Shuffle ℤ}

/-- Before its time is up a device's walk rests. -/
theorem DeviceState.advance_idle
    (h : state.walk.due kGpuRandNormalScheduleIntervalMS time = false) :
    state.advance base time shuffle = none :=
  if_pos (Walk.due_eq_false_iff.mp h)

/-- A change is one step of the device's walk. -/
theorem DeviceState.advance_due (base : List ℤ) (shuffle : Shuffle ℤ)
    (h : state.walk.due kGpuRandNormalScheduleIntervalMS time = true) :
    ∃ state', state.advance base time shuffle
        = some (state', (state.walk.change (state.order base shuffle) time).target) ∧
      state'.walk = state.walk.advance (state.order base shuffle) time :=
  ⟨_, if_neg (Walk.due_eq_true_iff.mp h), rfl⟩

/-- Shuffled or not, the points are those of the schedule. -/
theorem DeviceState.order_perm (h : state.schedule_points.Perm base) :
    (state.order base shuffle).Perm base := by
  unfold order
  split_ifs
  · exact shuffle.perm base
  · exact h

/-- **One call**, for the device it is about. -/
theorem DeviceState.advance_follows {changes : List Change} (time : ℤ) (shuffle : Shuffle ℤ)
    (h : Follows base kGpuRandNormalScheduleIntervalMS state.walk changes) :
    match state.advance base time shuffle with
    | none => True
    | some (state', load_percent) => Follows base kGpuRandNormalScheduleIntervalMS state'.walk
        (changes ++ [{ time, index := state.point_idx, target := load_percent }]) := by
  by_cases hdue : state.walk.due kGpuRandNormalScheduleIntervalMS time = true
  · obtain ⟨state', hadvance, hwalk⟩ := advance_due base shuffle hdue
    rw [hadvance]
    dsimp only
    rw [hwalk]
    apply h.advance (by decide) hdue (order_perm h.dealt.perm)
    intro hne
    exact if_neg fun hanew => hne hanew.1
  · rw [advance_idle (by simpa using hdue)]
    trivial

end Device

namespace GpuResourceManagerRandomNormal

/-- The scheduler, and the changes it has made to each device's load. -/
structure Traced where
  manager : GpuResourceManagerRandomNormal
  changes : ℕ → List Change := fun _ => []

/-- The index a device is at. -/
def pointIdx (m : GpuResourceManagerRandomNormal) (i : ℕ) : ℕ :=
  match m.states[i]? with
  | some state => state.point_idx
  | none => 0

def Traced.advance (s : Traced) (c : Advance) : Traced where
  manager := s.manager.advanceDevice c.worker_index c.time_point c.shuffle
  changes :=
    match s.manager.step c.worker_index c.time_point c.shuffle with
    | none => s.changes
    | some (_, load_percent) =>
      Function.update s.changes c.worker_index (s.changes c.worker_index ++
        [{ time := c.time_point, index := s.manager.pointIdx c.worker_index,
           target := load_percent }])

variable {m : GpuResourceManagerRandomNormal} {i j : ℕ} {time : ℤ} {shuffle : Shuffle ℤ}
  {base : List ℤ}

/-- **One device's walk never changes another's.** -/
theorem advanceDevice_of_ne (h : j ≠ i) :
    (m.advanceDevice i time shuffle).states[j]? = m.states[j]? ∧
      (m.advanceDevice i time shuffle).workers[j]? = m.workers[j]? := by
  unfold advanceDevice
  cases m.step i time shuffle with
  | none => exact ⟨rfl, rfl⟩
  | some r =>
    refine ⟨List.getElem?_set_ne h.symm, ?_⟩
    exact List.getElem?_modify_ne _ _ h.symm

/-- Every device follows its own walk, and its worker has the load of the last
change. -/
structure Walks (base : List ℤ) (s : Traced) : Prop where
  base_eq : s.manager.base_schedule_points = base
  size : s.manager.states.length = s.manager.workers.length
  follows : ∀ i state, s.manager.states[i]? = some state →
    Follows base kGpuRandNormalScheduleIntervalMS state.walk (s.changes i)
  nothing : ∀ i, s.manager.states[i]? = none → s.changes i = []
  applied : ∀ i c, (s.changes i)[(s.changes i).length - 1]? = some c →
    s.manager.workers[i]?.map Settings.load_set = some (loadPercentToBusyMs c.target)

/-- At the start each device has a walk of its own. -/
theorem walks_init (hne : base ≠ []) (workers : List Settings) (shuffles : ℕ → Shuffle ℤ) :
    Walks base { manager := init base workers shuffles } where
  base_eq := rfl
  size := by simp [init]
  follows := by
    intro i state h
    obtain ⟨k, -, rfl⟩ := List.mem_map.mp (List.mem_of_getElem? h)
    exact follows_nil hne ((shuffles k).perm base)
  nothing := by simp
  applied := by simp

/-- The device a call is about, when it makes a change. -/
theorem step_eq_some {r : DeviceState × ℤ} (h : m.step i time shuffle = some r) :
    ∃ state, m.states[i]? = some state ∧
      state.advance m.base_schedule_points time shuffle = some r :=
  Option.bind_eq_some_iff.mp h

/-- A call moves the walk of its device, and the worker gets the load of the point. -/
theorem advanceDevice_self {r : DeviceState × ℤ} (h : m.step i time shuffle = some r)
    (hsize : m.states.length = m.workers.length) :
    (m.advanceDevice i time shuffle).states[i]? = some r.1 ∧
      (m.advanceDevice i time shuffle).workers[i]?.map Settings.load_set
        = some (loadPercentToBusyMs r.2) := by
  obtain ⟨state, hstate, -⟩ := step_eq_some h
  have hi : i < m.states.length := (List.getElem?_eq_some_iff.mp hstate).1
  have hadvance : m.advanceDevice i time shuffle =
      { m with
        workers := m.workers.modify i fun w => w.setLoadSet (loadPercentToBusyMs r.2)
        states := m.states.set i r.1 } := by
    unfold advanceDevice
    rw [h]
  rw [hadvance]
  refine ⟨List.getElem?_set_self hi, ?_⟩
  rw [List.getElem?_modify_eq, List.getElem?_eq_getElem (by omega : i < m.workers.length)]
  rfl

theorem advanceDevice_base :
    (m.advanceDevice i time shuffle).base_schedule_points = m.base_schedule_points := by
  unfold advanceDevice
  cases m.step i time shuffle <;> rfl

theorem advanceDevice_size (h : m.states.length = m.workers.length) :
    (m.advanceDevice i time shuffle).states.length
      = (m.advanceDevice i time shuffle).workers.length := by
  unfold advanceDevice
  cases m.step i time shuffle with
  | none => exact h
  | some r => simpa using h

/-- A call for which nothing is due changes nothing. -/
theorem Traced.advance_of_none {s : Traced} {c : Advance}
    (h : s.manager.step c.worker_index c.time_point c.shuffle = none) : s.advance c = s := by
  unfold Traced.advance advanceDevice
  rw [h]

/-- A change is one entry more for the device. -/
theorem Traced.changes_advance {s : Traced} {c : Advance} {state : DeviceState}
    {r : DeviceState × ℤ} (h : s.manager.step c.worker_index c.time_point c.shuffle = some r)
    (hstate : s.manager.states[c.worker_index]? = some state) :
    (s.advance c).changes = Function.update s.changes c.worker_index
      (s.changes c.worker_index ++
        [{ time := c.time_point, index := state.point_idx, target := r.2 }]) := by
  unfold Traced.advance pointIdx
  rw [h, hstate]

/-- **One call** keeps all walks. -/
theorem Walks.advance {s : Traced} (h : Walks base s) (c : Advance) : Walks base (s.advance c) := by
  cases hstep : s.manager.step c.worker_index c.time_point c.shuffle with
  | none =>
    rw [Traced.advance_of_none hstep]
    exact h
  | some r =>
    obtain ⟨state, hstate, hadvance⟩ := step_eq_some hstep
    obtain ⟨hself, hload⟩ := advanceDevice_self hstep h.size
    have hchanges := Traced.changes_advance hstep hstate
    have hown : (s.advance c).changes c.worker_index = s.changes c.worker_index ++
        [{ time := c.time_point, index := state.point_idx, target := r.2 }] := by
      rw [hchanges, Function.update_self]
    have hother : ∀ i, i ≠ c.worker_index → (s.advance c).changes i = s.changes i := by
      intro i hi
      rw [hchanges, Function.update_of_ne hi]
    refine ⟨advanceDevice_base.trans h.base_eq, advanceDevice_size h.size, ?_, ?_, ?_⟩
    · intro i state' hstate'
      by_cases hi : i = c.worker_index
      · subst hi
        obtain rfl : r.1 = state' := Option.some.inj (hself.symm.trans hstate')
        have hfollows := DeviceState.advance_follows c.time_point c.shuffle
          (h.follows _ state hstate)
        rw [← h.base_eq, hadvance] at hfollows
        rw [hown, ← h.base_eq]
        exact hfollows
      · rw [hother i hi]
        exact h.follows i state' ((advanceDevice_of_ne hi).1.symm.trans hstate')
    · intro i hnone
      by_cases hi : i = c.worker_index
      · subst hi
        exact absurd (hself.symm.trans hnone) (by simp)
      · rw [hother i hi]
        exact h.nothing i ((advanceDevice_of_ne hi).1.symm.trans hnone)
    · intro i change hchange
      by_cases hi : i = c.worker_index
      · subst hi
        rw [hown, List.length_append, List.length_singleton, Nat.add_sub_cancel,
          List.getElem?_append_right le_rfl, Nat.sub_self, List.getElem?_cons_zero] at hchange
        cases hchange
        exact hload
      · rw [hother i hi] at hchange
        have hworker : (s.advance c).manager.workers[i]? = s.manager.workers[i]? :=
          (advanceDevice_of_ne hi).2
        rw [hworker]
        exact h.applied i change hchange

/-- **Each device's walk**, over any calls and shuffles. -/
theorem walks (hne : base ≠ []) (workers : List Settings) (shuffles : ℕ → Shuffle ℤ)
    (cs : List Advance) (k : ℕ) :
    Walks base (Run.before Traced.advance { manager := init base workers shuffles } cs k) :=
  Run.before_induction (walks_init hne workers shuffles) (fun _ c _ h => h.advance c) k

/-- So the walk of each device averages to its schedule. -/
theorem Walks.averages {s : Traced} (hne : base ≠ []) (h : Walks base s) (i : ℕ) :
    Averages base kGpuRandNormalScheduleIntervalMS (s.changes i) := by
  cases hstate : s.manager.states[i]? with
  | none =>
    rw [h.nothing i hstate]
    exact (follows_nil hne (List.Perm.refl base)).averages
  | some state => exact (h.follows i state hstate).averages

/-- A tick of `Schedule` is a run of such calls. -/
theorem manager_foldl_calls (s : Traced) (time_point : ℤ) (shuffles : ℕ → Shuffle ℤ) :
    ((s.manager.calls time_point shuffles).foldl Traced.advance s).manager =
      s.manager.schedule time_point shuffles := by
  unfold schedule
  generalize s.manager.calls time_point shuffles = cs
  induction cs generalizing s with
  | nil => rfl
  | cons c cs ih => exact ih (s.advance c)

end GpuResourceManagerRandomNormal

/-! ## Both schedulers -/

/-- **A `rand_normal` walk averages exactly over every period.** In every run of the
CPU's scheduler, and of the GPUs' for each device, whatever the ticks are and whatever
the shuffles make of the points: cut into blocks of 60, the targets of a complete
block are the schedule's points in some order; two changes are ten seconds apart;
every index is in range; and a call for one device leaves the others' states and loads
alone. Each walk deals its points out one by one and shuffles them again after the
last, so what has been dealt of a block of 60 is part of a permutation of the schedule
(`Follows`, kept by every call). -/
theorem rand_normal_averages (dist : NormalDistribution α) (load : ℤ) :
    (∀ (shuffle : Shuffle ℤ) (ticks : List (ℤ × Shuffle ℤ)) (k : ℕ),
      (Cpu.generateSchedulePoints dist load).length = 60 ∧
        Averages (Cpu.generateSchedulePoints dist load) 10000
          (Run.before Cpu.CpuResourceManagerRandomNormal.Traced.tick
            { manager := .init (Cpu.generateSchedulePoints dist load) shuffle } ticks k).changes) ∧
      (∀ (workers : List Settings) (shuffles : ℕ → Shuffle ℤ)
        (cs : List GpuResourceManagerRandomNormal.Advance) (k i : ℕ),
        (generateBaseSchedulePoints dist load).length = 60 ∧
          Averages (generateBaseSchedulePoints dist load) 10000
            ((Run.before GpuResourceManagerRandomNormal.Traced.advance
              { manager := .init (generateBaseSchedulePoints dist load) workers shuffles }
              cs k).changes i)) ∧
      ∀ (m : GpuResourceManagerRandomNormal) (i j : ℕ) (time : ℤ) (shuffle : Shuffle ℤ), j ≠ i →
        (m.advanceDevice i time shuffle).states[j]? = m.states[j]? ∧
          (m.advanceDevice i time shuffle).workers[j]? = m.workers[j]? := by
  have hcpu : (Cpu.generateSchedulePoints dist load).length = 60 :=
    length_buildNormalSchedulePoints
  have hgpu : (generateBaseSchedulePoints dist load).length = 60 :=
    length_buildNormalSchedulePoints
  have hcpu_ne : Cpu.generateSchedulePoints dist load ≠ [] := by
    intro hnil
    rw [hnil] at hcpu
    cases hcpu
  have hgpu_ne : generateBaseSchedulePoints dist load ≠ [] := by
    intro hnil
    rw [hnil] at hgpu
    cases hgpu
  refine ⟨?_, ?_, fun m i j time shuffle h =>
    GpuResourceManagerRandomNormal.advanceDevice_of_ne h⟩
  · intro shuffle ticks k
    exact ⟨hcpu, Cpu.CpuResourceManagerRandomNormal.averages hcpu_ne shuffle ticks k⟩
  · intro workers shuffles cs k i
    exact ⟨hgpu, (GpuResourceManagerRandomNormal.walks hgpu_ne workers shuffles cs k).averages
      hgpu_ne i⟩

end Loadmaster.Gpu
