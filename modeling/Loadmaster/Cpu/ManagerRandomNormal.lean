/-
The CPU's `rand_normal` scheduler (`cpu/manager_random_normal.cc`). Every point
of the schedule is a target for ten seconds; the points are shuffled in place
each time the walk through them begins, and once more by `Init`.
-/
import Loadmaster.Constants
import Loadmaster.Lib.Run
import Loadmaster.Util.NormalSchedule
import Loadmaster.Util.RandNormalWalk

set_option autoImplicit false

namespace Loadmaster.Cpu

open Cycle Util

variable {α : Type*} [Field α] [LinearOrder α] [FloorRing α]

/-! ## The scheduler -/

structure CpuResourceManagerRandomNormal where
  point_idx : ℕ := 0
  schedule_points : List ℤ
  load_target : ℤ := 0
  last_load_target_change : ℤ := 0
  load_target_started : Bool := false
deriving DecidableEq, Repr

/-- `GenerateSchedulePoints`, for a `-l` of `cpu_load`: no cap on a point. -/
def generateSchedulePoints (dist : NormalDistribution α) (cpu_load : ℤ) : List ℤ :=
  buildNormalSchedulePoints dist kCpuRandNormalSchedulePointCount (kCpuRandNormalCdfTarget : ℚ)
    cpu_load 0

namespace CpuResourceManagerRandomNormal

/-- `UpdateLoadTarget`; `shuffle` is what `std::shuffle` makes of the points. -/
def updateLoadTarget (m : CpuResourceManagerRandomNormal) (time_point : ℤ) (shuffle : Shuffle ℤ) :
    CpuResourceManagerRandomNormal :=
  if m.load_target_started ∧
      durationMs (time_point - m.last_load_target_change) < kCpuRandNormalScheduleIntervalMS then m
  else
    let points := if m.point_idx = 0 then shuffle.run m.schedule_points else m.schedule_points
    { schedule_points := points
      load_target := points.getD m.point_idx 0
      point_idx := if m.point_idx + 1 = points.length then 0 else m.point_idx + 1
      last_load_target_change := time_point
      load_target_started := true }

/-- After `Init`. -/
def init (base : List ℤ) (shuffle : Shuffle ℤ) : CpuResourceManagerRandomNormal where
  schedule_points := shuffle.run base

/-! ## Its walk -/

def walk (m : CpuResourceManagerRandomNormal) : Walk where
  schedule_points := m.schedule_points
  point_idx := m.point_idx
  last_change := m.last_load_target_change
  started := m.load_target_started

/-- The order a change at this tick goes by. -/
def order (m : CpuResourceManagerRandomNormal) (shuffle : Shuffle ℤ) : List ℤ :=
  if m.point_idx = 0 then shuffle.run m.schedule_points else m.schedule_points

/-- The scheduler, and the changes it has made to its target. -/
structure Traced where
  manager : CpuResourceManagerRandomNormal
  changes : List Change := []

def Traced.tick (s : Traced) (t : ℤ × Shuffle ℤ) : Traced where
  manager := s.manager.updateLoadTarget t.1 t.2
  changes :=
    if s.manager.walk.due kCpuRandNormalScheduleIntervalMS t.1 then
      s.changes ++ [{ time := t.1, index := s.manager.point_idx,
                      target := (s.manager.updateLoadTarget t.1 t.2).load_target }]
    else s.changes

variable {m : CpuResourceManagerRandomNormal} {time : ℤ} {shuffle : Shuffle ℤ} {base : List ℤ}

theorem updateLoadTarget_idle (h : m.walk.due kCpuRandNormalScheduleIntervalMS time = false) :
    m.updateLoadTarget time shuffle = m := by
  unfold updateLoadTarget
  exact if_pos (Walk.due_eq_false_iff.mp h)

/-- A change is one step of the walk. -/
theorem updateLoadTarget_due (shuffle : Shuffle ℤ)
    (h : m.walk.due kCpuRandNormalScheduleIntervalMS time = true) :
    (m.updateLoadTarget time shuffle).walk = m.walk.advance (m.order shuffle) time ∧
      (m.updateLoadTarget time shuffle).load_target =
        (m.walk.change (m.order shuffle) time).target := by
  have hchange : m.updateLoadTarget time shuffle =
      { schedule_points := m.order shuffle
        load_target := (m.order shuffle).getD m.point_idx 0
        point_idx := if m.point_idx + 1 = (m.order shuffle).length then 0 else m.point_idx + 1
        last_load_target_change := time
        load_target_started := true } := if_neg (Walk.due_eq_true_iff.mp h)
  rw [hchange]
  exact ⟨rfl, rfl⟩

theorem order_perm (h : m.schedule_points.Perm base) : (m.order shuffle).Perm base := by
  unfold order
  split_ifs
  · exact (shuffle.perm _).trans h
  · exact h

/-- **One tick** of the scheduler. -/
theorem Traced.tick_follows {s : Traced}
    (h : Follows base kCpuRandNormalScheduleIntervalMS s.manager.walk s.changes)
    (t : ℤ × Shuffle ℤ) :
    Follows base kCpuRandNormalScheduleIntervalMS (s.tick t).manager.walk (s.tick t).changes := by
  unfold Traced.tick
  by_cases hdue : s.manager.walk.due kCpuRandNormalScheduleIntervalMS t.1 = true
  · obtain ⟨hwalk, htarget⟩ := updateLoadTarget_due t.2 hdue
    rw [if_pos hdue, hwalk, htarget]
    apply h.advance (by decide) hdue (order_perm h.dealt.perm)
    intro hne
    exact if_neg hne
  · rw [if_neg hdue, updateLoadTarget_idle (by simpa using hdue)]
    exact h

/-- **The CPU's walk**, over any ticks and shuffles. -/
theorem averages (hne : base ≠ []) (shuffle : Shuffle ℤ) (ticks : List (ℤ × Shuffle ℤ)) (k : ℕ) :
    Averages base kCpuRandNormalScheduleIntervalMS
      (Run.before Traced.tick { manager := init base shuffle } ticks k).changes := by
  apply Follows.averages
  · exact Run.before_induction (P := fun s : Traced =>
      Follows base kCpuRandNormalScheduleIntervalMS s.manager.walk s.changes)
      (follows_nil hne (shuffle.perm base)) (fun _ t _ h => Traced.tick_follows h t) k

end CpuResourceManagerRandomNormal

end Loadmaster.Cpu
