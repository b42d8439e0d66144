/-
The workers of a CPU manager (`cpu/manager.cc`) and how many of them the default
manager starts (`cpu/manager_default.cc`).

A count of workers is right for a set of loads if there are that many cores and
the workers can burn each of the loads (`Delivers`). For the default manager the
only load is the one of the options, and the validator has made it fit.
-/
import Loadmaster.Core.Options
import Mathlib.Data.Set.Basic

set_option autoImplicit false

namespace Loadmaster.Cpu

open Loadmaster.Core Outcome

variable {ε : Type}

/-! ## Workers -/

structure CpuWorkerContext where
  id : Int32
  load_set : Int32 := 0
  base_loop_count : Int32
deriving DecidableEq, Repr

structure CpuResourceManager where
  workers : List CpuWorkerContext := []
  base_loop_count : Int32
deriving DecidableEq, Repr

/-- A new worker; a loop count below 1 is not taken. -/
def CpuWorkerContext.new (id initial_base_loop_count : Int32) : CpuWorkerContext where
  id := id
  base_loop_count :=
    if 1 < initial_base_loop_count.toInt then initial_base_loop_count else 1

/-- The workers that `-c` asks for, or as many as `load` needs. -/
def workerCount (cpu_count load : Int32) : Outcome ε Int32 :=
  if 0 < cpu_count.toInt then pure cpu_count
  else do
    let rounded_up ← int32 (load.toInt + (kCpuMaxLoadPerCore - 1))
    int32 (rounded_up.toInt.tdiv kCpuMaxLoadPerCore)

namespace CpuResourceManager

def constructWorkerThreads (m : CpuResourceManager) (count : Int32) : CpuResourceManager :=
  { m with workers := m.workers ++
      (List.range count.toInt.toNat).map fun i => .new (.ofNat i) m.base_loop_count }

/-- `Capacity`: one full core for each worker. -/
def capacity (m : CpuResourceManager) : Outcome ε Int32 := do
  let workers ← int32 m.workers.length
  int32 (workers.toInt * kCpuMaxLoadPerCore)

/-- **The manager can deliver**: it has a worker and no more of them than there
are cores, and together they can burn any of the loads. -/
structure Delivers (core_count : Int32) (loads : Set ℤ) (m : CpuResourceManager) : Prop where
  one_le : 1 ≤ m.workers.length
  le_core_count : (m.workers.length : ℤ) ≤ core_count.toInt
  enough : ∃ c : Int32, m.capacity = (.ok c : Outcome Empty Int32) ∧ ∀ load ∈ loads, load ≤ c.toInt

end CpuResourceManager

/-- `CpuResourceManagerDefault::Init` -/
def CpuResourceManagerDefault.init (options : Options) (core_count : Int32)
    (m : CpuResourceManager) : Outcome String CpuResourceManager :=
  if options.cpu_load.toInt ≤ 0 then .failed "CPU module disabled (-l 0)"
  else do
    let count ← workerCount options.cpu_count options.cpu_load
    if count.toInt ≤ 0 then .failed ""
    else if core_count.toInt < count.toInt then
      .failed s!"CPU load `{options.cpu_load}` needs {count} CPU, have {core_count}"
    else pure (m.constructWorkerThreads count)

/-! ## How many workers -/

section Workers

variable {cpu_count load core_count : Int32} {F : ε → Prop}

theorem ensures_workerCount (hload : 0 ≤ load.toInt) (hfits : load.toInt + 99 < 2 ^ 31) :
    Ensures (fun count : Int32 => count.toInt =
        if 0 < cpu_count.toInt then cpu_count.toInt else (load.toInt + 99) / 100)
      F (workerCount cpu_count load) := by
  unfold workerCount
  rw [natCast_kCpuMaxLoadPerCore]
  split_ifs
  · exact ensures_pure.mpr rfl
  · refine ensures_bind.mpr (ensures_int32 (by omega) (by omega) fun rounded_up hrounded => ?_)
    rw [hrounded, Int.tdiv_eq_ediv_of_nonneg (by omega)]
    exact ensures_int32 (by omega) (by omega) fun count hcount => by omega

namespace CpuResourceManager

variable {count loop_count : Int32} {loads : Set ℤ}

theorem ensures_capacity {m : CpuResourceManager} (hfits : 100 * m.workers.length < 2 ^ 31) :
    Ensures (fun c : Int32 => c.toInt = m.workers.length * 100) F m.capacity := by
  unfold capacity
  refine ensures_bind.mpr (ensures_int32 (by omega) (by omega) fun workers hworkers => ?_)
  rw [natCast_kCpuMaxLoadPerCore, hworkers]
  exact ensures_int32 (by omega) (by omega) fun c hc => hc

/-- Workers for `count` cores can burn `100 * count`. -/
theorem delivers_constructWorkerThreads (hcount : 1 ≤ count.toInt)
    (hcores : count.toInt ≤ core_count.toInt) (hmax : core_count.toInt ≤ 100000)
    (hloads : ∀ load ∈ loads, load ≤ count.toInt * 100) :
    Delivers core_count loads (constructWorkerThreads { base_loop_count := loop_count } count) := by
  generalize hm : constructWorkerThreads { base_loop_count := loop_count } count = m
  have hlen : m.workers.length = count.toInt.toNat := by
    simp [← hm, constructWorkerThreads]
  obtain ⟨c, hc, hvalue⟩ :=
    Ensures.exists_ok (ensures_capacity (F := fun _ : Empty => False) (m := m) (by omega))
  refine ⟨by omega, by omega, c, hc, fun load hload => ?_⟩
  have hle := hloads load hload
  omega

end CpuResourceManager

/-- **The default manager delivers** whatever load the options may have. -/
theorem CpuResourceManagerDefault.ensures_init {options : Options} {loop_count : Int32}
    (hmax : core_count.toInt ≤ 100000) (h : options.Fits core_count)
    (hload : 0 < options.cpu_load.toInt) :
    Ensures (CpuResourceManager.Delivers core_count {options.cpu_load.toInt}) (fun _ => False)
      (CpuResourceManagerDefault.init options core_count { base_loop_count := loop_count }) := by
  have hle := h.cpu_load_le
  have hcount := h.count_le
  unfold CpuResourceManagerDefault.init
  rw [if_neg (by omega)]
  refine Ensures.bind (ensures_workerCount hload.le (by split_ifs at hle <;> omega))
    fun count hcount' => ?_
  -- the two rules for the count, and the two for the threads, go together
  have hbounds : 1 ≤ count.toInt ∧ count.toInt ≤ core_count.toInt ∧
      options.cpu_load.toInt ≤ count.toInt * 100 := by
    split_ifs at hcount' hle <;> omega
  rw [if_neg (by omega), if_neg (by omega)]
  refine ensures_pure.mpr (CpuResourceManager.delivers_constructWorkerThreads hbounds.1 hbounds.2.1
    hmax ?_)
  rintro load rfl
  exact hbounds.2.2

end Workers

end Loadmaster.Cpu
