/-
How a CPU manager splits a load among its workers (`cpu/manager.cc`).

The load is in percent of a core, what a worker is given in milliseconds of
every scheduling period.
-/
import Loadmaster.Cpu.Manager
import Loadmaster.Lib.EvenSplit
import Loadmaster.Lib.Round
import Mathlib.Algebra.BigOperators.Ring.Finset

set_option autoImplicit false

namespace Loadmaster.Cpu

open Loadmaster.Core Outcome

variable {ε : Type}

/-- `SetLoadSet` -/
def CpuWorkerContext.setLoadSet (w : CpuWorkerContext) (load_ms : Int32) : CpuWorkerContext :=
  { w with load_set := load_ms }

namespace CpuResourceManager

/-- The loop of `SetWorkerLoadWithTotalLoad` from worker `i` on. -/
def setLoads (base remainder : Int32) : ℕ → List CpuWorkerContext →
    Outcome ε (List CpuWorkerContext)
  | _, [] => pure []
  | i, w :: ws => do
    let load_percent ← int32 (base.toInt + if (i : ℤ) < remainder.toInt then 1 else 0)
    let scaled ← int32 (load_percent.toInt * kScheduleIntervalMS)
    let load_ms ← int32 (scaled.toInt.tdiv kCpuMaxLoadPerCore)
    let ws ← setLoads base remainder (i + 1) ws
    pure (w.setLoadSet load_ms :: ws)

/-- `SetWorkerLoadWithTotalLoad` -/
def setWorkerLoadWithTotalLoad (m : CpuResourceManager) (total_load : Int32) :
    Outcome ε CpuResourceManager := do
  let thread_count ← int32 m.workers.length
  if thread_count.toInt = 0 then pure m
  else do
    let capacity ← m.capacity
    let total := Round.clamp total_load.toInt 0 capacity.toInt
    let base ← int32 (total.tdiv thread_count.toInt)
    let remainder ← int32 (total.tmod thread_count.toInt)
    let workers ← setLoads base remainder 0 m.workers
    pure { m with workers := workers }

/-- What the workers are to burn, in milliseconds of a period. -/
def loads (m : CpuResourceManager) : List ℤ := m.workers.map fun w => w.load_set.toInt

theorem natCast_kScheduleIntervalMS : (kScheduleIntervalMS : ℤ) = 100 := rfl

/-! ## The split -/

variable {F : ε → Prop}

/-- **The loop** hands out the shares from number `i` on. -/
theorem ensures_setLoads {base remainder : Int32} {total n i : ℕ} {ws : List CpuWorkerContext}
    (hbase : base.toInt = (total / n : ℕ)) (hremainder : remainder.toInt = (total % n : ℕ))
    (htotal : total ≤ 100 * n) :
    Ensures (fun out : List CpuWorkerContext => out.map (fun w => w.load_set.toInt) =
        (List.range' i ws.length).map fun k => ((EvenSplit.share total n k : ℕ) : ℤ))
      F (setLoads base remainder i ws) := by
  induction ws generalizing i with
  | nil => exact ensures_pure.mpr rfl
  | cons w ws ih =>
    have hshare : base.toInt + (if (i : ℤ) < remainder.toInt then 1 else 0) =
        (EvenSplit.share total n i : ℕ) := by
      rw [hbase, hremainder, EvenSplit.share]
      split_ifs <;> omega
    have hle := EvenSplit.share_le (i := i) htotal
    unfold setLoads
    rw [natCast_kScheduleIntervalMS, natCast_kCpuMaxLoadPerCore, hshare]
    refine ensures_bind.mpr (ensures_int32 (by omega) (by omega) fun percent hpercent => ?_)
    refine ensures_bind.mpr (ensures_int32 (by omega) (by omega) fun scaled hscaled => ?_)
    -- a period is as long as a core has percent
    have hms : scaled.toInt.tdiv 100 = (EvenSplit.share total n i : ℕ) := by
      rw [hscaled, hpercent, Int.mul_tdiv_cancel _ (by decide)]
    rw [hms]
    refine ensures_bind.mpr (ensures_int32 (by omega) (by omega) fun ms hvalue => ?_)
    refine Ensures.bind ih fun out hout => ensures_pure.mpr ?_
    rw [List.length_cons, List.range'_succ, List.map_cons, List.map_cons, hout]
    exact congrArg (· :: _) hvalue

/-- **What the manager computes.** -/
theorem ensures_setWorkerLoadWithTotalLoad {m : CpuResourceManager} {total_load : Int32}
    (hne : m.workers ≠ []) (hfits : 100 * m.workers.length < 2 ^ 31) :
    Ensures (fun m' : CpuResourceManager => m'.loads =
        (List.range m.workers.length).map fun k => ((EvenSplit.share
          (Round.clamp total_load.toInt 0 (100 * m.workers.length)).toNat
          m.workers.length k : ℕ) : ℤ))
      F (m.setWorkerLoadWithTotalLoad total_load) := by
  have hlen := List.length_pos_iff.mpr hne
  generalize hn : m.workers.length = n at hfits hlen ⊢
  unfold setWorkerLoadWithTotalLoad
  rw [hn]
  refine ensures_bind.mpr (ensures_int32 (by omega) (by omega) fun thread_count hcount => ?_)
  rw [hcount, if_neg (by omega)]
  refine Ensures.bind (ensures_capacity (by omega)) fun capacity hcapacity => ?_
  rw [hn] at hcapacity
  have hclamp : 0 ≤ Round.clamp total_load.toInt 0 capacity.toInt ∧ _ :=
    Round.clamp_mem (by omega)
  rw [show (100 * n : ℤ) = capacity.toInt by omega]
  dsimp only
  generalize Round.clamp total_load.toInt 0 capacity.toInt = total at hclamp ⊢
  lift total to ℕ using hclamp.1
  have hmod := Nat.mod_lt total hlen
  have hdiv : 0 ≤ ((total / n : ℕ) : ℤ) ∧ total / n ≤ total :=
    ⟨Int.natCast_nonneg _, Nat.div_le_self total n⟩
  rw [Int.tdiv_eq_ediv_of_nonneg (by omega), Int.tmod_eq_emod_of_nonneg (by omega),
    ← Int.natCast_ediv, ← Int.natCast_emod, Int.toNat_natCast]
  refine ensures_bind.mpr (ensures_int32 (by omega) (by omega) fun base hbase => ?_)
  refine ensures_bind.mpr (ensures_int32 (by omega) (by omega) fun remainder hremainder => ?_)
  refine Ensures.bind (ensures_setLoads hbase hremainder (by omega)) fun workers hworkers => ?_
  rw [hn, ← List.range_eq_range'] at hworkers
  exact ensures_pure.mpr hworkers

/-- **The load is split evenly and completely.** Each worker is busy for at most a
period, together they burn exactly the load cut to what they can, no two differ by
more than one, and earlier workers never get less. The load is clamped first, and then
each worker gets the quotient, the first `total % n` of them one more
(`EvenSplit.share`); the four parts are facts about such a split. -/
theorem setWorkerLoadWithTotalLoad_even (m : CpuResourceManager) (total_load : Int32)
    (hne : m.workers ≠ []) (hfits : 100 * m.workers.length < 2 ^ 31) :
    Ensures (fun m' : CpuResourceManager =>
        m'.loads.length = m.workers.length ∧
        (∀ load ∈ m'.loads, 0 ≤ load ∧ load ≤ 100) ∧
        m'.loads.sum = Round.clamp total_load.toInt 0 (100 * m.workers.length) ∧
        (∀ a ∈ m'.loads, ∀ b ∈ m'.loads, a ≤ b + 1) ∧
        m'.loads.Pairwise (· ≥ ·))
      (fun _ : Empty => False) (m.setWorkerLoadWithTotalLoad total_load) := by
  apply (ensures_setWorkerLoadWithTotalLoad hne hfits).mono ?_ fun _ => False.elim
  intro m' hloads
  have hclamp : 0 ≤ Round.clamp total_load.toInt 0 (100 * m.workers.length) ∧ _ :=
    Round.clamp_mem (by omega)
  generalize hn : m.workers.length = n at hloads hclamp ⊢
  generalize Round.clamp total_load.toInt 0 (100 * n) = total at hloads hclamp ⊢
  lift total to ℕ using hclamp.1
  rw [Int.toNat_natCast] at hloads
  rw [hloads]
  have hpos : 0 < n := hn ▸ List.length_pos_iff.mpr hne
  refine ⟨by rw [List.length_map, List.length_range], ?_, ?_, ?_, ?_⟩
  · intro load hload
    obtain ⟨k, -, rfl⟩ := List.mem_map.mp hload
    exact ⟨Int.natCast_nonneg _, by exact_mod_cast EvenSplit.share_le (by omega)⟩
  · have hsum : ((List.range n).map (EvenSplit.share total n)).sum = total :=
      EvenSplit.sum_share hpos
    calc ((List.range n).map fun k => ((EvenSplit.share total n k : ℕ) : ℤ)).sum
        = (((List.range n).map (EvenSplit.share total n)).sum : ℕ) := by
          rw [Nat.cast_list_sum, List.map_map]
          rfl
      _ = total := by rw [hsum]
  · intro a ha b hb
    obtain ⟨i, -, rfl⟩ := List.mem_map.mp ha
    obtain ⟨j, -, rfl⟩ := List.mem_map.mp hb
    exact_mod_cast EvenSplit.share_le_share_add_one
  · refine List.pairwise_map.mpr (List.pairwise_lt_range.imp fun hij => ?_)
    exact_mod_cast EvenSplit.share_antitone hij.le

/-- Three workers and a load that does not divide by three. -/
theorem setWorkerLoadWithTotalLoad_even_three :
    Ensures (fun m' : CpuResourceManager => m'.loads.sum = 200) (fun _ : Empty => False)
      (setWorkerLoadWithTotalLoad
        { workers := [.new 0 5, .new 1 5, .new 2 5], base_loop_count := 5 } 200) :=
  (setWorkerLoadWithTotalLoad_even
    { workers := [.new 0 5, .new 1 5, .new 2 5], base_loop_count := 5 } 200
    (by decide) (by decide)).mono (fun _ h => h.2.2.1) fun _ => id

end CpuResourceManager

end Loadmaster.Cpu
