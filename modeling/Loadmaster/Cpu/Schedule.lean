/-
The whole tick of a CPU manager (`CpuResourceManager::Schedule` in `cpu/manager.cc`
with the `AdjustWorkerLoad` of either algorithm): sampling, the controller and the
split of its demand among the workers.

A tick that takes a sample gives the controller one reading. So a run of ticks is a
list of readings, and what the workers burn is the split of the demand that the
controller has for the last of them.
-/
import Loadmaster.Cpu.LoadController
import Loadmaster.Cpu.LoadSampling
import Loadmaster.Cpu.LoadSplit
import Loadmaster.Cpu.ManagerRandomNormal

set_option autoImplicit false

namespace Loadmaster.Cpu

open Loadmaster.Core Cycle Outcome RingWindow Util

variable {ε : Type}

/-! ## The tick -/

/-- What `AdjustWorkerLoad` takes its target from: the options, or the schedule of
`rand_normal`. -/
inductive Algorithm
  | default (cpu_load : ℤ)
  | randomNormal (m : CpuResourceManagerRandomNormal)

/-- The target of a tick, and the algorithm after it. -/
def Algorithm.target (a : Algorithm) (time_point : ℤ) (shuffle : Shuffle ℤ) : ℤ × Algorithm :=
  match a with
  | .default cpu_load => (cpu_load, a)
  | .randomNormal m =>
    let m := m.updateLoadTarget time_point shuffle
    (m.load_target, .randomNormal m)

/-- A CPU manager with all its members. -/
structure CpuScheduler where
  sampling : LoadSampling := {}
  controller : LoadController ℚ := {}
  algorithm : Algorithm
  manager : CpuResourceManager

namespace CpuScheduler

/-- `CalculateLoadDemand` -/
def calculateLoadDemand (s : CpuScheduler) (target : ℤ) : Outcome ε (Int32 × CpuScheduler) := do
  let capacity ← s.manager.capacity
  let updated := s.controller.update Round.lround {
    target := target
    system_avg := s.sampling.system_sampler.getMean
    process_avg := s.sampling.process_sampler.getMean
    capacity := capacity.toInt }
  let demand ← int32 updated.1
  pure (demand, { s with controller := updated.2 })

/-- `AdjustWorkerLoad` -/
def adjustWorkerLoad (s : CpuScheduler) (time_point : ℤ) (shuffle : Shuffle ℤ) :
    Outcome ε CpuScheduler := do
  let updated := s.algorithm.target time_point shuffle
  let (load_demand, s) ← { s with algorithm := updated.2 }.calculateLoadDemand updated.1
  let manager ← s.manager.setWorkerLoadWithTotalLoad load_demand
  pure { s with manager := manager }

/-- `Schedule` -/
def tick (p : Platform) (s : CpuScheduler) (t : Tick × Shuffle ℤ) : Outcome ε CpuScheduler :=
  match s.sampling.schedule p t.1 with
  | (sampling, .sampled _ _) => { s with sampling := sampling }.adjustWorkerLoad t.1.time_point t.2
  | (sampling, _) => pure { s with sampling := sampling }

def run (p : Platform) : CpuScheduler → List (Tick × Shuffle ℤ) → Outcome ε CpuScheduler
  | s, [] => pure s
  | s, t :: ts => do
    let s ← s.tick p t
    run p s ts

end CpuScheduler

/-! ## The readings of a run -/

/-- What the controller is given in a tick, with `n` workers. -/
def readingOf (n : ℕ) (m : LoadSampling) (target : ℤ) : Reading ℚ where
  target := target
  system_avg := m.system_sampler.getMean
  process_avg := m.process_sampler.getMean
  capacity := 100 * n

/-- What it is given over a run: nothing by a tick without a sample. -/
def controllerReadings (p : Platform) (n : ℕ) :
    LoadSampling → Algorithm → List (Tick × Shuffle ℤ) → List (Reading ℚ)
  | _, _, [] => []
  | m, a, t :: ts =>
    match m.schedule p t.1 with
    | (m, .sampled _ _) =>
      let (target, a) := a.target t.1.time_point t.2
      readingOf n m target :: controllerReadings p n m a ts
    | (m, _) => controllerReadings p n m a ts

/-- The shares of a demand. -/
def shares (n : ℕ) (demand : ℤ) : List ℤ :=
  (List.range n).map fun k => ((EvenSplit.share demand.toNat n k : ℕ) : ℤ)

/-- From `s` to `s'` the controller was given `rs`, and the workers have the shares of
its last demand. -/
structure CpuScheduler.Follows (rs : List (Reading ℚ)) (s s' : CpuScheduler) : Prop where
  workers : s'.manager.workers.length = s.manager.workers.length
  controller : s'.controller = rs.foldl LoadController.next s.controller
  idle : rs = [] → s'.manager = s.manager
  loads : ∀ earlier last, rs = earlier ++ [last] → s'.manager.loads =
    shares s.manager.workers.length
      ((earlier.foldl LoadController.next s.controller).demand Round.lround last)

namespace CpuScheduler.Follows

variable {s s' s'' : CpuScheduler} {rs rs' : List (Reading ℚ)}

theorem trans (h : Follows rs s s') (h' : Follows rs' s' s'') : Follows (rs ++ rs') s s'' where
  workers := h'.workers.trans h.workers
  controller := by rw [h'.controller, h.controller, List.foldl_append]
  idle hnil := by
    obtain ⟨hrs, hrs'⟩ := List.append_eq_nil_iff.mp hnil
    rw [h'.idle hrs', h.idle hrs]
  loads earlier last heq := by
    rcases List.eq_nil_or_concat rs' with rfl | ⟨between, last', rfl⟩
    · rw [h'.idle rfl]
      exact h.loads earlier last ((List.append_nil rs).symm.trans heq)
    · rw [List.concat_eq_append, ← List.append_assoc] at heq
      obtain ⟨rfl, hlast⟩ := List.append_inj' heq rfl
      obtain rfl : last' = last := by simpa using hlast
      rw [h'.loads between last' List.concat_eq_append, h.workers, h.controller,
        List.foldl_append]

end CpuScheduler.Follows

/-! ## A run -/

section Run

variable {p : Platform} {s : CpuScheduler} {F : ε → Prop} {time_point : ℤ} {shuffle : Shuffle ℤ}

open CpuScheduler

/-- The demand is the controller's for this reading, and it fits an `int` as it is
within the capacity. -/
theorem ensures_calculateLoadDemand {n : ℕ} {target : ℤ} (hlen : s.manager.workers.length = n)
    (hpos : 0 < n) (hfits : 100 * n < 2 ^ 31) :
    Ensures (fun r : Int32 × CpuScheduler =>
        r.1.toInt = s.controller.demand Round.lround (readingOf n s.sampling target) ∧
          (0 ≤ r.1.toInt ∧ r.1.toInt ≤ 100 * n) ∧
          r.2 = { s with controller := s.controller.next (readingOf n s.sampling target) })
      F (s.calculateLoadDemand target) := by
  unfold calculateLoadDemand
  refine Ensures.bind (CpuResourceManager.ensures_capacity (by omega)) fun capacity hcapacity => ?_
  rw [hlen, mul_comm] at hcapacity
  have hreading : (⟨target, s.sampling.system_sampler.getMean, s.sampling.process_sampler.getMean,
      capacity.toInt⟩ : Reading ℚ) = readingOf n s.sampling target := by
    rw [hcapacity]
    rfl
  rw [hreading, LoadController.update_eq]
  have hcap : 0 < (readingOf n s.sampling target).capacity := by
    change 0 < 100 * (n : ℤ)
    omega
  have hmem : 0 ≤ s.controller.demand Round.lround (readingOf n s.sampling target) ∧
      s.controller.demand Round.lround (readingOf n s.sampling target) ≤ 100 * n :=
    LoadController.demand_mem hcap
  refine ensures_bind.mpr (ensures_int32 (by omega) (by omega) fun demand hdemand => ?_)
  exact ensures_pure.mpr ⟨hdemand, hdemand ▸ hmem, rfl⟩

/-- A demand that the workers can burn is split as it is. -/
theorem ensures_split {m : CpuResourceManager} {demand : Int32} {n : ℕ}
    (hlen : m.workers.length = n) (hpos : 0 < n) (hfits : 100 * n < 2 ^ 31)
    (hmem : 0 ≤ demand.toInt ∧ demand.toInt ≤ 100 * n) :
    Ensures (fun m' : CpuResourceManager => m'.loads = shares n demand.toInt) F
      (m.setWorkerLoadWithTotalLoad demand) := by
  have hclamp : Round.clamp demand.toInt 0 (100 * n) = demand.toInt := by
    rw [Round.clamp_eq (by omega), min_eq_left hmem.2, max_eq_right hmem.1]
  have hne : m.workers ≠ [] := List.length_pos_iff.mp (hlen ▸ hpos)
  refine (CpuResourceManager.ensures_setWorkerLoadWithTotalLoad hne (by omega)).mono
    (fun m' hloads => ?_) fun _ h => h
  rwa [hlen, hclamp] at hloads

/-- One sample: the controller takes a step and the workers get the split of its demand. -/
theorem ensures_adjustWorkerLoad {n : ℕ} (hlen : s.manager.workers.length = n) (hpos : 0 < n)
    (hfits : 100 * n < 2 ^ 31) :
    Ensures (fun s' => s'.sampling = s.sampling ∧
        s'.algorithm = (s.algorithm.target time_point shuffle).2 ∧
        Follows [readingOf n s.sampling (s.algorithm.target time_point shuffle).1] s s')
      F (s.adjustWorkerLoad time_point shuffle) := by
  unfold adjustWorkerLoad
  refine Ensures.bind (ensures_calculateLoadDemand (n := n) hlen hpos hfits) fun r hr => ?_
  obtain ⟨demand, s₁⟩ := r
  obtain ⟨hdemand, hmem, rfl⟩ := hr
  dsimp only at hdemand hmem
  refine Ensures.bind (ensures_split hlen hpos hfits hmem) fun manager hloads => ?_
  refine ensures_pure.mpr ⟨rfl, rfl, ?_, rfl, by simp, fun earlier last heq => ?_⟩
  · change manager.workers.length = s.manager.workers.length
    rw [hlen, ← List.length_map (f := fun w : CpuWorkerContext => w.load_set.toInt)]
    exact (congrArg List.length hloads).trans (by rw [shares, List.length_map, List.length_range])
  · obtain ⟨rfl, hlast⟩ : [] = earlier ∧ [_] = [last] := List.append_inj' heq rfl
    obtain rfl := List.singleton_inj.mp hlast
    rw [hlen, List.foldl_nil, ← hdemand]
    exact hloads

/-- **A tick** gives the controller one reading, if it takes a sample. -/
theorem ensures_tick {n : ℕ} {t : Tick × Shuffle ℤ} (hlen : s.manager.workers.length = n)
    (hpos : 0 < n) (hfits : 100 * n < 2 ^ 31) :
    Ensures (fun s' => ∃ rs, Follows rs s s' ∧ ∀ ts,
        controllerReadings p n s.sampling s.algorithm (t :: ts) =
          rs ++ controllerReadings p n s'.sampling s'.algorithm ts)
      F (s.tick p t) := by
  rcases hsched : s.sampling.schedule p t.1 with ⟨m, exit⟩
  have hidle : Follows [] s { s with sampling := m } :=
    ⟨rfl, rfl, fun _ => rfl, fun earlier last heq => by simp at heq⟩
  unfold CpuScheduler.tick
  rw [hsched]
  -- only a sample reaches the controller
  cases exit with
  | readFailed =>
    exact ensures_pure.mpr ⟨[], hidle, fun ts => by rw [controllerReadings, hsched]; rfl⟩
  | firstReading =>
    exact ensures_pure.mpr ⟨[], hidle, fun ts => by rw [controllerReadings, hsched]; rfl⟩
  | noTimePassed =>
    exact ensures_pure.mpr ⟨[], hidle, fun ts => by rw [controllerReadings, hsched]; rfl⟩
  | sampled sample system_load =>
    have hadjust : Ensures _ F
        ({ s with sampling := m }.adjustWorkerLoad t.1.time_point t.2) :=
      ensures_adjustWorkerLoad hlen hpos hfits
    refine hadjust.mono (fun s' hs' => ?_) fun _ h => h
    obtain ⟨hsampling, halgorithm, hfollows⟩ := hs'
    refine ⟨_, hidle.trans hfollows, fun ts => ?_⟩
    rw [hsampling, halgorithm, controllerReadings, hsched]
    rfl

/-- **A run**, by induction on its ticks. -/
theorem ensures_run {n : ℕ} {ts : List (Tick × Shuffle ℤ)} (hlen : s.manager.workers.length = n)
    (hpos : 0 < n) (hfits : 100 * n < 2 ^ 31) :
    Ensures (fun s' => Follows (controllerReadings p n s.sampling s.algorithm ts) s s')
      F (s.run p ts) := by
  induction ts generalizing s with
  | nil =>
    -- no tick, no reading, and so none that could be the last
    refine ensures_pure.mpr ⟨rfl, rfl, fun _ => rfl, fun earlier last heq => ?_⟩
    simp [controllerReadings] at heq
  | cons t ts ih =>
    refine Ensures.bind (ensures_tick hlen hpos hfits) fun s₁ hs₁ => ?_
    obtain ⟨rs, hfollows, hreadings⟩ := hs₁
    refine (ih (hfollows.workers.trans hlen)).mono (fun s' h => ?_) fun _ h => h
    rw [hreadings]
    exact hfollows.trans h

/-! ## What it is given -/

/-- Only a sample goes into the sampler. -/
theorem system_sampler_schedule {m : LoadSampling} {t : Tick} :
    (m.schedule p t).1.system_sampler =
      match (m.schedule p t).2.sample with
      | none => m.system_sampler
      | some sample => m.system_sampler.insertValue (sample.load p.busyTicksToNs) := by
  unfold LoadSampling.schedule
  cases t.busy_ticks with
  | none => rfl
  | some current =>
    dsimp only
    split_ifs <;> rfl

/-- The loads of a run's samples. -/
def sampleLoads (p : Platform) (m : LoadSampling) (ts : List (Tick × Shuffle ℤ)) : List ℚ :=
  (m.samples p (ts.map Prod.fst)).map fun sample => sample.load p.busyTicksToNs

theorem sampleLoads_cons {m : LoadSampling} {t : Tick × Shuffle ℤ} {ts : List (Tick × Shuffle ℤ)} :
    sampleLoads p m (t :: ts) =
      ((m.schedule p t.1).2.sample.map fun sample => sample.load p.busyTicksToNs).toList ++
        sampleLoads p (m.schedule p t.1).1 ts := by
  unfold sampleLoads LoadSampling.samples
  rw [List.map_cons, LoadSampling.exits, List.filterMap_cons]
  cases (m.schedule p t.1).2.sample <;> rfl

/-- **Each sample makes a reading**, of the mean with the sample in it. -/
theorem getElem?_controllerReadings {n : ℕ} {m : LoadSampling} {a : Algorithm} {vs : List ℚ}
    {ts : List (Tick × Shuffle ℤ)}
    (hsampler : m.system_sampler = RollingSampler.insertAll kCpuAvgLoadSamplingCount vs) :
    (controllerReadings p n m a ts).length = (sampleLoads p m ts).length ∧
      ∀ k, ∀ r ∈ (controllerReadings p n m a ts)[k]?, r.capacity = 100 * (n : ℤ) ∧
        r.system_avg = (RollingSampler.insertAll kCpuAvgLoadSamplingCount
          (vs ++ (sampleLoads p m ts).take (k + 1))).getMean ∧
        ∀ cpu_load, a = .default cpu_load → r.target = cpu_load := by
  induction ts generalizing m a vs with
  | nil => exact ⟨rfl, fun k r hr => by simp [controllerReadings] at hr⟩
  | cons t ts ih =>
    have hnext := @system_sampler_schedule p m t.1
    rw [sampleLoads_cons]
    rcases hsched : m.schedule p t.1 with ⟨m', exit⟩
    rw [hsched] at hnext
    dsimp only at hnext ⊢
    -- a tick without a sample is passed over
    have hpass : exit.sample = none → controllerReadings p n m a (t :: ts) =
        controllerReadings p n m' a ts := by
      intro hnone
      rw [controllerReadings, hsched]
      cases exit with
      | sampled sample system_load => cases hnone
      | _ => rfl
    cases hsample : exit.sample with
    | none =>
      rw [hsample] at hnext
      rw [hpass hsample]
      exact ih (hnext.trans hsampler)
    | some sample =>
      rw [hsample] at hnext
      obtain ⟨system_load, rfl⟩ : ∃ system_load, exit = .sampled sample system_load := by
        cases exit with
        | sampled sample' system_load =>
          obtain rfl : sample' = sample := Option.some.inj hsample
          exact ⟨system_load, rfl⟩
        | _ => cases hsample
      have hsampler' : m'.system_sampler = RollingSampler.insertAll kCpuAvgLoadSamplingCount
          (vs ++ [sample.load p.busyTicksToNs]) := by
        rw [RollingSampler.insertAll, List.foldl_append]
        exact hnext.trans (congrArg (RollingSampler.insertValue · _) hsampler)
      obtain ⟨hlen, hrest⟩ := ih (a := (a.target t.1.time_point t.2).2) hsampler'
      have hreadings : controllerReadings p n m a (t :: ts) =
          readingOf n m' (a.target t.1.time_point t.2).1 ::
            controllerReadings p n m' (a.target t.1.time_point t.2).2 ts := by
        rw [controllerReadings, hsched]
      rw [hreadings]
      refine ⟨by rw [List.length_cons, hlen]; rfl, fun k r hr => ?_⟩
      cases k with
      | zero =>
        obtain rfl := Option.some.inj hr
        refine ⟨rfl, congrArg RollingSampler.getMean hsampler', ?_⟩
        rintro cpu_load rfl
        rfl
      | succ k =>
        obtain ⟨hcapacity, havg, htarget⟩ := hrest k r hr
        refine ⟨hcapacity, havg.trans ?_, ?_⟩
        · rw [List.append_assoc]
          rfl
        · rintro cpu_load rfl
          exact htarget cpu_load rfl

/-! ## The shares of a demand -/

/-- A share of a demand within the capacity is within one core. -/
theorem mem_shares {n : ℕ} {demand load : ℤ} (hmem : 0 ≤ demand ∧ demand ≤ 100 * n)
    (hload : load ∈ shares n demand) : 0 ≤ load ∧ load ≤ 100 := by
  obtain ⟨k, -, rfl⟩ := List.mem_map.mp hload
  exact ⟨Int.natCast_nonneg _, by exact_mod_cast EvenSplit.share_le (by omega)⟩

theorem sum_shares {n : ℕ} {demand : ℤ} (hpos : 0 < n) (hdemand : 0 ≤ demand) :
    (shares n demand).sum = demand := by
  have hsum : ((List.range n).map (EvenSplit.share demand.toNat n)).sum = demand.toNat :=
    EvenSplit.sum_share hpos
  calc (shares n demand).sum
      = (((List.range n).map (EvenSplit.share demand.toNat n)).sum : ℕ) := by
        rw [shares, Nat.cast_list_sum, List.map_map]
        rfl
    _ = demand := by rw [hsum, Int.toNat_of_nonneg hdemand]

/-- A manager as `Init` leaves it, with `count` workers. -/
def CpuScheduler.fresh (a : Algorithm) (count loop_count : Int32) : CpuScheduler where
  algorithm := a
  manager := CpuResourceManager.constructWorkerThreads { base_loop_count := loop_count } count

theorem loads_fresh {a : Algorithm} {count loop_count : Int32} :
    (CpuScheduler.fresh a count loop_count).manager.loads =
      List.replicate count.toInt.toNat 0 := by
  refine List.eq_replicate_iff.mpr ⟨?_, fun load hload => ?_⟩
  · simp [CpuScheduler.fresh, CpuResourceManager.constructWorkerThreads, CpuResourceManager.loads]
  · rw [CpuScheduler.fresh, CpuResourceManager.constructWorkerThreads, CpuResourceManager.loads,
      List.nil_append, List.map_map] at hload
    obtain ⟨i, -, rfl⟩ := List.mem_map.mp hload
    rfl

theorem length_shares {n : ℕ} {demand : ℤ} : (shares n demand).length = n := by
  rw [shares, List.length_map, List.length_range]

/-- The mean that a reading has, of the last samples. -/
theorem system_avg_eq {loads : List ℚ} {k : ℕ} (hk : k < loads.length) :
    (RollingSampler.insertAll kCpuAvgLoadSamplingCount ([] ++ loads.take (k + 1))).getMean =
      (lastN kCpuAvgLoadSamplingCount (loads.take (k + 1))).sum /
        (min (k + 1) kCpuAvgLoadSamplingCount : ℕ) := by
  have hlen : (loads.take (k + 1)).length = k + 1 := by
    rw [List.length_take, min_eq_left hk]
  have hne : loads.take (k + 1) ≠ [] := List.ne_nil_of_length_pos (by omega)
  rw [List.nil_append, RollingSampler.getMean_insertAll (by decide) hne, length_lastN, hlen]
  rfl

/-- **The workers follow the controller** over any run of ticks, with either
algorithm. Every sample makes one reading, of the mean of the last ten loads; a tick
without one changes no worker. No integer overflows, and before the first reading the
workers rest; from then on they burn exactly the demand that the controller has for
the last reading, each at most the whole of its core. By induction on the ticks the
scheduler follows the readings (`ensures_run`): its controller is the fold over them,
and the workers have the split of the last demand. -/
theorem workers_follow_demand (p : Platform) (a : Algorithm) (count loop_count : Int32)
    (ts : List (Tick × Shuffle ℤ)) (hcount : 1 ≤ count.toInt)
    (hfits : 100 * count.toInt < 2 ^ 31) :
    Ensures (fun s : CpuScheduler => ∀ rs, rs = controllerReadings p count.toInt.toNat {} a ts →
        rs.length = (sampleLoads p {} ts).length ∧
        (∀ k, ∀ r ∈ rs[k]?, r.capacity = 100 * count.toInt ∧
          r.system_avg = (lastN kCpuAvgLoadSamplingCount ((sampleLoads p {} ts).take (k + 1))).sum /
            (min (k + 1) kCpuAvgLoadSamplingCount : ℕ) ∧
          ∀ cpu_load, a = .default cpu_load → r.target = cpu_load) ∧
        s.manager.loads.length = count.toInt ∧ (∀ load ∈ s.manager.loads, 0 ≤ load ∧ load ≤ 100) ∧
        s.controller = rs.foldl LoadController.next {} ∧
        (rs = [] → s.manager.loads.sum = 0) ∧
        ∀ earlier last, rs = earlier ++ [last] →
          s.manager.loads.sum = (earlier.foldl LoadController.next {}).demand Round.lround last)
      (fun _ : Empty => False) ((CpuScheduler.fresh a count loop_count).run p ts) := by
  have hlen : (CpuScheduler.fresh a count loop_count).manager.workers.length =
      count.toInt.toNat := by
    simp [CpuScheduler.fresh, CpuResourceManager.constructWorkerThreads]
  refine (ensures_run hlen (by omega) (by omega)).mono (fun s hfollows => ?_) fun _ => False.elim
  rintro rs rfl
  have hsampler : ({} : LoadSampling).system_sampler =
      RollingSampler.insertAll kCpuAvgLoadSamplingCount [] := rfl
  obtain ⟨hreadings, hreading⟩ := getElem?_controllerReadings (p := p) (n := count.toInt.toNat)
    (a := a) hsampler
  refine ⟨hreadings, fun k r hr => ?_, ?_⟩
  · obtain ⟨hcapacity, havg, htarget⟩ := hreading k r hr
    have hk : k < (sampleLoads p {} ts).length := by
      rw [← hreadings]
      exact (List.getElem?_eq_some_iff.mp hr).1
    exact ⟨by omega, havg.trans (system_avg_eq hk), htarget⟩
  · have hcontroller := hfollows.controller
    rcases List.eq_nil_or_concat (controllerReadings p count.toInt.toNat {} a ts) with
      hnil | ⟨earlier, last, hlast⟩
    · -- no reading so far
      have hloads : s.manager.loads = List.replicate count.toInt.toNat 0 :=
        (congrArg CpuResourceManager.loads (hfollows.idle hnil)).trans loads_fresh
      rw [hloads, List.length_replicate, List.sum_replicate]
      refine ⟨by omega, fun load hload => ?_, hcontroller, by simp, fun earlier last heq => ?_⟩
      · rw [List.eq_of_mem_replicate hload]
        decide
      · rw [hnil] at heq
        exact absurd heq.symm (List.append_ne_nil_of_right_ne_nil _ (List.cons_ne_nil _ _))
    · rw [List.concat_eq_append] at hlast
      have hloads := hfollows.loads earlier last hlast
      rw [hlen] at hloads
      have hcapacity : last.capacity = 100 * (count.toInt.toNat : ℤ) :=
        (hreading earlier.length last (by rw [hlast, List.getElem?_concat_length]; rfl)).1
      have hmem := LoadController.demand_mem (r := last)
        (c := earlier.foldl LoadController.next {}) (by omega)
      rw [hcapacity] at hmem
      rw [hloads, length_shares]
      refine ⟨by omega, fun load hload => mem_shares hmem hload, hcontroller, fun hnil => ?_,
        fun earlier' last' heq => ?_⟩
      · rw [hlast] at hnil
        exact absurd hnil (List.append_ne_nil_of_right_ne_nil _ (List.cons_ne_nil _ _))
      · rw [hlast] at heq
        obtain ⟨rfl, hlast'⟩ := List.append_inj' heq rfl
        obtain rfl := List.singleton_inj.mp hlast'
        exact sum_shares (by omega) hmem.1

/-- Two workers for a load of 150, where others take half a core: the two readings are
a tick apart, with a failed one between. -/
def twoReadings : List (Tick × Shuffle ℤ) :=
  [(⟨100000000, some 0, none⟩, ⟨id, fun _ => .refl _⟩),
    (⟨200000000, none, none⟩, ⟨id, fun _ => .refl _⟩),
    (⟨300000000, some 100000000, none⟩, ⟨id, fun _ => .refl _⟩)]

theorem workers_follow_demand_two :
    Ensures (fun s : CpuScheduler => s.manager.loads.sum = 102 ∧ s.manager.loads.length = 2)
      (fun _ : Empty => False)
      ((CpuScheduler.fresh (.default 150) 2 1000).run ⟨id, id⟩ twoReadings) := by
  refine (workers_follow_demand ⟨id, id⟩ (.default 150) 2 1000 twoReadings (by decide)
    (by decide)).mono (fun s hs => ?_) fun _ h => h
  obtain ⟨-, -, hlen, -, -, -, hlast⟩ := hs _ rfl
  refine ⟨(hlast [] ⟨150, 50, 0, 200⟩ (by decide +kernel)).trans (by decide +kernel), ?_⟩
  have htwo : (2 : Int32).toInt = 2 := rfl
  omega

end Run

end Loadmaster.Cpu
