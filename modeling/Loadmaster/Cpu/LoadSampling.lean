/-
How a CPU manager samples the load of the system (`CpuResourceManager::Schedule`
in `cpu/manager.cc`); times are nanoseconds of the steady clock.

A reading is a value of the busy counter and the tick it was taken at. `Schedule`
keeps its last reading in two members and has four ways out, so what matters is
that the two always are of one and the same reading. Then the samples are what
lies between neighbours in the list of successful readings, whichever reads
failed in between (`samples_eq`), and their sums telescope.
-/
import Loadmaster.Lib.Run
import Loadmaster.Lib.Telescope
import Loadmaster.Util.ProcStat
import Loadmaster.Util.RollingSampler

set_option autoImplicit false

namespace Loadmaster.Cpu

open Util Telescope

/-! ## `Schedule` -/

/-- The conversions of ticks to nanoseconds, which differ by platform. -/
structure Platform where
  busyTicksToNs : UInt64 → UInt64
  processCpuTicksToNs : UInt64 → UInt64

/-- The members `Schedule` samples with. -/
structure LoadSampling where
  prev_busy_ticks : UInt64 := 0
  has_prev_busy_ticks : Bool := false
  system_sampler : RollingSampler ℚ := { capacity := kCpuAvgLoadSamplingCount }
  proc_stat : ProcStat := {}
  process_sampler : RollingSampler ℚ := { capacity := kCpuAvgLoadSamplingCount }
  last_scheduling : ℤ := 0
deriving DecidableEq, Repr

/-- A call of `Schedule`: its argument, and what the two counters answer. -/
structure Tick where
  time_point : ℤ
  busy_ticks : Option UInt64
  cpu_ticks : Option UInt64
deriving DecidableEq, Repr

/-- The ways out of `Schedule`; the last one goes through `AdjustWorkerLoad`. -/
inductive Exit
  | readFailed
  | firstReading
  | noTimePassed
  | sampled (s : TickSample) (system_load : ℤ)
deriving DecidableEq, Repr

def Exit.sample : Exit → Option TickSample
  | .sampled s _ => some s
  | _ => none

namespace LoadSampling

variable (p : Platform)

def updateProcStat (m : LoadSampling) (t : Tick) : LoadSampling :=
  let proc_stat :=
    (m.proc_stat.updateCpuStat p.processCpuTicksToNs t.time_point false t.cpu_ticks).1
  { m with
    proc_stat := proc_stat
    process_sampler := m.process_sampler.insertValue proc_stat.cpu_load_cached }

def schedule (m : LoadSampling) (t : Tick) : LoadSampling × Exit :=
  match t.busy_ticks with
  | none => (m, .readFailed)
  | some current =>
    if !m.has_prev_busy_ticks then
      ({ m with
          prev_busy_ticks := current
          has_prev_busy_ticks := true
          last_scheduling := t.time_point }, .firstReading)
    else
      let m := m.updateProcStat p t
      let busy_ticks_diff := ticksDiff m.prev_busy_ticks current
      let elapsed_ns := t.time_point - m.last_scheduling
      if elapsed_ns ≤ 0 then
        ({ m with prev_busy_ticks := current, last_scheduling := t.time_point }, .noTimePassed)
      else
        let s : TickSample := ⟨busy_ticks_diff, elapsed_ns⟩
        let system_load_exact := s.load p.busyTicksToNs
        ({ m with
            system_sampler := m.system_sampler.insertValue system_load_exact
            prev_busy_ticks := current
            last_scheduling := t.time_point }, .sampled s (Round.lround system_load_exact))

/-! ## Runs -/

def next (m : LoadSampling) (t : Tick) : LoadSampling := (m.schedule p t).1

/-- How the calls of a run end. -/
def exits : LoadSampling → List Tick → List Exit
  | _, [] => []
  | m, t :: ts => (m.schedule p t).2 :: exits (m.next p t) ts

def samples (m : LoadSampling) (ts : List Tick) : List TickSample :=
  (m.exits p ts).filterMap Exit.sample

end LoadSampling

/-- A value of the busy counter, and the tick it was read at. -/
structure BusyReading where
  time_point : ℤ
  busy_ticks : UInt64
deriving DecidableEq, Repr

def Tick.reading (t : Tick) : Option BusyReading :=
  t.busy_ticks.map fun busy_ticks => ⟨t.time_point, busy_ticks⟩

/-- The reads that succeeded. -/
def readings (ts : List Tick) : List BusyReading := ts.filterMap Tick.reading

theorem readings_cons {t : Tick} {ts : List Tick} :
    readings (t :: ts) = t.reading.toList ++ readings ts := by
  unfold readings
  rw [List.filterMap_cons]
  cases t.reading <;> rfl

/-- What lies between two readings. -/
def between (a b : BusyReading) : TickSample where
  ticks_diff := ticksDiff a.busy_ticks b.busy_ticks
  elapsed_ns := b.time_point - a.time_point

/-- Time passed between two readings, and the counter did not go back. -/
def BusyReading.Before (a b : BusyReading) : Prop :=
  a.time_point < b.time_point ∧ a.busy_ticks ≤ b.busy_ticks

namespace LoadSampling

variable {p : Platform} {m : LoadSampling} {t : Tick} {ts : List Tick}

/-- The reading that the manager keeps. -/
def baseline (m : LoadSampling) : Option BusyReading :=
  if m.has_prev_busy_ticks then some ⟨m.last_scheduling, m.prev_busy_ticks⟩ else none

/-! ## One call -/

theorem schedule_of_failed (h : t.reading = none) : m.schedule p t = (m, .readFailed) := by
  rw [Tick.reading, Option.map_eq_none_iff] at h
  unfold schedule
  rw [h]

/-- A successful read is the baseline of the next one, however the call ends. -/
theorem baseline_next {r : BusyReading} (h : t.reading = some r) :
    (m.next p t).baseline = some r := by
  obtain ⟨current, hread, rfl⟩ := Option.map_eq_some_iff.mp h
  unfold next schedule
  rw [hread]
  by_cases hprev : m.has_prev_busy_ticks <;> simp only [hprev, Bool.not_true, Bool.not_false,
    Bool.false_eq_true, if_true, if_false]
  · split_ifs <;> simp only [baseline, updateProcStat, hprev, if_true]
  · rfl

/-- A call samples what lies between its reading and the one before, if time
passed. -/
theorem sample_schedule {r : BusyReading} (h : t.reading = some r) :
    (m.schedule p t).2.sample =
      (m.baseline.map fun a => between a r).filter fun s => 0 < s.elapsed_ns := by
  obtain ⟨current, hread, rfl⟩ := Option.map_eq_some_iff.mp h
  unfold schedule
  rw [hread]
  by_cases hprev : m.has_prev_busy_ticks
  · have hbase : m.baseline = some ⟨m.last_scheduling, m.prev_busy_ticks⟩ := if_pos hprev
    rw [hbase, Option.map_some]
    simp only [hprev, updateProcStat, Bool.not_true, Bool.false_eq_true, if_false]
    by_cases htime : t.time_point - m.last_scheduling ≤ 0
    · rw [if_pos htime, Option.filter_some_neg (by simpa [between] using htime)]
      rfl
    · rw [if_neg htime, Option.filter_some_pos (by simpa [between] using htime)]
      rfl
  · have hbase : m.baseline = none := if_neg hprev
    rw [hbase]
    simp only [hprev, Bool.not_false, if_true]
    rfl

/-! ## All calls -/

/-- **The samples are what lies between neighbouring readings**, less those
without time between them. -/
theorem samples_eq : m.samples p ts =
    (steps between (m.baseline.toList ++ readings ts)).filter fun s => 0 < s.elapsed_ns := by
  induction ts generalizing m with
  | nil => cases m.baseline <;> rfl
  | cons t ts ih =>
    have hsamples : m.samples p (t :: ts)
        = (m.schedule p t).2.sample.toList ++ (m.next p t).samples p ts := by
      unfold samples
      rw [exits, List.filterMap_cons]
      cases (m.schedule p t).2.sample <;> rfl
    cases hread : t.reading with
    | none =>
      -- a failed read leaves the baseline, and adds nothing to the readings
      have hnext : m.next p t = m := congrArg Prod.fst (schedule_of_failed hread)
      rw [hsamples, hnext, schedule_of_failed hread, ih, readings_cons, hread]
      rfl
    | some r =>
      rw [hsamples, sample_schedule hread, ih, baseline_next hread, readings_cons, hread]
      cases m.baseline with
      | none => rfl
      | some a =>
        simp only [Option.map_some, Option.toList_some, List.singleton_append, steps_cons_cons,
          List.filter_cons, Option.filter_some]
        split_ifs <;> rfl

theorem getElem?_exits {k : ℕ} : (m.exits p ts)[k]? =
    ts[k]?.map fun t => ((Run.before (next p) m ts k).schedule p t).2 := by
  induction ts generalizing m k with
  | nil => rfl
  | cons t ts ih =>
    cases k with
    | zero => rfl
    | succ k =>
      rw [exits, List.getElem?_cons_succ, ih]
      rfl

/-- Where time passes from tick to tick and the counter does not go back, every
two neighbouring readings are in order. -/
theorem isChain_readings (htime : ts.Pairwise fun a b => a.time_point < b.time_point)
    (hcounter : (readings ts).Pairwise fun a b => a.busy_ticks ≤ b.busy_ticks) :
    (readings ts).IsChain BusyReading.Before := by
  have htimes : (readings ts).Pairwise fun a b => a.time_point < b.time_point := by
    refine List.Pairwise.filterMap _ (fun a b hab r hr r' hr' => ?_) htime
    obtain ⟨_, _, rfl⟩ := Option.map_eq_some_iff.mp hr
    obtain ⟨_, _, rfl⟩ := Option.map_eq_some_iff.mp hr'
    exact hab
  exact (htimes.and hcounter).isChain

/-- **Samples of the system's load tile time.** Their sums are those of the last
reading less the first, whatever reads fail; a failed read changes nothing and yields
no sample; and also with a counter that goes back, no difference wraps and no sample
is negative. The samples are the differences of neighbouring readings, so both sums
telescope (`sum_map_steps`); a read that fails makes no reading, and its neighbours
meet across it. -/
theorem samples_tile (p : Platform) (ts : List Tick) :
    (ts.Pairwise (fun a b => a.time_point < b.time_point) →
      (readings ts).Pairwise (fun a b => a.busy_ticks ≤ b.busy_ticks) →
      ∀ first last, (readings ts).head? = some first → (readings ts).getLast? = some last →
        ((samples p {} ts).map fun s => (s.ticks_diff.toNat : ℤ)).sum
            = last.busy_ticks.toNat - first.busy_ticks.toNat ∧
          ((samples p {} ts).map fun s => s.elapsed_ns).sum
            = last.time_point - first.time_point) ∧
    (∀ k t, ts[k]? = some t → t.busy_ticks = none →
      Run.before (next p) {} ts (k + 1) = Run.before (next p) {} ts k ∧
        (exits p {} ts)[k]? = some .readFailed) ∧
    (∀ k current, let prev := (Run.before (next p) {} ts k).prev_busy_ticks
      (ticksDiff prev current).toNat = current.toNat - prev.toNat) ∧
    ∀ s ∈ samples p {} ts, 0 < s.elapsed_ns ∧ 0 ≤ s.load p.busyTicksToNs := by
  have heq : samples p {} ts = (steps between (readings ts)).filter fun s => 0 < s.elapsed_ns :=
    samples_eq
  refine ⟨?_, ?_, ?_, ?_⟩
  · intro htime hcounter first last hfirst hlast
    have hchain := isChain_readings htime hcounter
    -- time passes from reading to reading, so none of the steps is left out
    have hall : samples p {} ts = steps between (readings ts) :=
      heq.trans (filter_steps hchain fun a b hab => decide_eq_true (sub_pos.mpr hab.1))
    rw [hall]
    constructor
    · refine sum_map_steps (fun r => (r.busy_ticks.toNat : ℤ)) hchain (fun a b hab => ?_) hfirst
        hlast
      have hle := UInt64.le_iff_toNat_le.mp hab.2
      have hdiff := toNat_ticksDiff a.busy_ticks b.busy_ticks
      rw [between, hdiff, Nat.cast_sub hle]
    · exact sum_map_steps BusyReading.time_point hchain (fun a b _ => rfl) hfirst hlast
  · intro k t ht hfailed
    have hnone : t.reading = none := by rw [Tick.reading, hfailed, Option.map_none]
    refine ⟨?_, ?_⟩
    · rw [Run.before_succ ht, next, schedule_of_failed hnone]
    · rw [getElem?_exits, ht, Option.map_some, schedule_of_failed hnone]
  · intro k current
    exact toNat_ticksDiff _ _
  · intro s hs
    rw [heq] at hs
    have hpos : 0 < s.elapsed_ns := of_decide_eq_true (List.mem_filter.mp hs).2
    exact ⟨hpos, TickSample.load_nonneg hpos⟩

/-- Five ticks of 100 ms with two failed reads; 25 busy ticks over 400 ms. -/
theorem samples_tile_failures :
    let ts : List Tick := [⟨100, none, none⟩, ⟨200, some 10, none⟩, ⟨300, some 12, none⟩,
      ⟨400, none, none⟩, ⟨600, some 35, none⟩]
    ((samples ⟨id, id⟩ {} ts).map fun s => (s.ticks_diff.toNat : ℤ)).sum = 25 ∧
      ((samples ⟨id, id⟩ {} ts).map fun s => s.elapsed_ns).sum = 400 := by
  intro ts
  exact (samples_tile ⟨id, id⟩ ts).1 (by decide +kernel) (by decide +kernel)
    ⟨200, 10⟩ ⟨600, 35⟩ (by decide +kernel) (by decide +kernel)

end LoadSampling

end Loadmaster.Cpu
