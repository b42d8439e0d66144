/-
The samples of this process's load over a run of calls (`util/proc_stat.cc`).

A call is held back, or its read fails, or it refreshes what is known of the
process. Only a refresh changes anything, so the baseline is always the last
successful reading, and what lies behind the computed loads is what lies between
neighbouring readings.
-/
import Loadmaster.Lib.Run
import Loadmaster.Lib.Telescope
import Loadmaster.Util.ProcStat
import Mathlib.Algebra.BigOperators.Ring.Finset

set_option autoImplicit false

namespace Loadmaster.Util

open Telescope

/-- A call of `UpdateCpuStat`, with what a read of the counter would yield. -/
structure CpuStatCall where
  now : ℤ
  force : Bool := false
  cpu_ticks : Option UInt64
deriving DecidableEq, Repr

/-- A value of the process's counter, and when it was read. -/
structure CpuReading where
  time_point : ℤ
  cpu_ticks : UInt64
deriving DecidableEq, Repr

namespace CpuReading

/-- What lies between two readings. -/
def between (a b : CpuReading) : TickSample where
  ticks_diff := ticksDiff a.cpu_ticks b.cpu_ticks
  elapsed_ns := b.time_point - a.time_point

/-- Time passed between two readings, and the counter did not go back. -/
def Before (a b : CpuReading) : Prop := a.time_point < b.time_point ∧ a.cpu_ticks ≤ b.cpu_ticks

end CpuReading

/-- Whether a call within 500 ms of the last reading is held back. -/
def CpuStatCall.Throttled (c : CpuStatCall) (last : Option CpuReading) : Prop :=
  c.force = false ∧ ∃ r, last = some r ∧ c.now - r.time_point < 500 * 10 ^ 6

namespace ProcStat

variable {toNs : UInt64 → UInt64} {p : ProcStat} {c : CpuStatCall} {cs : List CpuStatCall}

def call (toNs : UInt64 → UInt64) (p : ProcStat) (c : CpuStatCall) : ProcStat × Update :=
  p.updateCpuStat toNs c.now c.force c.cpu_ticks

def next (toNs : UInt64 → UInt64) (p : ProcStat) (c : CpuStatCall) : ProcStat := (p.call toNs c).1

/-- How the calls of a run end. -/
def exits (toNs : UInt64 → UInt64) (p : ProcStat) (cs : List CpuStatCall) : List Update :=
  (Run.answers (call toNs) p cs).2

/-- The reading a call has made. -/
def Update.reading (c : CpuStatCall) : Update → Option CpuReading
  | .refreshed _ => c.cpu_ticks.map fun ticks => ⟨c.now, ticks⟩
  | _ => none

/-- What a load was computed from. -/
def Update.sample : Update → Option TickSample
  | .refreshed computed => computed
  | _ => none

/-- The successful readings of a run. -/
def readings (toNs : UInt64 → UInt64) : ProcStat → List CpuStatCall → List CpuReading
  | _, [] => []
  | p, c :: cs => ((p.call toNs c).2.reading c).toList ++ readings toNs (p.next toNs c) cs

/-- The samples of a run. -/
def samples (toNs : UInt64 → UInt64) (p : ProcStat) (cs : List CpuStatCall) : List TickSample :=
  (p.exits toNs cs).filterMap Update.sample

/-- The reading that the next one is compared with. -/
def baseline (p : ProcStat) : Option CpuReading :=
  if p.has_baseline then some ⟨p.time_point, p.prev_cpu_ticks⟩ else none

/-! ## One call -/

theorem throttled_iff : (p.has_baseline ∧ !c.force ∧
    (c.now - p.time_point).tdiv 1000000 < kProcStatIntervalMS) ↔ c.Throttled p.baseline := by
  have hms : (c.now - p.time_point).tdiv 1000000 < kProcStatIntervalMS ↔
      c.now - p.time_point < 500 * 10 ^ 6 := by
    rw [show (kProcStatIntervalMS : ℤ) = 500 from rfl]
    generalize c.now - p.time_point = elapsed
    rcases le_total 0 elapsed with h | h
    · rw [Int.tdiv_eq_ediv_of_nonneg h]
      omega
    · have hnonneg := Int.tdiv_nonneg (a := -elapsed) (b := 1000000) (by omega) (by decide)
      rw [Int.neg_tdiv] at hnonneg
      omega
  unfold CpuStatCall.Throttled baseline
  cases p.has_baseline <;> cases c.force <;> simp [hms]

/-- **The ways out.** -/
theorem call_cases (toNs : UInt64 → UInt64) (p : ProcStat) (c : CpuStatCall) :
    (c.Throttled p.baseline ∧ p.call toNs c = (p, .throttled)) ∨
    (¬ c.Throttled p.baseline ∧ c.cpu_ticks = none ∧ p.call toNs c = (p, .readFailed)) ∨
    (¬ c.Throttled p.baseline ∧ ∃ ticks, c.cpu_ticks = some ticks ∧
      (p.next toNs c).baseline = some ⟨c.now, ticks⟩ ∧
      (p.call toNs c).2 = .refreshed ((p.baseline.map fun r => r.between ⟨c.now, ticks⟩).filter
        fun s => 0 < s.elapsed_ns)) := by
  by_cases hthrottled : c.Throttled p.baseline
  · exact .inl ⟨hthrottled, if_pos (throttled_iff.mpr hthrottled)⟩
  have hcall : p.call toNs c = p.updateCpuStat toNs c.now c.force c.cpu_ticks := rfl
  unfold updateCpuStat at hcall
  dsimp only at hcall
  rw [if_neg (throttled_iff.not.mpr hthrottled)] at hcall
  right
  cases hticks : c.cpu_ticks with
  | none =>
    rw [hticks] at hcall
    exact .inl ⟨hthrottled, rfl, hcall⟩
  | some ticks =>
    rw [hticks] at hcall
    refine .inr ⟨hthrottled, ticks, rfl, ?_⟩
    -- without a baseline there is nothing to compare with, without time nothing to divide by
    by_cases hbase : p.has_baseline
    · have hbaseline : p.baseline = some ⟨p.time_point, p.prev_cpu_ticks⟩ := if_pos hbase
      rw [hbaseline, Option.map_some]
      by_cases htime : 0 < c.now - p.time_point
      · rw [Option.filter_some_pos (by simpa [CpuReading.between] using htime)]
        simp only [hbase, htime, and_self, if_true] at hcall
        rw [next, hcall]
        exact ⟨rfl, rfl⟩
      · rw [Option.filter_some_neg (by simpa [CpuReading.between] using htime)]
        simp only [htime, and_false, if_false] at hcall
        rw [next, hcall]
        exact ⟨rfl, rfl⟩
    · have hbaseline : p.baseline = none := if_neg hbase
      simp only [hbase, false_and, if_false, Bool.false_eq_true] at hcall
      rw [hbaseline, next, hcall]
      exact ⟨rfl, rfl⟩

theorem call_of_throttled (h : c.Throttled p.baseline) : p.call toNs c = (p, .throttled) := by
  obtain ⟨-, hcall⟩ | ⟨hnot, -⟩ | ⟨hnot, -⟩ := call_cases toNs p c
  · exact hcall
  · exact absurd h hnot
  · exact absurd h hnot

theorem call_of_failed (h : ¬ c.Throttled p.baseline) (hnone : c.cpu_ticks = none) :
    p.call toNs c = (p, .readFailed) := by
  obtain ⟨hyes, -⟩ | ⟨-, -, hcall⟩ | ⟨-, ticks, hticks, -⟩ := call_cases toNs p c
  · exact absurd hyes h
  · exact hcall
  · rw [hnone] at hticks
    cases hticks

theorem call_eq_throttled_iff : (p.call toNs c).2 = .throttled ↔ c.Throttled p.baseline := by
  obtain ⟨hyes, hcall⟩ | ⟨hnot, -, hcall⟩ | ⟨hnot, ticks, -, -, hexit⟩ := call_cases toNs p c
  · simp [hcall, hyes]
  · simp [hcall, hnot]
  · simp [hexit, hnot]

/-! ## A run of calls -/

theorem samples_cons : p.samples toNs (c :: cs) =
    (p.call toNs c).2.sample.toList ++ (p.next toNs c).samples toNs cs := by
  have hexits : p.exits toNs (c :: cs) = (p.call toNs c).2 :: (p.next toNs c).exits toNs cs := rfl
  unfold samples
  rw [hexits, List.filterMap_cons]
  cases (p.call toNs c).2.sample <;> rfl

/-- **The samples are what lies between neighbouring readings**, less those
without time between them. -/
theorem samples_eq (toNs : UInt64 → UInt64) (p : ProcStat) (cs : List CpuStatCall) :
    p.samples toNs cs = (steps CpuReading.between (p.baseline.toList ++ p.readings toNs cs)).filter
      fun s => 0 < s.elapsed_ns := by
  induction cs generalizing p with
  | nil => cases p.baseline <;> rfl
  | cons c cs ih =>
    rw [samples_cons, ih, readings]
    obtain ⟨-, hcall⟩ | ⟨-, -, hcall⟩ | ⟨-, ticks, hticks, hbase, hexit⟩ := call_cases toNs p c
    · rw [next, hcall]
      rfl
    · rw [next, hcall]
      rfl
    · rw [hexit, hbase, Update.reading, hticks]
      cases p.baseline with
      | none => rfl
      | some r =>
        simp only [Update.sample, Option.map_some, Option.toList_some, List.singleton_append,
          steps_cons_cons, List.filter_cons, Option.filter_some]
        split_ifs <;> rfl

/-- **The baseline is the last reading.** -/
theorem baseline_before (toNs : UInt64 → UInt64) (p : ProcStat) (cs : List CpuStatCall) (k : ℕ) :
    (Run.before (next toNs) p cs k).baseline =
      (p.baseline.toList ++ p.readings toNs (cs.take k)).getLast? := by
  induction cs generalizing p k with
  | nil => cases h : p.baseline <;> simp [Run.before, readings, h]
  | cons c cs ih =>
    cases k with
    | zero => cases h : p.baseline <;> simp [Run.before, readings, h]
    | succ k =>
      rw [Run.before_cons_succ, ih, List.take_succ_cons, readings]
      obtain ⟨-, hcall⟩ | ⟨-, -, hcall⟩ | ⟨-, ticks, hticks, hbase, hexit⟩ := call_cases toNs p c
      · rw [next, hcall]
        rfl
      · rw [next, hcall]
        rfl
      · rw [hbase, hexit, Update.reading, hticks]
        cases p.baseline <;> simp [List.getLast?_cons_cons]

/-- What was read is among what there was to read. -/
theorem readings_sublist (toNs : UInt64 → UInt64) (p : ProcStat) (cs : List CpuStatCall) :
    (p.readings toNs cs).Sublist
      (cs.filterMap fun c => c.cpu_ticks.map fun ticks => ⟨c.now, ticks⟩) := by
  induction cs generalizing p with
  | nil => exact List.Sublist.refl _
  | cons c cs ih =>
    have hhead : ((p.call toNs c).2.reading c).toList.Sublist
        (c.cpu_ticks.map fun ticks => (⟨c.now, ticks⟩ : CpuReading)).toList := by
      cases (p.call toNs c).2 with
      | throttled => exact List.nil_sublist _
      | readFailed => exact List.nil_sublist _
      | refreshed computed => exact List.Sublist.refl _
    have happend := hhead.append (ih (p.next toNs c))
    rw [readings, List.filterMap_cons]
    cases hticks : c.cpu_ticks <;> rw [hticks] at happend <;> exact happend

theorem isChain_readings (p : ProcStat) (htime : cs.Pairwise fun a b => a.now < b.now)
    (hcounter : (cs.filterMap CpuStatCall.cpu_ticks).Pairwise (· ≤ ·)) :
    (p.readings toNs cs).IsChain CpuReading.Before := by
  have hticks : (cs.filterMap fun c => c.cpu_ticks.map fun ticks =>
      (⟨c.now, ticks⟩ : CpuReading)).Pairwise CpuReading.Before := by
    rw [List.pairwise_filterMap] at hcounter ⊢
    refine htime.imp₂ (fun a b hab hle r hr r' hr' => ?_) hcounter
    obtain ⟨t, ht, rfl⟩ := Option.map_eq_some_iff.mp hr
    obtain ⟨t', ht', rfl⟩ := Option.map_eq_some_iff.mp hr'
    exact ⟨hab, hle t ht t' ht'⟩
  exact (hticks.sublist (readings_sublist toNs p cs)).isChain

/-- What happens at call number `k`. -/
theorem getElem?_exits {k : ℕ} (h : cs[k]? = some c) :
    (p.exits toNs cs)[k]? = some ((Run.before (next toNs) p cs k).call toNs c).2 :=
  Run.answers_snd h p

/-- From a fresh start the baseline is the last reading of the run. -/
theorem baseline_before_fresh (toNs : UInt64 → UInt64) (cs : List CpuStatCall) (k : ℕ) :
    (Run.before (next toNs) {} cs k).baseline = (readings toNs {} (cs.take k)).getLast? := by
  rw [baseline_before]
  rfl

theorem now_lt {c' : CpuStatCall} {k : ℕ} (htime : cs.Pairwise fun a b => a.now < b.now)
    (hc : cs[k]? = some c) (hc' : cs[k + 1]? = some c') : c.now < c'.now := by
  obtain ⟨hk, rfl⟩ := List.getElem?_eq_some_iff.mp hc
  obtain ⟨hk', rfl⟩ := List.getElem?_eq_some_iff.mp hc'
  exact List.pairwise_iff_getElem.mp htime k (k + 1) hk hk' (Nat.lt_succ_self k)

/-- A call that is not forced computes over 500 ms at least. -/
theorem elapsed_of_sample {s : TickSample} (hforce : c.force = false)
    (h : (p.call toNs c).2 = .refreshed (some s)) : 500 * 10 ^ 6 ≤ s.elapsed_ns := by
  obtain ⟨-, hcall⟩ | ⟨-, -, hcall⟩ | ⟨hthrottled, ticks, -, -, hexit⟩ := call_cases toNs p c
  · rw [hcall] at h
    cases h
  · rw [hcall] at h
    cases h
  · rw [hexit] at h
    obtain ⟨hsome, -⟩ := Option.filter_eq_some_iff.mp (Update.refreshed.inj h)
    obtain ⟨r, hr, rfl⟩ := Option.map_eq_some_iff.mp hsome
    by_contra hshort
    exact hthrottled ⟨hforce, r, hr, not_le.mp hshort⟩

/-- **The samples add up** to the last reading less the first. -/
theorem sum_samples {first last : CpuReading}
    (hchain : (readings toNs {} cs).IsChain CpuReading.Before)
    (hfirst : (readings toNs {} cs).head? = some first)
    (hlast : (readings toNs {} cs).getLast? = some last) :
    ((samples toNs {} cs).map fun s => (s.ticks_diff.toNat : ℤ)).sum
        = last.cpu_ticks.toNat - first.cpu_ticks.toNat ∧
      ((samples toNs {} cs).map fun s => s.elapsed_ns).sum
        = last.time_point - first.time_point := by
  -- time passes from reading to reading, so none of the steps is left out
  have hall : samples toNs {} cs = steps CpuReading.between (readings toNs {} cs) :=
    (samples_eq toNs {} cs).trans
      (filter_steps hchain fun a b hab => decide_eq_true (sub_pos.mpr hab.1))
  rw [hall]
  constructor
  · refine sum_map_steps (fun r => (r.cpu_ticks.toNat : ℤ)) hchain (fun a b hab => ?_) hfirst hlast
    have hle := UInt64.le_iff_toNat_le.mp hab.2
    rw [CpuReading.between, toNat_ticksDiff, Nat.cast_sub hle]
  · exact sum_map_steps CpuReading.time_point hchain (fun a b _ => rfl) hfirst hlast

/-- **Samples of this process's load tile time.** A call that is held back and one
whose read fails change nothing; only a call that is not forced is held back, and only
within 500 ms of the last reading; the samples add up to the last reading less the
first; and without force none is shorter than 500 ms. Neighbouring samples share a
reading, so their sums telescope; a call without a reading leaves the baseline as it
is, and the throttle goes by nothing else. -/
theorem cpu_samples_tile (toNs : UInt64 → UInt64) (cs : List CpuStatCall)
    (htime : cs.Pairwise fun a b => a.now < b.now)
    (hcounter : (cs.filterMap CpuStatCall.cpu_ticks).Pairwise (· ≤ ·)) :
    (∀ (k : ℕ) (c : CpuStatCall), cs[k]? = some c →
      c.Throttled (readings toNs {} (cs.take k)).getLast? →
      (exits toNs {} cs)[k]? = some .throttled ∧
        Run.before (next toNs) {} cs (k + 1) = Run.before (next toNs) {} cs k) ∧
    (∀ k c, cs[k]? = some c → ¬ c.Throttled (readings toNs {} (cs.take k)).getLast? →
      c.cpu_ticks = none →
      (exits toNs {} cs)[k]? = some .readFailed ∧
        Run.before (next toNs) {} cs (k + 1) = Run.before (next toNs) {} cs k ∧
        ∀ c', cs[k + 1]? = some c' →
          ((exits toNs {} cs)[k + 1]? = some .throttled ↔
            c'.Throttled (readings toNs {} (cs.take k)).getLast?) ∧
          (c.force = false → (exits toNs {} cs)[k + 1]? ≠ some .throttled)) ∧
    (∀ first last, (readings toNs {} cs).head? = some first →
      (readings toNs {} cs).getLast? = some last →
      ((samples toNs {} cs).map fun s => (s.ticks_diff.toNat : ℤ)).sum
          = last.cpu_ticks.toNat - first.cpu_ticks.toNat ∧
        ((samples toNs {} cs).map fun s => s.elapsed_ns).sum
          = last.time_point - first.time_point) ∧
    ∀ (k : ℕ) (c : CpuStatCall) (s : TickSample), cs[k]? = some c → c.force = false →
      (exits toNs {} cs)[k]? = some (.refreshed (some s)) → 500 * 10 ^ 6 ≤ s.elapsed_ns := by
  refine ⟨?_, ?_, ?_, ?_⟩
  · intro k c hc hthrottled
    rw [← baseline_before_fresh] at hthrottled
    rw [getElem?_exits hc, Run.before_succ hc, next, call_of_throttled hthrottled]
    exact ⟨rfl, rfl⟩
  · intro k c hc hthrottled hnone
    rw [← baseline_before_fresh] at hthrottled ⊢
    have hcall : call toNs (Run.before (next toNs) {} cs k) c = _ := call_of_failed hthrottled hnone
    have hkeep : Run.before (next toNs) {} cs (k + 1) = Run.before (next toNs) {} cs k := by
      rw [Run.before_succ hc, next, hcall]
    refine ⟨by rw [getElem?_exits hc, hcall], hkeep, fun c' hc' => ?_⟩
    have hiff : (exits toNs {} cs)[k + 1]? = some .throttled ↔
        c'.Throttled (Run.before (next toNs) {} cs k).baseline := by
      rw [getElem?_exits hc', hkeep, Option.some_inj]
      exact call_eq_throttled_iff
    refine ⟨hiff, fun hforce hexit => hthrottled ⟨hforce, ?_⟩⟩
    -- the failed call came even earlier after the last reading
    obtain ⟨-, r, hr, hlt⟩ := hiff.mp hexit
    have hnow := now_lt htime hc hc'
    exact ⟨r, hr, by omega⟩
  · intro first last hfirst hlast
    exact sum_samples (isChain_readings {} htime hcounter) hfirst hlast
  · intro k c s hc hforce hexit
    rw [getElem?_exits hc, Option.some_inj] at hexit
    exact elapsed_of_sample hforce hexit

/-- Seven calls at a counter of nanoseconds: one is held back, two fail, one is
forced. -/
theorem cpu_samples_tile_seven :
    let cs : List CpuStatCall := [⟨1, false, some 10⟩, ⟨200000000, false, some 30⟩,
      ⟨600000001, false, none⟩, ⟨700000001, false, some 90⟩, ⟨800000001, true, some 95⟩,
      ⟨900000001, true, none⟩, ⟨1400000001, false, some 200⟩]
    ((samples id {} cs).map fun s => (s.ticks_diff.toNat : ℤ)).sum = 190 ∧
      ((samples id {} cs).map fun s => s.elapsed_ns).sum = 1400000000 := by
  intro cs
  exact (cpu_samples_tile id cs (by decide +kernel) (by decide +kernel)).2.2.1
    ⟨1, 10⟩ ⟨1400000001, 200⟩ (by decide +kernel) (by decide +kernel)

end ProcStat

end Loadmaster.Util
