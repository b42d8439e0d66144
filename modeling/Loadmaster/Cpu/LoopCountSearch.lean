/-
The search for a loop count that takes one millisecond
(`FindAccurateBaseLoopCount` in `cpu/manager.cc`): a bisection of the counts, with
the sample that came nearest kept.

Nothing is known of the times, so the search is over any `elapsed`, of the number of
the probe and its count. Whatever these are, all sixteen probes are made and the
result is a count a worker can use. Where the machine is steady, the result is as
good as the last interval is narrow.
-/
import Loadmaster.Cpu.Worker
import Mathlib.Algebra.Order.AbsoluteValue.Basic
import Mathlib.Tactic.Linarith
import Mathlib.Tactic.Ring

set_option autoImplicit false

namespace Loadmaster.Cpu

/-! ## The search -/

def kCpuBaseLoopCountMin : ℕ := 0
def kCpuBaseLoopCountTestIteration : ℕ := 16

/-- `std::midpoint`, of integers: rounded towards the first. -/
def midpoint (a b : ℤ) : ℤ := if a ≤ b then a + (b - a) / 2 else a - (a - b) / 2

/-- What a round of the search traces. -/
structure Probe where
  count : ℤ
  elapsed : ℤ
deriving DecidableEq, Repr

/-- How far off one millisecond it is. -/
def Probe.off (p : Probe) : ℤ := |p.elapsed - kCpuSchedulingGranularityNS|

structure Search where
  min : ℤ := kCpuBaseLoopCountMin
  max : ℤ := kCpuBaseLoopCountMax
  base_loop_count : ℤ := 0
  accurate : Probe := ⟨0, 0⟩
  traced : List Probe := []
deriving DecidableEq, Repr

namespace Search

/-- One round; `none` when there is no new count to probe. -/
def round (elapsed : ℕ → ℤ → ℤ) (s : Search) : Option Search :=
  let new_base_loop_count := midpoint s.min s.max
  if new_base_loop_count = s.base_loop_count then none
  else
    let probe : Probe := ⟨new_base_loop_count, elapsed s.traced.length new_base_loop_count⟩
    some {
      min := if kCpuSchedulingGranularityNS < probe.elapsed then s.min else probe.count
      max := if kCpuSchedulingGranularityNS < probe.elapsed then probe.count else s.max
      base_loop_count := new_base_loop_count
      accurate := if probe.off < s.accurate.off then probe else s.accurate
      traced := s.traced ++ [probe] }

/-- At most so many rounds. -/
def rounds (elapsed : ℕ → ℤ → ℤ) : ℕ → Search → Search
  | 0, s => s
  | n + 1, s =>
    match s.round elapsed with
    | none => s
    | some s' => rounds elapsed n s'

/-- The search; its loop tests its condition at the end. -/
def run (elapsed : ℕ → ℤ → ℤ) (max_iteration : ℕ) : Search :=
  rounds elapsed (Max.max max_iteration 1) {}

end Search

def findAccurateBaseLoopCount (elapsed : ℕ → ℤ → ℤ) (max_iteration : ℕ) : ℤ :=
  let accurate_loop_count := (Search.run elapsed max_iteration).accurate.count
  if accurate_loop_count ≤ 0 then 1 else accurate_loop_count

/-! ## What a round keeps -/

/-- What is known after `k` rounds. -/
structure Search.Sound (elapsed : ℕ → ℤ → ℤ) (k : ℕ) (s : Search) : Prop where
  traced : s.traced.length = k
  probed : ∀ i, ∀ p ∈ s.traced[i]?,
    (0 < p.count ∧ p.count < (kCpuBaseLoopCountMax : ℤ)) ∧ p.elapsed = elapsed i p.count
  /-- The interval is the first one halved so often, up to 1. -/
  narrow : (s.max - s.min - 1) * 2 ^ k < (kCpuBaseLoopCountMax : ℤ)
  wide : (kCpuBaseLoopCountMax : ℤ) < (s.max - s.min + 1) * 2 ^ k
  within : 0 ≤ s.min ∧ s.max ≤ (kCpuBaseLoopCountMax : ℤ)
  base : s.base_loop_count = s.min ∨ s.base_loop_count = s.max
  /-- The ends are the first ones, or were probed. -/
  min_of : s.min = 0 ∨ ∃ p ∈ s.traced, p.count = s.min ∧ p.elapsed ≤ kCpuSchedulingGranularityNS
  max_of : s.max = (kCpuBaseLoopCountMax : ℤ) ∨
    ∃ p ∈ s.traced, p.count = s.max ∧ kCpuSchedulingGranularityNS < p.elapsed
  /-- No probe came nearer than the one that was kept. -/
  nearest : ∀ p ∈ s.traced, s.accurate.off ≤ p.off
  kept : s.accurate = ⟨0, 0⟩ ∨ s.accurate ∈ s.traced ∧ s.accurate.off < kCpuSchedulingGranularityNS

namespace Search.Sound

variable {elapsed : ℕ → ℤ → ℤ} {k : ℕ} {s s' : Search}

theorem initial : Sound elapsed 0 {} where
  traced := rfl
  probed := by simp
  narrow := by decide
  wide := by decide
  within := ⟨le_rfl, le_rfl⟩
  base := .inl rfl
  min_of := .inl rfl
  max_of := .inl rfl
  nearest := by simp
  kept := .inl rfl

theorem midpoint_between {a b : ℤ} (h : a + 2 ≤ b) : a < midpoint a b ∧ midpoint a b < b := by
  unfold midpoint
  split_ifs <;> omega

/-- **A round** halves the interval, while there is a count inside it. -/
theorem round (h : Sound elapsed k s) (hroom : s.min + 2 ≤ s.max) :
    ∃ s', s.round elapsed = some s' ∧ Sound elapsed (k + 1) s' := by
  obtain ⟨hlo, hhi⟩ := midpoint_between hroom
  have hnew : midpoint s.min s.max ≠ s.base_loop_count := by
    rcases h.base with hbase | hbase <;> rw [hbase]
    · exact hlo.ne'
    · exact hhi.ne
  -- the middle is neither end, so the search does not stop here
  have hmid : midpoint s.min s.max = s.min + (s.max - s.min) / 2 := if_pos (by omega)
  refine ⟨_, if_neg hnew, ?_⟩
  generalize midpoint s.min s.max = mid at hlo hhi hmid
  obtain ⟨hmin, hmax⟩ := h.within
  have hpow : (0 : ℤ) < 2 ^ k := by positivity
  generalize hprobe : (⟨mid, elapsed s.traced.length mid⟩ : Probe) = probe
  have hcount : probe.count = mid := by rw [← hprobe]
  have hmem : ∀ {p}, p ∈ s.traced → p ∈ s.traced ++ [probe] := List.mem_append_left _
  have hlast : probe ∈ s.traced ++ [probe] := List.mem_append_right _ List.mem_cons_self
  -- either half
  have hhalf : ∀ width : ℤ, 2 * (width - 1) ≤ s.max - s.min - 1 →
      s.max - s.min + 1 ≤ 2 * (width + 1) →
      (width - 1) * 2 ^ (k + 1) < (kCpuBaseLoopCountMax : ℤ) ∧
        (kCpuBaseLoopCountMax : ℤ) < (width + 1) * 2 ^ (k + 1) := by
    intro width hnarrow hwide
    rw [pow_succ]
    constructor
    · nlinarith [h.narrow]
    · nlinarith [h.wide]
  constructor
  case traced => rw [List.length_append, h.traced, List.length_singleton]
  case probed =>
    intro i p hp
    rcases lt_trichotomy i s.traced.length with hi | rfl | hi
    · rw [List.getElem?_append_left hi] at hp
      exact h.probed i p hp
    · obtain rfl : probe = p := by simpa using hp
      refine ⟨⟨by omega, by omega⟩, ?_⟩
      rw [← hprobe]
    · rw [List.getElem?_eq_none (by simp; omega)] at hp
      exact absurd hp (by simp)
  case narrow =>
    dsimp only
    rw [hcount]
    split_ifs <;> exact (hhalf _ (by omega) (by omega)).1
  case wide =>
    dsimp only
    rw [hcount]
    split_ifs <;> exact (hhalf _ (by omega) (by omega)).2
  case within =>
    dsimp only
    rw [hcount]
    split_ifs <;> omega
  case base =>
    dsimp only
    rw [hcount]
    split_ifs
    · exact .inr rfl
    · exact .inl rfl
  case min_of =>
    dsimp only
    split_ifs with helapsed
    · rcases h.min_of with hfirst | ⟨p, hp, hends⟩
      · exact .inl hfirst
      · exact .inr ⟨p, hmem hp, hends⟩
    · exact .inr ⟨probe, hlast, rfl, not_lt.mp helapsed⟩
  case max_of =>
    dsimp only
    split_ifs with helapsed
    · exact .inr ⟨probe, hlast, rfl, helapsed⟩
    · rcases h.max_of with hfirst | ⟨p, hp, hends⟩
      · exact .inl hfirst
      · exact .inr ⟨p, hmem hp, hends⟩
  case nearest =>
    intro p hp
    dsimp only
    rcases List.mem_append.mp hp with hp | hp
    · split_ifs with hoff
      · exact hoff.le.trans (h.nearest p hp)
      · exact h.nearest p hp
    · rw [List.mem_singleton.mp hp]
      split_ifs with hoff
      · exact le_rfl
      · exact not_lt.mp hoff
  case kept =>
    -- the first count is kept only until a probe comes nearer than an empty loop
    dsimp only
    split_ifs with hoff
    · refine .inr ⟨hlast, hoff.trans_le ?_⟩
      rcases h.kept with hnone | ⟨-, hbetter⟩
      · rw [hnone]
        decide
      · exact hbetter.le
    · rcases h.kept with hnone | ⟨hp, hbetter⟩
      · exact .inl hnone
      · exact .inr ⟨hmem hp, hbetter⟩

/-- **The rounds**, as long as there is room for them. -/
theorem rounds (h : Sound elapsed k s) {n : ℕ}
    (hroom : 3 * 2 ^ (k + n) ≤ (kCpuBaseLoopCountMax : ℤ)) :
    Sound elapsed (k + n) (s.rounds elapsed n) := by
  induction n generalizing k s with
  | zero => exact h
  | succ n ih =>
    have hpow : (0 : ℤ) < 2 ^ k := by positivity
    have hle : (2 : ℤ) ^ k ≤ 2 ^ (k + (n + 1)) :=
      pow_le_pow_right₀ (by norm_num) (Nat.le_add_right k _)
    -- the interval is too wide still for the two ends to be neighbours
    have hwidth : s.min + 2 ≤ s.max := by
      by_contra hnarrow
      have hwide := h.wide
      nlinarith
    obtain ⟨s', hs', hsound⟩ := h.round hwidth
    rw [Search.rounds, hs', ← Nat.add_assoc, Nat.add_right_comm]
    exact ih hsound (by rwa [Nat.add_right_comm, Nat.add_assoc])

/-- What is known at the end of the program's search. -/
theorem run : Sound elapsed 16 (Search.run elapsed kCpuBaseLoopCountTestIteration) :=
  initial.rounds (n := 16) (by decide)

/-- The ends of the last interval are 382 counts apart at most. -/
theorem width_le (h : Sound elapsed 16 s) : s.max - s.min ≤ 382 := by
  have hnarrow := h.narrow
  have hmax : (kCpuBaseLoopCountMax : ℤ) = 25000000 := rfl
  omega

end Search.Sound

/-! ## The result -/

section Result

variable {elapsed : ℕ → ℤ → ℤ}

/-- The probes of the program's search, in their order. -/
def probes (elapsed : ℕ → ℤ → ℤ) : List Probe :=
  (Search.run elapsed kCpuBaseLoopCountTestIteration).traced

/-- The times of a steady machine, which takes at most `a` more for every count. -/
structure Steady (f : ℤ → ℤ) (a : ℤ) : Prop where
  mono : ∀ m n, m ≤ n → f m ≤ f n
  slope : ∀ m n, m ≤ n → f n - f m ≤ a * (n - m)

theorem elapsed_of_mem {p : Probe} (hp : p ∈ probes elapsed) :
    (0 < p.count ∧ p.count < (kCpuBaseLoopCountMax : ℤ)) ∧ ∃ i, p.elapsed = elapsed i p.count := by
  obtain ⟨i, hi⟩ := List.getElem?_of_mem hp
  obtain ⟨hcount, helapsed⟩ := Search.Sound.run.probed i p hi
  exact ⟨hcount, i, helapsed⟩

/-- The two ways in which the search ends. -/
theorem findAccurateBaseLoopCount_cases :
    (∃ p ∈ probes elapsed,
        p.count = findAccurateBaseLoopCount elapsed kCpuBaseLoopCountTestIteration ∧
        p.off < kCpuSchedulingGranularityNS ∧ ∀ q ∈ probes elapsed, p.off ≤ q.off) ∨
      findAccurateBaseLoopCount elapsed kCpuBaseLoopCountTestIteration = 1 ∧
        ∀ q ∈ probes elapsed, (kCpuSchedulingGranularityNS : ℤ) ≤ q.off := by
  have h := @Search.Sound.run elapsed
  rcases h.kept with hnone | ⟨hmem, hbetter⟩
  · right
    refine ⟨?_, fun q hq => ?_⟩
    · unfold findAccurateBaseLoopCount
      rw [hnone]
      rfl
    · have hnearest := h.nearest q hq
      rw [hnone] at hnearest
      exact hnearest
  · refine .inl ⟨_, hmem, ?_, hbetter, h.nearest⟩
    exact (if_neg (elapsed_of_mem hmem).1.1.not_ge).symm

/-- A count for a worker. -/
theorem findAccurateBaseLoopCount_mem :
    1 ≤ findAccurateBaseLoopCount elapsed kCpuBaseLoopCountTestIteration ∧
      findAccurateBaseLoopCount elapsed kCpuBaseLoopCountTestIteration
        ≤ (kCpuBaseLoopCountMax : ℤ) := by
  rcases @findAccurateBaseLoopCount_cases elapsed with ⟨p, hp, hcount, -⟩ | ⟨hone, -⟩
  · obtain ⟨⟨hlow, hhigh⟩, -⟩ := elapsed_of_mem hp
    rw [← hcount]
    exact ⟨hlow, hhigh.le⟩
  · rw [hone]
    decide

theorem Steady.slope_nonneg {f : ℤ → ℤ} {a : ℤ} (hf : Steady f a) : 0 ≤ a := by
  have hmono : f 0 ≤ f 1 := hf.mono 0 1 (by decide)
  have hslope := hf.slope 0 1 (by decide)
  linarith

/-- On a steady machine one of the last ends is near. -/
theorem Steady.exists_near {f : ℤ → ℤ} {a : ℤ} {s : Search} (hf : Steady f a)
    (h : Search.Sound elapsed 16 s) (helapsed : ∀ i n, elapsed i n = f n)
    (hzero : f 0 ≤ kCpuSchedulingGranularityNS)
    (hmax : kCpuSchedulingGranularityNS ≤ f kCpuBaseLoopCountMax) :
    ∃ p ∈ s.traced, p.off ≤ 382 * a := by
  have hwide := h.wide
  have hlarge : (kCpuBaseLoopCountMax : ℤ) = 25000000 := rfl
  have hends : f s.max - f s.min ≤ 382 * a :=
    calc f s.max - f s.min ≤ a * (s.max - s.min) := hf.slope _ _ (by omega)
      _ ≤ a * 382 := mul_le_mul_of_nonneg_left h.width_le hf.slope_nonneg
      _ = 382 * a := mul_comm _ _
  have htime : ∀ p ∈ s.traced, p.elapsed = f p.count := by
    intro p hp
    obtain ⟨i, hi⟩ := List.getElem?_of_mem hp
    rw [(h.probed i p hi).2, helapsed]
  have hupper : kCpuSchedulingGranularityNS ≤ f s.max := by
    rcases h.max_of with hfirst | ⟨p, hp, hcount, hslow⟩
    · rw [hfirst]
      exact hmax
    · rw [← hcount, ← htime p hp]
      exact hslow.le
  rcases h.min_of with hfirst | ⟨p, hp, hcount, hfast⟩
  · -- the lower end was never moved, so the upper one was
    rcases h.max_of with hlast | ⟨p, hp, hcount, hslow⟩
    · have hwidth := h.width_le
      omega
    · refine ⟨p, hp, ?_⟩
      rw [Probe.off, abs_of_pos (by linarith), htime p hp, hcount]
      rw [hfirst] at hends
      linarith
  · refine ⟨p, hp, ?_⟩
    rw [Probe.off, abs_of_nonpos (by linarith), htime p hp, hcount]
    linarith

/-- **The search for the loop count.** Whatever the times, there are sixteen probes,
and the result is a count for a worker: the probe that came nearest to a millisecond,
if one came nearer than an empty loop, else 1. On a steady machine, which takes at
most a millisecond for no count and at least one for the largest, the result is off by
what 382 counts take, if that is less than a millisecond. An end of the search's
interval is one of the first two or has been probed, and sixteen halvings make the
interval narrow; so one of its ends is near the millisecond, and the result at least
as near. -/
theorem findAccurateBaseLoopCount_nearest :
    (probes elapsed).length = 16 ∧
      (∀ i, ∀ p ∈ (probes elapsed)[i]?, p.elapsed = elapsed i p.count) ∧
      (1 ≤ findAccurateBaseLoopCount elapsed kCpuBaseLoopCountTestIteration ∧
        findAccurateBaseLoopCount elapsed kCpuBaseLoopCountTestIteration
          ≤ (kCpuBaseLoopCountMax : ℤ)) ∧
      ((∃ p ∈ probes elapsed,
          p.count = findAccurateBaseLoopCount elapsed kCpuBaseLoopCountTestIteration ∧
          p.off < kCpuSchedulingGranularityNS ∧ ∀ q ∈ probes elapsed, p.off ≤ q.off) ∨
        findAccurateBaseLoopCount elapsed kCpuBaseLoopCountTestIteration = 1 ∧
          ∀ q ∈ probes elapsed, (kCpuSchedulingGranularityNS : ℤ) ≤ q.off) ∧
      ∀ f a, Steady f a → (∀ i n, elapsed i n = f n) → f 0 ≤ kCpuSchedulingGranularityNS →
        kCpuSchedulingGranularityNS ≤ f kCpuBaseLoopCountMax →
        382 * a < kCpuSchedulingGranularityNS →
          |f (findAccurateBaseLoopCount elapsed kCpuBaseLoopCountTestIteration) -
            kCpuSchedulingGranularityNS| ≤ 382 * a := by
  have h := @Search.Sound.run elapsed
  have hcases := @findAccurateBaseLoopCount_cases elapsed
  refine ⟨h.traced, fun i p hp => (h.probed i p hp).2, findAccurateBaseLoopCount_mem, hcases, ?_⟩
  intro f a hf helapsed hzero hmax hless
  obtain ⟨q, hq, hnear⟩ := hf.exists_near h helapsed hzero hmax
  rcases hcases with ⟨p, hp, hcount, -, hnearest⟩ | ⟨-, hnone⟩
  · -- the result is at least as near as that end
    obtain ⟨-, i, hi⟩ := elapsed_of_mem hp
    rw [← hcount, ← helapsed i, ← hi]
    exact (hnearest q hq).trans hnear
  · exact absurd (hnone q hq) (hnear.trans_lt hless).not_ge

/-- A machine of 40 ns for every count. -/
theorem findAccurateBaseLoopCount_nearest_steady :
    findAccurateBaseLoopCount (fun _ n => 40 * n) kCpuBaseLoopCountTestIteration = 25176 ∧
      |40 * findAccurateBaseLoopCount (fun _ n => 40 * n) kCpuBaseLoopCountTestIteration -
        (kCpuSchedulingGranularityNS : ℤ)| ≤ 382 * 40 := by
  obtain ⟨-, -, -, -, hsteady⟩ := @findAccurateBaseLoopCount_nearest fun _ n => 40 * n
  refine ⟨by decide +kernel, hsteady (fun n => 40 * n) 40 ⟨?_, ?_⟩ ?_ ?_ ?_ ?_⟩
  · exact fun m n h => by simpa using h
  · exact fun m n h => by linarith
  · exact fun _ _ => rfl
  · decide
  · decide
  · decide

end Result

end Loadmaster.Cpu
