/-
The times of the scheduling ticks (`Runtime::MainLoop` and
`Runtime::NextSchedulingTime` in `core/runtime.cc`).

Times are nanoseconds on the steady clock, as integers: 64 bits last for 292
years. An iteration of the loop is what the machine adds to it: how long
`DealSignals` and the managers take, and by how much the thread wakes up late.
Each target is computed from the start before it, however late that was, so
what is to be shown is that lateness moves a tick within its cell of the grid
and not off it.
-/
import Loadmaster.Constants
import Loadmaster.Lib.Run
import Mathlib.Data.Int.DivMod
import Mathlib.Tactic.Ring

set_option autoImplicit false

namespace Loadmaster.Core

/-! ## The source -/

/-- `kScaleNs`: the scheduling interval in nanoseconds. -/
def kScaleNs : ℤ := kScheduleIntervalMS * 1000000

/-- `Runtime::NextSchedulingTime` -/
def nextSchedulingTime (start_ns : ℤ) : ℤ :=
  let next_ns := start_ns + kScheduleIntervalMS * 1000000
  let floored_ns := next_ns.tdiv kScaleNs * kScaleNs
  let delta := floored_ns - start_ns
  start_ns + delta

/-- What one iteration of the loop takes, in nanoseconds: dealing with the
signals, the managers' work, and what the thread sleeps too long. -/
structure Iteration where
  deal : ℕ
  work : ℕ
  late : ℕ
deriving DecidableEq, Repr

/-- One iteration of `MainLoop`: the clock when it is over, and its `start`.
`sleep_until` returns at once when its time has passed. -/
def tick (clock : ℤ) (it : Iteration) : ℤ × ℤ :=
  let start := clock + it.deal
  (max (start + it.work) (nextSchedulingTime start) + it.late, start)

/-- `MainLoop`, from a time of the clock: the starts of its ticks. -/
def mainLoop (clock : ℤ) (its : List Iteration) : List ℤ := (Run.answers tick clock its).2

/-- The cell of the grid that a time lies in. -/
def cell (time : ℤ) : ℤ := time / kScaleNs

/-! ## The next time -/

theorem kScaleNs_eq : kScaleNs = 100000000 := rfl

/-- The next time is where the next cell begins. -/
theorem nextSchedulingTime_eq {start : ℤ} (h : 0 ≤ start) :
    nextSchedulingTime start = (cell start + 1) * kScaleNs := by
  have hnext : start + kScheduleIntervalMS * 1000000 = start + kScaleNs := rfl
  unfold nextSchedulingTime cell
  dsimp only
  rw [hnext, Int.tdiv_eq_ediv_of_nonneg (by rw [kScaleNs_eq]; omega),
    Int.add_ediv_of_dvd_right (dvd_refl kScaleNs), Int.ediv_self (by decide)]
  ring

theorem cell_nextSchedulingTime {start : ℤ} (h : 0 ≤ start) :
    cell (nextSchedulingTime start) = cell start + 1 := by
  rw [nextSchedulingTime_eq h, cell, Int.mul_ediv_cancel _ (by decide)]

/-- It is on the grid, later than the start, and at most an interval later. -/
theorem nextSchedulingTime_grid {start : ℤ} (h : 0 ≤ start) :
    kScaleNs ∣ nextSchedulingTime start ∧ start < nextSchedulingTime start
      ∧ nextSchedulingTime start ≤ start + kScaleNs := by
  rw [nextSchedulingTime_eq h]
  refine ⟨dvd_mul_left _ _, ?_⟩
  rw [cell, kScaleNs_eq]
  omega

theorem cell_mono {s t : ℤ} (h : s ≤ t) : cell s ≤ cell t :=
  Int.ediv_le_ediv (by decide) h

/-- A time that is not before the next one lies in a later cell, -/
theorem cell_lt {start time : ℤ} (h : 0 ≤ start) (hnext : nextSchedulingTime start ≤ time) :
    cell start + 1 ≤ cell time := by
  rw [← cell_nextSchedulingTime h]
  exact cell_mono hnext

/-- in the very next one when it is less than an interval behind. -/
theorem cell_eq {start time : ℤ} (h : 0 ≤ start) (hnext : nextSchedulingTime start ≤ time)
    (hlate : time < nextSchedulingTime start + kScaleNs) : cell time = cell start + 1 := by
  rw [nextSchedulingTime_eq h] at hnext hlate
  unfold cell at *
  rw [kScaleNs_eq] at *
  omega

/-! ## Runs -/

/-- The clock before iteration `k`. -/
abbrev clockBefore (clock : ℤ) (its : List Iteration) (k : ℕ) : ℤ :=
  Run.before (fun clock it => (tick clock it).1) clock its k

/-- What an iteration does to the clock: it is past the next time. -/
theorem tick_clock (clock : ℤ) (it : Iteration) :
    clock ≤ (tick clock it).2 ∧ (tick clock it).2 ≤ (tick clock it).1
      ∧ nextSchedulingTime (tick clock it).2 ≤ (tick clock it).1 := by
  simp only [tick]
  omega

section Ticks

variable {clock : ℤ} {its : List Iteration} {k : ℕ} {start start' : ℤ}

theorem clockBefore_nonneg (hclock : 0 ≤ clock) (k : ℕ) : 0 ≤ clockBefore clock its k := by
  apply Run.before_induction (P := fun c : ℤ => 0 ≤ c) hclock
  intro k it _ hk
  have h := tick_clock (clockBefore clock its k) it
  exact le_trans hk (le_trans h.1 h.2.1)

/-- The start of tick `k` is that of iteration `k`. -/
theorem mainLoop_getElem : (mainLoop clock its)[k]? =
    its[k]?.map fun it => (tick (clockBefore clock its k) it).2 := by
  cases hit : its[k]? with
  | some it => exact Run.answers_snd hit clock
  | none =>
    have hlen : ∀ (its : List Iteration) (clock : ℤ), (mainLoop clock its).length = its.length := by
      intro its
      induction its with
      | nil => intro clock; rfl
      | cons it its ih => intro clock; exact congrArg Nat.succ (ih _)
    rw [List.getElem?_eq_none_iff] at hit
    rw [Option.map_none, List.getElem?_eq_none_iff, hlen]
    exact hit

theorem start_nonneg (hclock : 0 ≤ clock) (h : (mainLoop clock its)[k]? = some start) :
    0 ≤ start := by
  rw [mainLoop_getElem] at h
  obtain ⟨it, -, rfl⟩ := Option.map_eq_some_iff.mp h
  exact le_trans (clockBefore_nonneg hclock k) (tick_clock _ it).1

/-- **A tick starts no earlier than the time computed in the one before.** -/
theorem next_le_start (h : (mainLoop clock its)[k]? = some start)
    (h' : (mainLoop clock its)[k + 1]? = some start') : nextSchedulingTime start ≤ start' := by
  rw [mainLoop_getElem] at h h'
  obtain ⟨it, hit, rfl⟩ := Option.map_eq_some_iff.mp h
  obtain ⟨it', -, rfl⟩ := Option.map_eq_some_iff.mp h'
  have hclock : clockBefore clock its (k + 1) = (tick (clockBefore clock its k) it).1 :=
    Run.before_succ hit
  rw [hclock]
  exact le_trans (tick_clock _ it).2.2 (tick_clock _ it').1

/-- One tick to the next: a later cell, and the very next one unless the tick
starts a whole interval behind the computed time. -/
theorem cell_step (hclock : 0 ≤ clock) (h : (mainLoop clock its)[k]? = some start)
    (h' : (mainLoop clock its)[k + 1]? = some start') :
    cell start + 1 ≤ cell start'
      ∧ (start' < nextSchedulingTime start + kScaleNs → cell start' = cell start + 1) := by
  have hstart := start_nonneg hclock h
  have hnext := next_le_start h h'
  exact ⟨cell_lt hstart hnext, cell_eq hstart hnext⟩

/-- The ticks from number `i` on: `n` ticks later the cell is at least `n`
further, and exactly that if none of them was an interval behind. -/
theorem cell_run (hclock : 0 ≤ clock) {i : ℕ} (h : (mainLoop clock its)[i]? = some start) :
    ∀ (n : ℕ) (start' : ℤ), (mainLoop clock its)[i + n]? = some start' →
      cell start + n ≤ cell start'
        ∧ ((∀ j s t, i ≤ j → j < i + n → (mainLoop clock its)[j]? = some s →
            (mainLoop clock its)[j + 1]? = some t → t < nextSchedulingTime s + kScaleNs) →
          cell start' = cell start + n) := by
  intro n
  induction n with
  | zero =>
    intro start' h'
    rw [Nat.add_zero, h, Option.some.injEq] at h'
    subst h'
    simp
  | succ n ih =>
    intro start' h'
    -- the tick before
    have hlt : i + n < (mainLoop clock its).length := by
      have := (List.getElem?_eq_some_iff.mp h').1
      omega
    obtain ⟨s, hs⟩ : ∃ s, (mainLoop clock its)[i + n]? = some s :=
      ⟨_, List.getElem?_eq_getElem hlt⟩
    obtain ⟨hle, heq⟩ := ih s hs
    obtain ⟨hstep, hexact⟩ := cell_step hclock hs h'
    constructor
    · push_cast
      omega
    · intro htimely
      have hcell := heq fun j s t hij hj => htimely j s t hij (by omega)
      have hnext := hexact (htimely (i + n) s start' (by omega) (by omega) hs h')
      push_cast
      omega

end Ticks

/-- **Scheduling ticks stay on the grid.** The next time is a multiple of the
interval, later than the start and at most an interval later. In every run of the loop
each tick starts in a later cell of the grid than the one before, and in the very next
cell when it starts less than an interval after the computed time; so `n` ticks later
the cell is at least `n` further, and exactly that if no tick between was an interval
behind. The next time is the start of the next cell and a tick does not start before
it (`cell_step`); the rest is the induction on the number of ticks (`cell_run`). -/
theorem ticks_on_grid :
    (∀ start : ℤ, 0 ≤ start → kScaleNs ∣ nextSchedulingTime start
      ∧ start < nextSchedulingTime start ∧ nextSchedulingTime start ≤ start + kScaleNs)
    ∧ ∀ (clock : ℤ) (its : List Iteration), 0 ≤ clock →
      (∀ (k : ℕ) (start start' : ℤ), (mainLoop clock its)[k]? = some start →
        (mainLoop clock its)[k + 1]? = some start' →
        cell start < cell start'
          ∧ (start' < nextSchedulingTime start + kScaleNs → cell start' = cell start + 1))
      ∧ ∀ (i n : ℕ) (start start' : ℤ), (mainLoop clock its)[i]? = some start →
        (mainLoop clock its)[i + n]? = some start' →
        cell start + n ≤ cell start'
          ∧ ((∀ j s t, i ≤ j → j < i + n → (mainLoop clock its)[j]? = some s →
              (mainLoop clock its)[j + 1]? = some t → t < nextSchedulingTime s + kScaleNs) →
            cell start' = cell start + n) := by
  refine ⟨fun start h => nextSchedulingTime_grid h, ?_⟩
  intro clock its hclock
  constructor
  · intro k start start' h h'
    obtain ⟨hstep, hexact⟩ := cell_step hclock h h'
    exact ⟨by omega, hexact⟩
  · intro i n start start' h h'
    exact cell_run hclock h n start' h'

/-- On a boundary, 30 ms late, and 250 ms late. -/
example : mainLoop 200000000 [⟨0, 0, 30000000⟩, ⟨0, 0, 250000000⟩, ⟨0, 0, 0⟩]
    = [200000000, 330000000, 650000000] := by
  decide

end Loadmaster.Core
