/-
The busy loop of a CPU worker (`CpuWorkerContext::Loop` in `cpu/worker.cc`), beside
the threads that set its load and that ask it to stop. Times are in nanoseconds.

A period starts at a reading of the clock, and burns until its load in milliseconds
is over: a call of `CriticalLoop` is begun only before that moment, so at most the
last one runs beyond it. The next period starts one scheduling interval later at
the earliest. That bounds the share of a core which the worker takes, from both
sides (`duty_cycle`). Once it is asked to stop, only the call it is just making
may still burn.

The time of a period is what the clock says, with the time in which the worker was
not running.
-/
import Loadmaster.Cpu.LoopCountSearch
import Loadmaster.Lib.Effect
import Loadmaster.Lib.Telescope
import Mathlib.Algebra.BigOperators.Ring.List
import Mathlib.Tactic.Qify

set_option autoImplicit false

namespace Loadmaster.Cpu

open Effect

/-! ## The loop -/

/-- What `Loop` reads the clock for. -/
inductive ClockUse
  | periodStart | busyTest | busyEnd | beforeSleep
deriving DecidableEq, Repr

inductive WorkerCall
  /-- The test of the inner or of the outer loop. -/
  | stopRequested (inner : Bool)
  | now (r : ClockUse)
  | loadSet
  | criticalLoop (count : Int32)
  | sleepUntil (time : ℤ)
deriving DecidableEq

abbrev WorkerAnswer : WorkerCall → Type
  | .stopRequested _ => Bool
  | .now _ => ℤ
  | .loadSet => Int32
  | _ => Unit

abbrev WorkerProg (α : Type) := Prog WorkerCall WorkerAnswer α

abbrev stopRequested (inner : Bool) : WorkerProg Bool := .perform (WorkerCall.stopRequested inner)
abbrev now (r : ClockUse) : WorkerProg ℤ := .perform (WorkerCall.now r)
abbrev loadSet : WorkerProg Int32 := .perform WorkerCall.loadSet
abbrev criticalLoop (count : Int32) : WorkerProg Unit := .perform (WorkerCall.criticalLoop count)
abbrev sleepUntil (time : ℤ) : WorkerProg Unit := .perform (WorkerCall.sleepUntil time)

/-- A number of milliseconds. -/
def milliseconds (ms : ℤ) : ℤ := ms * 1000000

def period : ℤ := milliseconds kScheduleIntervalMS

/-- Where `Loop` is between two rounds: at the test of the outer loop, or of the
inner one. -/
inductive LoopPhase
  | outer (w : CpuWorkerFeedback)
  | burn (w : CpuWorkerFeedback) (period_start : ℤ) (target_ms iterations : Int32)

/-- The rest of the period. -/
def sleepRest (period_start : ℤ) : WorkerProg Unit := do
  let deadline := period_start + period
  if (← now .beforeSleep) < deadline then sleepUntil deadline else return ()

section Loop

variable (outside : ℚ → Int64)

/-- From the end of the inner loop. -/
def endPeriod (w : CpuWorkerFeedback) (period_start : ℤ) (iterations : Int32) :
    WorkerProg CpuWorkerFeedback := do
  let w ← if 0 < iterations.toInt then do
      let busy_us := Int64.ofInt (((← now .busyEnd) - period_start).tdiv 1000)
      pure (w.updateBaseLoopCount outside iterations busy_us)
    else pure w
  sleepRest period_start
  return w

/-- A round of the outer or of the inner loop. -/
def workerRound : LoopPhase → WorkerProg (LoopPhase ⊕ Unit)
  | .outer w => do
    if ← stopRequested false then return .inr ()
    let period_start ← now .periodStart
    let target_ms ← loadSet
    -- a worker without load only waits for the next period
    if 0 < target_ms.toInt then return .inl (.burn w period_start target_ms 0)
    let w ← endPeriod outside w period_start 0
    return .inl (.outer w)
  | .burn w period_start target_ms iterations => do
    let busy_deadline := period_start + milliseconds target_ms.toInt
    if (← now .busyTest) < busy_deadline then
      if !(← stopRequested true) then
        criticalLoop w.base_loop_count
        return .inl (.burn w period_start target_ms (iterations + 1))
    let w ← endPeriod outside w period_start iterations
    return .inl (.outer w)

/-- A worker as the manager makes it, with the count its search has found. -/
def CpuWorkerFeedback.found (elapsed : ℕ → ℤ → ℤ) (id : Int32) : CpuWorkerFeedback :=
  let count := findAccurateBaseLoopCount elapsed kCpuBaseLoopCountTestIteration
  { CpuWorkerContext.new id (.ofInt count) with }

/-- What the worker shares with the other threads. -/
structure Shared where
  time : ℤ
  load_set : Int32 := 0
  stop : Bool := false

/-- The clock goes forward, a request to stop stays, and the load may be set at any
moment. -/
def workerSystem : System WorkerCall WorkerAnswer LoopPhase Unit Shared where
  body := workerRound outside
  others m m' := m.time ≤ m'.time ∧ (m.stop = true → m'.stop = true)
  answers m
    | .stopRequested _, r => r = m.stop
    | .now _, time => time = m.time
    | .loadSet, r => r = m.load_set
    | .criticalLoop _, _ => True
    | .sleepUntil time, _ => time ≤ m.time

def workerStart (m : Shared) (w : CpuWorkerFeedback) :
    Config WorkerCall WorkerAnswer LoopPhase Unit Shared :=
  ⟨m, .running (workerRound outside (.outer w)), []⟩

end Loop

/-! ## What is seen of it -/

/-- A period, with the readings of the clock before each call of `CriticalLoop` and
the last reading in the inner test. -/
structure Period where
  start : ℤ
  target_ms : Int32 := 0
  begun : List ℤ := []
  tested : ℤ
deriving DecidableEq

namespace Period

/-- What there is to burn. -/
def budget (p : Period) : ℤ := milliseconds (max p.target_ms.toInt 0)

/-- From its start to the end of its inner loop. -/
def busy (p : Period) : ℤ := p.tested - p.start

/-- Every call is begun within the budget, and no reading is out of order. -/
structure Within (p : Period) : Prop where
  begun : ∀ time ∈ p.begun, p.start ≤ time ∧ time < p.start + p.budget
  sorted : (p.begun ++ [p.tested]).Pairwise (· ≤ ·)
  start_le : p.start ≤ p.tested

/-- The whole budget has been burnt. -/
def Spent (p : Period) : Prop := p.budget ≤ p.busy

end Period

/-- What is known of a run of the worker. -/
structure Watched where
  past : List Period := []
  current : Option Period := none
  clock : ℤ
  stop : Bool := false
  /-- The call just made has said that there is no request to stop. -/
  free : Bool := false

namespace Watched

def periods (v : Watched) : List Period := v.past ++ v.current.toList

def next (v : Watched) : Event WorkerCall WorkerAnswer → Watched
  | ⟨.stopRequested _, r⟩ => { v with stop := r, free := !r }
  | ⟨.now .periodStart, time⟩ =>
    { v with past := v.periods, current := some { start := time, tested := time }, clock := time,
             free := false }
  | ⟨.now .busyTest, time⟩ =>
    { v with current := v.current.map ({ · with tested := time }), clock := time, free := false }
  | ⟨.now _, time⟩ => { v with clock := time, free := false }
  | ⟨.loadSet, r⟩ => { v with current := v.current.map ({ · with target_ms := r }), free := false }
  | ⟨.criticalLoop _, _⟩ =>
    { v with current := v.current.map fun p => { p with begun := p.begun ++ [p.tested] },
             free := false }
  | ⟨.sleepUntil time, _⟩ => { v with clock := max v.clock time, free := false }

/-- What is known of the memory. -/
def Knows (m : Shared) (v : Watched) : Prop := v.clock ≤ m.time ∧ (v.stop = true → m.stop = true)

/-- The answers that can come. -/
def Believes (v : Watched) : Event WorkerCall WorkerAnswer → Prop
  | ⟨.stopRequested _, r⟩ => v.stop = true → r = true
  | ⟨.now _, time⟩ => v.clock ≤ time
  | _ => True

end Watched

/-- A period starts when the one before it is spent and its interval is over; a call
of `CriticalLoop` is made right after a test that found no request to stop, before
the budget is over, with a count in its range; and the worker sleeps to the end of
the interval. -/
def budgeting : Watch WorkerCall WorkerAnswer Watched where
  see := Watched.next
  ok v
    | .now .periodStart => v.free = true ∧ ∀ p ∈ v.current, p.Spent ∧ p.start + period ≤ v.clock
    | .loadSet => ∀ p ∈ v.current, p.begun = []
    | .criticalLoop count =>
        v.free = true ∧ (1 ≤ count.toInt ∧ count.toInt ≤ kCpuBaseLoopCountMax) ∧
          ∃ p ∈ v.current, p.tested < p.start + p.budget
    | .sleepUntil time => ∃ p ∈ v.current, time = p.start + period ∧ v.clock < time
    | _ => True

/-- Of two periods, the second starts after the first one's interval and its last
reading. -/
def Period.Before (p q : Period) : Prop := p.start + period ≤ q.start ∧ p.tested ≤ q.start

/-- What every call keeps. -/
structure Watched.Orderly (v : Watched) : Prop where
  past : ∀ p ∈ v.past, p.Within ∧ p.Spent
  current : ∀ p ∈ v.current, p.Within ∧ p.tested ≤ v.clock
  apart : v.periods.IsChain Period.Before
  first : v.current = none → v.past = []

/-- What holds between two rounds. -/
def LoopInv (v : Watched) : LoopPhase → Prop
  | .outer w => w.Tuned ∧ ∀ p ∈ v.current, p.start + period ≤ v.clock ∧ (v.stop = false → p.Spent)
  | .burn w period_start target_ms _ => w.Tuned ∧ v.stop = false ∧ 0 < target_ms.toInt ∧
    ∃ p, v.current = some p ∧ p.start = period_start ∧ p.target_ms = target_ms

/-- The loop is left when a request to stop has been seen. -/
def Returned (v : Watched) (_ : Unit) : Prop := v.stop = true

section Pieces

variable {outside : ℚ → Int64} {w : CpuWorkerFeedback} {v : Watched} {p q : Period} {time : ℤ}
  {iterations : Int32}

/-- A correction keeps the loop count in its range, because it is clamped. -/
theorem CpuWorkerFeedback.Tuned.update (h : w.Tuned) (busy_us : Int64) :
    (w.updateBaseLoopCount outside iterations busy_us).Tuned := by
  by_cases hguard : iterations.toInt ≤ 0 ∨ busy_us.toInt ≤ 0
  · rw [CpuWorkerFeedback.updateBaseLoopCount, if_pos hguard]
    exact h
  · obtain ⟨hiterations, hbusy⟩ := not_or.mp hguard
    exact h.learn (s := ⟨iterations, busy_us, not_le.mp hiterations, not_le.mp hbusy⟩)

/-- A later reading in the inner test. -/
theorem Period.Within.test (h : p.Within) (htime : p.tested ≤ time) :
    Period.Within { p with tested := time } where
  begun := h.begun
  sorted := by
    have hsorted := h.sorted
    rw [List.pairwise_append] at hsorted ⊢
    refine ⟨hsorted.1, List.pairwise_singleton _ _, fun a ha b hb => ?_⟩
    rw [List.mem_singleton.mp hb]
    exact (hsorted.2.2 a ha p.tested List.mem_cons_self).trans htime
  start_le := h.start_le.trans htime

/-- One more call, begun at the last reading. -/
theorem Period.Within.burn (h : p.Within) (hlt : p.tested < p.start + p.budget) :
    Period.Within { p with begun := p.begun ++ [p.tested] } where
  begun := by
    intro time htime
    rcases List.mem_append.mp htime with htime | htime
    · exact h.begun time htime
    · rw [List.mem_singleton.mp htime]
      exact ⟨h.start_le, hlt⟩
  sorted := by
    have hsorted := h.sorted
    refine List.pairwise_append.mpr ⟨hsorted, List.pairwise_singleton _ _, fun a ha b hb => ?_⟩
    rw [List.mem_singleton.mp hb]
    rcases List.mem_append.mp ha with ha | ha
    · exact (List.pairwise_append.mp hsorted).2.2 a ha p.tested List.mem_cons_self
    · exact (List.mem_singleton.mp ha).le
  start_le := h.start_le

/-- The clock goes on. -/
theorem Watched.Orderly.tick {v' : Watched} (h : v.Orderly) (hpast : v'.past = v.past)
    (hcurrent : v'.current = v.current) (hclock : v.clock ≤ v'.clock) : v'.Orderly where
  past := hpast ▸ h.past
  current q hq := by
    obtain ⟨hwithin, htested⟩ := h.current q (hcurrent ▸ hq)
    exact ⟨hwithin, htested.trans hclock⟩
  apart := by
    unfold Watched.periods
    rw [hpast, hcurrent]
    exact h.apart
  first hnone := hpast.trans (h.first (hcurrent.symm.trans hnone))

/-- The current period goes on. -/
theorem Watched.Orderly.replace {v' : Watched} (h : v.Orderly) (hp : v.current = some p)
    (hpast : v'.past = v.past) (hq : v'.current = some q) (hstart : q.start = p.start)
    (hwithin : q.Within) (htested : q.tested ≤ v'.clock) : v'.Orderly where
  past := hpast ▸ h.past
  current r hr := by
    obtain rfl : q = r := by simpa [hq] using hr
    exact ⟨hwithin, htested⟩
  apart := by
    have hapart := h.apart
    unfold Watched.periods at hapart ⊢
    -- only where it starts matters to the period before
    rw [hp, List.isChain_append] at hapart
    rw [hpast, hq, List.isChain_append]
    refine ⟨hapart.1, List.isChain_singleton _, fun a ha b hb => ?_⟩
    obtain rfl : q = b := by simpa using hb
    have hbefore := hapart.2.2 a ha p (by simp)
    unfold Period.Before at hbefore ⊢
    rw [hstart]
    exact hbefore
  first hnone := absurd (hq.symm.trans hnone) (Option.some_ne_none q)

/-- A new period, when the current one is over. -/
theorem Watched.Orderly.start {v' : Watched} (h : v.Orderly)
    (hover : ∀ p ∈ v.current, p.start + period ≤ v.clock ∧ p.Spent) (htime : v.clock ≤ time)
    (hpast : v'.past = v.periods) (hq : v'.current = some { start := time, tested := time })
    (hclock : v'.clock = time) : v'.Orderly where
  past p hp := by
    rw [hpast] at hp
    rcases List.mem_append.mp hp with hp | hp
    · exact h.past p hp
    · have hp := Option.mem_toList.mp hp
      exact ⟨(h.current p hp).1, (hover p hp).2⟩
  current p hp := by
    obtain rfl : { start := time, tested := time } = p := by simpa [hq] using hp
    exact ⟨⟨by simp, List.pairwise_singleton _ _, le_rfl⟩, hclock.ge⟩
  apart := by
    unfold Watched.periods
    rw [hpast, hq]
    refine h.apart.append (List.isChain_singleton _) fun a ha b hb => ?_
    obtain rfl : { start := time, tested := time } = b := by simpa using hb
    cases hcur : v.current with
    | none => simp [Watched.periods, hcur, h.first hcur] at ha
    | some p =>
      obtain rfl : p = a := by simpa [Watched.periods, hcur] using ha
      exact ⟨(hover p hcur).1.trans htime, ((h.current p hcur).2).trans htime⟩
  first hnone := absurd (hq.symm.trans hnone) (Option.some_ne_none _)

/-- **An allowed call** keeps the periods in order. -/
theorem Watched.Orderly.see {e : Event WorkerCall WorkerAnswer} (h : v.Orderly)
    (hok : budgeting.ok v e.call) (hbelieves : v.Believes e) : (budgeting.see v e).Orderly := by
  obtain ⟨call, r⟩ := e
  cases call with
  | stopRequested inner => exact h.tick rfl rfl le_rfl
  | now reading =>
    cases reading
    case periodStart => exact h.start (fun p hp => (hok.2 p hp).symm) hbelieves rfl rfl rfl
    case busyTest =>
      cases hcurrent : v.current with
      | none => exact h.tick rfl (by simp [budgeting, Watched.next, hcurrent]) hbelieves
      | some p =>
        obtain ⟨hwithin, htested⟩ := h.current p hcurrent
        exact h.replace (q := { p with tested := r }) hcurrent rfl
          (by simp [budgeting, Watched.next, hcurrent]) rfl (hwithin.test (htested.trans hbelieves))
          le_rfl
    case busyEnd => exact h.tick rfl rfl hbelieves
    case beforeSleep => exact h.tick rfl rfl hbelieves
  | loadSet =>
    cases hcurrent : v.current with
    | none => exact h.tick rfl (by simp [budgeting, Watched.next, hcurrent]) le_rfl
    | some p =>
      obtain ⟨hwithin, htested⟩ := h.current p hcurrent
      -- no call has been begun that the new budget would not allow
      have hnone : p.begun = [] := hok p hcurrent
      refine h.replace (q := { p with target_ms := r }) hcurrent rfl
        (by simp [budgeting, Watched.next, hcurrent]) rfl ?_ htested
      exact ⟨by simp [hnone], hwithin.sorted, hwithin.start_le⟩
  | criticalLoop count =>
    obtain ⟨-, -, p, hcurrent, hlt⟩ := hok
    have hcurrent : v.current = some p := hcurrent
    obtain ⟨hwithin, htested⟩ := h.current p hcurrent
    exact h.replace (q := { p with begun := p.begun ++ [p.tested] }) hcurrent rfl
      (by simp [budgeting, Watched.next, hcurrent]) rfl (hwithin.burn hlt) htested
  | sleepUntil time => exact h.tick rfl rfl (le_max_left _ _)

/-- The sleep is over a period after the start at the earliest, also where it is woken
before. -/
theorem sleepRest_meets (hcurrent : v.current = some p) :
    budgeting.MeetsGiven Watched.Believes
      (fun v' _ => v'.current = some p ∧ v'.stop = v.stop ∧ p.start + period ≤ v'.clock) v
      (sleepRest p.start) := by
  refine ⟨trivial, fun time _ => ?_⟩
  change budgeting.MeetsGiven _ _ _
    (if time < p.start + period then sleepUntil (p.start + period) else pure ())
  split_ifs with hdeadline
  · exact ⟨⟨p, hcurrent, rfl, hdeadline⟩, fun _ _ => ⟨hcurrent, rfl, le_max_right _ _⟩⟩
  · exact ⟨hcurrent, rfl, not_lt.mp hdeadline⟩

/-- After the inner loop: the period is left when its interval is over. -/
theorem endPeriod_meets (hcurrent : v.current = some p) (hw : w.Tuned)
    (hspent : v.stop = false → p.Spent) :
    budgeting.MeetsGiven Watched.Believes (fun v' w' => LoopInv v' (.outer w')) v
      (endPeriod outside w p.start iterations) := by
  have hrest : ∀ (v₁ : Watched) (w₁ : CpuWorkerFeedback), w₁.Tuned → v₁.current = some p →
      v₁.stop = v.stop → budgeting.MeetsGiven Watched.Believes
        (fun v' w' => LoopInv v' (.outer w')) v₁ (do
          sleepRest p.start
          return w₁) := by
    intro v₁ w₁ hw₁ hcurrent₁ hstop₁
    apply (sleepRest_meets hcurrent₁).bind
    rintro v' _ ⟨hcurrent', hstop', hclock'⟩
    refine ⟨hw₁, fun q hq => ?_⟩
    obtain rfl : p = q := by simpa [hcurrent'] using hq
    exact ⟨hclock', fun hgo => hspent (hstop₁.symm.trans (hstop'.symm.trans hgo))⟩
  unfold endPeriod
  split_ifs with hiterations
  · exact ⟨trivial, fun time _ => hrest _ _ (hw.update _) hcurrent rfl⟩
  · exact hrest v w hw hcurrent rfl

/-- **A round of the outer loop** that is not over, up to the end of the period or
to its inner loop. -/
theorem outer_meets (h : LoopInv v (.outer w)) :
    budgeting.MeetsGiven Watched.Believes (System.Between LoopInv Returned) v
      (workerRound outside (.outer w)) := by
  obtain ⟨hw, hover⟩ := h
  refine ⟨trivial, fun stop hstop => ?_⟩
  cases stop with
  | true => exact rfl
  | false =>
    -- no request has been seen so far, so the last period was spent
    have hgo : v.stop = false := by
      cases hv : v.stop
      · rfl
      · exact absurd (hstop hv) (by simp)
    refine ⟨⟨rfl, fun p hp => ⟨(hover p hp).2 hgo, (hover p hp).1⟩⟩, fun time _ => ?_⟩
    refine ⟨by simp [budgeting, Watched.next], fun target _ => ?_⟩
    let p : Period := { start := time, target_ms := target, tested := time }
    change budgeting.MeetsGiven _ _ _ (if 0 < target.toInt then _ else _)
    split_ifs with htarget
    · exact ⟨hw, rfl, htarget, p, rfl, rfl, rfl⟩
    · -- there is nothing to burn
      refine (endPeriod_meets (p := p) rfl hw fun _ => ?_).bind fun v' w' h => h
      simp [Period.Spent, Period.budget, Period.busy, p, milliseconds,
        max_eq_right (not_lt.mp htarget)]

/-- **A round of the inner loop**: one more call, or the end of the period. -/
theorem burn_meets {period_start : ℤ} {target_ms : Int32}
    (h : LoopInv v (.burn w period_start target_ms iterations)) :
    budgeting.MeetsGiven Watched.Believes (System.Between LoopInv Returned) v
      (workerRound outside (.burn w period_start target_ms iterations)) := by
  obtain ⟨hw, hgo, htarget, p, hcurrent, rfl, rfl⟩ := h
  have hbudget : p.budget = milliseconds p.target_ms.toInt := by
    rw [Period.budget, max_eq_left htarget.le]
  refine ⟨trivial, fun time _ => ?_⟩
  let p₁ : Period := { p with tested := time }
  let v₁ : Watched := { v with current := some p₁, clock := time, free := false }
  have hread : budgeting.see v ⟨.now .busyTest, time⟩ = v₁ := by
    simp [budgeting, Watched.next, hcurrent, v₁, p₁]
  rw [hread]
  change budgeting.MeetsGiven _ _ v₁
    (if time < p.start + milliseconds p.target_ms.toInt then _ else _)
  split_ifs with hdeadline
  · -- there is budget left, which only a request to stop can leave unburnt
    refine ⟨trivial, fun stop _ => ?_⟩
    cases stop with
    | false =>
      have hlt : p₁.tested < p₁.start + p₁.budget := hbudget ▸ hdeadline
      exact ⟨⟨rfl, hw.in_range, p₁, rfl, hlt⟩, fun _ _ => ⟨hw, rfl, htarget, _, rfl, rfl, rfl⟩⟩
    | true =>
      exact (endPeriod_meets (p := p₁) rfl hw Bool.noConfusion).bind fun v' w' h => h
  · refine (endPeriod_meets (p := p₁) rfl hw fun _ => ?_).bind fun v' w' h => h
    change p.budget ≤ time - p.start
    rw [hbudget]
    linarith [not_lt.mp hdeadline]

/-- **A round** keeps to the budget. -/
theorem workerRound_meets {ph : LoopPhase} (h : LoopInv v ph) :
    budgeting.MeetsGiven Watched.Believes (System.Between LoopInv Returned) v
      (workerRound outside ph) := by
  match ph, h with
  | .outer _, h => exact outer_meets h
  | .burn _ _ _ _, h => exact burn_meets h

end Pieces

/-! ## Over a run -/

section Run

variable {outside : ℚ → Int64} {w : CpuWorkerFeedback} {m : Shared} {v : Watched}
  {elapsed : ℕ → ℤ → ℤ} {n : Int32}
  {c : Config WorkerCall WorkerAnswer LoopPhase Unit Shared}

/-- What is known of the memory says which answers can come. -/
theorem Watched.Knows.answer {call : WorkerCall} {r : WorkerAnswer call} (h : v.Knows m)
    (hr : (workerSystem outside).answers m call r) :
    v.Believes ⟨call, r⟩ ∧ (budgeting.see v ⟨call, r⟩).Knows m := by
  obtain ⟨hclock, hstop⟩ := h
  cases call with
  | stopRequested inner =>
    obtain rfl : r = m.stop := hr
    exact ⟨hstop, hclock, id⟩
  | now reading =>
    obtain rfl : r = m.time := hr
    cases reading
    case periodStart => exact ⟨hclock, le_rfl, hstop⟩
    case busyTest => exact ⟨hclock, le_rfl, hstop⟩
    case busyEnd => exact ⟨hclock, le_rfl, hstop⟩
    case beforeSleep => exact ⟨hclock, le_rfl, hstop⟩
  | loadSet => exact ⟨trivial, hclock, hstop⟩
  | criticalLoop count => exact ⟨trivial, hclock, hstop⟩
  | sleepUntil time => exact ⟨trivial, max_le hclock hr, hstop⟩

/-- What has been seen of a run that started in this memory. -/
def watched (m : Shared) (h : List (Event WorkerCall WorkerAnswer)) : Watched :=
  budgeting.after { clock := m.time } h

/-- **Over a run**, whenever the load is set and the request to stop comes, every call
is in its place, and the periods are in order. -/
theorem run_orderly (hw : w.Tuned)
    (hreach : (workerSystem outside).Reaches (workerStart outside m w) c) :
    budgeting.Allows { clock := m.time } c.history ∧ (watched m c.history).Orderly := by
  have horderly : Watched.Orderly { clock := m.time } :=
    ⟨by simp, by simp, by simp [Watched.periods], fun _ => rfl⟩
  have hinv : LoopInv { clock := m.time } (.outer w) := ⟨hw, by simp⟩
  have hstart : System.ThreadMeetsGiven budgeting Watched.Believes LoopInv Returned
      { clock := m.time } (workerStart outside m w).thread := workerRound_meets hinv
  have hknows : Watched.Knows m { clock := m.time } := ⟨le_rfl, by simp⟩
  obtain ⟨hall, ⟨-, horderly'⟩, -⟩ :=
    System.reach_inv_given (S := workerSystem outside) (c := workerStart outside m w)
      (R := fun m v => Watched.Knows m v ∧ v.Orderly) (I := LoopInv) (E := Returned)
      (fun m m' v h hm => ⟨⟨h.1.1.trans hm.1, fun hv => hm.2 (h.1.2 hv)⟩, h.2⟩)
      (fun m v call r h hok hr =>
        ⟨(h.1.answer hr).1, (h.1.answer hr).2, h.2.see hok (h.1.answer hr).1⟩)
      (fun v ph h => workerRound_meets h) ⟨Watch.allows_nil, ⟨hknows, horderly⟩, hstart⟩ hreach
  exact ⟨hall, horderly'⟩

/-- The manager's workers have a count in its range. -/
theorem tuned_found : (CpuWorkerFeedback.found elapsed n).Tuned := by
  obtain ⟨hlow, hhigh⟩ := @findAccurateBaseLoopCount_mem elapsed
  have hmax : (kCpuBaseLoopCountMax : ℤ) = 25000000 := rfl
  have hcount : (Int32.ofInt
      (findAccurateBaseLoopCount elapsed kCpuBaseLoopCountTestIteration)).toInt =
      findAccurateBaseLoopCount elapsed kCpuBaseLoopCountTestIteration :=
    Int32.toInt_ofInt_of_le (by omega) (by omega)
  constructor
  · change 1 ≤ (ite _ _ _ : Int32).toInt ∧ (ite _ _ _ : Int32).toInt ≤ (kCpuBaseLoopCountMax : ℤ)
    split_ifs with hone
    · rw [hcount]
      exact ⟨hlow, hhigh⟩
    · decide
  · change 0 < kTargetUsPerCall
    rw [CpuWorkerFeedback.kTargetUsPerCall_eq]
    norm_num

/-! ## The share of a core -/

/-- The last call of a period was begun at this reading; with none, the period's
start. -/
def Period.lastBegun (p : Period) : ℤ := p.begun.getLastD p.start

/-- How far a period ran beyond its budget. -/
def Period.overrun (p : Period) : ℤ := p.busy - p.budget

/-- No period runs more than `δ` beyond its budget. -/
def Prompt (δ : ℤ) (ps : List Period) : Prop := ∀ p ∈ ps, p.overrun ≤ δ

/-- Every period starts at most `ε` after the interval of the one before. -/
def Punctual (ε : ℤ) (ps : List Period) : Prop :=
  ps.IsChain fun p q => q.start ≤ p.start + period + ε

/-- The mean load of some periods, in percent. -/
def meanLoad (ps : List Period) : ℚ :=
  ((ps.map fun p => max p.target_ms.toInt 0).sum : ℤ) / ps.length

/-- The share of the time from the first period's start to the last one's that the
periods before the last were busy. -/
def busyShare (ps : List Period) (first last : Period) : ℚ :=
  ((ps.map Period.busy).sum : ℤ) / (last.start - first.start : ℤ)

section Share

variable {ps : List Period} {p q first last : Period} {δ ε : ℤ}

/-- A budget is that of a load cut off at 0. -/
theorem Period.budget_nonneg : 0 ≤ p.budget :=
  mul_nonneg (le_max_right _ _) (by decide)

/-- At most the last call runs beyond the budget. -/
theorem Period.Within.overrun_le (h : p.Within) : p.overrun ≤ p.tested - p.lastBegun := by
  -- the last call was begun within the budget, if there was one
  have hlast : p.lastBegun ≤ p.start + p.budget := by
    rcases List.eq_nil_or_concat p.begun with hnone | ⟨earlier, time, hbegun⟩
    · rw [lastBegun, hnone, List.getLastD_nil]
      linarith [budget_nonneg (p := p)]
    · rw [List.concat_eq_append] at hbegun
      rw [lastBegun, hbegun, List.getLastD_concat]
      exact (h.begun time (by simp [hbegun])).2.le
  unfold overrun busy
  linarith

/-- Busy times and intervals fit between the first start and the last. -/
theorem elapsed_ge (hchain : (ps ++ [last]).IsChain Period.Before)
    (hfirst : (ps ++ [last]).head? = some first) :
    (ps.map Period.busy).sum ≤ last.start - first.start ∧
      ps.length * period ≤ last.start - first.start := by
  constructor
  · refine Telescope.sum_map_le (v := Period.start) hchain (fun p q hpq => ?_) hfirst
    exact sub_le_sub_right hpq.2 _
  · have hsum : (ps.map fun _ => period).sum ≤ last.start - first.start := by
      refine Telescope.sum_map_le (v := Period.start) hchain (fun p q hpq => ?_) hfirst
      linarith [hpq.1]
    rwa [List.map_const', List.sum_replicate, nsmul_eq_mul] at hsum

/-- The starts are an interval and a lateness apart at most, so the time of all periods
is bounded. -/
theorem elapsed_le (hpunctual : Punctual ε (ps ++ [last]))
    (hfirst : (ps ++ [last]).head? = some first) :
    last.start - first.start ≤ ps.length * (period + ε) := by
  have hsum : last.start - first.start ≤ (ps.map fun _ => period + ε).sum := by
    refine Telescope.le_sum_map (v := Period.start) hpunctual (fun p q hpq => ?_) hfirst
    linarith
  rwa [List.map_const', List.sum_replicate, nsmul_eq_mul] at hsum

/-- The period is 100 ms, in nanoseconds. -/
theorem period_eq : (period : ℚ) = 100000000 := by
  norm_num [period, milliseconds, kScheduleIntervalMS]

/-- The budgets add up to the mean load of the time that the periods have. -/
theorem sum_budget (hne : ps ≠ []) :
    (((ps.map Period.budget).sum : ℤ) : ℚ) = meanLoad ps / 100 * (ps.length * period) := by
  have hlen : (ps.length : ℚ) ≠ 0 := by
    exact_mod_cast (List.length_pos_of_ne_nil hne).ne'
  have hsum : (ps.map Period.budget).sum =
      (ps.map fun p => max p.target_ms.toInt 0).sum * 1000000 := List.sum_map_mul_right ..
  rw [meanLoad, period_eq, hsum, Int.cast_mul]
  field_simp
  norm_num
  ring

/-- **The share of a core** is the mean load, but for the last calls' overrun and for
the intervals' delay. -/
theorem busyShare_bounds (hne : ps ≠ []) (hspent : ∀ p ∈ ps, p.Spent)
    (hchain : (ps ++ [last]).IsChain Period.Before) (hfirst : (ps ++ [last]).head? = some first)
    (hprompt : Prompt δ ps) (hpunctual : Punctual ε (ps ++ [last])) :
    meanLoad ps / 100 * (period / (period + ε)) ≤ busyShare ps first last ∧
      busyShare ps first last ≤ meanLoad ps / 100 + δ / period := by
  have hn : (0 : ℚ) < ps.length := by exact_mod_cast List.length_pos_of_ne_nil hne
  have hperiod : (0 : ℚ) < period := by
    rw [period_eq]
    norm_num
  obtain ⟨-, hlong⟩ := elapsed_ge hchain hfirst
  have hshort := elapsed_le hpunctual hfirst
  have hlow : (ps.map Period.budget).sum ≤ (ps.map Period.busy).sum :=
    List.sum_le_sum fun p hp => hspent p hp
  have hhigh : (ps.map Period.busy).sum ≤ (ps.map Period.budget).sum + ps.length * δ := by
    have hsum : (ps.map Period.busy).sum ≤ (ps.map fun p => p.budget + δ).sum :=
      List.sum_le_sum fun p hp => sub_le_iff_le_add'.mp (hprompt p hp)
    rwa [List.sum_map_add, List.map_const', List.sum_replicate, nsmul_eq_mul] at hsum
  have hnonneg : 0 ≤ (ps.map Period.budget).sum := by
    refine List.sum_nonneg fun b hb => ?_
    obtain ⟨p, -, rfl⟩ := List.mem_map.mp hb
    exact Period.budget_nonneg
  have hmean : meanLoad ps / 100 = ((ps.map Period.budget).sum : ℤ) / (ps.length * period) := by
    rw [eq_div_iff (by positivity), sum_budget hne]
  rw [busyShare, hmean]
  -- from here on it is about three numbers
  generalize (ps.map Period.busy).sum = busy at hlow hhigh ⊢
  generalize (ps.map Period.budget).sum = budget at hlow hhigh hnonneg ⊢
  generalize last.start - first.start = elapsed at hlong hshort ⊢
  qify at hlow hhigh hnonneg hlong hshort
  have hpos : (0 : ℚ) < elapsed := lt_of_lt_of_le (mul_pos hn hperiod) hlong
  have hdelayed : (0 : ℚ) < period + ε := pos_of_mul_pos_right (hpos.trans_le hshort) hn.le
  constructor
  · calc (budget : ℚ) / (ps.length * period) * (period / (period + ε))
        = budget / (ps.length * (period + ε)) := by field_simp
      _ ≤ budget / elapsed := div_le_div_of_nonneg_left hnonneg hpos hshort
      _ ≤ busy / elapsed := div_le_div_of_nonneg_right hlow hpos.le
  · calc (busy : ℚ) / elapsed ≤ busy / (ps.length * period) :=
          div_le_div_of_nonneg_left (hnonneg.trans hlow) (by positivity) hlong
      _ ≤ (budget + ps.length * δ) / (ps.length * period) :=
          div_le_div_of_nonneg_right hhigh (by positivity)
      _ = budget / (ps.length * period) + δ / period := by field_simp

end Share

/-- **A worker takes its load of a core.** Whenever its load is set and the request to
stop comes: `CriticalLoop` is called within the budget of a period only, right after a
test that has found no such request, with a count in its range; a period that is over
has been burnt to its end, it runs beyond that by its last call at most, and the next
one starts after its interval. So over its periods the worker takes the mean of the
loads it has read, more by what their last calls overrun and less for what the
intervals are late. Every round of the loop keeps the periods in order and apart
(`run_orderly`). The share is then their sum, each as long as its budget and its
overrun, at the distance of an interval and its lateness. -/
theorem duty_cycle
    (hreach : (workerSystem outside).Reaches (workerStart outside m (.found elapsed n)) c) :
    budgeting.Allows { clock := m.time } c.history ∧ (watched m c.history).Orderly ∧
      (∀ p ∈ (watched m c.history).past, p.overrun ≤ p.tested - p.lastBegun) ∧
      ∀ first last : Period, ∀ δ ε : ℤ, (watched m c.history).current = some last →
        (watched m c.history).periods.head? = some first → (watched m c.history).past ≠ [] →
        Prompt δ (watched m c.history).past → Punctual ε (watched m c.history).periods →
          meanLoad (watched m c.history).past / 100 * (period / (period + ε))
              ≤ busyShare (watched m c.history).past first last ∧
            busyShare (watched m c.history).past first last
              ≤ meanLoad (watched m c.history).past / 100 + δ / period := by
  obtain ⟨hall, horderly⟩ := run_orderly tuned_found hreach
  refine ⟨hall, horderly, fun p hp => (horderly.past p hp).1.overrun_le, ?_⟩
  intro first last δ ε hlast hfirst hpast hprompt hpunctual
  have hperiods : (watched m c.history).periods = (watched m c.history).past ++ [last] := by
    rw [Watched.periods, hlast, Option.toList_some]
  rw [hperiods] at hfirst hpunctual
  exact busyShare_bounds hpast (fun p hp => (horderly.past p hp).2) (hperiods ▸ horderly.apart)
    hfirst hprompt hpunctual

/-- A machine at a load of one percent, where a call takes 1.2 milliseconds, which is 0.2
more than there is to burn, and the sleep 50 microseconds too long; its state is the time. -/
def slowMachine (stop : Bool) : Handler WorkerCall WorkerAnswer ℤ
  | time, .stopRequested _ => (stop, time)
  | time, .now _ => (time, time)
  | time, .loadSet => (1, time)
  | time, .criticalLoop _ => ((), time + 1200000)
  | time, .sleepUntil deadline => ((), max time (deadline + 50000))

def slowMemory (stop : Bool) (time : ℤ) : Shared := { time := time, load_set := 1, stop := stop }

def newWorker : CpuWorkerFeedback := .found (fun _ n => 40 * n) 0

/-- The time and the calls after a round on it. -/
def afterWorkerRound (stop : Bool) (ph : LoopPhase) (time : ℤ)
    (h : List (Event WorkerCall WorkerAnswer)) :
    (LoopPhase ⊕ Unit) × ℤ × List (Event WorkerCall WorkerAnswer) :=
  (workerRound (fun _ => 0) ph).handle (slowMachine stop) time h

/-- One round of the loop on the concrete machine, computed. -/
theorem reaches_afterWorkerRound (stop : Bool) (ph : LoopPhase) (time : ℤ)
    (h : List (Event WorkerCall WorkerAnswer)) :
    (workerSystem fun _ => 0).Reaches
      ⟨slowMemory stop time, .running (workerRound (fun _ => 0) ph), h⟩
      ⟨slowMemory stop (afterWorkerRound stop ph time h).2.1,
        .running (.done (afterWorkerRound stop ph time h).1),
        (afterWorkerRound stop ph time h).2.2⟩ := by
  refine System.reaches_handle _ (slowMachine stop) (fun time call => ?_) _ time h
  have hlater : ∀ time', time ≤ time' → Relation.ReflTransGen
      (workerSystem fun _ => 0).others (slowMemory stop time) (slowMemory stop time') :=
    fun time' h => .single ⟨h, id⟩
  cases call with
  | stopRequested inner => exact ⟨_, .refl, rfl, .refl⟩
  | now reading => exact ⟨_, .refl, rfl, .refl⟩
  | loadSet => exact ⟨_, .refl, rfl, .refl⟩
  | criticalLoop count => exact ⟨_, .refl, trivial, hlater _ (le_add_of_nonneg_right (by decide))⟩
  | sleepUntil deadline =>
    refine ⟨_, hlater _ (le_max_left _ _), ?_, .refl⟩
    exact (le_add_of_nonneg_right (by decide)).trans (le_max_right _ _)

theorem duty_cycle_one_percent :
    ∃ c first last, (workerSystem fun _ => 0).Reaches
        (workerStart (fun _ => 0) (slowMemory false 0) newWorker) c ∧
      (watched (slowMemory false 0) c.history).periods = [first, last] ∧
      (1 / 100 * (period / (period + 50000)) : ℚ) ≤ busyShare [first] first last ∧
      busyShare [first] first last ≤ 1 / 100 + 200000 / period := by
  -- a period with one call, and the start of the next
  have hrounds := reaches_afterWorkerRound false
  have hreach := ((hrounds (.outer newWorker) 0 []).tail .again).trans <|
    ((hrounds (.burn newWorker 0 1 0) _ _).tail .again).trans <|
      ((hrounds (.burn newWorker 0 1 1) _ _).tail .again).trans <|
        (hrounds (.outer _) _ _)
  let first : Period := ⟨0, 1, [0], 1200000⟩
  let last : Period := ⟨100050000, 1, [], 100050000⟩
  obtain ⟨c, hreach, hpast, hlast⟩ : ∃ c, (workerSystem fun _ => 0).Reaches
      (workerStart (fun _ => 0) (slowMemory false 0) newWorker) c ∧
      (watched (slowMemory false 0) c.history).past = [first] ∧
      (watched (slowMemory false 0) c.history).current = some last :=
    ⟨_, hreach, by decide +kernel, by decide +kernel⟩
  have hperiods : (watched (slowMemory false 0) c.history).periods = [first, last] := by
    rw [Watched.periods, hpast, hlast]
    rfl
  have hmean : meanLoad [first] = 1 := by decide +kernel
  obtain ⟨-, -, -, hshare⟩ := duty_cycle hreach
  have hbounds := hshare first last 200000 50000 hlast (by rw [hperiods]; rfl)
    (by rw [hpast]; exact List.cons_ne_nil _ _)
    (by
      rw [hpast]
      exact List.forall_mem_singleton.mpr (by decide))
    (by
      rw [hperiods]
      exact List.isChain_pair.mpr (by decide))
  rw [hpast, hmean] at hbounds
  exact ⟨c, first, last, hreach, hperiods, by exact_mod_cast hbounds.1, by exact_mod_cast hbounds.2⟩

/-! ## After a request to stop -/

/-- How many calls the thread makes at most after this one, when there is a request to
stop. -/
def callsLeft : WorkerCall → ℕ
  | .stopRequested false => 0
  | .stopRequested true => 4
  | .now .periodStart => 7
  | .now .busyTest => 5
  | .now .busyEnd => 3
  | .now .beforeSleep => 2
  | .loadSet => 6
  | .criticalLoop _ => 6
  | .sleepUntil _ => 1

/-- The same after a call that may have been a test without a request. -/
def leftAfter : Event WorkerCall WorkerAnswer → ℕ
  | ⟨.stopRequested false, false⟩ => 8
  | ⟨.stopRequested true, false⟩ => 7
  | ⟨call, _⟩ => callsLeft call

/-- Every call brings the thread nearer to its end, unless it is a test that finds no
request. -/
def windingUp : Watch WorkerCall WorkerAnswer ℕ where
  see _ := leftAfter
  ok left call := callsLeft call < left

/-- Not a test that finds no request to stop. -/
def Asked : Event WorkerCall WorkerAnswer → Prop
  | ⟨.stopRequested _, r⟩ => r = true
  | _ => True

theorem sleepRest_windsUp {left : ℕ} {start : ℤ} (hleft : 3 ≤ left) :
    windingUp.Meets (fun left _ => 1 ≤ left) left (sleepRest start) := by
  refine ⟨hleft, fun time => ?_⟩
  change windingUp.Meets _ 2
    (if time < start + period then sleepUntil (start + period) else pure ())
  split_ifs
  · exact ⟨one_lt_two, fun _ => le_rfl⟩
  · exact one_le_two

theorem endPeriod_windsUp {left : ℕ} {start : ℤ} {iterations : Int32} (hleft : 4 ≤ left) :
    windingUp.Meets (fun left _ => 1 ≤ left) left (endPeriod outside w start iterations) := by
  unfold endPeriod
  split_ifs
  · exact ⟨hleft, fun _ => (sleepRest_windsUp (le_refl 3)).bind fun _ _ h => h⟩
  · exact (sleepRest_windsUp (by omega)).bind fun _ _ h => h

/-- What is left between two rounds. -/
def LeftInv (left : ℕ) : LoopPhase → Prop
  | .outer _ => 1 ≤ left
  | .burn _ _ _ _ => 6 ≤ left

/-- A round makes at most eight calls after a request, wherever it stands; each case
counts what is left of it. -/
theorem workerRound_windsUp {left : ℕ} {ph : LoopPhase} (h : LeftInv left ph) :
    windingUp.Meets (System.Between LeftInv fun _ _ => True) left (workerRound outside ph) := by
  cases ph with
  | outer w =>
    refine ⟨h, fun stop => ?_⟩
    cases stop with
    | true => trivial
    | false =>
      refine ⟨Nat.lt_succ_self 7, fun start => ⟨Nat.lt_succ_self 6, fun target => ?_⟩⟩
      change windingUp.Meets _ 6 (if 0 < target.toInt then _ else _)
      split_ifs
      · exact le_rfl
      · exact (endPeriod_windsUp (by decide)).bind fun _ _ h => h
  | burn w start target iterations =>
    refine ⟨h, fun time => ?_⟩
    change windingUp.Meets _ 5 (if time < start + milliseconds target.toInt then _ else _)
    split_ifs
    · refine ⟨Nat.lt_succ_self 4, fun stop => ?_⟩
      cases stop with
      | false => exact ⟨Nat.lt_succ_self 6, fun _ => le_rfl⟩
      | true => exact (endPeriod_windsUp (by decide)).bind fun _ _ h => h
    · exact (endPeriod_windsUp (by decide)).bind fun _ _ h => h

/-- An event that finds the request lowers the bound to what its call leaves. -/
theorem see_asked {left : ℕ} {e : Event WorkerCall WorkerAnswer} (h : Asked e) :
    windingUp.see left e = callsLeft e.call := by
  obtain ⟨call, r⟩ := e
  cases call with
  | stopRequested inner =>
    obtain rfl : r = true := h
    cases inner <;> rfl
  | now reading => rfl
  | loadSet => rfl
  | criticalLoop count => rfl
  | sleepUntil time => rfl

/-- So with the request in place there are no more calls than the bound says. -/
theorem length_le_left {left : ℕ} {h : List (Event WorkerCall WorkerAnswer)}
    (hall : windingUp.Allows left h) (hasked : ∀ e ∈ h, Asked e) : h.length ≤ left := by
  induction h generalizing left with
  | nil => exact Nat.zero_le _
  | cons e h ih =>
    obtain ⟨hok, hrest⟩ := Watch.allows_cons.mp hall
    rw [see_asked (hasked e List.mem_cons_self)] at hrest
    have hlen := ih hrest fun e' he' => hasked e' (List.mem_cons_of_mem _ he')
    exact (Nat.succ_le_succ hlen).trans hok

theorem leftAfter_le {e : Event WorkerCall WorkerAnswer} : leftAfter e ≤ 8 := by
  obtain ⟨call, r⟩ := e
  cases call with
  | stopRequested inner => cases inner <;> cases r <;> simp [leftAfter, callsLeft]
  | now reading => cases reading <;> simp [leftAfter, callsLeft]
  | loadSet => simp [leftAfter, callsLeft]
  | criticalLoop count => simp [leftAfter, callsLeft]
  | sleepUntil time => simp [leftAfter, callsLeft]

/-- The bound is eight at any point of a history, since no call leaves more. -/
theorem left_le {h : List (Event WorkerCall WorkerAnswer)} : windingUp.after 1 h ≤ 8 := by
  rcases List.eq_nil_or_concat h with rfl | ⟨h, e, rfl⟩
  · exact Nat.le_add_left 1 7
  · rw [List.concat_eq_append, Watch.after_append_singleton]
    exact leftAfter_le

/-- A call that has to follow a test without a request does not follow another one. -/
theorem not_free {v : Watched} {e : Event WorkerCall WorkerAnswer} (h : Asked e) :
    (budgeting.see v e).free = false := by
  obtain ⟨call, r⟩ := e
  cases call with
  | stopRequested inner =>
    obtain rfl : r = true := h
    rfl
  | now reading => cases reading <;> rfl
  | loadSet => rfl
  | criticalLoop count => rfl
  | sleepUntil time => rfl

/-- **Once it is asked to stop**, a worker makes eight more calls at most, and only
the first of them may still burn or start a period. A bound on the calls that may
still come is read off the place the worker is at (`workerRound_windsUp`), and from
the request on every test finds it, so nothing raises the bound again. -/
theorem stops_when_asked {c' : Config WorkerCall WorkerAnswer LoopPhase Unit Shared}
    (hreach : (workerSystem outside).Reaches (workerStart outside m (.found elapsed n)) c)
    (hstop : c.memory.stop = true) (hafter : (workerSystem outside).Reaches c c') :
    ∃ h, c'.history = c.history ++ h ∧ h.length ≤ 8 ∧
      ∀ e ∈ h.tail, (∀ count, e.call ≠ .criticalLoop count) ∧ e.call ≠ .now .periodStart := by
  have hall := (run_orderly tuned_found (hreach.trans hafter)).1
  have hstart : System.ThreadMeets windingUp LeftInv (fun _ _ => True) 1
      (workerStart outside m (.found elapsed n)).thread := workerRound_windsUp (le_refl 1)
  obtain ⟨hwinding, -⟩ := System.reach_inv (fun v ph h => workerRound_windsUp h)
    ⟨Watch.allows_nil, hstart⟩ (hreach.trans hafter)
  -- from here on every test finds the request
  obtain ⟨-, h, heq, hasked⟩ := System.reaches_suffix (S := workerSystem outside)
    (T := fun m => m.stop = true) (B := Asked) (fun m m' hm hothers => hothers.2 hm)
    (fun m call r hm hr => by
      cases call with
      | stopRequested inner => exact hr.trans hm
      | now reading => trivial
      | loadSet => trivial
      | criticalLoop count => trivial
      | sleepUntil time => trivial) hstop hafter
  rw [heq] at hall hwinding
  refine ⟨h, heq, (length_le_left hwinding.of_append hasked).trans left_le, fun e he => ?_⟩
  obtain ⟨before, last, after, rfl⟩ : ∃ before last after, h = before ++ last :: e :: after := by
    cases h with
    | nil => simp at he
    | cons first rest =>
      obtain ⟨pre, after, rfl⟩ := List.append_of_mem he
      have hne : first :: pre ≠ [] := List.cons_ne_nil _ _
      have hsplit : (first :: pre).dropLast ++ [(first :: pre).getLast hne] = first :: pre :=
        List.dropLast_append_getLast hne
      refine ⟨(first :: pre).dropLast, (first :: pre).getLast hne, after, ?_⟩
      rw [List.append_cons (first :: pre).dropLast, hsplit, List.cons_append]
  have hok := hall (c.history ++ (before ++ [last])) e after (by simp)
  have hfree :
      (budgeting.after { clock := m.time } (c.history ++ (before ++ [last]))).free = false := by
    rw [← List.append_assoc, Watch.after_append_singleton]
    exact not_free (hasked last (by simp))
  constructor
  · rintro count hcall
    rw [hcall] at hok
    exact Bool.noConfusion (hfree.symm.trans hok.1)
  · intro hcall
    rw [hcall] at hok
    exact Bool.noConfusion (hfree.symm.trans hok.1)

/-- The request comes right after the load is read. -/
theorem stops_when_asked_early :
    ∃ c c' h, (workerSystem fun _ => 0).Reaches
        (workerStart (fun _ => 0) (slowMemory false 0) newWorker) c ∧ c.memory.stop = true ∧
      (workerSystem fun _ => 0).Reaches c c' ∧ c'.thread = .ended () ∧
      c'.history = c.history ++ h ∧ h.length ≤ 8 ∧
      ∀ e ∈ h.tail, (∀ count, e.call ≠ .criticalLoop count) ∧ e.call ≠ .now .periodStart := by
  have hread := (reaches_afterWorkerRound false (.outer newWorker) 0 []).tail .again
  have hasked : (workerSystem fun _ => 0).others (slowMemory false 0) (slowMemory true 0) :=
    ⟨le_rfl, fun _ => rfl⟩
  have hreach := hread.tail (.other hasked)
  have hburnt := (reaches_afterWorkerRound true (.burn newWorker 0 1 0) 0
    (afterWorkerRound false (.outer newWorker) 0 []).2.2).tail .again
  have hafter := hburnt.trans ((reaches_afterWorkerRound true (.outer newWorker) _ _).tail .finish)
  obtain ⟨h, heq, hlen, htail⟩ := stops_when_asked hreach rfl hafter
  exact ⟨_, _, h, hreach, rfl, hafter, rfl, heq, hlen, htail⟩

end Run

end Loadmaster.Cpu
