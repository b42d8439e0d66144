/-
What the runtime does with its managers over a whole run (`Runtime::Run` in
`core/runtime.cc`, and `main`), against the lifetime that
`core/resource_manager.h` documents:

    ctor -> Init() -> CreateWorkerThreads() -> Schedule() ... Schedule()
         -> RequestWorkerThreadsStop() -> JoinWorkerThreads() -> dtor

A manager goes by the number of its creator. Creators may be null, may return no
manager, and a manager's `Init` may fail; signals may be set at any moment, so
`Has` may answer anything. `Stage` says how far a manager has come, and `lifetime`
which call it may get then. The run is a thread whose rounds are the stages before
the main loop, one pass of that loop, and the stages after it.
-/
import Loadmaster.Core.Runtime
import Loadmaster.Core.SchedulingGrid
import Loadmaster.Lib.Effect
import Mathlib.Data.List.Induction

set_option autoImplicit false

namespace Loadmaster.Core

open Effect

/-! ## The calls -/

/-- A creator, and the members of `ResourceManager`. -/
inductive ManagerCall
  | create
  | init
  | createWorkerThreads
  | schedule (time_point : ℤ)
  | requestWorkerThreadsStop
  | joinWorkerThreads
  | destroy
deriving DecidableEq, Repr

inductive RuntimeCall
  | manager (i : ℕ) (c : ManagerCall)
  /-- `SignalFlag::Has` and `Reset`. -/
  | has (signal : ℕ)
  | reset (signal : ℕ)
  | now
  | sleepUntil (time : ℤ)
deriving DecidableEq, Repr

/-- A creator answers whether there is a manager, `Init` whether it is usable. -/
abbrev RuntimeAnswer : RuntimeCall → Type
  | .manager _ .create => Bool
  | .manager _ .init => Bool
  | .has _ => Bool
  | .now => ℤ
  | _ => Unit

abbrev RuntimeProg (α : Type) := Prog RuntimeCall RuntimeAnswer α

abbrev manager (i : ℕ) (c : ManagerCall) : RuntimeProg (RuntimeAnswer (.manager i c)) :=
  .perform (RuntimeCall.manager i c)
abbrev has (signal : ℕ) : RuntimeProg Bool := .perform (RuntimeCall.has signal)
abbrev reset (signal : ℕ) : RuntimeProg Unit := .perform (RuntimeCall.reset signal)
abbrev now : RuntimeProg ℤ := .perform RuntimeCall.now
abbrev sleepUntil (time : ℤ) : RuntimeProg Unit := .perform (RuntimeCall.sleepUntil time)

/-! ## The stages of `Run` -/

/-- The first loop of `Init`, from creator number `i` on; `false` is a null one. -/
def createManagers (i : ℕ) : List Bool → RuntimeProg (List ℕ)
  | [] => return []
  | false :: creators => createManagers (i + 1) creators
  | true :: creators => do
    if ← manager i .create then
      let managers ← createManagers (i + 1) creators
      return i :: managers
    else createManagers (i + 1) creators

/-- The second: a manager that fails is erased, and with it destroyed. -/
def initManagers : List ℕ → RuntimeProg (List ℕ)
  | [] => return []
  | i :: managers => do
    if ← manager i .init then
      let managers ← initManagers managers
      return i :: managers
    else
      manager i .destroy
      initManagers managers

/-- One call of every manager. -/
def callAll (c : ManagerCall) : List ℕ → RuntimeProg Unit
  | [] => return ()
  | i :: managers => do
    let _ ← manager i c
    callAll c managers

def createWorkers : List ℕ → RuntimeProg Unit := callAll .createWorkerThreads

def stopWorkers : List ℕ → RuntimeProg Unit := callAll .requestWorkerThreadsStop

def joinWorkers : List ℕ → RuntimeProg Unit := callAll .joinWorkerThreads

def destroyManagers : List ℕ → RuntimeProg Unit := callAll .destroy

/-- `DealSignals`; the functor is called between the test and the reset. -/
def dealSignals (running_flag : Bool) : List SignalHandler → RuntimeProg Bool
  | [] => return running_flag
  | h :: handlers => do
    if ← has h.1 then
      let running_flag := (h.2.call { running_flag := running_flag }).running_flag
      reset h.1
      dealSignals running_flag handlers
    else dealSignals running_flag handlers

def scheduleManagers (start : ℤ) : List ℕ → RuntimeProg Unit := callAll (.schedule start)

/-- Where `Run` is between two rounds: at its start, or at the test of the main
loop. -/
inductive Phase
  | start
  | loop (managers : List ℕ) (running_flag : Bool)
deriving DecidableEq, Repr

/-- A round of `main`, from the runtime's construction to its destruction; the
result is whether it ran. -/
def round (p : Platform) (creators : List Bool) : Phase → RuntimeProg (Phase ⊕ Bool)
  | .start => do
    let created ← createManagers 0 creators
    let managers ← initManagers created
    if managers.isEmpty then return .inr false
    createWorkers managers
    return .inl (.loop managers true)
  | .loop managers true => do
    let running_flag ← dealSignals true p.handlers
    let start ← now
    scheduleManagers start managers
    sleepUntil (nextSchedulingTime start)
    return .inl (.loop managers running_flag)
  | .loop managers false => do
    stopWorkers managers
    joinWorkers managers
    destroyManagers managers
    return .inr true

/-- The runtime's thread, when any call may answer anything. -/
def runtimeSystem (p : Platform) (creators : List Bool) :
    System RuntimeCall RuntimeAnswer Phase Bool Unit where
  body := round p creators
  others _ _ := True
  answers _ _ _ := True

def runtimeStart (p : Platform) (creators : List Bool) :
    Config RuntimeCall RuntimeAnswer Phase Bool Unit :=
  ⟨(), .running (round p creators .start), []⟩

/-! ## The documented lifetime -/

/-- How far a manager has come. -/
inductive Stage
  | absent
  /-- Its creator has returned no manager. -/
  | null
  | created
  /-- Its `Init` has failed. -/
  | failed
  | ready
  | running
  | stopping
  | joined
  | gone
  /-- Destroyed because its `Init` has failed. -/
  | erased
deriving DecidableEq, Repr

namespace Stage

def allows : Stage → ManagerCall → Bool
  | .absent, .create => true
  | .created, .init => true
  | .ready, .createWorkerThreads => true
  | .running, .schedule _ => true
  | .running, .requestWorkerThreadsStop => true
  | .stopping, .joinWorkerThreads => true
  | .joined, .destroy => true
  | .failed, .destroy => true
  | _, _ => false

def next (s : Stage) : ManagerCall → Bool → Stage
  | .create, true => .created
  | .create, false => .null
  | .init, true => .ready
  | .init, false => .failed
  | .createWorkerThreads, _ => .running
  | .schedule _, _ => s
  | .requestWorkerThreadsStop, _ => .stopping
  | .joinWorkerThreads, _ => .joined
  | .destroy, _ => if s = .failed then .erased else .gone

end Stage

/-- What a call has answered; what returns nothing has gone well. -/
def said {i : ℕ} : (c : ManagerCall) → RuntimeAnswer (.manager i c) → Bool
  | .create, ok => ok
  | .init, ok => ok
  | .createWorkerThreads, _ => true
  | .schedule _, _ => true
  | .requestWorkerThreadsStop, _ => true
  | .joinWorkerThreads, _ => true
  | .destroy, _ => true

/-- Whether a signal to quit has been seen: in the pass that is going on, or in an
earlier one. -/
inductive Quit
  | no | seen | over
deriving DecidableEq, Repr

/-- What is known of a run: the managers' stages, the times they were scheduled
at, and the starts of the passes. -/
structure Overseen where
  stage : ℕ → Stage := fun _ => .absent
  times : ℕ → List ℤ := fun _ => []
  ticks : List ℤ := []
  quit : Quit := .no

/-- The signals whose functor ends the main loop. -/
def Platform.quits (p : Platform) (signal : ℕ) : Bool :=
  p.handlers.any fun h => h.1 = signal ∧ h.2 = .sigIntTerm

/-- The times a manager was scheduled at, after this call. -/
def scheduledAt (times : List ℤ) : ManagerCall → List ℤ
  | .schedule t => times ++ [t]
  | _ => times

/-- After a call of manager `i`. -/
def Overseen.called (v : Overseen) (i : ℕ) (c : ManagerCall) (ok : Bool) : Overseen :=
  { v with
    stage := Function.update v.stage i ((v.stage i).next c ok)
    times := Function.update v.times i (scheduledAt (v.times i) c) }

def Overseen.next (p : Platform) (v : Overseen) : Event RuntimeCall RuntimeAnswer → Overseen
  | ⟨.manager i c, r⟩ => v.called i c (said c r)
  | ⟨.has signal, true⟩ =>
    { v with quit := if p.quits signal ∧ v.quit = .no then .seen else v.quit }
  | ⟨.now, time⟩ => { v with ticks := v.ticks ++ [time] }
  | ⟨.sleepUntil _, _⟩ => { v with quit := if v.quit = .seen then .over else v.quit }
  | _ => v

/-- What a manager's stage does not say of a call: all workers are told to stop
before any is waited for; the managers are scheduled at the pass's start, until
there has been a pass in which a signal to quit was seen, and stopped after it. -/
def Overseen.InTurn (v : Overseen) : ManagerCall → Prop
  | .schedule t => v.quit ≠ .over ∧ v.ticks.getLast? = some t
  | .requestWorkerThreadsStop => v.quit = .over
  | .joinWorkerThreads => ∀ j, v.stage j ≠ .running
  | _ => True

def lifetime (p : Platform) : Watch RuntimeCall RuntimeAnswer Overseen where
  see := Overseen.next p
  ok v c := match c with
    | .manager i c => (v.stage i).allows c = true ∧ v.InTurn c
    | .has _ => v.quit ≠ .over
    | .now => v.quit ≠ .over
    -- a pass ends when every manager that runs has been scheduled in it
    | .sleepUntil _ => ∀ i, v.stage i = .running → v.times i = v.ticks
    | .reset _ => True

/-! ## The pieces of a round -/

section Pieces

variable {p : Platform} {v : Overseen}

variable {i : ℕ} {managers : List ℕ} {c : ManagerCall} {ok : Bool}

@[simp] theorem Overseen.stage_called_self :
    (v.called i c ok).stage i = (v.stage i).next c ok := Function.update_self _ _ _

@[simp] theorem Overseen.stage_called_ne {j : ℕ} (h : j ≠ i) :
    (v.called i c ok).stage j = v.stage j := Function.update_of_ne h _ _

@[simp] theorem Overseen.times_called_self :
    (v.called i c ok).times i = scheduledAt (v.times i) c := Function.update_self _ _ _

@[simp] theorem Overseen.times_called_ne {j : ℕ} (h : j ≠ i) :
    (v.called i c ok).times j = v.times j := Function.update_of_ne h _ _

/-- Only `Schedule` adds to the times. -/
theorem Overseen.times_called (hplain : ∀ t, c ≠ .schedule t) :
    (v.called i c ok).times = v.times := by
  have hsame : scheduledAt (v.times i) c = v.times i := by
    cases c <;> first | rfl | exact absurd rfl (hplain _)
  rw [Overseen.called, hsame, Function.update_eq_self]

/-- Only the stages of `managers` have changed, if any. -/
structure Elsewhere (v v' : Overseen) (managers : List ℕ) : Prop where
  stage : ∀ j ∉ managers, v'.stage j = v.stage j
  times : v'.times = v.times
  ticks : v'.ticks = v.ticks
  quit : v'.quit = v.quit

theorem Elsewhere.refl : Elsewhere v v managers := ⟨fun _ _ => rfl, rfl, rfl, rfl⟩

/-- A call on one manager leaves the stages of the others. -/
theorem Elsewhere.called {v' : Overseen} (hplain : ∀ t, c ≠ .schedule t)
    (h : Elsewhere (v.called i c ok) v' managers) : Elsewhere v v' (i :: managers) where
  stage j hj := by
    rw [h.stage j (List.not_mem_of_not_mem_cons hj),
      Overseen.stage_called_ne (List.ne_of_not_mem_cons hj)]
  times := h.times.trans (Overseen.times_called hplain)
  ticks := h.ticks
  quit := h.quit

/-- One call of every manager, from one stage to another. -/
theorem callAll_meets {s t : Stage} (hallows : s.allows c = true)
    (hnext : ∀ ok, s.next c ok = t) (hplain : ∀ time, c ≠ .schedule time) (hnodup : managers.Nodup)
    (hstage : ∀ j ∈ managers, v.stage j = s)
    (hturn : ∀ v' : Overseen, v'.quit = v.quit →
      (∀ j, v'.stage j = v.stage j ∨ v'.stage j = t) → v'.InTurn c) :
    (lifetime p).Meets
      (fun v' _ => (∀ j ∈ managers, v'.stage j = t) ∧ Elsewhere v v' managers) v
      (callAll c managers) := by
  induction managers generalizing v with
  | nil => exact ⟨by simp, Elsewhere.refl⟩
  | cons i managers ih =>
    obtain ⟨hi, hnodup⟩ := List.nodup_cons.mp hnodup
    have hself : v.stage i = s := hstage i List.mem_cons_self
    refine ⟨⟨hself ▸ hallows, hturn v rfl fun _ => .inl rfl⟩, fun r => ?_⟩
    have hstage' : ∀ j, (v.called i c (said c r)).stage j = v.stage j ∨
        (v.called i c (said c r)).stage j = t := by
      intro j
      by_cases hj : j = i
      · rw [hj, Overseen.stage_called_self, hself]
        exact .inr (hnext _)
      · exact .inl (Overseen.stage_called_ne hj)
    refine (ih hnodup ?_ ?_).mono ?_
    · intro j hj
      have hne : j ≠ i := fun h => hi (h ▸ hj)
      exact (Overseen.stage_called_ne hne).trans (hstage j (List.mem_cons_of_mem _ hj))
    · intro v' hquit hother
      refine hturn v' hquit fun j => ?_
      rcases hother j with h | h
      · rw [h]
        exact hstage' j
      · exact .inr h
    · rintro v' _ ⟨hdone, helse⟩
      refine ⟨?_, helse.called hplain⟩
      rintro j (_ | ⟨_, hj⟩)
      · rw [helse.stage i hi]
        exact (Overseen.stage_called_self.trans (congrArg (Stage.next · c _) hself)).trans (hnext _)
      · exact hdone j hj

/-! ## Before the main loop -/

/-- What the first loop of `Init` leaves, from creator number `i` on. -/
structure Created (i : ℕ) (v v' : Overseen) (managers : List ℕ) : Prop where
  nodup : managers.Nodup
  created : ∀ j ∈ managers, i ≤ j ∧ v'.stage j = .created
  other : ∀ j ∉ managers, i ≤ j → v'.stage j = .absent ∨ v'.stage j = .null
  before : ∀ j < i, v'.stage j = v.stage j
  times : v'.times = v.times
  ticks : v'.ticks = v.ticks
  quit : v'.quit = v.quit

/-- Creators before number `i` have been called, and no later one. -/
theorem createManagers_meets {creators : List Bool} (hlater : ∀ j, i ≤ j → v.stage j = .absent) :
    (lifetime p).Meets (fun v' managers => Created i v v' managers) v
      (createManagers i creators) := by
  induction creators generalizing i v with
  | nil =>
    exact ⟨List.nodup_nil, by simp, fun j _ hj => .inl (hlater j hj), fun _ _ => rfl, rfl, rfl, rfl⟩
  | cons creator creators ih =>
    -- a creator that is passed over, or has returned nothing
    have hskip : ∀ v₁ : Overseen, (∀ j, i + 1 ≤ j → v₁.stage j = .absent) →
        (v₁.stage i = .absent ∨ v₁.stage i = .null) → (∀ j < i, v₁.stage j = v.stage j) →
        v₁.times = v.times → v₁.ticks = v.ticks → v₁.quit = v.quit →
        (lifetime p).Meets (fun v' managers => Created i v v' managers) v₁
          (createManagers (i + 1) creators) := by
      intro v₁ hlater hi hbefore htimes hticks hquit
      refine (ih hlater).mono fun v' managers h => ?_
      refine ⟨h.nodup, fun j hj => ⟨by have := (h.created j hj).1; omega, (h.created j hj).2⟩,
        ?_, ?_, h.times.trans htimes, h.ticks.trans hticks, h.quit.trans hquit⟩
      · intro j hj hij
        rcases Nat.eq_or_lt_of_le hij with rfl | hlt
        · rw [h.before i (Nat.lt_succ_self i)]
          exact hi
        · exact h.other j hj hlt
      · intro j hj
        rw [h.before j (by omega), hbefore j hj]
    cases creator with
    | false =>
      exact hskip v (fun j hj => hlater j (by omega)) (.inl (hlater i le_rfl)) (fun _ _ => rfl) rfl
        rfl rfl
    | true =>
      refine ⟨⟨by rw [hlater i le_rfl]; rfl, trivial⟩, fun ok => ?_⟩
      have hlater' : ∀ j, i + 1 ≤ j → (v.called i .create ok).stage j = .absent := by
        intro j hj
        rw [Overseen.stage_called_ne (by omega)]
        exact hlater j (by omega)
      have hbefore : ∀ j < i, (v.called i .create ok).stage j = v.stage j :=
        fun j hj => Overseen.stage_called_ne (by omega)
      have htimes : (v.called i .create ok).times = v.times := Overseen.times_called (by simp)
      cases ok with
      | false =>
        exact hskip _ hlater' (.inr Overseen.stage_called_self) hbefore htimes rfl rfl
      | true =>
        apply (ih hlater').bind
        intro v' managers h
        have hi : i ∉ managers := fun hmem => by have := (h.created i hmem).1; omega
        refine ⟨List.nodup_cons.mpr ⟨hi, h.nodup⟩, ?_, ?_, ?_, h.times.trans htimes, h.ticks,
          h.quit⟩
        · rintro j (_ | ⟨_, hj⟩)
          · exact ⟨le_rfl, (h.before i (Nat.lt_succ_self i)).trans Overseen.stage_called_self⟩
          · exact ⟨by have := (h.created j hj).1; omega, (h.created j hj).2⟩
        · intro j hj hij
          have hne := List.ne_of_not_mem_cons hj
          exact h.other j (List.not_mem_of_not_mem_cons hj) (by omega)
        · intro j hj
          rw [h.before j (by omega), hbefore j hj]

/-- What the second loop leaves of those that were created. -/
structure Initialised (created : List ℕ) (v v' : Overseen) (managers : List ℕ) : Prop where
  sublist : managers.Sublist created
  ready : ∀ j ∈ managers, v'.stage j = .ready
  erased : ∀ j ∈ created, j ∉ managers → v'.stage j = .erased
  elsewhere : Elsewhere v v' created

/-- By induction on the managers: each is initialised once, and dropped if that fails;
the others are not touched. -/
theorem initManagers_meets (hnodup : managers.Nodup)
    (hstage : ∀ j ∈ managers, v.stage j = .created) :
    (lifetime p).Meets (fun v' ready => Initialised managers v v' ready) v
      (initManagers managers) := by
  induction managers generalizing v with
  | nil => exact ⟨.slnil, by simp, by simp, Elsewhere.refl⟩
  | cons i managers ih =>
    -- its calls leave the others as they were, and theirs leave it
    obtain ⟨hi, hnodup⟩ := List.nodup_cons.mp hnodup
    have hself : v.stage i = .created := hstage i List.mem_cons_self
    refine ⟨⟨by rw [hself]; rfl, trivial⟩, fun ok => ?_⟩
    have hothers : ∀ v₁ : Overseen, (∀ j, j ≠ i → v₁.stage j = v.stage j) →
        ∀ j ∈ managers, v₁.stage j = .created := by
      intro v₁ h j hj
      rw [h j fun hji => hi (hji ▸ hj)]
      exact hstage j (List.mem_cons_of_mem _ hj)
    cases ok with
    | true =>
      apply (ih hnodup (hothers _ fun j hj => Overseen.stage_called_ne hj)).bind
      intro v' ready h
      have hready : v'.stage i = .ready :=
        (h.elsewhere.stage i hi).trans Overseen.stage_called_self
      refine ⟨h.sublist.cons_cons i, ?_, ?_, h.elsewhere.called (by simp)⟩
      · rintro j (_ | ⟨_, hj⟩)
        · exact hready
        · exact h.ready j hj
      · rintro j (_ | ⟨_, hj⟩) hnot
        · exact absurd List.mem_cons_self hnot
        · exact h.erased j hj (List.not_mem_of_not_mem_cons hnot)
    | false =>
      -- it is erased, and so destroyed
      have hfailed : (v.called i .init false).stage i = .failed := Overseen.stage_called_self
      refine ⟨⟨congrArg (Stage.allows · .destroy) hfailed, trivial⟩, fun r => ?_⟩
      refine (ih hnodup (hothers _ fun j hj => ?_)).mono fun v' ready h => ?_
      · exact (Overseen.stage_called_ne hj).trans (Overseen.stage_called_ne hj)
      have hdestroyed : ((v.called i .init false).called i .destroy true).stage i = .erased :=
        Overseen.stage_called_self.trans (congrArg (Stage.next · .destroy true) hfailed)
      have herased : v'.stage i = .erased := (h.elsewhere.stage i hi).trans hdestroyed
      refine ⟨h.sublist.cons i, h.ready, ?_, ?_⟩
      · rintro j (_ | ⟨_, hj⟩) hnot
        · exact herased
        · exact h.erased j hj hnot
      · have hdestroy : Elsewhere (v.called i .init false) v' (i :: managers) :=
          h.elsewhere.called (by simp)
        have helse : Elsewhere v v' (i :: i :: managers) := hdestroy.called (by simp)
        refine ⟨fun j hj => helse.stage j ?_, helse.times, helse.ticks, helse.quit⟩
        simpa using hj

/-! ## The main loop -/

/-- Nobody else is alive. -/
def Alone (v : Overseen) (managers : List ℕ) : Prop :=
  ∀ i ∉ managers, v.stage i = .absent ∨ v.stage i = .null ∨ v.stage i = .erased

/-- The signals that end the loop are those with the functor for it. -/
theorem quits_iff {h : SignalHandler} (hh : h ∈ p.handlers) :
    p.quits h.1 = true ↔ h.2 = .sigIntTerm := by
  unfold Platform.quits
  rw [List.any_eq_true]
  constructor
  · rintro ⟨h', hmem, heq⟩
    obtain ⟨hsignal, hfunctor⟩ := of_decide_eq_true heq
    have hmem' : (h.1, h'.2) ∈ p.handlers := hsignal ▸ hmem
    exact (Platform.functor_unique hh hmem').trans hfunctor
  · intro hfunctor
    exact ⟨h, hh, decide_eq_true ⟨rfl, hfunctor⟩⟩

/-- The flag goes down in the pass that sees a signal to quit. -/
theorem dealSignals_meets {handlers : List SignalHandler} {flag : Bool}
    (hsub : ∀ h ∈ handlers, h ∈ p.handlers) (hquit : v.quit = if flag then .no else .seen) :
    (lifetime p).Meets
      (fun v' flag' => v'.stage = v.stage ∧ v'.times = v.times ∧ v'.ticks = v.ticks ∧
        v'.quit = if flag' then .no else .seen) v
      (dealSignals flag handlers) := by
  induction handlers generalizing v flag with
  | nil => exact ⟨rfl, rfl, rfl, hquit⟩
  | cons h handlers ih =>
    have hrest : ∀ h ∈ handlers, h ∈ p.handlers := fun h hh => hsub h (List.mem_cons_of_mem _ hh)
    refine ⟨?_, ?_⟩
    · change v.quit ≠ .over
      rw [hquit]
      cases flag <;> decide
    rintro (_ | _)
    · exact ih hrest hquit
    · -- the functor is run, and clears the flag if the signal is one to quit
      refine ⟨trivial, fun _ => ?_⟩
      refine (ih hrest ?_).mono fun v' flag' hv' => hv'
      change (if p.quits h.1 = true ∧ v.quit = .no then Quit.seen else v.quit) = _
      have hiff := quits_iff (hsub h List.mem_cons_self)
      rw [hquit]
      cases hq : p.quits h.1 <;> cases hf : h.2 <;> cases flag <;> simp_all [Functor.call]

/-- Every manager that runs is scheduled at the pass's start. -/
theorem scheduleManagers_meets {start : ℤ} {b : List ℤ} (hquit : v.quit ≠ .over)
    (hticks : v.ticks = b ++ [start]) (hnodup : managers.Nodup)
    (hrunning : ∀ j ∈ managers, v.stage j = .running ∧ v.times j = b) :
    (lifetime p).Meets
      (fun v' _ => (∀ j ∈ managers, v'.stage j = .running ∧ v'.times j = v.ticks) ∧
        (∀ j ∉ managers, v'.stage j = v.stage j ∧ v'.times j = v.times j) ∧
        v'.ticks = v.ticks ∧ v'.quit = v.quit) v
      (scheduleManagers start managers) := by
  induction managers generalizing v with
  | nil => exact ⟨by simp, fun _ _ => ⟨rfl, rfl⟩, rfl, rfl⟩
  | cons i managers ih =>
    obtain ⟨hi, hnodup⟩ := List.nodup_cons.mp hnodup
    obtain ⟨hself, htimes⟩ := hrunning i List.mem_cons_self
    refine ⟨⟨congrArg (Stage.allows · (.schedule start)) hself, hquit, ?_⟩, fun _ => ?_⟩
    · rw [hticks, List.getLast?_concat]
    refine (ih (v := v.called i (.schedule start) true) hquit hticks hnodup ?_).mono ?_
    · intro j hj
      have hne : j ≠ i := fun h => hi (h ▸ hj)
      obtain ⟨hstage, htimes⟩ := hrunning j (List.mem_cons_of_mem _ hj)
      exact ⟨(Overseen.stage_called_ne hne).trans hstage,
        (Overseen.times_called_ne hne).trans htimes⟩
    · rintro v' _ ⟨hdone, hother, hrest⟩
      refine ⟨?_, ?_, hrest⟩
      · rintro j (_ | ⟨_, hj⟩)
        · obtain ⟨hstage', htimes'⟩ := hother i hi
          refine ⟨hstage'.trans (Overseen.stage_called_self.trans hself), htimes'.trans ?_⟩
          rw [Overseen.times_called_self, htimes, hticks]
          rfl
        · exact hdone j hj
      · intro j hj
        obtain ⟨hstage', htimes'⟩ := hother j (List.not_mem_of_not_mem_cons hj)
        have hne := List.ne_of_not_mem_cons hj
        exact ⟨hstage'.trans (Overseen.stage_called_ne hne),
          htimes'.trans (Overseen.times_called_ne hne)⟩

/-- What holds between two rounds. -/
def Between (v : Overseen) : Phase → Prop
  | .start => (∀ j, v.stage j = .absent ∧ v.times j = []) ∧ v.ticks = [] ∧ v.quit = .no
  | .loop managers running_flag => managers ≠ [] ∧ managers.Nodup ∧
    (∀ j ∈ managers, v.stage j = .running ∧ v.times j = v.ticks) ∧ Alone v managers ∧
      v.quit = if running_flag then .no else .over

/-- What holds when the runtime is gone. -/
def Over (v : Overseen) (ran : Bool) : Prop :=
  ∃ managers : List ℕ, (ran = true ↔ managers ≠ []) ∧
    (∀ j ∈ managers, v.stage j = .gone ∧ v.times j = v.ticks) ∧ Alone v managers

/-- The managers of the list are the only ones alive, and calls elsewhere do not change
that. -/
theorem Alone.elsewhere {v' : Overseen} (h : Alone v managers) (helse : Elsewhere v v' managers) :
    Alone v' managers := by
  intro i hi
  rw [helse.stage i hi]
  exact h i hi

/-- A manager that is not on the list is in one of the three stages without workers. -/
theorem Alone.ne {s : Stage} (h : Alone v managers) (hi : i ∉ managers)
    (hs : s ≠ .absent ∧ s ≠ .null ∧ s ≠ .erased) : v.stage i ≠ s := by
  rcases h i hi with h | h | h <;> rw [h]
  · exact hs.1.symm
  · exact hs.2.1.symm
  · exact hs.2.2.symm

/-- The runtime's start creates and initialises the managers and lets their workers
start, and comes to the loop or to its end. -/
theorem start_meets {creators : List Bool} (h : Between v .start) :
    (lifetime p).Meets (System.Between Between Over) v (round p creators .start) := by
  obtain ⟨habsent, hticks, hquit⟩ := h
  apply (createManagers_meets fun j _ => (habsent j).1).bind
  intro v₁ created hcreated
  apply (initManagers_meets hcreated.nodup fun j hj => (hcreated.created j hj).2).bind
  intro v₂ managers hinit
  have halone : Alone v₂ managers := by
    intro j hj
    by_cases hc : j ∈ created
    · exact .inr (.inr (hinit.erased j hc hj))
    · rw [hinit.elsewhere.stage j hc]
      exact (hcreated.other j hc (Nat.zero_le j)).imp_right .inl
  cases managers with
  -- no module is enabled
  | nil => exact ⟨[], by simp, by simp, halone⟩
  | cons i managers =>
    apply (callAll_meets (c := .createWorkerThreads) (t := .running) rfl (fun _ => rfl) (by simp)
      (hinit.sublist.nodup hcreated.nodup) hinit.ready fun _ _ _ => trivial).bind
    rintro v₃ _ ⟨hrunning, helse⟩
    have htimes : v₃.times = v.times :=
      helse.times.trans (hinit.elsewhere.times.trans hcreated.times)
    have hticks' : v₃.ticks = v.ticks :=
      helse.ticks.trans (hinit.elsewhere.ticks.trans hcreated.ticks)
    have hquit' : v₃.quit = v.quit :=
      helse.quit.trans (hinit.elsewhere.quit.trans hcreated.quit)
    refine ⟨List.cons_ne_nil _ _, hinit.sublist.nodup hcreated.nodup, fun j hj => ?_,
      halone.elsewhere helse, hquit'.trans hquit⟩
    exact ⟨hrunning j hj, by rw [htimes, hticks', (habsent j).2, hticks]⟩

/-- A pass of the loop schedules every manager once and then deals with the signals. -/
theorem pass_meets {creators : List Bool} (h : Between v (.loop managers true)) :
    (lifetime p).Meets (System.Between Between Over) v
      (round p creators (.loop managers true)) := by
  obtain ⟨hne, hnodup, hrunning, halone, hquit⟩ := h
  apply (dealSignals_meets (fun _ hh => hh) hquit).bind
  rintro v₁ flag ⟨hstage, htimes, hticks, hquit₁⟩
  have hover : v₁.quit ≠ .over := by
    rw [hquit₁]
    cases flag <;> decide
  refine ⟨hover, fun start => ?_⟩
  -- the pass that has seen the signal schedules once more
  let v₁' : Overseen := { v₁ with ticks := v₁.ticks ++ [start] }
  apply (scheduleManagers_meets (v := v₁') (b := v₁.ticks) hover rfl hnodup ?_).bind
  swap
  · intro j hj
    change v₁.stage j = .running ∧ v₁.times j = v₁.ticks
    rw [hstage, htimes, hticks]
    exact hrunning j hj
  rintro v₂ _ ⟨hdone, hother, hticks₂, hquit₂⟩
  have halone₂ : Alone v₂ managers := by
    intro j hj
    rw [(hother j hj).1]
    change v₁.stage j = _ ∨ _
    rw [hstage]
    exact halone j hj
  refine ⟨?_, fun _ => ?_⟩
  · intro j hj
    by_cases hmem : j ∈ managers
    · exact (hdone j hmem).2.trans hticks₂.symm
    · exact absurd hj (halone₂.ne hmem (by decide))
  · refine ⟨hne, hnodup, fun j hj => ⟨(hdone j hj).1, (hdone j hj).2.trans hticks₂.symm⟩,
      halone₂, ?_⟩
    change (if v₂.quit = .seen then Quit.over else v₂.quit) = _
    rw [hquit₂.trans hquit₁]
    cases flag <;> rfl

/-- The end: all are asked to stop before any is joined, and all are joined before any
is destroyed. -/
theorem shutdown_meets {creators : List Bool} (h : Between v (.loop managers false)) :
    (lifetime p).Meets (System.Between Between Over) v
      (round p creators (.loop managers false)) := by
  obtain ⟨hne, hnodup, hrunning, halone, hquit⟩ := h
  apply (callAll_meets (c := .requestWorkerThreadsStop) (t := .stopping) rfl (fun _ => rfl)
    (by simp) hnodup (fun j hj => (hrunning j hj).1) fun v' hv' _ => hv'.trans hquit).bind
  rintro v₁ _ ⟨hstopping, helse₁⟩
  have halone₁ := halone.elsewhere helse₁
  -- nobody runs when the first one is waited for
  have hnobody : ∀ j, v₁.stage j ≠ .running := by
    intro j
    by_cases hj : j ∈ managers
    · rw [hstopping j hj]
      decide
    · exact halone₁.ne hj (by decide)
  apply (callAll_meets (c := .joinWorkerThreads) (t := .joined) rfl (fun _ => rfl) (by simp) hnodup
    hstopping ?_).bind
  swap
  · intro v' _ hother j
    rcases hother j with h | h <;> rw [h]
    · exact hnobody j
    · decide
  rintro v₂ _ ⟨hjoined, helse₂⟩
  apply (callAll_meets (c := .destroy) (t := .gone) rfl (fun _ => rfl) (by simp) hnodup hjoined
    fun _ _ _ => trivial).bind
  rintro v₃ _ ⟨hgone, helse₃⟩
  refine ⟨managers, by simp [hne], fun j hj => ⟨hgone j hj, ?_⟩,
    (halone₁.elsewhere helse₂).elsewhere helse₃⟩
  rw [helse₃.times, helse₂.times, helse₁.times, helse₃.ticks, helse₂.ticks, helse₁.ticks]
  exact (hrunning j hj).2

/-- **A round** keeps to the lifetime. -/
theorem round_meets {creators : List Bool} {ph : Phase} (h : Between v ph) :
    (lifetime p).Meets (System.Between Between Over) v (round p creators ph) := by
  match ph, h with
  | .start, h => exact start_meets h
  | .loop _ true, h => exact pass_meets h
  | .loop _ false, h => exact shutdown_meets h

end Pieces

/-! ## What a manager sees of the run -/

abbrev History := List (Event RuntimeCall RuntimeAnswer)

/-- The calls of manager `i`, with what they said. -/
def callsOn (i : ℕ) (h : History) : List (ManagerCall × Bool) :=
  h.filterMap fun
    | ⟨.manager j c, r⟩ => if j = i then some (c, said c r) else none
    | _ => none

/-- The starts of the passes of the main loop. -/
def passStarts (h : History) : List ℤ :=
  h.filterMap fun
    | ⟨.now, time⟩ => some time
    | _ => none

/-- A life up to the end of the main loop. -/
def begun (times : List ℤ) : List (ManagerCall × Bool) :=
  [(.create, true), (.init, true), (.createWorkerThreads, true)] ++
    times.map fun t => (.schedule t, true)

def ending : List (ManagerCall × Bool) :=
  [(.requestWorkerThreadsStop, true), (.joinWorkerThreads, true), (.destroy, true)]

/-- The life of a manager that is scheduled at these times. -/
def lived (times : List ℤ) : List (ManagerCall × Bool) := begun times ++ ending

/-- The life of one whose `Init` fails. -/
def dropped : List (ManagerCall × Bool) := [(.create, true), (.init, false), (.destroy, true)]

/-- What a manager at this stage has got so far. -/
def Stage.calls (times : List ℤ) : Stage → List (ManagerCall × Bool)
  | .absent => []
  | .null => [(.create, false)]
  | .created => dropped.take 1
  | .failed => dropped.take 2
  | .erased => dropped
  | .ready => (begun times).take 2
  | .running => begun times
  | .stopping => begun times ++ ending.take 1
  | .joined => begun times ++ ending.take 2
  | .gone => lived times

/-- Its workers have never been created. -/
def Stage.Early (s : Stage) : Prop :=
  s ∈ [Stage.absent, .null, .created, .failed, .ready, .erased]

section Views

variable {p : Platform} {creators : List Bool} {h : History} {i : ℕ} {times : List ℤ}

/-- A call that the stage allows is the next one of the manager's life. -/
theorem Stage.calls_next {s : Stage} {c : ManagerCall} {ok : Bool} (hallows : s.allows c = true)
    (hok : c ≠ .create → c ≠ .init → ok = true) (hearly : s.Early → times = []) :
    (s.next c ok).calls (scheduledAt times c) = s.calls times ++ [(c, ok)] := by
  cases s <;> cases c <;> simp only [allows, Bool.false_eq_true] at hallows
  case absent.create => cases ok <;> rfl
  case created.init => cases ok <;> rfl
  all_goals obtain rfl : ok = true := hok (by simp) (by simp)
  case failed.destroy => rfl
  case ready.createWorkerThreads =>
    rw [hearly (by simp [Early])]
    rfl
  case running.schedule t => simp [next, calls, begun, scheduledAt]
  case running.requestWorkerThreadsStop => rfl
  case stopping.joinWorkerThreads => simp [next, calls, ending, scheduledAt]
  case joined.destroy => simp [next, calls, lived, ending, scheduledAt]

/-- A stage in which a manager has no workers is only reached from such a stage. -/
theorem Stage.next_early {s : Stage} {c : ManagerCall} {ok : Bool} (hallows : s.allows c = true)
    (hnext : (s.next c ok).Early) : s.Early ∧ ∀ t, c ≠ .schedule t := by
  cases s <;> cases c <;> simp_all [allows, next, Early]

/-- Calls that cannot fail are noted as successes. -/
theorem said_eq {c : ManagerCall} {r : RuntimeAnswer (.manager i c)} (hcreate : c ≠ .create)
    (hinit : c ≠ .init) : said c r = true := by
  cases c
  case create => exact absurd rfl hcreate
  case init => exact absurd rfl hinit
  all_goals rfl

/-- **What a manager has got** is what its stage says. -/
theorem callsOn_eq (hall : (lifetime p).Allows {} h) :
    callsOn i h = (((lifetime p).after {} h).stage i).calls (((lifetime p).after {} h).times i) ∧
      ((((lifetime p).after {} h).stage i).Early → ((lifetime p).after {} h).times i = []) := by
  induction h using List.reverseRecOn with
  | nil => exact ⟨rfl, fun _ => rfl⟩
  | append_singleton h e ih =>
    have hok := hall h e [] rfl
    obtain ⟨hcalls, hearly⟩ := ih fun pre e' post heq => hall pre e' (post ++ [e]) (by simp [heq])
    rw [Watch.after_append_singleton]
    generalize (lifetime p).after {} h = v at hcalls hearly hok ⊢
    have hother : ∀ {e : Event RuntimeCall RuntimeAnswer}, callsOn i [e] = [] →
        ((lifetime p).see v e).stage i = v.stage i → ((lifetime p).see v e).times i = v.times i →
        callsOn i (h ++ [e]) =
            (((lifetime p).see v e).stage i).calls (((lifetime p).see v e).times i) ∧
          ((((lifetime p).see v e).stage i).Early → ((lifetime p).see v e).times i = []) := by
      intro e hnone hstage htimes
      rw [hstage, htimes, callsOn, List.filterMap_append]
      change callsOn i h ++ callsOn i [e] = _ ∧ _
      rw [hnone, List.append_nil]
      exact ⟨hcalls, hearly⟩
    obtain ⟨c, r⟩ := e
    cases c with
    | manager j c =>
      by_cases hj : j = i
      · subst hj
        have hsnoc : callsOn j (h ++ [⟨.manager j c, r⟩]) = callsOn j h ++ [(c, said c r)] := by
          simp [callsOn]
        change _ = ((v.called j c (said c r)).stage j).calls ((v.called j c (said c r)).times j) ∧
          (((v.called j c (said c r)).stage j).Early → (v.called j c (said c r)).times j = [])
        rw [Overseen.stage_called_self, Overseen.times_called_self]
        refine ⟨?_, fun hnext => ?_⟩
        · rw [hsnoc, hcalls, ← Stage.calls_next hok.1 said_eq hearly]
        · obtain ⟨hbefore, hplain⟩ := Stage.next_early hok.1 hnext
          rw [hearly hbefore]
          cases c <;> first | rfl | exact absurd rfl (hplain _)
      · refine hother (by simp [callsOn, hj]) (Overseen.stage_called_ne (Ne.symm hj)) ?_
        exact Overseen.times_called_ne (Ne.symm hj)
    | has signal => cases r <;> exact hother rfl rfl rfl
    | reset signal => exact hother rfl rfl rfl
    | now => exact hother rfl rfl rfl
    | sleepUntil time => exact hother rfl rfl rfl

/-- Every stage is one of a manager's life, or of one that is dropped. -/
theorem Stage.calls_begin (s : Stage) :
    s.calls times <+: lived times ∨ s.calls times <+: dropped ∨
      s.calls times = [(.create, false)] := by
  cases s
  case absent => exact .inl (List.nil_prefix)
  case null => exact .inr (.inr rfl)
  case created => exact .inr (.inl (List.take_prefix _ _))
  case failed => exact .inr (.inl (List.take_prefix _ _))
  case erased => exact .inr (.inl (List.prefix_refl _))
  case ready => exact .inl ((List.take_prefix _ _).trans (List.prefix_append _ _))
  case running => exact .inl (List.prefix_append _ _)
  case stopping => exact .inl ((List.prefix_append_right_inj _).mpr (List.take_prefix _ _))
  case joined => exact .inl ((List.prefix_append_right_inj _).mpr (List.take_prefix _ _))
  case gone => exact .inl (List.prefix_refl _)

/-- The ticks noted are the starts of the passes in the history. -/
theorem ticks_after {v : Overseen} :
    ((lifetime p).after v h).ticks = v.ticks ++ passStarts h := by
  induction h generalizing v with
  | nil => simp [passStarts]
  | cons e h ih =>
    change ((lifetime p).after ((lifetime p).see v e) h).ticks = _
    rw [ih]
    obtain ⟨c, r⟩ := e
    cases c with
    | now => simp [passStarts, lifetime, Overseen.next]
    | has signal => cases r <;> rfl
    | manager j c => rfl
    | reset signal => rfl
    | sleepUntil time => rfl

/-- **The managers live as documented.** Whatever the creators, the `Init`s, the
signals and the clock answer, every call of every run comes at its place in the
lifetime, and what a manager has got is the beginning of a life, or of a failed one.
When the runtime is gone it has ran iff there were managers; all these have been
scheduled at the start of every pass, and only then stopped, joined and destroyed; the
others never had workers. What the calls so far come to is read off the history
(`lifetime`); `round_meets` is the step from one point of the program to the next, and
`System.reach_inv` makes of it what holds in every run. -/
theorem managers_live_as_documented {c : Config RuntimeCall RuntimeAnswer Phase Bool Unit}
    (hreach : (runtimeSystem p creators).Reaches (runtimeStart p creators) c) :
    (lifetime p).Allows {} c.history ∧
      (∀ i, ∃ times, callsOn i c.history <+: lived times ∨ callsOn i c.history <+: dropped ∨
        callsOn i c.history = [(.create, false)]) ∧
      ∀ ran, c.thread = .ended ran → ∃ managers : List ℕ, (ran = true ↔ managers ≠ []) ∧
        (∀ i ∈ managers, callsOn i c.history = lived (passStarts c.history)) ∧
        ∀ i ∉ managers, callsOn i c.history = [] ∨ callsOn i c.history = [(.create, false)] ∨
          callsOn i c.history = dropped := by
  have hbetween : Between ({} : Overseen) .start := ⟨fun _ => ⟨rfl, rfl⟩, rfl, rfl⟩
  have hstart : System.ThreadMeets (lifetime p) Between Over ({} : Overseen)
      (runtimeStart p creators).thread := round_meets hbetween
  obtain ⟨hall, hthread⟩ :=
    System.reach_inv (fun v ph h => round_meets h) ⟨Watch.allows_nil, hstart⟩ hreach
  refine ⟨hall, fun i => ?_, ?_⟩
  · rw [(callsOn_eq hall).1]
    exact ⟨_, Stage.calls_begin _⟩
  · intro ran hended
    rw [hended] at hthread
    obtain ⟨managers, hran, hgone, halone⟩ := hthread
    refine ⟨managers, hran, fun i hi => ?_, fun i hi => ?_⟩
    · obtain ⟨hstage, htimes⟩ := hgone i hi
      rw [(callsOn_eq hall).1, hstage, htimes, ticks_after]
      rfl
    · rw [(callsOn_eq hall).1]
      rcases halone i hi with h | h | h <;> rw [h]
      · exact .inl rfl
      · exact .inr (.inl rfl)
      · exact .inr (.inr rfl)

end Views

/-- The signal arrives in the second pass, and the third creator's manager fails;
the state counts the calls. -/
def secondPass : Handler RuntimeCall RuntimeAnswer ℕ
  | n, .manager i .create => (i ≠ 3, n + 1)
  | n, .manager i .init => (i ≠ 2, n + 1)
  | n, .manager _ .createWorkerThreads => ((), n + 1)
  | n, .manager _ (.schedule _) => ((), n + 1)
  | n, .manager _ .requestWorkerThreadsStop => ((), n + 1)
  | n, .manager _ .joinWorkerThreads => ((), n + 1)
  | n, .manager _ .destroy => ((), n + 1)
  | n, .has _ => (10 < n, n + 1)
  | n, .reset _ => ((), n + 1)
  | n, .now => (n, n + 1)
  | n, .sleepUntil _ => ((), n + 1)

def windows : Platform := ⟨2, 15, none, by decide, by decide⟩

/-- The phase after a round against it, the number of calls, and the calls. -/
def afterRound (ph : Phase) (n : ℕ) (h : History) : (Phase ⊕ Bool) × ℕ × History :=
  (round windows [true, false, true, true] ph).handle secondPass n h

/-- The calls before the first pass, before the second, and in the whole main loop. -/
def prepared : History := (afterRound .start 0 []).2.2
def once : History := (afterRound (.loop [0] true) 7 prepared).2.2
def twice : History := (afterRound (.loop [0] true) 12 once).2.2

theorem managers_live_as_documented_quit :
    ∃ h, (runtimeSystem windows [true, false, true, true]).Reaches
        (runtimeStart windows [true, false, true, true]) ⟨(), .ended true, h⟩ ∧
      (lifetime windows).Allows {} h ∧ passStarts h = [9, 16] ∧
      callsOn 0 h = lived [9, 16] ∧ callsOn 1 h = [] ∧ callsOn 2 h = dropped ∧
      callsOn 3 h = [(.create, false)] := by
  have hrounds : ∀ ph n h, (runtimeSystem windows [true, false, true, true]).Reaches
      ⟨(), .running (round windows [true, false, true, true] ph), h⟩
      ⟨(), .running (.done (afterRound ph n h).1), (afterRound ph n h).2.2⟩ := fun ph n h =>
    System.reaches_handle _ secondPass (fun _ _ => ⟨(), .refl, trivial, .refl⟩) _ n h
  have hreach := ((hrounds .start 0 []).tail .again).trans <|
    ((hrounds (.loop [0] true) 7 prepared).tail .again).trans <|
      ((hrounds (.loop [0] true) 12 once).tail .again).trans <|
        (hrounds (.loop [0] false) 19 twice).tail .finish
  refine ⟨_, hreach, (managers_live_as_documented hreach).1, ?_⟩
  decide +kernel

end Loadmaster.Core
