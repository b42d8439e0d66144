/-
The main loop and its signals (`core/runtime.cc`), as a machine that takes one
atomic step at a time: a step of the main thread, or a `SignalFlag::Set` from a
signal handler. `DealSignals` tests a signal, runs its functor and only then
clears the bit, and a `Set` may come in between any two of these.

A `Set` that comes after the functor has started and before the bit is cleared
is lost: the functor is not started for it. That is the only place
(`set_handled_or_lost`), and a shutdown request is not hurt by it, because the functor
that has started then is the one that ends the main loop
(`shutdown_not_missed`).
-/
import Loadmaster.Core.SignalFlag
import Loadmaster.Lib.Run
import Mathlib.Data.List.Nodup

set_option autoImplicit false

namespace Loadmaster.Core

/-! ## The registered signals -/

/-- `Runtime::SigIntTerm`, `SigUsr1`, `SigUsr2`. -/
inductive Functor
  | sigIntTerm | sigUsr1 | sigUsr2
deriving DecidableEq, Repr

/-- A signal and the functor it is bound to. -/
abbrev SignalHandler := ℕ × Functor

/-- `meta_signal_handlers_`; Windows has no `SIGUSR1` and `SIGUSR2`. -/
def signalHandlers (sigint sigterm : ℕ) (sigusr : Option (ℕ × ℕ)) : List SignalHandler :=
  (sigint, .sigIntTerm) :: (sigterm, .sigIntTerm) ::
    match sigusr with
    | some (usr1, usr2) => [(usr1, .sigUsr1), (usr2, .sigUsr2)]
    | none => []

/-- The signal numbers of a platform. -/
structure Platform where
  sigint : ℕ
  sigterm : ℕ
  sigusr : Option (ℕ × ℕ)
  nodup : ((signalHandlers sigint sigterm sigusr).map Prod.fst).Nodup
  lt_width : ∀ s ∈ (signalHandlers sigint sigterm sigusr).map Prod.fst, s < 64

namespace Platform

variable (p : Platform)

def handlers : List SignalHandler := signalHandlers p.sigint p.sigterm p.sigusr

def signals : List ℕ := p.handlers.map Prod.fst

variable {p}

theorem sigint_mem : (p.sigint, Functor.sigIntTerm) ∈ p.handlers := List.mem_cons_self

theorem sigterm_mem : (p.sigterm, Functor.sigIntTerm) ∈ p.handlers :=
  List.mem_cons_of_mem _ List.mem_cons_self

/-- A signal is bound to one functor. -/
theorem functor_unique {s : ℕ} {f f' : Functor} (h : (s, f) ∈ p.handlers)
    (h' : (s, f') ∈ p.handlers) : f = f' := by
  have hnodup : (p.handlers.map Prod.fst).Nodup := p.nodup
  have hinj := List.inj_on_of_nodup_map hnodup h h' rfl
  exact congrArg Prod.snd hinj

end Platform

/-! ## The machine -/

/-- Where the main thread is. -/
inductive Control
  /-- At the loop's test of `running_flag_`. -/
  | check
  /-- In `DealSignals`, about to test the first of these handlers' signals. -/
  | deal (rest : List SignalHandler)
  /-- The test was positive: about to start the functor. -/
  | start (h : SignalHandler) (rest : List SignalHandler)
  /-- The functor has started: about to clear the bit. -/
  | clear (h : SignalHandler) (rest : List SignalHandler)
  /-- Scheduling the managers, and sleeping. -/
  | schedule
  /-- Out of the loop. -/
  | stopped
deriving DecidableEq, Repr

structure Runtime where
  running_flag : Bool := true
  flag : SignalFlag := {}
  control : Control := .check
deriving DecidableEq, Repr

inductive Action
  | set (signal : ℕ)
  | main
deriving DecidableEq, Repr

def Functor.call (r : Runtime) : Functor → Runtime
  | .sigIntTerm => { r with running_flag := false }
  | .sigUsr1 => r
  | .sigUsr2 => r

namespace Runtime

/-- One step of `MainLoop` and of `DealSignals` in it. -/
def mainStep (p : Platform) (r : Runtime) : Runtime :=
  match r.control with
  | .check => { r with control := if r.running_flag then .deal p.handlers else .stopped }
  | .deal [] => { r with control := .schedule }
  | .deal (h :: rest) =>
    { r with control := if r.flag.has h.1 then .start h rest else .deal rest }
  | .start h rest => { h.2.call r with control := .clear h rest }
  | .clear h rest => { r with flag := r.flag.reset h.1, control := .deal rest }
  | .schedule => { r with control := .check }
  | .stopped => r

def step (p : Platform) (r : Runtime) : Action → Runtime
  | .set signal => { r with flag := r.flag.set signal }
  | .main => r.mainStep p

/-- The state before action number `k`; signals may be set before `MainLoop`
starts as well as later. -/
abbrev before (p : Platform) (acts : List Action) (k : ℕ) : Runtime :=
  Run.before (step p) {} acts k

variable {p : Platform} {acts : List Action} {r : Runtime} {a : Action} {s : ℕ}

theorem before_succ {k : ℕ} (h : acts[k]? = some a) :
    before p acts (k + 1) = (before p acts k).step p a := Run.before_succ h

/-! ## Passes and functors -/

/-- A pass of `DealSignals` begins. -/
def Begins (r : Runtime) (a : Action) : Prop :=
  a = .main ∧ r.control = .check ∧ r.running_flag = true

/-- It ends. -/
def Ends (r : Runtime) (a : Action) : Prop := a = .main ∧ r.control = .deal []

/-- The functor of signal `s` is started. -/
def Starts (s : ℕ) (r : Runtime) (a : Action) : Prop :=
  a = .main ∧ ∃ f rest, r.control = .start (s, f) rest

/-- Between the start of `s`'s functor and the clearing of its bit. -/
def InWindow (s : ℕ) (r : Runtime) : Prop := ∃ f rest, r.control = .clear (s, f) rest

/-- Action number `k` of a run is such a one. -/
def At (p : Platform) (acts : List Action) (C : Runtime → Action → Prop) (k : ℕ) : Prop :=
  ∃ a, acts[k]? = some a ∧ C (before p acts k) a

/-- The signal whose functor is about to be started. -/
def starting : Control → Option ℕ
  | .start h _ => some h.1
  | _ => none

/-- The signal whose bit is about to be cleared. -/
def clearing : Control → Option ℕ
  | .clear h _ => some h.1
  | _ => none

/-- A functor starts where the main thread takes the step in front of it. -/
theorem starts_iff : Starts s r a ↔ a = .main ∧ starting r.control = some s := by
  unfold Starts
  cases r.control with
  | start h rest => simp [starting, Prod.ext_iff]
  | _ => simp [starting]

/-- The window lies between a functor's start and the reset of its bit. -/
theorem inWindow_iff : r.InWindow s ↔ clearing r.control = some s := by
  unfold InWindow
  cases r.control with
  | clear h rest => simp [clearing, Prod.ext_iff]
  | _ => simp [clearing]

instance : Decidable (Begins r a) := inferInstanceAs (Decidable (_ ∧ _))

instance : Decidable (Ends r a) := inferInstanceAs (Decidable (_ ∧ _))

instance : Decidable (Starts s r a) := decidable_of_iff _ starts_iff.symm

instance : Decidable (r.InWindow s) := decidable_of_iff _ inWindow_iff.symm

instance {C : Runtime → Action → Prop} [∀ r a, Decidable (C r a)] {k : ℕ} :
    Decidable (At p acts C k) :=
  decidable_of_iff (∃ a ∈ acts[k]?, C (before p acts k) a) (by simp [At])

/-- After the `Set` at `i`, the functor is started before the end of a full pass,
and of the next one in particular. -/
def Handled (p : Platform) (acts : List Action) (i s : ℕ) : Prop :=
  ∀ j k, i < j → At p acts Begins j → j < k → At p acts Ends k →
    ∃ l, i < l ∧ l < k ∧ At p acts (Starts s) l

/-! ## A pending signal -/

/-- The bit is set, and not about to be cleared. -/
structure Pending (s : ℕ) (r : Runtime) : Prop where
  has : r.flag.has s = true
  kept : ¬ r.InWindow s

/-- The pass still has `s` in front of it. -/
def Ahead (s : ℕ) : Control → Prop
  | .deal rest => s ∈ rest.map Prod.fst
  | .start h rest => h.1 = s ∨ s ∈ rest.map Prod.fst
  | .clear h rest => h.1 ≠ s ∧ s ∈ rest.map Prod.fst
  | _ => False

/-- The bit is set, and this pass will come to it. -/
structure Owed (s : ℕ) (r : Runtime) : Prop where
  has : r.flag.has s = true
  ahead : Ahead s r.control

@[simp] theorem flag_call {f : Functor} : (f.call r).flag = r.flag := by
  cases f <;> rfl

/-- Setting one signal never takes another's bit away. -/
theorem has_set_of_has {t : ℕ} (hs : s < 64) (h : r.flag.has s = true) :
    (r.flag.set t).has s = true := by
  rw [SignalFlag.has_set hs, h, Bool.true_or]

/-- A step of the main thread at the start of a functor. -/
theorem mainStep_start {h : SignalHandler} {rest : List SignalHandler}
    (hc : r.control = .start h rest) :
    r.mainStep p = { h.2.call r with control := .clear h rest } := by
  unfold mainStep
  rw [hc]

/-- And one that clears a bit. -/
theorem mainStep_clear {h : SignalHandler} {rest : List SignalHandler}
    (hc : r.control = .clear h rest) :
    r.mainStep p = { r with flag := r.flag.reset h.1, control := .deal rest } := by
  unfold mainStep
  rw [hc]

/-- Anywhere else the flags stay as they are, and no bit is about to be cleared. -/
theorem mainStep_else (hstart : ∀ h rest, r.control ≠ .start h rest)
    (hclear : ∀ h rest, r.control ≠ .clear h rest) :
    (r.mainStep p).flag = r.flag ∧ (r.mainStep p).running_flag = r.running_flag ∧
      ∀ h rest, (r.mainStep p).control ≠ .clear h rest := by
  unfold mainStep
  cases hc : r.control with
  | check =>
    refine ⟨rfl, rfl, ?_⟩
    intro h rest
    dsimp only
    split_ifs <;> simp
  | deal rest =>
    cases rest with
    | nil => exact ⟨rfl, rfl, by simp⟩
    | cons h rest =>
      refine ⟨rfl, rfl, ?_⟩
      intro h' rest'
      dsimp only
      split_ifs <;> simp
  | start h rest => exact absurd hc (hstart h rest)
  | clear h rest => exact absurd hc (hclear h rest)
  | schedule => exact ⟨rfl, rfl, by simp⟩
  | stopped => exact ⟨rfl, rfl, by simp [hc]⟩

/-- **A pending signal** stays so until its functor is started. -/
theorem Pending.step (hs : s < 64) (h : r.Pending s) :
    Starts s r a ∨ (r.step p a).Pending s := by
  cases a with
  | set t => exact .inr ⟨has_set_of_has hs h.has, h.kept⟩
  | main =>
    change Starts s r .main ∨ (r.mainStep p).Pending s
    by_cases hstart : ∃ h rest, r.control = .start h rest
    · obtain ⟨⟨t, f⟩, rest, hc⟩ := hstart
      by_cases hts : t = s
      · subst hts
        exact .inl ⟨rfl, f, rest, hc⟩
      · rw [mainStep_start hc]
        refine .inr ⟨by simpa using h.has, ?_⟩
        rintro ⟨f', rest', heq⟩
        cases heq
        exact hts rfl
    · by_cases hclear : ∃ h rest, r.control = .clear h rest
      · obtain ⟨⟨t, f⟩, rest, hc⟩ := hclear
        have hts : t ≠ s := by
          rintro rfl
          exact h.kept ⟨f, rest, hc⟩
        rw [mainStep_clear hc]
        refine .inr ⟨?_, by rintro ⟨f', rest', heq⟩; cases heq⟩
        exact (SignalFlag.has_of_ne hs hts).2.trans h.has
      · push Not at hstart hclear
        obtain ⟨hflag, -, hout⟩ := mainStep_else (p := p) hstart hclear
        refine .inr ⟨hflag ▸ h.has, ?_⟩
        rintro ⟨f, rest, heq⟩
        exact hout _ _ heq

/-- A pass that begins has every registered signal in front of it. -/
theorem Pending.owed (hreg : s ∈ p.signals) (h : r.Pending s) (hbegin : Begins r a) :
    (r.step p a).Owed s := by
  obtain ⟨rfl, hc, hrunning⟩ := hbegin
  have hstep : r.step p .main = { r with control := .deal p.handlers } := by
    change r.mainStep p = _
    unfold mainStep
    rw [hc, hrunning]
    rfl
  rw [hstep]
  exact ⟨h.has, hreg⟩

/-- **A signal that a pass has in front of it** stays so until its functor is
started: the pass does not end before. -/
theorem Owed.step (hs : s < 64) (h : r.Owed s) : Starts s r a ∨ (r.step p a).Owed s := by
  obtain ⟨hhas, hahead⟩ := h
  cases a with
  | set t => exact .inr ⟨has_set_of_has hs hhas, hahead⟩
  | main =>
    change Starts s r .main ∨ (r.mainStep p).Owed s
    unfold mainStep
    cases hc : r.control with
    | check => rw [hc] at hahead; cases hahead
    | schedule => rw [hc] at hahead; cases hahead
    | stopped => rw [hc] at hahead; cases hahead
    | deal rest =>
      rw [hc] at hahead
      cases rest with
      | nil => cases hahead
      | cons h rest =>
        right
        refine ⟨hhas, ?_⟩
        rcases List.mem_cons.mp hahead with heq | hmem
        · -- its turn: the bit is set, so the test is positive
          have htest : r.flag.has h.1 = true := heq ▸ hhas
          dsimp only
          rw [if_pos htest]
          exact .inl heq.symm
        · dsimp only
          split_ifs
          · exact .inr hmem
          · exact hmem
    | start h rest =>
      rw [hc] at hahead
      by_cases heq : h.1 = s
      · left
        exact ⟨rfl, h.2, rest, by rw [hc, ← heq]⟩
      · right
        exact ⟨by simpa using hhas, heq, hahead.resolve_left heq⟩
    | clear h rest =>
      rw [hc] at hahead
      right
      exact ⟨(SignalFlag.has_of_ne hs hahead.1).2.trans hhas, hahead.2⟩

/-! ## What becomes of a `Set` -/

/-- A signal that is set outside its window is pending: its bit is set, and no reset
stands between it and its functor. -/
theorem pending_set (hs : s < 64) (hwindow : ¬ r.InWindow s) : (r.step p (.set s)).Pending s where
  has := by
    change (r.flag.set s).has s = true
    rw [SignalFlag.has_set hs]
    simp
  kept := hwindow

/-- A `Set` outside the window is handled. -/
theorem handled_of_not_inWindow {i : ℕ} (hreg : s ∈ p.signals) (hset : acts[i]? = some (.set s))
    (hwindow : ¬ (before p acts i).InWindow s) : Handled p acts i s := by
  have hs : s < 64 := p.lt_width s hreg
  rintro j k hij ⟨a, hj, hbegin⟩ hjk ⟨b, hk, -, hend⟩
  have hstart : (before p acts (i + 1)).Pending s := by
    rw [before_succ hset]
    exact pending_set hs hwindow
  -- pending until the pass begins, and in front of the pass from then on
  rcases Run.until_event (fun r a h => Pending.step (p := p) (a := a) hs h) (by omega : i + 1 ≤ j)
      hstart with ⟨l, c, hil, hlj, hl, hstarts⟩ | hpending
  · exact ⟨l, by omega, by omega, c, hl, hstarts⟩
  have howed : (before p acts (j + 1)).Owed s := by
    rw [before_succ hj]
    exact hpending.owed hreg hbegin
  rcases Run.until_event (fun r a h => Owed.step (p := p) (a := a) hs h) (by omega : j + 1 ≤ k)
      howed with ⟨l, c, hjl, hlk, hl, hstarts⟩ | hstill
  · exact ⟨l, by omega, hlk, c, hl, hstarts⟩
  · have hahead := hstill.ahead
    rw [hend] at hahead
    cases hahead

/-- Neither pending nor about to be started. -/
def Lost (s : ℕ) (r : Runtime) : Prop :=
  r.InWindow s ∨ r.flag.has s = false ∧ ∀ f rest, r.control ≠ .start (s, f) rest

/-- What is lost comes back with the next `Set` only. -/
theorem Lost.step (hs : s < 64) (h : r.Lost s) (hset : a ≠ .set s) : (r.step p a).Lost s := by
  cases a with
  | set t =>
    have hts : t ≠ s := by
      rintro rfl
      exact hset rfl
    rcases h with hwindow | ⟨hhas, hout⟩
    · exact .inl hwindow
    · exact .inr ⟨(SignalFlag.has_of_ne hs hts).1.trans hhas, hout⟩
  | main =>
    change (r.mainStep p).Lost s
    rcases h with ⟨f, rest, hc⟩ | ⟨hhas, hout⟩
    · rw [mainStep_clear hc]
      right
      refine ⟨?_, by simp⟩
      change (r.flag.reset s).has s = false
      rw [SignalFlag.has_reset hs]
      simp
    · unfold mainStep
      cases hc : r.control with
      | check => refine .inr ⟨hhas, ?_⟩; intro f rest; dsimp only; split_ifs <;> simp
      | schedule => exact .inr ⟨hhas, by simp⟩
      | stopped => exact .inr ⟨hhas, by simp [hc]⟩
      | deal rest =>
        cases rest with
        | nil => exact .inr ⟨hhas, by simp⟩
        | cons h rest =>
          refine .inr ⟨hhas, ?_⟩
          intro f rest' heq
          dsimp only at heq
          split_ifs at heq with htest
          cases heq
          rw [hhas] at htest
          cases htest
      | start h rest => exact .inr ⟨by simpa using hhas, by simp⟩
      | clear h rest =>
        refine .inr ⟨?_, by simp⟩
        change (r.flag.reset h.1).has s = false
        rw [SignalFlag.has_reset hs, hhas, Bool.false_and]

/-- **What becomes of a `Set`**: outside the window its functor is started before the
next full pass is over. Inside it, the functor is not started again unless the signal
is set once more. Outside the window the bit is set until a pass comes to it. Inside
it the reset that follows the functor clears the bit with the new request in it, and
every action but a `Set` of the signal keeps it lost (`Lost.step`). -/
theorem set_handled_or_lost {i : ℕ} (hreg : s ∈ p.signals) (hset : acts[i]? = some (.set s)) :
    (¬ (before p acts i).InWindow s → Handled p acts i s) ∧
      ((before p acts i).InWindow s → ∀ n, (∀ l, i < l → l < n → acts[l]? ≠ some (.set s)) →
        ∀ l, i < l → l < n → ¬ At p acts (Starts s) l) := by
  refine ⟨handled_of_not_inWindow hreg hset, ?_⟩
  intro hwindow n hnone l hil hln
  have hs : s < 64 := p.lt_width s hreg
  have hstart : (before p acts (i + 1)).Lost s := by
    rw [before_succ hset]
    exact .inl hwindow
  have hstep : ∀ r a, Lost s r → a = .set s ∨ (r.step p a).Lost s := fun r a h =>
    or_iff_not_imp_left.mpr (h.step hs)
  -- lost until the signal is set once more
  rcases Run.until_event hstep hil hstart with ⟨m, a, him, hml, ha, rfl⟩ | hlost
  · exact absurd ha (hnone m him (by omega))
  rintro ⟨a, -, -, f, rest, hc⟩
  rcases hlost with ⟨f', rest', hclear⟩ | ⟨-, hout⟩
  · rw [hc] at hclear
    cases hclear
  · exact hout f rest hc

/-- Linux. -/
def linux : Platform where
  sigint := 2
  sigterm := 15
  sigusr := some (10, 12)
  nodup := by decide
  lt_width := by decide

/-- A `SIGUSR1` that is set before the first pass. -/
def earlyUsr1 : List Action :=
  .set 10 :: List.replicate 8 .main

theorem set_handled_or_lost_early : ∃ l, 0 < l ∧ l < 8 ∧ At linux earlyUsr1 (Starts 10) l :=
  (set_handled_or_lost (i := 0) (by decide) rfl).1 (by decide) 1 8 (by decide) (by decide)
    (by decide) (by decide)

/-- Another one while the functor runs for the first, and then a whole pass. -/
def lateUsr1 : List Action :=
  .set 10 :: List.replicate 5 .main ++ .set 10 :: List.replicate 10 .main

/-- Its functor is not started any more. -/
theorem late_set_lost : 10 ∈ linux.signals ∧ lateUsr1[6]? = some (.set 10) ∧
    ¬ Handled linux lateUsr1 6 10 := by
  refine ⟨by decide, rfl, ?_⟩
  intro h
  have hnone : ∀ l < 16, 6 < l → ¬ At linux lateUsr1 (Starts 10) l := by decide
  obtain ⟨l, hl, hlt, hstarts⟩ := h 11 16 (by decide) (by decide) (by decide) (by decide)
  exact hnone l hlt hl hstarts

/-! ## Shutting down -/

/-- Inside a pass the main thread is with handlers of the table, and the functor
of a shutdown signal clears `running_flag_` before its bit is cleared. -/
structure Sound (p : Platform) (r : Runtime) : Prop where
  deal : ∀ rest, r.control = .deal rest → ∀ h ∈ rest, h ∈ p.handlers
  start : ∀ h rest, r.control = .start h rest → ∀ h' ∈ h :: rest, h' ∈ p.handlers
  clear : ∀ h rest, r.control = .clear h rest → (∀ h' ∈ h :: rest, h' ∈ p.handlers) ∧
    (h.2 = .sigIntTerm → r.running_flag = false)

/-- A new runtime is not inside a pass, so nothing is asked of it. -/
theorem sound_fresh : Sound p {} where
  deal := by simp
  start := by simp
  clear := by simp

/-- Every action keeps the pass among the handlers of the platform. -/
theorem Sound.step (h : r.Sound p) : (r.step p a).Sound p := by
  cases a with
  | set t => exact ⟨h.deal, h.start, h.clear⟩
  | main =>
    change (r.mainStep p).Sound p
    unfold mainStep
    cases hc : r.control with
    | check =>
      dsimp only
      split_ifs
      · refine ⟨?_, by simp, by simp⟩
        rintro _ ⟨⟩
        exact fun _ h => h
      · exact ⟨by simp, by simp, by simp⟩
    | deal rest =>
      cases rest with
      | nil => exact ⟨by simp, by simp, by simp⟩
      | cons head rest =>
        have hmem := h.deal _ hc
        dsimp only
        split_ifs
        · refine ⟨by simp, ?_, by simp⟩
          rintro _ _ ⟨⟩
          exact hmem
        · refine ⟨?_, by simp, by simp⟩
          rintro _ ⟨⟩
          exact fun h' hh' => hmem h' (List.mem_cons_of_mem _ hh')
    | start head rest =>
      have hmem := h.start _ _ hc
      refine ⟨by simp, by simp, ?_⟩
      rintro _ _ ⟨⟩
      refine ⟨hmem, ?_⟩
      intro hf
      change (head.2.call r).running_flag = false
      rw [hf]
      rfl
    | clear head rest =>
      obtain ⟨hmem, -⟩ := h.clear _ _ hc
      refine ⟨?_, by simp, by simp⟩
      rintro _ ⟨⟩
      exact fun h' hh' => hmem h' (List.mem_cons_of_mem _ hh')
    | schedule => exact ⟨by simp, by simp, by simp⟩
    | stopped => exact ⟨by simp [hc], by simp [hc], by simp [hc]⟩

theorem running_call {f : Functor} (h : r.running_flag = false) :
    (f.call r).running_flag = false := by
  cases f with
  | sigIntTerm => rfl
  | sigUsr1 => exact h
  | sigUsr2 => exact h

/-- Nothing sets `running_flag_` again. -/
theorem running_step (h : r.running_flag = false) : (r.step p a).running_flag = false := by
  cases a with
  | set t => exact h
  | main =>
    change (r.mainStep p).running_flag = false
    by_cases hstart : ∃ h rest, r.control = .start h rest
    · obtain ⟨h', rest, hc⟩ := hstart
      rw [mainStep_start hc]
      exact running_call h
    · by_cases hclear : ∃ h rest, r.control = .clear h rest
      · obtain ⟨h', rest, hc⟩ := hclear
        rw [mainStep_clear hc]
        exact h
      · push Not at hstart hclear
        exact (mainStep_else hstart hclear).2.1.trans h

theorem ended_stays {k l : ℕ} (hkl : k ≤ l) (h : (before p acts k).running_flag = false) :
    (before p acts l).running_flag = false :=
  Run.kept (P := fun r : Runtime => r.running_flag = false) (fun _ _ h => running_step h) hkl h

/-- The functor of a shutdown signal ends the loop. -/
theorem Starts.running (hs : (s, Functor.sigIntTerm) ∈ p.handlers) (h : r.Sound p)
    (hstarts : Starts s r a) : (r.step p a).running_flag = false := by
  obtain ⟨rfl, f, rest, hc⟩ := hstarts
  have hf : f = .sigIntTerm :=
    Platform.functor_unique (h.start _ _ hc _ List.mem_cons_self) hs
  change (r.mainStep p).running_flag = false
  rw [mainStep_start hc, hf]
  rfl

section Shutdown

variable {i j k l : ℕ} (hs : s = p.sigint ∨ s = p.sigterm)

include hs in
/-- Either of the two signals has the functor that ends the loop. -/
theorem shutdown_mem : (s, Functor.sigIntTerm) ∈ p.handlers := by
  rcases hs with rfl | rfl
  · exact Platform.sigint_mem
  · exact Platform.sigterm_mem

include hs in
/-- Once the functor of a shutdown signal has started the flag is false, and stays so. -/
theorem ended_of_starts (hkl : k < l) (h : At p acts (Starts s) k) :
    (before p acts l).running_flag = false := by
  obtain ⟨a, hk, hstarts⟩ := h
  have hsound : (before p acts k).Sound p :=
    Run.before_induction sound_fresh (fun _ _ _ h => h.step) k
  have hnext : (before p acts (k + 1)).running_flag = false := by
    rw [before_succ hk]
    exact hstarts.running (shutdown_mem hs) hsound
  exact ended_stays hkl hnext

include hs in
/-- A shutdown signal that was set is in front of the next pass. -/
theorem owed_of_begins (hset : acts[i]? = some (.set s)) (hij : i < j)
    (hbegin : At p acts Begins j) : (before p acts (j + 1)).Owed s := by
  obtain ⟨a, hj, hbegins⟩ := hbegin
  have hreg : s ∈ p.signals := List.mem_map_of_mem (shutdown_mem hs)
  have hs64 : s < 64 := p.lt_width s hreg
  have hrunning : (before p acts j).running_flag ≠ false := by
    rw [hbegins.2.2]
    simp
  by_cases hwindow : (before p acts i).InWindow s
  · -- its functor had started already, so the loop had ended
    obtain ⟨f, rest, hc⟩ := hwindow
    have hsound : (before p acts i).Sound p :=
      Run.before_induction sound_fresh (fun _ _ _ h => h.step) i
    obtain ⟨hall, hended⟩ := hsound.clear _ _ hc
    have hf := Platform.functor_unique (hall _ List.mem_cons_self) (shutdown_mem hs)
    exact absurd (ended_stays (Nat.le_of_lt hij) (hended hf)) hrunning
  · have hpending : (before p acts (i + 1)).Pending s := by
      rw [before_succ hset]
      exact pending_set hs64 hwindow
    rcases Run.until_event (fun r a h => Pending.step (p := p) (a := a) hs64 h) hij hpending with
      ⟨k, b, -, hkj, hk, hstarts⟩ | hstill
    · exact absurd (ended_of_starts hs hkj ⟨b, hk, hstarts⟩) hrunning
    · rw [before_succ hj]
      exact hstill.owed hreg hbegins

include hs in
/-- By induction on the actions since the pass has begun: each keeps the signal owed,
until its functor starts and ends the loop. -/
theorem ended_or_owed (hset : acts[i]? = some (.set s)) (hij : i < j)
    (hbegin : At p acts Begins j) (hjl : j < l) :
    (before p acts l).running_flag = false ∨ (before p acts l).Owed s := by
  have hs64 : s < 64 := p.lt_width s (List.mem_map_of_mem (shutdown_mem hs))
  rcases Run.until_event (fun r a h => Owed.step (p := p) (a := a) hs64 h) hjl
      (owed_of_begins hs hset hij hbegin) with ⟨k, b, -, hkl, hk, hstarts⟩ | howed
  · exact .inl (ended_of_starts hs hkl ⟨b, hk, hstarts⟩)
  · exact .inr howed

/-- **A shutdown request is never missed.** Once `SIGINT` or `SIGTERM` has been set,
the next pass that begins is the last one, and `running_flag_` is false from its end
on. Signals do not disturb each other's bits. From the beginning of that pass on the
signal is owed, its bit set and the pass not yet past it, until the flag is false
(`ended_or_owed`), and nothing sets the flag again (`ended_stays`). -/
theorem shutdown_not_missed (hs : s = p.sigint ∨ s = p.sigterm)
    (hset : acts[i]? = some (.set s)) (hij : i < j) (hbegin : At p acts Begins j) :
    (∀ k, j < k → At p acts Ends k → ∀ l, k ≤ l → (before p acts l).running_flag = false) ∧
      (∀ l, j < l → ¬ At p acts Begins l) ∧
      ∀ (f : SignalFlag) (s t : ℕ), s < 64 → t < 64 → s ≠ t →
        (f.set s).has t = f.has t ∧ (f.reset s).has t = f.has t := by
  refine ⟨?_, ?_, fun f s t _ ht hst => SignalFlag.has_of_ne ht hst⟩
  · rintro k hjk ⟨b, hk, -, hend⟩ l hkl
    have hdone : (before p acts k).running_flag = false := by
      apply (ended_or_owed hs hset hij hbegin hjk).resolve_right
      intro howed
      have hahead := howed.ahead
      rw [hend] at hahead
      exact List.not_mem_nil hahead
    exact ended_stays hkl hdone
  · rintro l hjl ⟨b, hl, -, hc, hrunning⟩
    rcases ended_or_owed hs hset hij hbegin hjl with hended | howed
    · rw [hrunning] at hended
      cases hended
    · have hahead := howed.ahead
      rw [hc] at hahead
      exact hahead

/-- A `SIGTERM` in the middle of the first pass. -/
def midTerm : List Action :=
  List.replicate 4 .main ++ .set 15 :: List.replicate 14 .main

theorem shutdown_not_missed_mid : At linux midTerm Begins 8 ∧ At linux midTerm Ends 15 ∧
    ∀ l, 15 ≤ l → (before linux midTerm l).running_flag = false :=
  ⟨by decide, by decide, (shutdown_not_missed (i := 4) (j := 8) (p := linux) (.inr rfl) rfl
    (by decide) (by decide)).1 15 (by decide) (by decide)⟩

end Shutdown

end Runtime

end Loadmaster.Core
