/-
What the threads of the GPU module have on loan (`gpu/manager.cc`, `gpu/worker.cc`,
`gpu/contention/monitor.cc`).

They keep to it (`threads_keep`). For the main thread, `Stock` is what there is at a
moment; a call is right when what it touches is there and not on loan, and what it makes
is not there yet (`main_meets`).
-/
import Loadmaster.Gpu.Threading
import Mathlib.Data.Finset.Insert

set_option autoImplicit false

namespace Loadmaster.Gpu

open Effect GpuWorkerContext Threads

/-! ## The threads keep to their loans -/

section Loans

/-- If each use of a list is covered by what is granted, so is the heaviest of them. -/
theorem accessOf_weight_le {rs : List (Res × Use)} {g : Res → Use}
    (h : ∀ e ∈ rs, e.2.weight ≤ (g e.1).weight) (r : Res) :
    (accessOf rs r).weight ≤ (g r).weight := by
  by_cases huntouched : accessOf rs r = .untouched
  · rw [huntouched]
    exact Nat.zero_le _
  · exact h _ (mem_of_accessOf huntouched)

@[simp] theorem onlyIf_true (a : Use) {p : Prop} [Decidable p] (h : p) : a.onlyIf p = a :=
  if_pos h

/-- A call within a grant passes. -/
theorem within_passes {t : ThreadId} {s : ThreadState t} {c : GpuCall} (hmay : madeBy (some t) c)
    (htouches : ∀ e ∈ touched c, e.2.weight ≤ (granted t s e.1).weight)
    (hmakes : ∀ a r, ¬ makes c a r) (hends : ∀ r, ¬ ends c r) :
    (gpuThreads.within t s).Passes () c :=
  ⟨⟨hmay, fun r => ⟨accessOf_weight_le htouches r, fun a => hmakes a r, hends r⟩⟩, fun _ => rfl⟩

/-- Every call of a worker's thread is covered by what the thread is lent, in any state
of it. -/
theorem worker_passes (d : ℕ) (s : LoopState) (c : Call) :
    (gpuThreads.within (.worker d) s).Passes () (.worker d c) := by
  refine within_passes rfl ?_ (fun _ _ => id) fun _ => id
  cases c <;> simp [touched, workerTouched, granted, workerGrant]

/-- The calls of a poll, if they pass. -/
structure PollPasses {V : Type} (P : Watch GpuCall GpuAnswer V) (v : V) (k : ℕ)
    (workers : List ℕ) : Prop where
  view : P.Passes v .viewWorkers
  busyMs : ∀ d ∈ workers, P.Passes v (.busyMs d)
  sharing : ∀ d ∈ workers, P.Passes v (.sharing d)
  setOthers : ∀ d ∈ workers, ∀ others, P.Passes v (.setOthers d others)
  poll : P.Passes v (.pollMonitor k)

variable {V : Type} {P : Watch GpuCall GpuAnswer V} {v : V} {k : ℕ} {workers : List ℕ}

/-- A poll reads the busy time of each worker, and nothing that it may not. -/
theorem readBusyMs_meets (h : PollPasses P v k workers) {ds : List ℕ}
    (hds : ∀ d ∈ ds, d ∈ workers) : P.Meets (fun v' _ => v' = v) v (readBusyMs ds) := by
  induction ds with
  | nil => rfl
  | cons d ds ih =>
    refine h.view.meets_bind fun _ => (h.busyMs d (hds d List.mem_cons_self)).meets_bind fun _ => ?_
    exact ih fun d' hd' => hds d' (List.mem_cons_of_mem d hd')

theorem onChanges_meets (h : PollPasses P v k workers) (changes : List (ℕ × Option ℤ)) :
    P.Meets (fun v' _ => v' = v) v (onChanges workers changes) := by
  induction changes with
  | nil => rfl
  | cons change changes ih =>
    obtain ⟨i, others⟩ := change
    rw [onChanges]
    cases hd : workers[i]? with
    -- no device has this index
    | none => exact ih
    | some d =>
      have hmem := List.mem_of_getElem? hd
      exact h.view.meets_bind fun _ => (h.sharing d hmem).meets_bind fun _ =>
        (h.setOthers d hmem others).meets_bind fun _ => ih

/-- A whole poll stays within what it may use. -/
theorem poll_meets (h : PollPasses P v k workers) :
    P.Meets (fun v' _ => v' = v) v (poll k workers) := by
  refine (readBusyMs_meets h fun _ => id).bind fun v' _ hv' => ?_
  rw [hv']
  exact h.poll.meets_bind fun changes => onChanges_meets h changes

/-- The workers of the monitor stay those that it was started with. -/
def SameWorkers : (t : ThreadId) → ThreadState t → ThreadState t → Prop
  | .worker _, _, _ => True
  | .monitor _, workers₀, workers => workers = workers₀

/-- What a poll uses is what the monitor's thread is lent. -/
theorem monitor_passes (k : ℕ) (workers : List ℕ) :
    PollPasses (gpuThreads.within (.monitor k) workers) () k workers where
  view := within_passes trivial (by simp [touched, granted, monitorGrant]) (fun _ _ => id)
    fun _ => id
  busyMs d hd := within_passes trivial (by simp [touched, granted, monitorGrant, hd])
    (fun _ _ => id) fun _ => id
  sharing d hd := within_passes trivial (by simp [touched, granted, monitorGrant, hd])
    (fun _ _ => id) fun _ => id
  setOthers d hd _ := within_passes trivial (by simp [touched, granted, monitorGrant, hd])
    (fun _ _ => id) fun _ => id
  poll := within_passes rfl (by simp [touched, granted, monitorGrant]) (fun _ _ => id) fun _ => id

/-- **The threads keep to their loans.** -/
theorem threads_keep : gpuThreads.Keeps SameWorkers where
  start t s := by
    cases t with
    | worker d => trivial
    | monitor k => rfl
  round t s₀ s hs := by
    cases t with
    | worker d =>
      -- any call that the worker's code can make is within the loan
      change (gpuThreads.within (.worker d) s₀).Meets _ () ((tick s).embed (GpuCall.worker d))
      refine Watch.meets_embed.mpr ((Watch.meets_of_passes fun c => worker_passes d s₀ c).mono ?_)
      intro _ r _
      cases r <;> trivial
    | monitor k =>
      -- the workers it polls are those that it was lent
      obtain rfl : s = s₀ := hs
      have hwait : (gpuThreads.within (.monitor k) s).Passes () (.waitMonitor k) :=
        within_passes rfl (by simp [touched, granted, monitorGrant]) (fun _ _ => id) fun _ => id
      change (gpuThreads.within (.monitor k) s).Meets _ () (threadBody (.monitor k) s)
      refine hwait.meets_bind fun stop => ?_
      cases stop with
      | true => trivial
      | false => exact (poll_meets (monitor_passes k s)).bind fun _ _ _ => rfl

end Loans

/-! ## What there is -/

/-- The devices, those whose `Init` has succeeded, the workers, and the monitors. -/
structure Stock where
  devices : Finset ℕ
  ready : Finset ℕ
  workers : Finset ℕ
  monitors : Finset ℕ

namespace Stock

def Has (s : Stock) : Res → Prop
  | .device d => d ∈ s.devices
  | .ready d => d ∈ s.ready
  | .worker d | .fields d => d ∈ s.workers
  | .workers => True
  | .monitor k | .polling k => k ∈ s.monitors

/-- After a call, with its answer. -/
def after (s : Stock) : (c : GpuCall) → GpuAnswer c → Stock
  | .deviceInit d _, ok => if ok then { s with ready := insert d s.ready } else s
  | .newWorker d, _ => { s with workers := insert d s.workers }
  | .newMonitor k, _ => { s with monitors := insert k s.monitors }
  | .destroyDevice d, _ => { s with devices := s.devices.erase d }
  | .destroyWorker d, _ =>
    { s with devices := s.devices.erase d, ready := s.ready.erase d, workers := s.workers.erase d }
  | .destroyMonitor k, _ => { s with monitors := s.monitors.erase k }
  | _, _ => s

/-- What there is after a call: what was there and has not been ended, and what the call
makes. -/
theorem has_after (s : Stock) (c : GpuCall) (a : GpuAnswer c) (r : Res) :
    (s.after c a).Has r ↔ (s.Has r ∧ ¬ ends c r) ∨ makes c a r := by
  cases c with
  | deviceInit d _ =>
    cases a <;> cases r <;> simp [after, Has, ends, makes, or_comm]
  | newWorker d => cases r <;> simp [after, Has, ends, makes, or_comm]
  | newMonitor k => cases r <;> simp [after, Has, ends, makes, or_comm]
  | destroyDevice d => cases r <;> simp [after, Has, ends, makes, and_comm]
  | destroyWorker d => cases r <;> simp [after, Has, ends, makes, and_comm]
  | destroyMonitor k => cases r <;> simp [after, Has, ends, makes, and_comm]
  | _ => simp [after, ends, makes]

end Stock

/-- The watcher's knowledge: what there is, and what is on loan. -/
def held (lent : ThreadId → Option (Res → Use)) (s : Stock) : Held Res ThreadId where
  lent := lent
  alive := s.Has

/-- Nothing is on loan. -/
abbrev idle (s : Stock) : Held Res ThreadId := held (fun _ => none) s

variable {lent : ThreadId → Option (Res → Use)} {s : Stock} {α : Type}

/-- A call of the main thread changes the stock and no loan. -/
theorem see_call (c : GpuCall) (a : GpuAnswer c) :
    gpuThreads.see (held lent s) ⟨.call c, a⟩ = held lent (s.after c a) := by
  unfold held
  have halive : (fun r => s.Has r ∧ ¬ ends c r ∨ makes c a r) = (s.after c a).Has :=
    funext fun r => propext (s.has_after c a r).symm
  rw [← halive]
  rfl

/-- What no loan clashes with. -/
def Unlent (lent : ThreadId → Option (Res → Use)) (a : Use) (r : Res) : Prop :=
  ∀ t, ¬ Clash a ((held lent ⟨∅, ∅, ∅, ∅⟩).access t r)

/-- Without loans nothing is lent. -/
theorem unlent_none (a : Use) (r : Res) : Unlent (fun _ => none) a r :=
  fun _ => not_clash_untouched a

/-- **A call of the main thread** is right if what it touches is there and free, and what
it makes is not there yet. -/
theorem ok_call {c : GpuCall} (hmay : madeBy none c)
    (htouches : ∀ e ∈ touched c, s.Has e.1 ∧ Unlent lent e.2 e.1)
    (hmakes : ∀ a r, makes c a r → ¬ s.Has r) : gpuThreads.ok (held lent s) (.call c) := by
  refine ⟨hmay, fun r => ⟨fun hne => ?_, fun t hclash => ?_⟩, hmakes⟩
  -- `touched` lists all that the call uses
  · exact (htouches _ (mem_of_accessOf hne)).1
  by_cases huntouched : accessOf (touched c) r = .untouched
  · rw [show gpuThreads.uses c r = .untouched from huntouched] at hclash
    exact not_clash_untouched _ hclash.symm
  · exact (htouches _ (mem_of_accessOf huntouched)).2 t hclash

/-- The rule for a call of the main thread in a sequence. -/
theorem main_meets {Q : Held Res ThreadId → α → Prop} {c : GpuCall} {f : GpuAnswer c → MainProg α}
    (hmay : madeBy none c) (htouches : ∀ e ∈ touched c, s.Has e.1 ∧ Unlent lent e.2 e.1)
    (hmakes : ∀ a r, makes c a r → ¬ s.Has r)
    (hf : ∀ a, gpuThreads.rules.Meets Q (held lent (s.after c a)) (f a)) :
    gpuThreads.rules.Meets Q (held lent s) (main c >>= f) := by
  refine Watch.meets_perform_bind.mpr ⟨ok_call hmay htouches hmakes, fun a => ?_⟩
  change gpuThreads.rules.Meets Q (gpuThreads.see (held lent s) ⟨.call c, a⟩) (f a)
  rw [see_call]
  exact hf a

/-- A call that neither makes nor ends anything. -/
theorem call_passes {c : GpuCall} (hmay : madeBy none c)
    (htouches : ∀ e ∈ touched c, s.Has e.1 ∧ Unlent lent e.2 e.1) (hmakes : ∀ a r, ¬ makes c a r)
    (hafter : ∀ a, s.after c a = s) : gpuThreads.rules.Passes (held lent s) (.call c) := by
  refine ⟨ok_call hmay htouches fun a r h => absurd h (hmakes a r), fun a => ?_⟩
  change gpuThreads.see (held lent s) ⟨.call c, a⟩ = held lent s
  rw [see_call, hafter a]

/-- While nothing is on loan it is enough that all is there. -/
theorem idle_meets {Q : Held Res ThreadId → α → Prop} {c : GpuCall} {f : GpuAnswer c → MainProg α}
    (hmay : madeBy none c) (htouches : ∀ e ∈ touched c, s.Has e.1)
    (hmakes : ∀ a r, makes c a r → ¬ s.Has r)
    (hf : ∀ a, gpuThreads.rules.Meets Q (idle (s.after c a)) (f a)) :
    gpuThreads.rules.Meets Q (idle s) (main c >>= f) :=
  main_meets hmay (fun e he => ⟨htouches e he, unlent_none _ _⟩) hmakes hf

/-- While no thread runs only what a call touches has to be there. -/
theorem idle_passes {c : GpuCall} (hmay : madeBy none c) (htouches : ∀ e ∈ touched c, s.Has e.1)
    (hmakes : ∀ a r, ¬ makes c a r) (hafter : ∀ a, s.after c a = s) :
    gpuThreads.rules.Passes (idle s) (.call c) :=
  call_passes hmay (fun e he => ⟨htouches e he, unlent_none _ _⟩) hmakes hafter

/-- By induction on the workers: a loop that makes one call for each. -/
theorem forWorkers_meets {v : Held Res ThreadId} {c : ℕ → GpuCall} {ds : List ℕ}
    (hview : gpuThreads.rules.Passes v (.call .viewWorkers))
    (hc : ∀ d ∈ ds, gpuThreads.rules.Passes v (.call (c d))) :
    gpuThreads.rules.Meets (fun v' _ => v' = v) v (forWorkers c ds) := by
  induction ds with
  | nil => rfl
  | cons d ds ih =>
    refine hview.meets_bind fun _ => (hc d List.mem_cons_self).meets_bind fun _ => ?_
    exact ih fun d' hd' => hc d' (List.mem_cons_of_mem d hd')

end Loadmaster.Gpu
