/-
The manager's program meets the rules (`gpu/manager.cc`): what it calls is there and not
on loan, what it lends is free, and in the end it has joined and destroyed everything
(`life_meets`). `stockOf` is what there is when the main thread holds the manager's state
between two of its steps.
-/
import Loadmaster.Gpu.ThreadGrants
import Loadmaster.Gpu.WorkerRules
import Mathlib.Data.Finset.SDiff

set_option autoImplicit false

namespace Loadmaster.Gpu

open Effect GpuWorkerContext Threads

variable {lent : ThreadId → Option (Res → Use)} {s : Stock} {α : Type}

/-! ## `Init` -/

section Init

variable {D W M : Finset ℕ}

/-- The workers `W` with their devices, among the devices `D`. -/
abbrev staffed (D W M : Finset ℕ) : Stock := ⟨D, W, W, M⟩

abbrev ids (ws : List Entry) : List ℕ := ws.map Entry.d

/-- By induction on the devices: a worker is made of each that binds, in order, so the
workers' numbers are among those of the devices and the stock grows by exactly these. -/
theorem bindDevices_meets (options : Core.Options) {ps : List (ℕ × ℤ)}
    (hnodup : (ps.map Prod.fst).Nodup) (hdevices : ∀ p ∈ ps, p.1 ∈ D) (hnew : ∀ p ∈ ps, p.1 ∉ W) :
    gpuThreads.rules.Meets (fun h ws => (ids ws).Sublist (ps.map Prod.fst) ∧
      h = idle (staffed D (W ∪ (ids ws).toFinset) M)) (idle (staffed D W M))
      (GpuManager.bindDevices options ps) := by
  induction ps generalizing W with
  | nil => exact ⟨List.Sublist.slnil, by simp⟩
  | cons p ps ih =>
    obtain ⟨d, idx⟩ := p
    obtain ⟨hd, hnodup⟩ := List.nodup_cons.mp hnodup
    have hdevice : d ∈ D := hdevices _ List.mem_cons_self
    have hnot : d ∉ W := hnew _ List.mem_cons_self
    refine idle_meets trivial (by simp [touched, Stock.Has, hdevice]) ?_ fun ok => ?_
    · rintro ok r ⟨-, rfl⟩
      exact hnot
    cases ok with
    | false =>
      -- nothing but the device itself has been touched
      refine (ih hnodup (fun p hp => hdevices p (List.mem_cons_of_mem _ hp))
        fun p hp => hnew p (List.mem_cons_of_mem _ hp)).mono ?_
      rintro h ws ⟨hsub, rfl⟩
      exact ⟨hsub.cons _, rfl⟩
    | true =>
      -- the device is ready, and then has a worker
      refine idle_meets trivial (by simp [touched, Stock.Has, Stock.after, hdevice])
        (fun _ _ => False.elim) fun _ => idle_meets trivial ?_ ?_ fun _ => ?_
      · simp [touched, Stock.Has, Stock.after, hdevice]
      · rintro _ r (rfl | rfl)
        · exact hnot
        · exact hnot
      -- from the push into `workers_` on, which both branches of `-gm` come to
      have hrest : gpuThreads.rules.Meets (fun h ws => (ids ws).Sublist (d :: ps.map Prod.fst) ∧
          h = idle (staffed D (W ∪ (ids ws).toFinset) M))
          (idle (staffed D (insert d W) M)) (do
            main .changeWorkers
            return ⟨d, { memory_bytes := options.gpu_memory_bytes.toInt.toNat }⟩ ::
              (← GpuManager.bindDevices options ps)) := by
        refine idle_meets trivial (by simp [touched, Stock.Has]) (fun _ _ => False.elim) fun _ => ?_
        refine (ih hnodup (fun p hp => hdevices p (List.mem_cons_of_mem _ hp)) ?_).bind ?_
        · intro p hp hmem
          rcases Finset.mem_insert.mp hmem with hsame | hmem
          · have hfst := List.mem_map_of_mem (f := Prod.fst) hp
            rw [hsame] at hfst
            exact hd hfst
          · exact hnew p (List.mem_cons_of_mem _ hp) hmem
        · rintro h ws ⟨hsub, rfl⟩
          refine ⟨hsub.cons_cons d, ?_⟩
          change _ = idle (staffed D (W ∪ (d :: ids ws).toFinset) M)
          rw [List.toFinset_cons, Finset.insert_union, Finset.union_insert]
      dsimp only
      by_cases hmemory : 0 < options.gpu_memory_bytes.toInt.toNat
      · rw [if_pos hmemory]
        exact idle_meets trivial (by simp [touched, Stock.Has, Stock.after]) (fun _ _ => False.elim)
          fun _ => hrest
      · rw [if_neg hmemory]
        exact hrest

/-- Devices without workers are destroyed one by one, and nothing else changes hands. -/
theorem destroyDevices_meets {ds : List ℕ} (hnodup : ds.Nodup) (hdevices : ∀ d ∈ ds, d ∈ D)
    {R : Finset ℕ} :
    gpuThreads.rules.Meets (fun h _ => h = idle ⟨D \ ds.toFinset, R, W, M⟩) (idle ⟨D, R, W, M⟩)
      (GpuManager.destroyDevices ds) := by
  induction ds generalizing D with
  | nil => exact congrArg idle (by simp)
  | cons d ds ih =>
    obtain ⟨hd, hnodup⟩ := List.nodup_cons.mp hnodup
    refine idle_meets trivial (by simpa [touched, Stock.Has] using hdevices d List.mem_cons_self)
      (fun _ _ => False.elim) fun _ => ?_
    refine (ih hnodup fun d' hd' => ?_).mono ?_
    · refine Finset.mem_erase.mpr ⟨fun hsame => hd (hsame ▸ hd'), ?_⟩
      exact hdevices d' (List.mem_cons_of_mem d hd')
    · rintro h _ rfl
      rw [List.toFinset_cons, Finset.sdiff_insert, Finset.erase_sdiff_comm]

/-- A worker is destroyed with its device, so both leave the stock together. -/
theorem destroyWorkers_meets {ds : List ℕ} (hnodup : ds.Nodup) (hworkers : ∀ d ∈ ds, d ∈ W)
    (hdevices : W ⊆ D) :
    gpuThreads.rules.Meets
      (fun h _ => h = idle (staffed (D \ ds.toFinset) (W \ ds.toFinset) M)) (idle (staffed D W M))
      (GpuManager.destroyWorkers ds) := by
  induction ds generalizing D W with
  | nil => exact congrArg idle (by simp)
  | cons d ds ih =>
    obtain ⟨hd, hnodup⟩ := List.nodup_cons.mp hnodup
    have hworker : d ∈ W := hworkers d List.mem_cons_self
    refine idle_meets trivial (by simp [touched, Stock.Has, hworker, hdevices hworker])
      (fun _ _ => False.elim) fun _ => ?_
    refine (ih hnodup (fun d' hd' => ?_) (Finset.erase_subset_erase d hdevices)).mono ?_
    · refine Finset.mem_erase.mpr ⟨fun hsame => hd (hsame ▸ hd'), ?_⟩
      exact hworkers d' (List.mem_cons_of_mem d hd')
    · rintro h _ rfl
      rw [List.toFinset_cons, Finset.sdiff_insert, Finset.sdiff_insert, Finset.erase_sdiff_comm,
        Finset.erase_sdiff_comm]

/-- The workers of a list, with their devices and no others. -/
abbrev manned (L : List ℕ) (M : Finset ℕ) : Stock := staffed L.toFinset L.toFinset M

variable {L : List ℕ} {k : ℕ}

/-- Every call of a poll is allowed, because what a poll uses, the workers it looks at
and its own monitor, is in the stock. -/
theorem poll_passes {workers : List ℕ} (hworkers : ∀ d ∈ workers, d ∈ L) (hk : k ∈ M) :
    PollPasses (gpuThreads.rules.comap Act.call) (idle (manned L M)) k workers where
  view := idle_passes trivial (by simp [touched, Stock.Has]) (fun _ _ => id) fun _ => rfl
  busyMs d hd := idle_passes trivial (by simp [touched, Stock.Has, hworkers d hd])
    (fun _ _ => id) fun _ => rfl
  sharing d hd := idle_passes trivial (by simp [touched, Stock.Has, hworkers d hd])
    (fun _ _ => id) fun _ => rfl
  setOthers d hd _ := idle_passes trivial (by simp [touched, Stock.Has, hworkers d hd])
    (fun _ _ => id) fun _ => rfl
  poll := idle_passes trivial (by simp [touched, Stock.Has, hk]) (fun _ _ => id) fun _ => rfl

theorem describe_meets {ds : List ℕ} (hds : ∀ d ∈ ds, d ∈ L) :
    gpuThreads.rules.Meets (fun h _ => h = idle (manned L M)) (idle (manned L M))
      (GpuManager.describe ds) := by
  induction ds with
  | nil => rfl
  | cons d ds ih =>
    have hd : d ∈ L := hds d List.mem_cons_self
    refine idle_meets trivial (by simp [touched, Stock.Has]) (fun _ _ => False.elim) fun _ =>
      idle_meets trivial (by simp [touched, Stock.Has, Stock.after, hd]) (fun _ _ => False.elim)
        fun _ => idle_meets trivial (by simp [touched, Stock.Has, Stock.after, hd])
          (fun _ _ => False.elim) fun _ => idle_meets trivial ?_ (fun _ _ => False.elim) fun _ => ?_
    · simp [touched, Stock.Has, Stock.after, hd]
    · exact ih fun d' hd' => hds d' (List.mem_cons_of_mem d hd')

/-- The monitors that there are: the manager's, if it has one. -/
def monitors (m : ManagerState) : Finset ℕ := (m.monitor.map Prod.fst).toFinset

/-- The monitor was made for the workers that there are. -/
def Watched (m : ManagerState) : Prop := ∃ k, m.monitor = some (k, ids m.workers)

/-- A monitor is made of the workers' devices, or none where nothing can be watched; the
workers stay as they are. -/
theorem initContentionMonitor_meets (m : ManagerState) :
    gpuThreads.rules.Meets (fun h m' => m'.pending = m.pending ∧ m'.workers = m.workers ∧
      Watched m' ∧ h = idle (manned (ids m.workers) (monitors m')))
      (idle (manned (ids m.workers) (monitors m))) (GpuManager.initContentionMonitor m) := by
  refine (describe_meets fun _ => id).bind fun h _ hh => ?_
  rw [hh]
  cases hmonitor : m.monitor with
  | none =>
    have hnone : monitors m = ∅ := by simp [monitors, hmonitor]
    dsimp only
    rw [hnone]
    refine idle_meets trivial (by simp [touched]) ?_ fun _ => ?_
    · rintro _ r (rfl | rfl) <;> simp [Stock.Has]
    · have hpoll := poll_meets (poll_passes (L := ids m.workers) (M := {0}) (k := 0) (fun _ => id)
        (Finset.mem_singleton_self 0))
      refine (Watch.meets_embed.mpr hpoll).bind fun h _ hh => ?_
      exact ⟨rfl, rfl, ⟨0, rfl⟩, hh⟩
  | some monitor =>
    obtain ⟨k, workers⟩ := monitor
    have hsome : monitors m = {k} := by simp [monitors, hmonitor]
    dsimp only
    rw [hsome]
    refine idle_meets trivial (by simp [touched]) ?_ fun _ =>
      idle_meets trivial (by simp [touched, Stock.Has, Stock.after]) (fun _ _ => False.elim)
        fun _ => ?_
    · rintro _ r (rfl | rfl) <;> simp [Stock.Has]
    · -- between the two calls there are both monitors; the poll is the new one's
      have hpoll := poll_meets (poll_passes (L := ids m.workers) (M := {k + 1}) (k := k + 1)
        (fun _ => id) (Finset.mem_singleton_self _))
      have hmonitors : (insert (k + 1) ({k} : Finset ℕ)).erase k = {k + 1} := by
        ext x
        simp only [Finset.mem_erase, Finset.mem_insert, Finset.mem_singleton]
        omega
      change gpuThreads.rules.Meets _
        (idle (manned (ids m.workers) ((insert (k + 1) ({k} : Finset ℕ)).erase k))) _
      rw [hmonitors]
      refine (Watch.meets_embed.mpr hpoll).bind fun h _ hh => ?_
      exact ⟨rfl, rfl, ⟨k + 1, rfl⟩, hh⟩

/-- Of the sites of a launch, all but the tick's belong to the calibration. -/
theorem timed_only {site : Site} (hsite : site ≠ .tick) :
    Timed (Watch.only OfCalibration) site (fun _ _ => True) fun _ _ => True :=
  timed (fun _ => ⟨trivial, fun _ => rfl⟩) (fun _ _ _ _ => hsite) (fun _ _ _ _ _ => trivial)
    fun _ _ _ _ => trivial

/-- A calibration launches the kernel, and does nothing else with the device. -/
theorem calibrateBaseLoopCount_only (w : Worker) :
    (Watch.only OfCalibration).Meets (fun _ _ => True) () (calibrateBaseLoopCount w) := by
  cases hdevice : w.has_device with
  | false =>
    rw [calibrateBaseLoopCount_of_no_device hdevice]
    trivial
  | true =>
    refine meets_calibrateBaseLoopCount hdevice (timed_only (by decide)) (timed_only (by decide))
      (show Site.warmUp ≠ .tick by decide) trivial trivial (fun _ => ⟨trivial, fun _ => rfl⟩) ?_ ?_
    · exact fun _ _ _ => ⟨trivial, fun _ => trivial⟩
    · exact fun _ _ _ _ _ => ⟨trivial, fun _ => trivial⟩

/-- A call of the calibration is one on a worker that is in the stock, which the main
thread may make while nothing is lent. -/
theorem calibration_passes {d : ℕ} (hd : d ∈ L) {c : Call} (hc : OfCalibration c) :
    ((gpuThreads.rules.comap Act.call).comap (GpuCall.worker d)).Passes (idle (manned L M)) c := by
  refine idle_passes (c := .worker d c) hc ?_ (fun _ _ => id) fun _ => rfl
  cases c <;> simp [touched, workerTouched, Stock.Has, hd]

/-- A worker is kept, because it calibrates or others use its device, or it is not; the
stock is left alone and the worker keeps its device. -/
theorem keep_meets {w : Entry} (hd : w.d ∈ L) :
    gpuThreads.rules.Meets (fun h o => h = idle (manned L M) ∧ ∀ w' ∈ o, w'.d = w.d)
      (idle (manned L M)) (GpuManager.keep w) := by
  refine idle_meets trivial (by simp [touched, Stock.Has]) (fun _ _ => False.elim) fun _ =>
    idle_meets trivial (by simp [touched, Stock.Has, Stock.after, hd]) (fun _ _ => False.elim)
      fun sharing => ?_
  cases sharing with
  | true => exact ⟨rfl, by simp⟩
  | false =>
    -- nobody else is running yet, so a calibration may use all that the worker has
    have hpasses := fun c hc => calibration_passes (M := M) hd (c := c) hc
    have hcalibrate := Watch.meets_of_only (Q := fun _ => True) hpasses
      (calibrateBaseLoopCount_only w.worker)
    refine (Watch.meets_embed.mpr (Watch.meets_embed.mpr hcalibrate)).bind ?_
    rintro h ⟨worker, ok⟩ ⟨rfl, -⟩
    cases ok with
    | true => exact ⟨rfl, by simp⟩
    | false =>
      exact idle_meets trivial (by simp [touched, Stock.Has, hd]) (fun _ _ => False.elim)
        fun _ => ⟨rfl, by simp⟩

/-- The stock does not depend on the order of the workers. -/
theorem manned_perm {L' : List ℕ} (h : L.Perm L') : manned L M = manned L' M := by
  unfold manned
  rw [List.toFinset_eq_of_perm L L' h]

/-- Some workers are dropped. -/
theorem dropWorkers_meets {dropped rest : List ℕ} (hnodup : (dropped ++ rest).Nodup)
    {f : Unit → MainProg α} {Q : Held Res ThreadId → α → Prop}
    (hf : gpuThreads.rules.Meets Q (idle (manned rest M)) (f ())) :
    gpuThreads.rules.Meets Q (idle (manned (dropped ++ rest) M)) (do
      main .changeWorkers
      f (← GpuManager.destroyWorkers dropped)) := by
  have hdisjoint := List.disjoint_of_nodup_append hnodup
  have hrest : (dropped ++ rest).toFinset \ dropped.toFinset = rest.toFinset := by
    ext x
    simp only [Finset.mem_sdiff, List.mem_toFinset, List.mem_append]
    exact ⟨fun h => h.1.resolve_left h.2, fun h => ⟨.inr h, fun h' => hdisjoint h' h⟩⟩
  refine idle_meets trivial (by simp [touched, Stock.Has]) (fun _ _ => False.elim) fun _ => ?_
  refine (destroyWorkers_meets (List.Nodup.of_append_left hnodup) (fun d hd => ?_)
    (Finset.Subset.refl _)).bind fun h _ hh => ?_
  · exact List.mem_toFinset.mpr (List.mem_append_left _ hd)
  · rw [hh]
    change gpuThreads.rules.Meets Q (idle (staffed ((dropped ++ rest).toFinset \ dropped.toFinset)
      ((dropped ++ rest).toFinset \ dropped.toFinset) M)) (f ())
    rw [hrest]
    exact hf

/-- **`std::erase_if`**: a worker is destroyed once, and its device with it. `K` are the
workers that have been kept so far, `G` the places that are given up. -/
theorem eraseIf_meets {K : List ℕ} {ws : List Entry} {G : List (Option ℕ)}
    (hnodup : (K ++ G.filterMap id ++ ids ws).Nodup) :
    gpuThreads.rules.Meets (fun h res => (ids res).Sublist (ids ws) ∧
      h = idle (manned (K ++ ids res) M)) (idle (manned (K ++ G.filterMap id ++ ids ws) M))
      (GpuManager.eraseIf ws G) := by
  induction ws generalizing K G with
  | nil =>
    -- the rest of the vector is erased, with the dropped workers still in it
    have hperm : (K ++ G.filterMap id ++ ids []).Perm (G.filterMap id ++ K) := by
      change (K ++ G.filterMap id ++ []).Perm _
      rw [List.append_nil]
      exact List.perm_append_comm
    rw [manned_perm hperm]
    refine dropWorkers_meets (hperm.nodup_iff.mp hnodup) ?_
    exact ⟨List.Sublist.slnil, congrArg (fun L => idle (manned L M)) (List.append_nil K).symm⟩
  | cons w ws ih =>
    have hmem : w.d ∈ K ++ G.filterMap id ++ ids (w :: ws) := by simp
    refine (keep_meets hmem).bind ?_
    rintro h o ⟨rfl, ho⟩
    -- what is known of the rest when the worker is kept
    have hkept : ∀ {places : List (Option ℕ)} {w' : Entry}, w'.d = w.d →
        (K ++ places.filterMap id ++ ids (w :: ws)).Nodup →
        gpuThreads.rules.Meets (fun h res => (ids res).Sublist (ids (w :: ws)) ∧
          h = idle (manned (K ++ ids res) M))
          (idle (manned (K ++ places.filterMap id ++ ids (w :: ws)) M))
          (do return w' :: (← GpuManager.eraseIf ws places)) := by
      intro places w' hd hplaces
      have hperm : (K ++ places.filterMap id ++ ids (w :: ws)).Perm
          ((K ++ [w.d]) ++ places.filterMap id ++ ids ws) := by
        simp only [List.map_cons, List.append_assoc, List.singleton_append]
        exact (List.perm_middle).append_left K
      rw [manned_perm hperm]
      refine (ih (hperm.nodup_iff.mp hplaces)).bind ?_
      rintro h res ⟨hsub, rfl⟩
      refine ⟨by simpa [hd] using hsub, ?_⟩
      change _ = idle (manned (K ++ w'.d :: ids res) M)
      rw [hd, List.append_assoc]
      rfl
    cases o with
    | none =>
      -- it is dropped, but its place holds it still
      have heq : K ++ G.filterMap id ++ ids (w :: ws)
          = K ++ (G ++ [some w.d]).filterMap id ++ ids ws := by simp
      rw [heq]
      refine (ih (heq ▸ hnodup)).mono ?_
      rintro h res ⟨hsub, rfl⟩
      exact ⟨hsub.cons _, rfl⟩
    | some w' =>
      have hd : w'.d = w.d := ho w' rfl
      cases G with
      | nil => exact hkept hd hnodup
      | cons place places =>
        -- the move into the first place destroys what that held, and leaves an empty one
        have hperm : (K ++ (place :: places).filterMap id ++ ids (w :: ws)).Perm
            (place.toList ++ (K ++ (places ++ [none]).filterMap id ++ ids (w :: ws))) := by
          cases place with
          | none => simp
          | some d =>
            simp only [List.filterMap_cons, List.filterMap_append, List.append_assoc, id]
            exact List.perm_middle
        rw [manned_perm hperm]
        have hnodup' := hperm.nodup_iff.mp hnodup
        exact dropWorkers_meets hnodup' (hkept hd (List.Nodup.of_append_right hnodup'))

/-- What there is between two steps of the main thread. -/
def stockOf (m : ManagerState) : Stock where
  devices := (m.pending ++ ids m.workers).toFinset
  ready := (ids m.workers).toFinset
  workers := (ids m.workers).toFinset
  monitors := monitors m

/-- The state in which the main thread holds the manager, with `ok` from `Init`. -/
structure Settled (h : Held Res ThreadId) (m : ManagerState) (ok : Bool) : Prop where
  nodup : (m.pending ++ ids m.workers).Nodup
  stock : h = idle (stockOf m)
  watched : ok = true → m.pending = [] ∧ Watched m

/-- Once every device has been bound or dropped, the stock is that of the workers and
the monitor. -/
theorem stockOf_of_no_pending {m : ManagerState} (h : m.pending = []) :
    stockOf m = manned (ids m.workers) (monitors m) := by
  unfold stockOf
  rw [h]
  rfl

/-- The calibration drops the workers that fail, from the list and from the stock alike;
the others keep their order. -/
theorem calibrateWorkers_meets (options : Core.Options) {m : ManagerState}
    (hpending : m.pending = []) (hnodup : (ids m.workers).Nodup) (hwatched : Watched m) :
    gpuThreads.rules.Meets (fun h r => Settled h r.1 r.2)
      (idle (manned (ids m.workers) (monitors m))) (GpuManager.calibrateWorkers options m) := by
  refine (eraseIf_meets (K := []) (G := []) hnodup).bind ?_
  rintro h workers ⟨hsub, rfl⟩
  have hnodup' : (ids workers).Nodup := hsub.nodup hnodup
  -- the rest of it, once the monitor is for the workers that are left
  have hrest : ∀ m' : ManagerState, m'.pending = [] → m'.workers = workers → Watched m' →
      gpuThreads.rules.Meets (fun h r => Settled h r.1 r.2)
        (idle (manned (ids workers) (monitors m'))) (do
          forWorkers (.setLoadSet · (loadPercentToBusyMs options.gpu_load.toInt))
            (m'.workers.map Entry.d)
          return (m', true)) := by
    rintro m' hpending' rfl hwatched'
    refine (forWorkers_meets ?_ fun d hd => ?_).bind fun h _ hh => ⟨?_, ?_, fun _ =>
      ⟨hpending', hwatched'⟩⟩
    · exact idle_passes trivial (by simp [touched, Stock.Has]) (fun _ _ => id) fun _ => rfl
    · exact idle_passes trivial (by simpa [touched, Stock.Has] using hd) (fun _ _ => id)
        fun _ => rfl
    · dsimp only
      rw [hpending']
      exact hnodup'
    · dsimp only
      rw [stockOf_of_no_pending hpending']
      exact hh
  dsimp only
  cases hempty : workers.isEmpty with
  | true =>
    rw [if_pos rfl]
    refine ⟨?_, ?_, fun h => absurd h Bool.false_ne_true⟩
    · dsimp only
      rw [hpending]
      exact hnodup'
    · exact congrArg idle (stockOf_of_no_pending (m := { m with workers }) hpending).symm
  | false =>
    rw [if_neg (by decide)]
    by_cases hlength : workers.length = m.workers.length
    · rw [if_neg (not_not.mpr hlength)]
      -- nothing was dropped, so the monitor is still for these workers
      have hsame : ids workers = ids m.workers :=
        hsub.eq_of_length (by rw [List.length_map, List.length_map, hlength])
      obtain ⟨k, hk⟩ := hwatched
      exact hrest { m with workers } hpending rfl ⟨k, hk.trans (by rw [← hsame])⟩
    · rw [if_pos hlength]
      -- the indices have moved: a monitor of the workers that are left
      refine (initContentionMonitor_meets { m with workers }).bind ?_
      rintro h m' ⟨hpending', hworkers, hwatched', rfl⟩
      exact hrest m' (hpending'.trans hpending) hworkers hwatched'

/-- **`Init`**, however it ends. -/
theorem init_meets (options : Core.Options) (indices : List ℤ) :
    gpuThreads.rules.Meets (fun h r => Settled h r.1 r.2)
      (idle ⟨Finset.range indices.length, ∅, ∅, ∅⟩) (GpuManager.init options indices) := by
  have hunbound : Settled (idle ⟨Finset.range indices.length, ∅, ∅, ∅⟩)
      { pending := List.range indices.length } false := by
    have hpending : List.range indices.length ++ [] = List.range indices.length :=
      List.append_nil _
    refine ⟨?_, ?_, fun h => absurd h Bool.false_ne_true⟩
    · change (List.range indices.length ++ []).Nodup
      rw [hpending]
      exact List.nodup_range
    · change _ = idle ⟨(List.range indices.length ++ []).toFinset, ∅, ∅, ∅⟩
      rw [hpending]
      exact congrArg (fun D => idle ⟨D, ∅, ∅, ∅⟩) (by ext d; simp)
  unfold GpuManager.init
  dsimp only
  by_cases hempty : (List.range indices.length).isEmpty
  · rw [if_pos hempty]
    exact hunbound
  rw [if_neg hempty]
  by_cases hzero : options.gpu_load.toInt ≤ 0 ∧ options.gpu_memory_bytes.toInt ≤ 0
  · rw [if_pos hzero]
    exact hunbound
  rw [if_neg hzero]
  have hfst : ((List.range indices.length).zip indices).map Prod.fst
      = List.range indices.length := List.map_fst_zip (by simp)
  refine (bindDevices_meets options (W := ∅) (M := ∅) ?_ ?_ ?_).bind ?_
  · rw [hfst]
    exact List.nodup_range
  · intro p hp
    have hp' := List.mem_map_of_mem (f := Prod.fst) hp
    rw [hfst] at hp'
    exact Finset.mem_range.mpr (List.mem_range.mp hp')
  · exact fun p _ => Finset.notMem_empty p.1
  rintro h workers ⟨hsub, rfl⟩
  rw [hfst] at hsub
  have hnodup : (ids workers).Nodup := hsub.nodup List.nodup_range
  refine (destroyDevices_meets (List.nodup_range.filter _) ?_).bind fun h _ hh => ?_
  · intro d hd
    exact Finset.mem_range.mpr (List.mem_range.mp (List.mem_of_mem_filter hd))
  -- what is left are the workers' devices
  have hdevices : Finset.range indices.length \
      ((List.range indices.length).filter fun d => d ∉ ids workers).toFinset
        = (ids workers).toFinset := by
    ext d
    have hrange : d ∈ ids workers → d < indices.length := fun h => List.mem_range.mp (hsub.subset h)
    simp only [Finset.mem_sdiff, Finset.mem_range, List.mem_toFinset, List.mem_filter,
      List.mem_range, decide_eq_true_eq, not_and, not_not]
    exact ⟨fun h => h.2 h.1, fun h => ⟨hrange h, fun _ => h⟩⟩
  rw [hdevices, Finset.empty_union] at hh
  rw [hh]
  split_ifs
  · exact ⟨hnodup, rfl, fun h => absurd h Bool.false_ne_true⟩
  · refine (initContentionMonitor_meets { pending := [], workers }).bind ?_
    rintro h m' ⟨hpending, hworkers, hwatched, rfl⟩
    obtain rfl : m'.workers = workers := hworkers
    exact calibrateWorkers_meets options hpending hnodup hwatched
  · refine (initContentionMonitor_meets { pending := [], workers }).bind ?_
    rintro h m' ⟨hpending, hworkers, hwatched, rfl⟩
    refine ⟨?_, ?_, fun _ => ⟨hpending, hwatched⟩⟩
    · dsimp only
      rw [hpending, hworkers]
      exact hnodup
    · dsimp only
      rw [stockOf_of_no_pending hpending, hworkers]

end Init

/-! ## The threads run -/

section Running

/-- The loans while the workers `S` and this monitor run. -/
def loans (S : Finset ℕ) (monitor : Option (ℕ × List ℕ)) : ThreadId → Option (Res → Use)
  | .worker d => if d ∈ S then some (workerGrant d) else none
  | .monitor k =>
    match monitor with
    | some (k', workers) => if k = k' then some (monitorGrant k workers) else none
    | none => none

variable {S M : Finset ℕ} {monitor : Option (ℕ × List ℕ)} {L workers : List ℕ} {d k : ℕ}

/-- With no worker and no monitor started nothing is lent. -/
theorem loans_none : loans ∅ none = fun _ => none := by
  funext t
  cases t with
  | worker d => simp [loans]
  | monitor k => rfl

/-- Starting a worker's thread lends what that worker needs, and joining it gives that
back. -/
theorem loans_insert :
    Function.update (loans S monitor) (.worker d) (some (workerGrant d))
      = loans (insert d S) monitor := by
  funext t
  cases t with
  | worker d' => by_cases hd : d' = d <;> simp [Function.update, loans, hd]
  | monitor k => simp [Function.update, loans]

theorem loans_erase :
    Function.update (loans S monitor) (.worker d) none = loans (S.erase d) monitor := by
  funext t
  cases t with
  | worker d' => by_cases hd : d' = d <;> simp [Function.update, loans, hd]
  | monitor k => simp [Function.update, loans]

/-- Starting the monitor's thread lends what a poll uses, and joining it gives that
back. -/
theorem loans_monitor :
    Function.update (loans S none) (.monitor k) (some (monitorGrant k workers))
      = loans S (some (k, workers)) := by
  funext t
  cases t with
  | worker d => simp [Function.update, loans]
  | monitor k' => by_cases hk : k' = k <;> simp [Function.update, loans, hk]

theorem loans_no_monitor :
    Function.update (loans S (some (k, workers))) (.monitor k) none = loans S none := by
  funext t
  cases t with
  | worker d => simp [Function.update, loans]
  | monitor k' => by_cases hk : k' = k <;> simp [Function.update, loans, hk]

/-- What clashes with no grant is not on loan. -/
theorem unlent_loans {a : Use} {r : Res} (hworker : ∀ d ∈ S, ¬ Clash a (workerGrant d r))
    (hmonitor : ∀ k workers, monitor = some (k, workers) → ¬ Clash a (monitorGrant k workers r)) :
    Unlent (loans S monitor) a r := by
  intro t
  unfold held Held.access
  cases t with
  | worker d =>
    by_cases hd : d ∈ S
    · simpa only [loans, if_pos hd] using hworker d hd
    · simpa only [loans, if_neg hd] using not_clash_untouched a
  | monitor k =>
    cases monitor with
    | none => exact not_clash_untouched a
    | some e =>
      obtain ⟨k', workers⟩ := e
      by_cases hk : k = k'
      · subst hk
        simpa only [loans, if_true] using hmonitor k workers rfl
      · simpa only [loans, if_neg hk] using not_clash_untouched a

/-- Two shared uses do not clash, whether or not the second is made at all. -/
theorem not_clash_onlyIf (p : Prop) [Decidable p] : ¬ Clash .shared (Use.shared.onlyIf p) := by
  by_cases h : p <;> simp [Use.onlyIf, h, Clash, Use.weight]

/-- The list of the workers is lent for reading at most, so the main thread can read it
too; the same is true of a worker's settings and of the monitor. -/
theorem unlent_workers : Unlent (loans S monitor) .shared .workers :=
  unlent_loans (fun _ _ => not_clash_untouched _) fun _ _ _ =>
    (by decide : ¬ Clash .shared .shared)

theorem unlent_worker : Unlent (loans S monitor) .shared (.worker d) :=
  unlent_loans (fun _ _ => not_clash_onlyIf _) fun _ _ _ => not_clash_onlyIf _

theorem unlent_monitor : Unlent (loans S monitor) .shared (.monitor k) :=
  unlent_loans (fun _ _ => not_clash_untouched _) fun _ _ _ => not_clash_onlyIf _

/-- The main thread may look at the workers at any time, set their loads, and ask them
and the monitor to stop. -/
theorem view_passes : gpuThreads.rules.Passes (held (loans S monitor) (manned L M))
    (.call .viewWorkers) :=
  call_passes trivial (by simpa [touched, Stock.Has] using unlent_workers) (fun _ _ => id)
    fun _ => rfl

theorem setLoadSet_passes (hd : d ∈ L) (load_ms : ℤ) :
    gpuThreads.rules.Passes (held (loans S monitor) (manned L M)) (.call (.setLoadSet d load_ms)) :=
  call_passes trivial (by simpa [touched, Stock.Has, hd] using unlent_worker) (fun _ _ => id)
    fun _ => rfl

theorem requestStop_passes (hd : d ∈ L) :
    gpuThreads.rules.Passes (held (loans S monitor) (manned L M)) (.call (.requestStop d)) :=
  call_passes trivial (by simpa [touched, Stock.Has, hd] using unlent_worker) (fun _ _ => id)
    fun _ => rfl

theorem requestMonitorStop_passes (hk : k ∈ M) :
    gpuThreads.rules.Passes (held (loans S monitor) (manned L M)) (.call (.requestMonitorStop k)) :=
  call_passes trivial (by simpa [touched, Stock.Has, hk] using unlent_monitor) (fun _ _ => id)
    fun _ => rfl

variable {Q : Held Res ThreadId → α → Prop} {t : ThreadId} {f : Unit → MainProg α}

/-- **A start** lends what is there and free. -/
theorem start_meets {st : ThreadState t} (hlent : lent t = none)
    (halive : ∀ r, granted t st r ≠ .untouched → s.Has r)
    (hfree : ∀ r, Unlent lent (granted t st r) r)
    (hf : gpuThreads.rules.Meets Q (held (Function.update lent t (some (granted t st))) s) (f ())) :
    gpuThreads.rules.Meets Q (held lent s) (startThread t st >>= f) :=
  Watch.meets_perform_bind.mpr ⟨⟨hlent, fun r => ⟨halive r, hfree r⟩⟩, fun _ => hf⟩

/-- Joining a thread ends its loan; the rest of the program goes on with what has come
back. -/
theorem join_meets (hlent : lent t ≠ none)
    (hf : gpuThreads.rules.Meets Q (held (Function.update lent t none) s) (f ())) :
    gpuThreads.rules.Meets Q (held lent s) (joinThread t >>= f) :=
  Watch.meets_perform_bind.mpr ⟨hlent, fun _ => hf⟩

/-- Two grants clash where both are for the same device. -/
theorem not_clash_workerGrant {d' : ℕ} (h : d' ≠ d) (r : Res) :
    ¬ Clash (workerGrant d r) (workerGrant d' r) := by
  have hone : ∀ a x, ¬ Clash (Use.onlyIf a (x = d)) (Use.onlyIf a (x = d')) := by
    intro a x
    by_cases hx : x = d
    · have hx' : x ≠ d' := fun hx' => h (hx' ▸ hx)
      simpa [Use.onlyIf, hx'] using not_clash_untouched _
    · simpa [Use.onlyIf, hx] using fun hclash => not_clash_untouched _ (Clash.symm hclash)
  cases r with
  | device x => exact hone .alone x
  | ready x => exact hone .shared x
  | worker x => exact hone .shared x
  | fields x => exact hone .alone x
  | workers => exact not_clash_untouched _
  | monitor k => exact not_clash_untouched _
  | polling k => exact not_clash_untouched _

/-- The monitor clashes with no worker: it reaches their atomics alone. -/
theorem not_clash_monitorGrant (r : Res) :
    ¬ Clash (monitorGrant k workers r) (workerGrant d r) := by
  have hnone : ∀ a, ¬ Clash .untouched a := fun a h => not_clash_untouched a h.symm
  cases r with
  | worker x =>
    change ¬ Clash (Use.shared.onlyIf (x ∈ workers)) (Use.shared.onlyIf (x = d))
    by_cases hx : x ∈ workers
    · simpa [Use.onlyIf, hx] using not_clash_onlyIf (x = d)
    · simpa [Use.onlyIf, hx] using hnone _
  | workers => exact not_clash_untouched _
  | monitor x => exact not_clash_untouched _
  | polling x => exact not_clash_untouched _
  | device x => exact hnone _
  | ready x => exact hnone _
  | fields x => exact hnone _

/-- A use that depends on a condition is made only where that holds. -/
theorem of_onlyIf {a : Use} {p : Prop} [Decidable p] (h : a.onlyIf p ≠ .untouched) : p := by
  by_contra hp
  exact h (if_neg hp)

/-- What a worker's thread is lent is in the stock, and so is what the monitor's is
lent. -/
theorem workerGrant_has (hd : d ∈ L) {r : Res} (hr : workerGrant d r ≠ .untouched) :
    (manned L M).Has r := by
  cases r with
  | device x => simpa [Stock.Has, of_onlyIf hr] using hd
  | ready x => simpa [Stock.Has, of_onlyIf hr] using hd
  | worker x => simpa [Stock.Has, of_onlyIf hr] using hd
  | fields x => simpa [Stock.Has, of_onlyIf hr] using hd
  | workers => trivial
  | monitor x => exact absurd rfl hr
  | polling x => exact absurd rfl hr

theorem monitorGrant_has (hworkers : ∀ d ∈ workers, d ∈ L) (hk : k ∈ M) {r : Res}
    (hr : monitorGrant k workers r ≠ .untouched) : (manned L M).Has r := by
  cases r with
  | worker x => simpa [Stock.Has] using hworkers x (of_onlyIf hr)
  | workers => trivial
  | monitor x => simpa [Stock.Has, of_onlyIf hr] using hk
  | polling x => simpa [Stock.Has, of_onlyIf hr] using hk
  | device x => exact absurd rfl hr
  | ready x => exact absurd rfl hr
  | fields x => exact absurd rfl hr

/-- By induction on the workers: each start lends what that thread needs, which no
thread started before has. -/
theorem startWorkers_meets {ws : List Entry} (hL : ∀ d ∈ ids ws, d ∈ L) (hnodup : (ids ws).Nodup)
    (hnew : ∀ d ∈ ids ws, d ∉ S) :
    gpuThreads.rules.Meets (fun h _ => h = held (loans (S ∪ (ids ws).toFinset) none) (manned L M))
      (held (loans S none) (manned L M)) (GpuManager.startWorkers ws) := by
  induction ws generalizing S with
  | nil => exact congrArg (fun S => held (loans S none) (manned L M)) (by simp)
  | cons w ws ih =>
    -- the loans so far are other workers', and no two workers' grants clash
    obtain ⟨hw, hnodup⟩ := List.nodup_cons.mp hnodup
    have hd : w.d ∉ S := hnew w.d List.mem_cons_self
    refine view_passes.meets_bind fun _ => start_meets (if_neg hd)
      (fun r hr => workerGrant_has (hL w.d List.mem_cons_self) hr) (fun r => ?_) ?_
    · refine unlent_loans (fun d' hd' => not_clash_workerGrant ?_ r) fun _ _ h => nomatch h
      exact fun hsame => hd (hsame ▸ hd')
    · change gpuThreads.rules.Meets _
        (held (Function.update (loans S none) (.worker w.d) (some (workerGrant w.d))) _) _
      rw [loans_insert]
      refine (ih (fun d' hd' => hL d' (List.mem_cons_of_mem _ hd')) hnodup ?_).mono ?_
      · intro d' hd' hmem
        rcases Finset.mem_insert.mp hmem with rfl | hmem
        · exact hw hd'
        · exact hnew d' (List.mem_cons_of_mem _ hd') hmem
      · rintro h _ rfl
        change _ = held (loans (S ∪ (w.d :: ids ws).toFinset) none) _
        rw [List.toFinset_cons, Finset.insert_union, Finset.union_insert]

/-- What is on loan once the threads of a manager have been created. -/
def lentBy (has_sources : Bool) (m : ManagerState) : ThreadId → Option (Res → Use) :=
  loans (ids m.workers).toFinset (if has_sources then m.monitor else none)

/-- The workers' threads are started first and the monitor's after them, if there is
anything to poll. -/
theorem createWorkerThreads_meets (has_sources : Bool) {m : ManagerState}
    (hnodup : (ids m.workers).Nodup) (hwatched : Watched m) :
    gpuThreads.rules.Meets
      (fun h _ => h = held (lentBy has_sources m) (manned (ids m.workers) (monitors m)))
      (idle (manned (ids m.workers) (monitors m)))
      (GpuManager.createWorkerThreads has_sources m) := by
  obtain ⟨k, hk⟩ := hwatched
  have hmem : k ∈ monitors m := by simp [monitors, hk]
  have hstart := startWorkers_meets (L := ids m.workers) (M := monitors m) (S := ∅)
    (fun _ => id) hnodup fun d _ => Finset.notMem_empty d
  rw [loans_none] at hstart
  refine hstart.bind fun h _ hh => ?_
  rw [hh, Finset.empty_union, hk]
  dsimp only
  cases has_sources with
  | false =>
    rw [if_neg (by decide)]
    exact congrArg (fun lent => held lent _) rfl
  | true =>
    rw [if_pos rfl]
    refine start_meets (f := pure) rfl (fun r hr => monitorGrant_has (fun _ => id) hmem hr)
      (fun r => ?_) ?_
    · exact unlent_loans (fun d _ => not_clash_monitorGrant r) fun _ _ h => nomatch h
    · change held (Function.update _ _ (some (monitorGrant k (ids m.workers)))) _ = _
      rw [loans_monitor, lentBy, if_pos rfl, hk]

/-- A tick stores loads only, for which no loan has to end. -/
theorem schedule_meets (m : ManagerState) (loads : List (ℕ × ℤ)) :
    gpuThreads.rules.Meets (fun h _ => h = held (loans S monitor) (manned (ids m.workers) M))
      (held (loans S monitor) (manned (ids m.workers) M)) (GpuManager.schedule m loads) := by
  induction loads with
  | nil => rfl
  | cons load loads ih =>
    obtain ⟨i, load_ms⟩ := load
    unfold GpuManager.schedule
    cases hw : m.workers[i]? with
    | none => exact ih
    | some w =>
      have hd : w.d ∈ ids m.workers := List.mem_map_of_mem (List.mem_of_getElem? hw)
      exact view_passes.meets_bind fun _ => (setLoadSet_passes hd load_ms).meets_bind fun _ => ih

/-- By induction on the ticks: each leaves the loans and the stock as they were. -/
theorem passes_meets (m : ManagerState) (loads : List (List (ℕ × ℤ))) :
    gpuThreads.rules.Meets (fun h _ => h = held (loans S monitor) (manned (ids m.workers) M))
      (held (loans S monitor) (manned (ids m.workers) M)) (GpuManager.passes m loads) := by
  induction loads with
  | nil => rfl
  | cons load loads ih =>
    refine (schedule_meets m load).bind fun h _ hh => ?_
    rw [hh]
    exact ih

/-- Asking the threads to stop is a store to each, and ends no loan. -/
theorem requestWorkerThreadsStop_meets {m : ManagerState} (hwatched : Watched m) :
    gpuThreads.rules.Meets
      (fun h _ => h = held (loans S monitor) (manned (ids m.workers) (monitors m)))
      (held (loans S monitor) (manned (ids m.workers) (monitors m)))
      (GpuManager.requestWorkerThreadsStop m) := by
  obtain ⟨k, hk⟩ := hwatched
  have hmem : k ∈ monitors m := by simp [monitors, hk]
  unfold GpuManager.requestWorkerThreadsStop
  rw [hk]
  exact (requestMonitorStop_passes hmem).meets_bind fun _ =>
    forWorkers_meets view_passes fun d hd => requestStop_passes hd

/-- By induction on the workers: each join ends the loan of that worker's thread. -/
theorem joinWorkers_meets {ds : List ℕ} (hnodup : ds.Nodup) (hds : ∀ d ∈ ds, d ∈ S) :
    gpuThreads.rules.Meets (fun h _ => h = held (loans (S \ ds.toFinset) monitor) (manned L M))
      (held (loans S monitor) (manned L M)) (GpuManager.joinWorkers ds) := by
  induction ds generalizing S with
  | nil => exact congrArg (fun S => held (loans S monitor) (manned L M)) (by simp)
  | cons d ds ih =>
    obtain ⟨hd, hnodup⟩ := List.nodup_cons.mp hnodup
    have hmem : d ∈ S := hds d List.mem_cons_self
    refine view_passes.meets_bind fun _ => join_meets (by simp [loans, hmem]) ?_
    rw [loans_erase]
    refine (ih hnodup fun d' hd' => ?_).mono ?_
    · refine Finset.mem_erase.mpr ⟨fun hsame => hd (hsame ▸ hd'), ?_⟩
      exact hds d' (List.mem_cons_of_mem d hd')
    · rintro h _ rfl
      rw [List.toFinset_cons, Finset.sdiff_insert, Finset.erase_sdiff_comm]

/-- **`JoinWorkerThreads`** takes everything back, and ends the monitor and the workers. -/
theorem joinWorkerThreads_meets (has_sources : Bool) {m : ManagerState}
    (hnodup : (ids m.workers).Nodup) (hwatched : Watched m) :
    gpuThreads.rules.Meets
      (fun h m' => m' = { m with workers := [], monitor := none } ∧ h = idle ⟨∅, ∅, ∅, ∅⟩)
      (held (lentBy has_sources m) (manned (ids m.workers) (monitors m)))
      (GpuManager.joinWorkerThreads has_sources m) := by
  obtain ⟨k, hk⟩ := hwatched
  have hmonitors : monitors m = {k} := by simp [monitors, hk]
  have hself : (ids m.workers).toFinset \ (ids m.workers).toFinset = ∅ := Finset.sdiff_self _
  -- once the monitor is joined, it goes; then the workers
  have hrest : gpuThreads.rules.Meets
      (fun h m' => m' = { m with workers := [], monitor := none } ∧ h = idle ⟨∅, ∅, ∅, ∅⟩)
      (held (loans (ids m.workers).toFinset none) (manned (ids m.workers) {k})) (do
        main (.destroyMonitor k)
        GpuManager.joinWorkers (m.workers.map Entry.d)
        main .changeWorkers
        GpuManager.destroyWorkers (m.workers.map Entry.d)
        return { m with workers := [], monitor := none }) := by
    -- the workers that still run never had the monitor
    have hfree : ∀ r, r = .monitor k ∨ r = .polling k →
        Unlent (loans (ids m.workers).toFinset none) .alone r := by
      rintro r (rfl | rfl) <;>
        exact unlent_loans (fun _ _ => not_clash_untouched _) fun _ _ h => nomatch h
    refine main_meets trivial (by simp [touched, Stock.Has, hfree]) (fun _ _ => False.elim)
      fun _ => ?_
    have herase : ({k} : Finset ℕ).erase k = ∅ := by simp
    change gpuThreads.rules.Meets _ (held (loans (ids m.workers).toFinset none)
      (manned (ids m.workers) (({k} : Finset ℕ).erase k))) _
    rw [herase]
    refine (joinWorkers_meets hnodup fun d hd => List.mem_toFinset.mpr hd).bind fun h _ hh => ?_
    -- all have been joined: whatever there is may be destroyed
    rw [hh, hself, loans_none]
    refine idle_meets trivial (by simp [touched, Stock.Has]) (fun _ _ => False.elim) fun _ => ?_
    refine (destroyWorkers_meets hnodup (fun d hd => List.mem_toFinset.mpr hd)
      (Finset.Subset.refl _)).bind fun h _ hh => ⟨rfl, ?_⟩
    rw [hh, hself]
  unfold GpuManager.joinWorkerThreads lentBy
  rw [hk, hmonitors]
  cases has_sources with
  -- without sources the monitor has no thread
  | false => exact hrest
  | true =>
    refine join_meets (by simp [loans]) ?_
    rw [if_pos rfl, loans_no_monitor]
    exact hrest

end Running

/-! ## The life of a manager -/

/-- With no loan left the manager's members go in the order of the code, and nothing
remains. -/
theorem destroy_meets {m : ManagerState} (hnodup : (m.pending ++ ids m.workers).Nodup) :
    gpuThreads.rules.Meets (fun h _ => h = idle ⟨∅, ∅, ∅, ∅⟩) (idle (stockOf m))
      (GpuManager.destroy m) := by
  have hworkers : (ids m.workers).Nodup := List.Nodup.of_append_right hnodup
  have hdisjoint := List.disjoint_of_nodup_append hnodup
  have hself : ∀ s : Finset ℕ, s \ s = ∅ := Finset.sdiff_self
  have hpending : (m.pending ++ ids m.workers).toFinset \ (ids m.workers).toFinset
      = m.pending.toFinset := by
    ext d
    simp only [Finset.mem_sdiff, List.mem_toFinset, List.mem_append]
    exact ⟨fun h => h.1.resolve_right h.2, fun h => ⟨.inl h, fun h' => hdisjoint h h'⟩⟩
  -- without a monitor
  have hrest : gpuThreads.rules.Meets (fun h _ => h = idle ⟨∅, ∅, ∅, ∅⟩)
      (idle (staffed (m.pending ++ ids m.workers).toFinset (ids m.workers).toFinset ∅)) (do
        main .changeWorkers
        GpuManager.destroyWorkers (m.workers.map Entry.d)
        GpuManager.destroyDevices m.pending) := by
    refine idle_meets trivial (by simp [touched, Stock.Has]) (fun _ _ => False.elim) fun _ => ?_
    refine (destroyWorkers_meets hworkers (fun d hd => List.mem_toFinset.mpr hd) ?_).bind
      fun h _ hh => ?_
    · intro d hd
      exact List.mem_toFinset.mpr (List.mem_append_right _ (List.mem_toFinset.mp hd))
    · rw [hh, hpending, hself]
      refine (destroyDevices_meets (List.Nodup.of_append_left hnodup) fun d hd =>
        List.mem_toFinset.mpr hd).mono fun h _ hh => ?_
      rw [hh, hself]
  unfold GpuManager.destroy stockOf
  cases hmonitor : m.monitor with
  | none =>
    have hmonitors : monitors m = ∅ := by simp [monitors, hmonitor]
    rw [hmonitors]
    exact hrest
  | some e =>
    obtain ⟨k, workers⟩ := e
    have hmonitors : monitors m = {k} := by simp [monitors, hmonitor]
    have herase : ({k} : Finset ℕ).erase k = ∅ := by simp
    rw [hmonitors]
    refine idle_meets trivial (by simp [touched, Stock.Has]) (fun _ _ => False.elim) fun _ => ?_
    change gpuThreads.rules.Meets _ (idle (staffed (m.pending ++ ids m.workers).toFinset
      (ids m.workers).toFinset (({k} : Finset ℕ).erase k))) _
    rw [herase]
    exact hrest

/-- **The manager's program meets the rules**, and nothing is left at its end. -/
theorem life_meets (options : Core.Options) (has_sources : Bool) (indices : List ℤ)
    (loads : List (List (ℕ × ℤ))) :
    gpuThreads.rules.Meets (fun h _ => h = idle ⟨∅, ∅, ∅, ∅⟩)
      (idle ⟨Finset.range indices.length, ∅, ∅, ∅⟩)
      (GpuManager.life options has_sources indices loads) := by
  refine (init_meets options indices).bind ?_
  rintro h ⟨m, ok⟩ ⟨hnodup, rfl, hok⟩
  cases ok with
  -- `Init` failed: the manager is destroyed with what it has
  | false => exact destroy_meets hnodup
  | true =>
    obtain ⟨hpending, hwatched⟩ : m.pending = [] ∧ Watched m := hok rfl
    have hworkers : (ids m.workers).Nodup := List.Nodup.of_append_right hnodup
    dsimp only
    rw [if_pos rfl, stockOf_of_no_pending hpending]
    refine (createWorkerThreads_meets has_sources hworkers hwatched).bind ?_
    rintro h - rfl
    refine (passes_meets m loads).bind ?_
    rintro h - rfl
    refine (requestWorkerThreadsStop_meets hwatched).bind ?_
    rintro h - rfl
    refine (joinWorkerThreads_meets has_sources hworkers hwatched).bind ?_
    rintro h m' ⟨rfl, rfl⟩
    have hdestroy := destroy_meets (m := { m with workers := [], monitor := none }) (by
      dsimp only
      rw [hpending]
      exact List.nodup_nil)
    rw [stockOf_of_no_pending (m := { m with workers := [], monitor := none }) hpending] at hdestroy
    exact hdestroy

end Loadmaster.Gpu
