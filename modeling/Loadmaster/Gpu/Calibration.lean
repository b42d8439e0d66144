/-
Calibration on any device (`CalibrateBaseLoopCount` in `gpu/worker.cc`).

A device is a handler: whether a launch succeeds and what the clock shows may
depend on all that happened before, and nothing is asked of either. What is
counted are the launches, in the order they were made. `Makes` bounds them for a
piece of the program, and says that the piece succeeds exactly when all of its
launches do; bounds of pieces run one after another add up.
-/
import Loadmaster.Gpu.Worker

set_option autoImplicit false

namespace Loadmaster.Gpu.GpuWorkerContext

open Effect

/-! ## Launches -/

structure KernelRun where
  site : Site
  loop_count : ℤ
  ok : Bool
deriving DecidableEq, Repr

/-- A launch, if the event is one. -/
def kernelRun : Event Call Answer → Option KernelRun
  | ⟨.runKernel site loop_count _, ok⟩ => some ⟨site, loop_count, ok⟩
  | _ => none

/-- The launches of a run. -/
def kernelRuns (h : List (Event Call Answer)) : List KernelRun := h.filterMap kernelRun

/-- Those of one of the places that launch. -/
def runsAt (site : Site) (h : List (Event Call Answer)) : List KernelRun :=
  (kernelRuns h).filter fun r => r.site = site

def runWatch : Watch Call Answer (List KernelRun) := .recording kernelRun

/-- What a kernel can be asked for. -/
def InRange (loop_count : ℤ) : Prop := 1 ≤ loop_count ∧ loop_count ≤ kGpuKernelLoopBaseMax

/-- At most `bound` launches, all of one place, and all of them but for the last
if it was not to succeed. -/
structure Made (site : Site) (bound : ℕ) (ok : Bool) (runs : List KernelRun) : Prop where
  site_eq : ∀ r ∈ runs, r.site = site
  range : ∀ r ∈ runs, InRange r.loop_count
  length_le : runs.length ≤ bound
  ok_eq : ok = runs.all fun r => r.ok

/-- What a calibration does not touch until its end. -/
structure SameBase (w w' : Worker) : Prop where
  base_loop_count : w'.base_loop_count = w.base_loop_count
  calibrated : w'.calibrated = w.calibrated

/-- The piece made such launches after those of `v`, and came back with a result
if they succeeded. -/
def Makes (v : List KernelRun) (w : Worker) (site : Site) (bound : ℕ) {β : Type}
    (v' : List KernelRun) (r : Worker × Option β) : Prop :=
  ∃ runs, v' = v ++ runs ∧ Made site bound r.2.isSome runs ∧ SameBase w r.1

variable {v v' : List KernelRun} {w w' : Worker} {site : Site} {β : Type}

theorem SameBase.refl (w : Worker) : SameBase w w := ⟨rfl, rfl⟩

/-- A worker keeps its base over a chain of steps that do. -/
theorem SameBase.trans {w'' : Worker} (h : SameBase w w') (h' : SameBase w' w'') : SameBase w w'' :=
  ⟨h'.base_loop_count.trans h.base_loop_count, h'.calibrated.trans h.calibrated⟩

/-- What is within a bound is within a larger one. -/
theorem Made.mono {b b' : ℕ} {ok : Bool} {runs : List KernelRun} (h : Made site b ok runs)
    (hb : b ≤ b') : Made site b' ok runs :=
  ⟨h.site_eq, h.range, h.length_le.trans hb, h.ok_eq⟩

/-- The launches of two parts add up, and the first must have succeeded for the second
to be made. -/
theorem Made.append {b b' : ℕ} {ok : Bool} {runs runs' : List KernelRun}
    (h : Made site b true runs) (h' : Made site b' ok runs') :
    Made site (b + b') ok (runs ++ runs') where
  site_eq := List.forall_mem_append.mpr ⟨h.site_eq, h'.site_eq⟩
  range := List.forall_mem_append.mpr ⟨h.range, h'.range⟩
  length_le := by
    rw [List.length_append]
    exact Nat.add_le_add h.length_le h'.length_le
  ok_eq := by rw [List.all_append, ← h.ok_eq, ← h'.ok_eq, Bool.true_and]

/-- A piece that goes on after one that succeeded. -/
theorem Makes.after {b : ℕ} (b' : ℕ) {runs : List KernelRun} {r : Worker × Option β}
    (h : Made site b true runs) (hw : SameBase w w') (h' : Makes (v ++ runs) w' site b' v' r) :
    Makes v w site (b + b') v' r := by
  obtain ⟨runs', rfl, hmade, hsame⟩ := h'
  exact ⟨runs ++ runs', List.append_assoc .., h.append hmade, hw.trans hsame⟩

/-- A piece that ends with one that failed. -/
theorem Makes.failed {b b' : ℕ} {runs : List KernelRun} (h : Made site b false runs)
    (hb : b ≤ b') (hw : SameBase w w') : Makes v w site b' (v ++ runs) (w', (none : Option β)) :=
  ⟨runs, rfl, h.mono hb, hw⟩

/-! ## The pieces -/

/-- A timed launch is one launch with a count in range, and a median takes three. -/
theorem timeKernelMs_makes {count : ℤ} (hcount : InRange count) :
    runWatch.Meets (Makes v w site 1) v (timeKernelMs site w count) := by
  unfold timeKernelMs
  rw [Watch.meets_perform_bind]
  refine ⟨trivial, fun start => ?_⟩
  rw [Watch.meets_perform_bind]
  refine ⟨trivial, fun ok => ?_⟩
  have hmade : Made site 1 ok [⟨site, count, ok⟩] :=
    ⟨by simp, by simpa using hcount, le_rfl, by simp⟩
  have hsee : runWatch.see (runWatch.see v ⟨.now, start⟩) ⟨.runKernel site count 0, ok⟩
      = v ++ [⟨site, count, ok⟩] := by
    change (v ++ []) ++ _ = _
    rw [List.append_nil]
    rfl
  rw [hsee]
  by_cases hran : ok = true
  · rw [if_pos hran, Watch.meets_perform_bind]
    refine ⟨trivial, fun stop => Watch.meets_pure.mpr ?_⟩
    rw [hran] at hmade ⊢
    exact ⟨_, List.append_nil _, hmade, rfl, rfl⟩
  · rw [if_neg hran]
    rw [Bool.not_eq_true] at hran
    rw [hran] at hmade ⊢
    exact Watch.meets_pure.mpr ⟨_, rfl, hmade, .refl w⟩

theorem medianKernelMs_makes {count : ℤ} (hcount : InRange count) :
    runWatch.Meets (Makes v w .refining 3) v (medianKernelMs w count) := by
  unfold medianKernelMs
  -- three times: a timed launch, and out if it failed
  apply (timeKernelMs_makes hcount).bind
  rintro v₁ ⟨w₁, _ | a⟩ ⟨runs₁, rfl, h₁, hw₁⟩
  · exact Watch.meets_pure.mpr (.failed h₁ (by decide) hw₁)
  apply (timeKernelMs_makes hcount).bind
  rintro v₂ ⟨w₂, _ | b⟩ ⟨runs₂, rfl, h₂, hw₂⟩
  · exact Watch.meets_pure.mpr (.after 2 h₁ hw₁ (.failed h₂ (by decide) hw₂))
  apply (timeKernelMs_makes hcount).bind
  rintro v₃ ⟨w₃, _ | c⟩ ⟨runs₃, rfl, h₃, hw₃⟩
  · exact Watch.meets_pure.mpr (.after 2 h₁ hw₁ (.after 1 h₂ hw₂
      (.failed h₃ le_rfl hw₃)))
  · exact Watch.meets_pure.mpr (.after 2 h₁ hw₁ (.after 1 h₂ hw₂
      ⟨runs₃, rfl, h₃, hw₃⟩))

/-- The counts of the growing samples. -/
def growth (k : ℕ) : ℤ := min (1024 * 4 ^ k) kGpuKernelLoopBaseMax

/-- The counts of the growing are powers of four, cut off at the largest count. -/
theorem inRange_growth (k : ℕ) : InRange (growth k) := by
  have hpos : (1 : ℤ) ≤ 4 ^ k := one_le_pow₀ (by norm_num)
  unfold growth InRange kGpuKernelLoopBaseMax
  omega

/-- The tenth power is above the maximum. -/
theorem lt_ten_of_growth_lt {k : ℕ} (h : growth k < kGpuKernelLoopBaseMax) : k < 10 := by
  by_contra hk
  have hpow : (4 : ℤ) ^ 10 ≤ 4 ^ k := pow_le_pow_right₀ (by norm_num) (by omega)
  unfold growth kGpuKernelLoopBaseMax at h
  omega

theorem growth_succ (k : ℕ) : min (growth k * 4) kGpuKernelLoopBaseMax = growth (k + 1) := by
  have hpos : (1 : ℤ) ≤ 4 ^ k := one_le_pow₀ (by norm_num)
  unfold growth kGpuKernelLoopBaseMax
  rw [pow_succ]
  omega

/-- **Growing** takes eleven samples at most, of which `k` are made. -/
theorem growSample_makes {count : ℤ} (hcount : 0 < count) {k : ℕ} (hk : k ≤ 10)
    (heq : count = growth k) :
    runWatch.Meets (fun v' r => Makes v w .growing (11 - k) v' r ∧
      ∀ s ∈ r.2, InRange s.1) v (growSample w count hcount) := by
  fun_induction growSample w count hcount generalizing v k with
  | case1 w count hcount ih =>
    have hrange : InRange count := heq ▸ inRange_growth k
    apply (timeKernelMs_makes hrange).bind
    rintro v₁ ⟨w₁, _ | elapsed⟩ ⟨runs₁, rfl, h₁, hw₁⟩
    · exact Watch.meets_pure.mpr ⟨.failed h₁ (by omega) hw₁, by simp⟩
    · dsimp only
      split_ifs with hlong
      · refine Watch.meets_pure.mpr ⟨⟨runs₁, rfl, h₁.mono (by omega), hw₁⟩, ?_⟩
        intro s hs
        cases hs
        exact hrange
      · -- it goes on only below the maximum, and so below the tenth power
        have hlt : k < 10 := by
          rw [heq] at hlong
          exact lt_ten_of_growth_lt (not_le.mp (not_or.mp hlong).2)
        refine (ih w₁ elapsed hlong (Nat.succ_le_of_lt hlt) ?_).mono ?_
        · rw [heq]
          exact growth_succ k
        · rintro v' r ⟨hr, hs⟩
          have hafter := Makes.after _ h₁ hw₁ hr
          rw [show 1 + (11 - (k + 1)) = 11 - k by omega] at hafter
          exact ⟨hafter, hs⟩

/-- The cast to `int` is of a number it can hold. -/
theorem inRange_extrapolate (count : ℤ) (elapsed_ms target_ms : ℚ) :
    InRange (extrapolate count elapsed_ms target_ms) := by
  unfold extrapolate InRange
  split_ifs
  · exact ⟨by decide, le_rfl⟩
  · have hle : (1 : ℚ) ≤ kGpuKernelLoopBaseMax := by norm_num [kGpuKernelLoopBaseMax]
    obtain ⟨hlo, hhi⟩ := Round.clamp_mem (x := count * target_ms / elapsed_ms) hle
    refine ⟨Int.le_floor.mpr (by exact_mod_cast hlo), Int.le_of_lt_add_one ?_⟩
    rw [Int.floor_lt]
    push_cast
    exact hhi.trans_lt (lt_add_one _)

/-- **Refining** takes three launches a round. -/
theorem refineCount_makes (rounds : ℕ) {count : ℤ} {elapsed : ℚ} (hcount : InRange count) :
    runWatch.Meets (fun v' r => Makes v w .refining (3 * rounds) v' r ∧
      ∀ s ∈ r.2, InRange s.1) v (refineCount w rounds count elapsed) := by
  induction rounds generalizing v w count elapsed with
  | zero =>
    refine Watch.meets_pure.mpr ⟨⟨[], (List.append_nil v).symm, ?_, .refl w⟩, ?_⟩
    · exact ⟨by simp, by simp, by simp, rfl⟩
    · intro s hs
      cases hs
      exact hcount
  | succ rounds ih =>
    have hnext := inRange_extrapolate count elapsed kScheduleIntervalMS
    apply (medianKernelMs_makes hnext).bind
    rintro v₁ ⟨w₁, _ | elapsed⟩ ⟨runs₁, rfl, h₁, hw₁⟩
    · exact Watch.meets_pure.mpr ⟨.failed h₁ (by omega) hw₁, by simp⟩
    · dsimp only
      split_ifs
      · refine Watch.meets_pure.mpr ⟨⟨runs₁, rfl, h₁.mono (by omega), hw₁⟩, ?_⟩
        intro s hs
        cases hs
        exact hnext
      · refine (ih hnext).mono ?_
        rintro v' r ⟨hr, hs⟩
        have hafter := Makes.after _ h₁ hw₁ hr
        rw [show 3 + 3 * rounds = 3 * (rounds + 1) by omega] at hafter
        exact ⟨hafter, hs⟩

/-! ## The whole of it -/

/-- How many launches a place makes at most. -/
def mostRuns : Site → ℕ
  | .warmUp => 1
  | .growing => 11
  | .refining => 3 * kGpuCalibrationRefineRounds
  | .tick => 0

/-- What a calibration that made these launches reports. -/
structure Reports (w : Worker) (runs : List KernelRun) (r : Worker × Bool) : Prop where
  at_most : ∀ site, (runs.filter fun l => l.site = site).length ≤ mostRuns site
  range : ∀ l ∈ runs, InRange l.loop_count
  succeeded : r.2 = true → (∀ l ∈ runs, l.ok = true) ∧ InRange r.1.base_loop_count ∧
    r.1.calibrated = true
  failed : r.2 = false → SameBase w r.1

/-- A bound on the launches of one site bounds them among all. -/
theorem Made.length_filter_le {b : ℕ} {ok : Bool} {runs : List KernelRun}
    (h : Made site b ok runs) (s : Site) :
    (runs.filter fun l => l.site = s).length ≤ if s = site then b else 0 := by
  split_ifs with hs
  · exact (List.length_filter_le _ _).trans h.length_le
  · rw [List.filter_eq_nil_iff.mpr, List.length_nil]
    intro l hl
    rw [h.site_eq l hl]
    simpa using Ne.symm hs

/-- The three places launch one after another. -/
theorem length_filter_le {warm grown refined : List KernelRun} {ok₁ ok₂ ok₃ : Bool}
    (h₁ : Made .warmUp 1 ok₁ warm) (h₂ : Made .growing 11 ok₂ grown)
    (h₃ : Made .refining (3 * kGpuCalibrationRefineRounds) ok₃ refined) (s : Site) :
    ((warm ++ grown ++ refined).filter fun l => l.site = s).length ≤ mostRuns s := by
  have hw := h₁.length_filter_le s
  have hg := h₂.length_filter_le s
  have hr := h₃.length_filter_le s
  rw [List.filter_append, List.filter_append, List.length_append, List.length_append]
  calc _ ≤ (if s = .warmUp then 1 else 0) + (if s = .growing then 11 else 0)
        + (if s = .refining then 3 * kGpuCalibrationRefineRounds else 0) :=
      Nat.add_le_add (Nat.add_le_add hw hg) hr
    _ = mostRuns s := by cases s <;> rfl

theorem made_nil (site : Site) (b : ℕ) : Made site b true [] :=
  ⟨by simp, by simp, Nat.zero_le _, rfl⟩

theorem made_warmUp (ok : Bool) : Made .warmUp 1 ok [⟨.warmUp, 1, ok⟩] :=
  ⟨by simp, by simp [InRange, kGpuKernelLoopBaseMax], le_rfl, by simp⟩

/-- What the three places launch is in range. -/
theorem inRange_runs {warm grown refined : List KernelRun} {ok₁ ok₂ ok₃ : Bool}
    (h₁ : Made .warmUp 1 ok₁ warm) (h₂ : Made .growing 11 ok₂ grown)
    (h₃ : Made .refining (3 * kGpuCalibrationRefineRounds) ok₃ refined) :
    ∀ l ∈ warm ++ grown ++ refined, InRange l.loop_count :=
  List.forall_mem_append.mpr ⟨List.forall_mem_append.mpr ⟨h₁.range, h₂.range⟩, h₃.range⟩

/-- Every way out after a launch that failed logs a line and changes nothing. -/
theorem fails {warm grown refined : List KernelRun} {ok₁ ok₂ ok₃ : Bool}
    (h₁ : Made .warmUp 1 ok₁ warm) (h₂ : Made .growing 11 ok₂ grown)
    (h₃ : Made .refining (3 * kGpuCalibrationRefineRounds) ok₃ refined) (hw : SameBase w w') :
    runWatch.Meets (Reports w) (warm ++ grown ++ refined)
      (do log .launchFailedDuringCalibration; return (w', false)) := by
  refine ⟨trivial, fun _ => ?_⟩
  change Reports w (warm ++ grown ++ refined ++ []) (w', false)
  rw [List.append_nil]
  exact ⟨length_filter_le h₁ h₂ h₃, inRange_runs h₁ h₂ h₃, by simp, fun _ => hw⟩

/-- **Calibration**, whatever the device answers. -/
theorem calibrateBaseLoopCount_reports :
    runWatch.Meets (Reports w) [] (calibrateBaseLoopCount w) := by
  unfold calibrateBaseLoopCount
  split_ifs
  · refine Watch.meets_pure.mpr ⟨by simp, by simp, by simp, fun _ => .refl w⟩
  -- the warm-up
  rw [Watch.meets_perform_bind]
  refine ⟨trivial, fun ok => ?_⟩
  have hwarm := made_warmUp ok
  by_cases hran : ok = true
  swap
  · rw [if_pos (by simpa using hran)]
    have hfails := fails hwarm (made_nil .growing 11) (made_nil .refining _) (.refl w)
    rw [List.append_nil, List.append_nil] at hfails
    exact hfails
  rw [if_neg (by simpa using hran)]
  rw [hran] at hwarm ⊢
  -- growing, from the first power
  apply (growSample_makes (k := 0) _ (by omega) rfl).bind
  rintro v₁ ⟨w₁, _ | ⟨count, elapsed⟩⟩ ⟨⟨grown, rfl, hgrown, hw₁⟩, hcount⟩
  · have hfails := fails hwarm hgrown (made_nil .refining _) hw₁
    rw [List.append_nil] at hfails
    exact hfails
  -- refining, from what was grown
  apply (refineCount_makes kGpuCalibrationRefineRounds (hcount _ rfl)).bind
  rintro v₂ ⟨w₂, _ | ⟨count, elapsed⟩⟩ ⟨⟨refined, rfl, hrefined, hw₂⟩, hrange⟩
  · exact fails hwarm hgrown hrefined (hw₁.trans hw₂)
  have hmax : max 1 count = count := max_eq_right (hrange _ rfl).1
  have hdone : Reports w ([⟨.warmUp, 1, true⟩] ++ grown ++ refined)
      ({ w₂ with base_loop_count := max 1 count, calibrated := true }, true) := by
    refine ⟨length_filter_le hwarm hgrown hrefined, inRange_runs hwarm hgrown hrefined, ?_, by simp⟩
    intro _
    have hall : ([KernelRun.mk .warmUp 1 true] ++ grown ++ refined).all (fun l => l.ok) = true := by
      rw [List.all_append, List.all_append, ← hwarm.ok_eq, ← hgrown.ok_eq, ← hrefined.ok_eq]
      rfl
    have hbase : InRange (max 1 count) := by
      rw [hmax]
      exact hrange _ rfl
    exact ⟨List.all_eq_true.mp hall, hbase, rfl⟩
  -- what is logged of a success makes no launches
  dsimp only
  split_ifs
  · refine ⟨trivial, fun _ => ⟨trivial, fun _ => ?_⟩⟩
    change Reports w ([⟨.warmUp, 1, true⟩] ++ grown ++ refined ++ [] ++ []) _
    rw [List.append_nil, List.append_nil]
    exact hdone
  · refine ⟨trivial, fun _ => ?_⟩
    change Reports w ([⟨.warmUp, 1, true⟩] ++ grown ++ refined ++ []) _
    rw [List.append_nil]
    exact hdone

/-- Neither the launch's argument nor its growth overflows. -/
theorem InRange.fits {loop_count : ℤ} (h : InRange loop_count) :
    (Int32.ofInt loop_count).toInt = loop_count ∧
      (Int64.ofInt loop_count * 4).toInt = loop_count * 4 := by
  obtain ⟨hlo, hhi⟩ := h
  rw [kGpuKernelLoopBaseMax] at hhi
  refine ⟨Int32.toInt_ofInt_of_le (by omega) (by omega), ?_⟩
  rw [show (4 : Int64) = .ofInt 4 from rfl, ← Int64.ofInt_mul]
  exact Int64.toInt_ofInt_of_le (by omega) (by omega)

/-- **Calibration ends and reports honestly**: on every device it returns after at
most 1, 11 and 9 launches; success means that every launch succeeded and the count is
one a kernel can be asked for; failure leaves the worker's count. The launches are
counted phase by phase, over any answers (`calibrateBaseLoopCount_reports`): each
phase is a loop with its own bound, and leaves at the first launch that fails. -/
theorem reports_honestly (w : Worker) {δ : Type} (device : Handler Call Answer δ) (d : δ) :
    let (r, _, h) := (calibrateBaseLoopCount w).handle device d []
    (runsAt .warmUp h).length ≤ 1 ∧ (runsAt .growing h).length ≤ 11 ∧
      (runsAt .refining h).length ≤ 9 ∧ runsAt .tick h = [] ∧
      (r.2 = true → (∀ l ∈ kernelRuns h, l.ok = true) ∧ 1 ≤ r.1.base_loop_count ∧
        r.1.base_loop_count ≤ kGpuKernelLoopBaseMax ∧ r.1.calibrated = true) ∧
      (r.2 = false →
        r.1.base_loop_count = w.base_loop_count ∧ r.1.calibrated = w.calibrated) ∧
      ∀ l ∈ kernelRuns h, 1 ≤ l.loop_count ∧ l.loop_count ≤ kGpuKernelLoopBaseMax ∧
        (Int32.ofInt l.loop_count).toInt = l.loop_count ∧
        (Int64.ofInt l.loop_count * 4).toInt = l.loop_count * 4 := by
  have hreports := (calibrateBaseLoopCount_reports.returns
    ((calibrateBaseLoopCount w).returns_handle device d)).2
  rw [runWatch, Watch.after_recording, List.nil_append] at hreports
  refine ⟨hreports.at_most .warmUp, hreports.at_most .growing, hreports.at_most .refining,
    List.length_eq_zero_iff.mp (Nat.le_zero.mp (hreports.at_most .tick)), ?_, ?_, ?_⟩
  · intro hok
    obtain ⟨hall, hrange, hcal⟩ := hreports.succeeded hok
    exact ⟨hall, hrange.1, hrange.2, hcal⟩
  · intro hok
    exact ⟨(hreports.failed hok).base_loop_count, (hreports.failed hok).calibrated⟩
  · intro l hl
    have hrange := hreports.range l hl
    exact ⟨hrange.1, hrange.2, hrange.fits⟩

end Loadmaster.Gpu.GpuWorkerContext
