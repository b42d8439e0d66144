/-
**The traffic cost fit recovers the true slope** (`UpdateMemCost` in
`gpu/worker.cc`, exact arithmetic).

The fit keeps five sums in which older launches fade. They fade alike, so a line
that every launch is on is one that the sums are on (`Follows`), and the slope
that is computed from them is that of the line. The launches weigh at least 1
together and each moves some memory, so the mean is positive, and a variance
that passes the test against it is not 0.
-/
import Loadmaster.Gpu.Worker
import Loadmaster.Lib.Run

set_option autoImplicit false

namespace Loadmaster.Gpu.GpuWorkerContext

/-! ## The divisions -/

/-- A division that is not by 0. -/
def quotient (a b : ℚ) : Option ℚ := if b = 0 then none else some (a / b)

theorem quotient_of_ne {a b : ℚ} (h : b ≠ 0) : quotient a b = some (a / b) := if_neg h

namespace Worker

/-- `UpdateMemCost`, with no result where it would divide by 0. -/
def checkedUpdateMemCost (w : Worker) (mib residual_ms : ℚ) : Option Worker :=
  let f := MemCostFit.add w.mem_cost_fit mib residual_ms
  let w := { w with mem_cost_fit := f }
  if f.launches < kGpuMemCostMinLaunches then some w
  else do
    let mean_x ← quotient f.x f.w
    let mean_xx ← quotient f.xx f.w
    let var_x := mean_xx - mean_x * mean_x
    if var_x < kGpuMemCostMinSpread * kGpuMemCostMinSpread * mean_x * mean_x then some w
    else do
      let mean_xy ← quotient f.xy f.w
      let shift ← quotient (mean_x * f.y) f.w
      let slope ← quotient (mean_xy - shift) var_x
      some { w with mem_ms_per_mib := slope }

end Worker

namespace MemCostFit

/-- The mean and the variance of the traffic. -/
def meanX (f : MemCostFit) : ℚ := f.x / f.w

def varX (f : MemCostFit) : ℚ := f.xx / f.w - f.meanX * f.meanX

/-- There are enough launches, and they spread enough, for a slope. -/
def Tells (f : MemCostFit) : Prop :=
  kGpuMemCostMinLaunches ≤ f.launches ∧
    kGpuMemCostMinSpread * kGpuMemCostMinSpread * f.meanX * f.meanX ≤ f.varX

instance (f : MemCostFit) : Decidable f.Tells := inferInstanceAs (Decidable (_ ∧ _))

/-- The sums of launches on the line with slope `c` and intercept `o`. -/
structure Follows (c o : ℚ) (f : MemCostFit) : Prop where
  y_eq : f.y = c * f.x + o * f.w
  xy_eq : f.xy = c * f.xx + o * f.x

variable {f : MemCostFit} {c o mib : ℚ}

/-- What a launch adds outweighs what has faded. -/
theorem add_pos (residual_ms : ℚ) (hw : 0 ≤ f.w) (hx : 0 ≤ f.x) (hmib : 0 < mib) :
    0 < (Worker.MemCostFit.add f mib residual_ms).w ∧
      0 < (Worker.MemCostFit.add f mib residual_ms).x := by
  have hkeep : (0 : ℚ) ≤ 1 - kGpuMemCostForget := by norm_num [kGpuMemCostForget]
  have hfaded := mul_nonneg hw hkeep
  have hfaded' := mul_nonneg hx hkeep
  constructor
  · change 0 < f.w * (1 - kGpuMemCostForget) + 1
    linarith
  · change 0 < f.x * (1 - kGpuMemCostForget) + mib
    linarith

/-- A slope is not taken of launches that are all alike. -/
theorem Tells.varX_pos (h : f.Tells) (hw : 0 < f.w) (hx : 0 < f.x) : 0 < f.varX := by
  have hmean : 0 < f.meanX := div_pos hx hw
  have hspread : (0 : ℚ) < kGpuMemCostMinSpread := by norm_num [kGpuMemCostMinSpread]
  exact (mul_pos (mul_pos (mul_pos hspread hspread) hmean) hmean).trans_le h.2

theorem follows_empty : Follows c o {} := ⟨by simp, by simp⟩

/-- One more launch on the line. -/
theorem Follows.add (h : Follows c o f) :
    Follows c o (Worker.MemCostFit.add f mib (c * mib + o)) where
  y_eq := by
    change f.y * (1 - kGpuMemCostForget) + (c * mib + o)
      = c * (f.x * (1 - kGpuMemCostForget) + mib) + o * (f.w * (1 - kGpuMemCostForget) + 1)
    rw [h.y_eq]
    ring
  xy_eq := by
    change f.xy * (1 - kGpuMemCostForget) + mib * (c * mib + o)
      = c * (f.xx * (1 - kGpuMemCostForget) + mib * mib) + o * (f.x * (1 - kGpuMemCostForget) + mib)
    rw [h.xy_eq]
    ring

/-- **The slope of the sums is that of the line.** -/
theorem Follows.slope (h : Follows c o f) (hw : 0 < f.w) (hvar : f.varX ≠ 0) :
    (f.xy / f.w - f.meanX * f.y / f.w) / f.varX = c := by
  rw [div_eq_iff hvar, h.xy_eq, h.y_eq]
  unfold varX meanX
  field_simp
  ring

end MemCostFit

/-! ## One launch -/

variable {w : Worker} {mib residual_ms : ℚ}

/-- The fit with the launch in it. -/
def fitWith (w : Worker) (mib residual_ms : ℚ) : MemCostFit :=
  Worker.MemCostFit.add w.mem_cost_fit mib residual_ms

@[simp] theorem updateMemCost_fit :
    (w.updateMemCost mib residual_ms).mem_cost_fit = fitWith w mib residual_ms := by
  obtain ⟨cost, heq⟩ := w.updateMemCost_frame mib residual_ms
  rw [heq]
  rfl

/-- **What a launch does to the cost.** -/
theorem updateMemCost_cases :
    (fitWith w mib residual_ms).Tells ∧
        w.updateMemCost mib residual_ms = { w with
          mem_cost_fit := fitWith w mib residual_ms
          mem_ms_per_mib := ((fitWith w mib residual_ms).xy / (fitWith w mib residual_ms).w
            - (fitWith w mib residual_ms).meanX * (fitWith w mib residual_ms).y
              / (fitWith w mib residual_ms).w) / (fitWith w mib residual_ms).varX } ∨
      ¬ (fitWith w mib residual_ms).Tells ∧
        w.updateMemCost mib residual_ms = { w with mem_cost_fit := fitWith w mib residual_ms } := by
  unfold Worker.updateMemCost
  dsimp only
  split_ifs with hfew hflat
  · exact .inr ⟨fun h => not_le.mpr hfew h.1, rfl⟩
  · exact .inr ⟨fun h => not_le.mpr hflat h.2, rfl⟩
  · exact .inl ⟨⟨not_lt.mp hfew, not_lt.mp hflat⟩, rfl⟩

/-- No divisor is 0. -/
theorem checkedUpdateMemCost_eq (hw : 0 < (fitWith w mib residual_ms).w)
    (hx : 0 < (fitWith w mib residual_ms).x) :
    w.checkedUpdateMemCost mib residual_ms = some (w.updateMemCost mib residual_ms) := by
  unfold Worker.checkedUpdateMemCost Worker.updateMemCost
  dsimp only
  change 0 < (Worker.MemCostFit.add w.mem_cost_fit mib residual_ms).w at hw
  by_cases hfew : (Worker.MemCostFit.add w.mem_cost_fit mib residual_ms).launches
      < kGpuMemCostMinLaunches
  · rw [if_pos hfew, if_pos hfew]
  rw [if_neg hfew, if_neg hfew]
  simp only [quotient_of_ne hw.ne', Option.bind_eq_bind, Option.bind_some]
  split_ifs with hflat
  · rfl
  · have htells : (fitWith w mib residual_ms).Tells := ⟨not_lt.mp hfew, not_lt.mp hflat⟩
    have hvar := (htells.varX_pos hw hx).ne'
    unfold MemCostFit.varX MemCostFit.meanX fitWith at hvar
    rw [quotient_of_ne hvar]
    rfl

/-! ## Any launches -/

/-- A call of `UpdateMemCost`. -/
structure TrafficCall where
  mib : ℚ
  residual_ms : ℚ
deriving DecidableEq

/-- The worker after the call. -/
def afterCall (w : Worker) (l : TrafficCall) : Worker := w.updateMemCost l.mib l.residual_ms

variable {calls : List TrafficCall}

/-- What the sums are before every call. -/
theorem fit_nonneg (hw : w.mem_cost_fit = {}) (hpos : ∀ l ∈ calls, 0 < l.mib) (k : ℕ) :
    0 ≤ (Run.before afterCall w calls k).mem_cost_fit.w ∧
      0 ≤ (Run.before afterCall w calls k).mem_cost_fit.x := by
  apply Run.before_induction (P := fun w : Worker => 0 ≤ w.mem_cost_fit.w ∧ 0 ≤ w.mem_cost_fit.x)
  · rw [hw]
    exact ⟨le_rfl, le_rfl⟩
  · intro k l hl h
    unfold afterCall
    rw [updateMemCost_fit]
    have hadd := MemCostFit.add_pos l.residual_ms h.1 h.2
      (hpos l (List.mem_of_getElem? hl))
    exact ⟨hadd.1.le, hadd.2.le⟩

theorem fit_follows {c o : ℚ} (hw : w.mem_cost_fit = {})
    (hline : ∀ l ∈ calls, l.residual_ms = c * l.mib + o) (k : ℕ) :
    MemCostFit.Follows c o (Run.before afterCall w calls k).mem_cost_fit := by
  apply Run.before_induction (P := fun w : Worker => MemCostFit.Follows c o w.mem_cost_fit)
  · rw [hw]
    exact MemCostFit.follows_empty
  · intro k l hl h
    unfold afterCall
    rw [updateMemCost_fit, hline l (List.mem_of_getElem? hl)]
    exact h.add

/-- **The fit recovers the slope.** Of any calls that each tell of some traffic: none
divides by 0; and where what the launches took is a constant for each MiB and a
constant for each launch, every call that has launches enough and a spread to go by
sets the cost to the former exactly, and every other leaves it. Fading the sums and
adding a point of a line keep that they are sums of points of that line
(`fit_follows`), whatever the weights are; the slope is read off them where there is a
spread. -/
theorem recovers_slope (hw : w.mem_cost_fit = {}) (hpos : ∀ l ∈ calls, 0 < l.mib) {k : ℕ}
    {l : TrafficCall} (hl : calls[k]? = some l) :
    let before := Run.before afterCall w calls k
    let after := Run.before afterCall w calls (k + 1)
    before.checkedUpdateMemCost l.mib l.residual_ms = some after ∧
      (¬ after.mem_cost_fit.Tells → after.mem_ms_per_mib = before.mem_ms_per_mib) ∧
      ∀ c o : ℚ, (∀ l ∈ calls, l.residual_ms = c * l.mib + o) → after.mem_cost_fit.Tells →
        after.mem_ms_per_mib = c := by
  intro before after
  obtain ⟨hw', hx'⟩ := fit_nonneg hw hpos k
  have hadd := MemCostFit.add_pos l.residual_ms hw' hx'
    (hpos l (List.mem_of_getElem? hl))
  have hafter : after = before.updateMemCost l.mib l.residual_ms := Run.before_succ hl
  have hfit : after.mem_cost_fit = fitWith before l.mib l.residual_ms := by
    rw [hafter, updateMemCost_fit]
  refine ⟨?_, ?_, ?_⟩
  · rw [hafter]
    exact checkedUpdateMemCost_eq hadd.1 hadd.2
  · -- a call that the fit does not tell enough for leaves the cost
    intro hnot
    rw [hfit] at hnot
    rw [hafter]
    rcases updateMemCost_cases (w := before) with ⟨htells, -⟩ | ⟨-, heq⟩
    · exact absurd htells hnot
    · rw [heq]
  · -- the sums of points on a line have its slope, whatever their weights
    intro c o hline htells
    have hfollows := fit_follows hw hline (k + 1)
    change MemCostFit.Follows c o after.mem_cost_fit at hfollows
    rw [hfit] at htells hfollows
    rw [hafter]
    rcases updateMemCost_cases (w := before) with ⟨-, heq⟩ | ⟨hnot, -⟩
    · rw [heq]
      exact hfollows.slope hadd.1 (htells.varX_pos hadd.1 hadd.2).ne'
    · exact absurd htells hnot

/-- Ten launches of 1 to 10 MiB, at 0.3 ms for a MiB and -2 ms for a launch. -/
def tenCalls : List TrafficCall :=
  (List.range 10).map fun k : ℕ => { mib := k + 1, residual_ms := 3 / 10 * (k + 1) + -2 }

theorem recovers_slope_ten :
    (Run.before afterCall {} tenCalls 10).mem_ms_per_mib = 3 / 10 := by
  have hpos : ∀ l ∈ tenCalls, 0 < l.mib := by
    intro l hl
    obtain ⟨k, -, rfl⟩ := List.mem_map.mp hl
    exact Nat.cast_add_one_pos k
  have hline : ∀ l ∈ tenCalls, l.residual_ms = 3 / 10 * l.mib + -2 := by
    intro l hl
    obtain ⟨k, -, rfl⟩ := List.mem_map.mp hl
    rfl
  have h := recovers_slope (w := {}) rfl hpos (k := 9) (l := { mib := 10, residual_ms := 1 })
    (by decide +kernel)
  exact h.2.2 _ _ hline (by decide +kernel)

end Loadmaster.Gpu.GpuWorkerContext
