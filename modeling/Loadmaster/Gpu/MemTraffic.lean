/-
The factor on a device's memory traffic (`MemTrafficEnvelope` of
`gpu/mem_traffic.cc`).

The walk is in exact arithmetic over any ordered field, for a given exponential
function and square root, and then over the reals. `noise` are the draws of
`noise_`, one after the other; a step takes one where time has passed. The
logarithm of the factor is a first-order autoregression, whose steps are those
that take a draw. Where the draws are independent standard normals, it is normal,
and time alone says how far it has moved.
-/
import Loadmaster.Constants
import Loadmaster.Lib.Autoregression
import Loadmaster.Lib.NormalDraws
import Loadmaster.Lib.Round

set_option autoImplicit false

open MeasureTheory ProbabilityTheory

namespace Loadmaster.Gpu

def kLogMean : ℚ := -kGpuMemTrafficLogSigma * kGpuMemTrafficLogSigma / 2

structure MemTrafficEnvelope (α : Type*) where
  /-- How many draws have been made. -/
  drawn : ℕ
  log_factor_ : α

namespace MemTrafficEnvelope

section Source

variable {α : Type*} [Field α] [LinearOrder α]

/-- The constructor, which starts from the stationary distribution. -/
def new (noise : ℕ → α) : MemTrafficEnvelope α where
  drawn := 1
  log_factor_ := kLogMean + kGpuMemTrafficLogSigma * noise 0

/-- `Next` -/
def next (exp sqrt : α → α) (noise : ℕ → α) (e : MemTrafficEnvelope α) (elapsed_ms : α) :
    MemTrafficEnvelope α × α :=
  let e :=
    if 0 < elapsed_ms then
      let decay := exp (-elapsed_ms / kGpuMemTrafficTimeConstantMS)
      let step_sigma := kGpuMemTrafficLogSigma * sqrt (1 - decay * decay)
      { drawn := e.drawn + 1
        log_factor_ :=
          kLogMean + (e.log_factor_ - kLogMean) * decay + step_sigma * noise e.drawn }
    else e
  (e, Round.clamp (exp e.log_factor_) kGpuMemTrafficMinFactor kGpuMemTrafficMaxFactor)

/-- Call after call, with the factors that are returned. -/
def walk (exp sqrt : α → α) (noise : ℕ → α) :
    List α → MemTrafficEnvelope α → MemTrafficEnvelope α × List α
  | [], e => (e, [])
  | elapsed_ms :: elapsed, e =>
    let (e, factor) := e.next exp sqrt noise elapsed_ms
    let (e, factors) := walk exp sqrt noise elapsed e
    (e, factor :: factors)

end Source

/-! ## The walk as an autoregression -/

section Steps

variable {α : Type*} [Field α] [LinearOrder α]

def step (exp sqrt : α → α) (elapsed_ms : α) : Autoregression.Step α where
  decay := exp (-elapsed_ms / kGpuMemTrafficTimeConstantMS)
  scale := kGpuMemTrafficLogSigma * sqrt (1
    - exp (-elapsed_ms / kGpuMemTrafficTimeConstantMS)
      * exp (-elapsed_ms / kGpuMemTrafficTimeConstantMS))

/-- Only calls after some time make a step. -/
def steps (exp sqrt : α → α) (elapsed : List α) : List (Autoregression.Step α) :=
  (elapsed.filter (0 < ·)).map (step exp sqrt)

/-- The time that has passed. -/
def passed (elapsed : List α) : α := (elapsed.filter (0 < ·)).sum

/-- **The deviation of the log factor is the autoregression.** -/
theorem walk_log_factor (exp sqrt : α → α) (noise : ℕ → α) (elapsed : List α)
    (e : MemTrafficEnvelope α) :
    (walk exp sqrt noise elapsed e).1.log_factor_ - kLogMean
      = Autoregression.run (steps exp sqrt elapsed) (fun i => noise (e.drawn + i))
        (e.log_factor_ - kLogMean) := by
  induction elapsed generalizing e with
  | nil => rfl
  | cons elapsed_ms elapsed ih =>
    show (walk exp sqrt noise elapsed (e.next exp sqrt noise elapsed_ms).1).1.log_factor_ - _ = _
    rw [ih]
    by_cases hpassed : 0 < elapsed_ms
    · -- a step, which takes the next draw
      have hsteps : steps exp sqrt (elapsed_ms :: elapsed)
          = step exp sqrt elapsed_ms :: steps exp sqrt elapsed := by
        simp [steps, hpassed]
      rw [hsteps, Autoregression.run]
      simp only [next, if_pos hpassed, step]
      congr 1
      · funext i
        rw [add_assoc, add_comm 1 i]
      · rw [add_zero]
        ring
    · -- no time has passed, so nothing moves
      have hsteps : steps exp sqrt (elapsed_ms :: elapsed) = steps exp sqrt elapsed := by
        simp [steps, hpassed]
      rw [hsteps]
      simp only [next, if_neg hpassed]

end Steps

/-! ## Over the reals -/

section Reals

open Real

variable {elapsed elapsed' : List ℝ}

/-- What is left of a deviation after some time. -/
noncomputable def remains (passed_ms : ℝ) : ℝ := exp (-passed_ms / kGpuMemTrafficTimeConstantMS)

noncomputable def realSteps (elapsed : List ℝ) : List (Autoregression.Step ℝ) :=
  steps exp sqrt elapsed

/-- The log factor after the calls. -/
noncomputable def logFactorAfter (noise : ℕ → ℝ) (e : MemTrafficEnvelope ℝ)
    (elapsed : List ℝ) : ℝ :=
  (walk exp sqrt noise elapsed e).1.log_factor_

/-- **Decays multiply** to the decay of the whole time. -/
theorem decay_realSteps (elapsed : List ℝ) :
    Autoregression.decay (realSteps elapsed) = remains (passed elapsed) := by
  unfold realSteps steps passed
  induction elapsed.filter (0 < ·) with
  | nil => simp [remains]
  | cons elapsed_ms elapsed ih =>
    rw [List.map_cons, Autoregression.decay_cons, ih, List.sum_cons, remains, remains, step,
      ← exp_add]
    congr 1
    ring

theorem remains_sq (passed_ms : ℝ) :
    remains passed_ms ^ 2 = exp (-(2 * passed_ms) / kGpuMemTrafficTimeConstantMS) := by
  rw [remains, sq, ← exp_add]
  congr 1
  ring

theorem remains_le_one {passed_ms : ℝ} (h : 0 ≤ passed_ms) : remains passed_ms ≤ 1 :=
  exp_le_one_iff.mpr (div_nonpos_of_nonpos_of_nonneg (neg_nonpos.mpr h) (Nat.cast_nonneg _))

/-- A step leaves the variance alone. -/
theorem scale_sq_of_mem {step : Autoregression.Step ℝ} (h : step ∈ realSteps elapsed) :
    step.scale ^ 2 = (kGpuMemTrafficLogSigma : ℝ) ^ 2 * (1 - step.decay ^ 2) := by
  obtain ⟨elapsed_ms, hmem, rfl⟩ := List.mem_map.mp h
  have hpassed : 0 < elapsed_ms := of_decide_eq_true (List.mem_filter.mp hmem).2
  have hdecay : (MemTrafficEnvelope.step exp sqrt elapsed_ms).decay = remains elapsed_ms := rfl
  have hscale : (MemTrafficEnvelope.step exp sqrt elapsed_ms).scale
      = kGpuMemTrafficLogSigma * √(1 - remains elapsed_ms * remains elapsed_ms) := rfl
  -- the square root is one of a number that is not negative
  have hle : remains elapsed_ms * remains elapsed_ms ≤ 1 :=
    mul_le_one₀ (remains_le_one hpassed.le) (exp_pos _).le (remains_le_one hpassed.le)
  rw [hdecay, hscale, mul_pow, sq_sqrt (sub_nonneg.mpr hle), sq (remains elapsed_ms)]

/-- The draws that a sequence of calls makes, with their weights. -/
noncomputable def drawSum (elapsed : List ℝ) (noise : ℕ → ℝ) : ℝ :=
  ∑ i ∈ Finset.range (realSteps elapsed).length,
    Autoregression.weight (realSteps elapsed) i * noise i

/-- **What the draws add** to the variance. -/
theorem sum_weight_sq (elapsed : List ℝ) :
    ∑ i ∈ Finset.range (realSteps elapsed).length,
        Autoregression.weight (realSteps elapsed) i ^ 2
      = (kGpuMemTrafficLogSigma : ℝ) ^ 2 * (1 - remains (passed elapsed) ^ 2) := by
  rw [Autoregression.sum_weight_sq fun _ => scale_sq_of_mem, decay_realSteps]

theorem logFactorAfter_eq (noise : ℕ → ℝ) (e : MemTrafficEnvelope ℝ) (elapsed : List ℝ) :
    logFactorAfter noise e elapsed
      = kLogMean + (e.log_factor_ - kLogMean) * remains (passed elapsed)
        + drawSum elapsed fun i => noise (e.drawn + i) := by
  have hwalk := walk_log_factor exp sqrt noise elapsed e
  rw [Autoregression.run_eq] at hwalk
  have hdecay := decay_realSteps elapsed
  unfold realSteps at hdecay
  unfold logFactorAfter drawSum realSteps
  rw [hdecay] at hwalk
  linarith

/-- From the start, the first draw counts as well. -/
theorem logFactorAfter_new (noise : ℕ → ℝ) (elapsed : List ℝ) :
    logFactorAfter noise (new noise) elapsed
      = kLogMean + kGpuMemTrafficLogSigma * remains (passed elapsed) * noise 0
        + drawSum elapsed fun i => noise (1 + i) := by
  rw [logFactorAfter_eq, new]
  ring

/-- Every call returns a factor within the bounds. -/
theorem factor_mem {noise : ℕ → ℝ} {e : MemTrafficEnvelope ℝ} :
    ∀ factor ∈ (walk exp sqrt noise elapsed e).2,
      (kGpuMemTrafficMinFactor : ℝ) ≤ factor ∧ factor ≤ kGpuMemTrafficMaxFactor := by
  have hbounds : (kGpuMemTrafficMinFactor : ℝ) ≤ kGpuMemTrafficMaxFactor := by
    norm_num [kGpuMemTrafficMinFactor, kGpuMemTrafficMaxFactor]
  induction elapsed generalizing e with
  | nil => exact fun _ h => absurd h List.not_mem_nil
  | cons elapsed_ms elapsed ih => exact List.forall_mem_cons.mpr ⟨Round.clamp_mem hbounds, ih⟩

/-! ## The distribution -/

variable {Ω : Type*} [MeasurableSpace Ω] {P : Measure Ω} {noise : ℕ → Ω → ℝ}

/-- The variance after some time, from a known start. -/
noncomputable def varianceAfter (passed_ms : ℝ) : NNReal :=
  ((kGpuMemTrafficLogSigma : ℝ) ^ 2 * (1 - remains passed_ms ^ 2)).toNNReal

theorem hasLaw_drawSum (h : NormalDraws.IsStandard noise P) (elapsed : List ℝ) :
    HasLaw (fun ω => drawSum elapsed fun i => noise i ω)
      (gaussianReal 0 (varianceAfter (passed elapsed))) P := by
  unfold varianceAfter
  rw [← sum_weight_sq]
  exact NormalDraws.hasLaw_sum h _ _

/-- **From a known start**, the log factor is normal. -/
theorem hasLaw_logFactorAfter (h : NormalDraws.IsStandard noise P) (e : MemTrafficEnvelope ℝ)
    (elapsed : List ℝ) :
    HasLaw (fun ω => logFactorAfter (fun i => noise i ω) e elapsed)
      (gaussianReal (kLogMean + (e.log_factor_ - kLogMean) * remains (passed elapsed))
        (varianceAfter (passed elapsed))) P := by
  have hsum := gaussianReal_const_add (hasLaw_drawSum (h.shift e.drawn) elapsed)
    (kLogMean + (e.log_factor_ - kLogMean) * remains (passed elapsed))
  rw [zero_add] at hsum
  simpa only [logFactorAfter_eq] using hsum

/-- The log factor at the start and after the calls, as a function of the first
draw and of what the others come to. -/
noncomputable def startAndAfter (passed_ms : ℝ) (p : ℝ × ℝ) : ℝ × ℝ :=
  (kLogMean + kGpuMemTrafficLogSigma * p.1,
    kLogMean + kGpuMemTrafficLogSigma * remains passed_ms * p.1 + p.2)

/-- **From the start**, the log factors then and after the calls have a joint
distribution that depends on the time alone. -/
theorem hasLaw_startAndAfter (h : NormalDraws.IsStandard noise P) (elapsed : List ℝ) :
    HasLaw (fun ω => ((new fun i => noise i ω).log_factor_,
        logFactorAfter (fun i => noise i ω) (new fun i => noise i ω) elapsed))
      (((gaussianReal 0 1).prod (gaussianReal 0 (varianceAfter (passed elapsed)))).map
        (startAndAfter (passed elapsed))) P := by
  have hprob := h.isProbabilityMeasure
  have hindep : IndepFun (noise 0) (fun ω => drawSum elapsed fun i => noise (1 + i) ω) P :=
    NormalDraws.indepFun_first h _ _
  have hpair := hindep.hasLaw_prod (h.hasLaw 0) (hasLaw_drawSum (h.shift 1) elapsed)
  have hmeasurable : Measurable (startAndAfter (passed elapsed)) := by
    unfold startAndAfter
    fun_prop
  -- both log factors are functions of the pair
  have hcomp := HasLaw.comp ⟨hmeasurable.aemeasurable, rfl⟩ hpair
  exact hcomp.congr (.of_forall fun ω => Prod.ext rfl (logFactorAfter_new _ _))

/-- The draws make up for what the first one loses. -/
theorem variance_add (elapsed : List ℝ) :
    ((kGpuMemTrafficLogSigma : ℝ) * remains (passed elapsed)) ^ 2
        + ∑ i ∈ Finset.range (realSteps elapsed).length,
          Autoregression.weight (realSteps elapsed) i ^ 2
      = (kGpuMemTrafficLogSigma : ℝ) ^ 2 := by
  rw [sum_weight_sq]
  ring

/-- **From the start**, the log factor has the stationary distribution after any
calls. -/
theorem hasLaw_logFactorAfter_new (h : NormalDraws.IsStandard noise P) (elapsed : List ℝ) :
    HasLaw (fun ω => logFactorAfter (fun i => noise i ω) (new fun i => noise i ω) elapsed)
      (gaussianReal kLogMean ((kGpuMemTrafficLogSigma : ℝ) ^ 2).toNNReal) P := by
  have hprob := h.isProbabilityMeasure
  have hfirst := NormalDraws.hasLaw_mul h
    ((kGpuMemTrafficLogSigma : ℝ) * remains (passed elapsed)) 0
  have hlater := hasLaw_drawSum (h.shift 1) elapsed
  have hindep : IndepFun (noise 0) (fun ω => drawSum elapsed fun i => noise (1 + i) ω) P :=
    NormalDraws.indepFun_first h _ _
  have hadd := (hindep.comp (measurable_const_mul _) measurable_id).hasLaw_fun_add hfirst hlater
  have hvariance : ((kGpuMemTrafficLogSigma * remains (passed elapsed) : ℝ) ^ 2).toNNReal
      + varianceAfter (passed elapsed) = ((kGpuMemTrafficLogSigma : ℝ) ^ 2).toNNReal := by
    unfold varianceAfter
    rw [← sum_weight_sq, ← Real.toNNReal_add (sq_nonneg _)
      (Finset.sum_nonneg fun i _ => sq_nonneg _), variance_add]
  rw [gaussianReal_conv_gaussianReal, zero_add, hvariance] at hadd
  have hshifted := gaussianReal_const_add hadd kLogMean
  rw [zero_add] at hshifted
  simpa only [logFactorAfter_new, add_assoc, Function.comp_apply, id_eq] using hshifted

/-- **The walk moves by elapsed time.** The log factor is a combination of its
deviation at the start and of the draws; the weights depend on the calls alone, and
what they come to on the time alone. So does the distribution, from a known start as
well as from the first draw, however the time was split. A step is autoregressive,
with a decay that is the exponential of the time; so decays multiply, the squares of
the weights add up to one less the square of the decay, and sums of normal draws are
normal. -/
theorem moves_by_elapsed_time (hnoise : NormalDraws.IsStandard noise P) (elapsed : List ℝ) :
    (∃ (n : ℕ) (weight : ℕ → ℝ),
      (∀ (draws : ℕ → ℝ) (e : MemTrafficEnvelope ℝ),
        logFactorAfter draws e elapsed = kLogMean
          + exp (-passed elapsed / kGpuMemTrafficTimeConstantMS) * (e.log_factor_ - kLogMean)
          + ∑ i ∈ Finset.range n, weight i * draws (e.drawn + i)) ∧
      ∑ i ∈ Finset.range n, weight i ^ 2
        = (kGpuMemTrafficLogSigma : ℝ) ^ 2
          * (1 - exp (-(2 * passed elapsed) / kGpuMemTrafficTimeConstantMS)) ∧
      (∀ draws : ℕ → ℝ, logFactorAfter draws (new draws) elapsed = kLogMean
        + kGpuMemTrafficLogSigma * exp (-passed elapsed / kGpuMemTrafficTimeConstantMS) * draws 0
        + ∑ i ∈ Finset.range n, weight i * draws (1 + i)) ∧
      (kGpuMemTrafficLogSigma * exp (-passed elapsed / kGpuMemTrafficTimeConstantMS)) ^ 2
        + ∑ i ∈ Finset.range n, weight i ^ 2 = (kGpuMemTrafficLogSigma : ℝ) ^ 2) ∧
    (∀ e : MemTrafficEnvelope ℝ,
      HasLaw (fun ω => logFactorAfter (fun i => noise i ω) e elapsed)
        (gaussianReal
          (kLogMean
            + exp (-passed elapsed / kGpuMemTrafficTimeConstantMS) * (e.log_factor_ - kLogMean))
          ((kGpuMemTrafficLogSigma : ℝ) ^ 2
            * (1 - exp (-(2 * passed elapsed) / kGpuMemTrafficTimeConstantMS))).toNNReal) P) ∧
    HasLaw (fun ω => logFactorAfter (fun i => noise i ω) (new fun i => noise i ω) elapsed)
      (gaussianReal kLogMean ((kGpuMemTrafficLogSigma : ℝ) ^ 2).toNNReal) P ∧
    (∀ elapsed' : List ℝ, passed elapsed' = passed elapsed →
      (∀ e : MemTrafficEnvelope ℝ,
        P.map (fun ω => logFactorAfter (fun i => noise i ω) e elapsed')
          = P.map fun ω => logFactorAfter (fun i => noise i ω) e elapsed) ∧
      P.map (fun ω => ((new fun i => noise i ω).log_factor_,
          logFactorAfter (fun i => noise i ω) (new fun i => noise i ω) elapsed'))
        = P.map fun ω => ((new fun i => noise i ω).log_factor_,
          logFactorAfter (fun i => noise i ω) (new fun i => noise i ω) elapsed)) ∧
    ∀ (draws : ℕ → ℝ) (e : MemTrafficEnvelope ℝ), ∀ factor ∈ (walk exp sqrt draws elapsed e).2,
      (kGpuMemTrafficMinFactor : ℝ) ≤ factor ∧ factor ≤ kGpuMemTrafficMaxFactor := by
  have hsq := remains_sq (passed elapsed)
  refine ⟨⟨(realSteps elapsed).length, Autoregression.weight (realSteps elapsed), ?_, ?_, ?_,
    variance_add elapsed⟩, ?_, hasLaw_logFactorAfter_new hnoise elapsed, ?_, fun _ _ => factor_mem⟩
  · intro draws e
    rw [logFactorAfter_eq, mul_comm (e.log_factor_ - kLogMean : ℝ)]
    rfl
  · rw [sum_weight_sq, hsq]
  · exact fun draws => logFactorAfter_new draws elapsed
  · intro e
    have hlaw := hasLaw_logFactorAfter hnoise e elapsed
    rwa [varianceAfter, hsq, mul_comm (e.log_factor_ - kLogMean : ℝ)] at hlaw
  · intro elapsed' heq
    constructor
    · intro e
      rw [(hasLaw_logFactorAfter hnoise e elapsed').map_eq,
        (hasLaw_logFactorAfter hnoise e elapsed).map_eq, heq]
    · rw [(hasLaw_startAndAfter hnoise elapsed').map_eq,
        (hasLaw_startAndAfter hnoise elapsed).map_eq, heq]

/-- A second at once is as good as two halves with a call at no time in between. -/
theorem moves_by_elapsed_time_halves :
    (Measure.infinitePi fun _ : ℕ => gaussianReal 0 1).map
        (fun draws : ℕ → ℝ => logFactorAfter draws ⟨0, 1⟩ [500, -20, 0, 500])
      = (Measure.infinitePi fun _ : ℕ => gaussianReal 0 1).map
        fun draws : ℕ → ℝ => logFactorAfter draws ⟨0, 1⟩ [1000] := by
  have hsame := (moves_by_elapsed_time NormalDraws.isStandard_coordinates [1000]).2.2.2.1
  exact (hsame [500, -20, 0, 500] (by norm_num [passed])).1 ⟨0, 1⟩

end Reals

end MemTrafficEnvelope

end Loadmaster.Gpu
