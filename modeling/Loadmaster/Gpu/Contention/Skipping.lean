/-
A source that skips what is already known.

A source is handed the devices that an earlier one found busy and measured,
and `source.h` invites it to leave them alone: nothing it reports for them
changes the outcome. That is so for its verdict and its pid, which are only
looked at while a device is not busy. A measurement is not ignored, by design:
of two measurements the larger one counts, whoever made it. So leaving a
source's handed devices alone is harmless as long as it would not have reported
a larger measurement for any of them (`Monitor.Modest`), over whole histories
and for sources whose later reports depend on what they were handed
(`skip_same_outcomes`); where it measures more, skipping loses that measurement
(`skip_differs`).
-/
import Loadmaster.Lib.Run
import Loadmaster.Gpu.Contention.Sources

set_option autoImplicit false

namespace Loadmaster.Gpu.Contention

variable {n : ℕ}

/-! ## Skipping -/

/-- The source that leaves alone what it is handed as busy and measured, and
reports for the other devices what `s` reports. -/
def Source.skipping (s : Source n) : Source n where
  State := s.State
  state := s.state
  name := s.name
  run st devices out :=
    let r := s.run st devices out
    (r.1, fun i =>
      if (out i).verdict = .busy ∧ (out i).device_busy.isSome then out i else r.2 i)

theorem Source.sample_skipping (s : Source n) (devices : Fin n → DeviceLocator)
    (out : Fin n → Observation) (i : Fin n) :
    (s.skipping.sample devices out).2 i
      = if (out i).verdict = .busy ∧ (out i).device_busy.isSome then out i
        else (s.sample devices out).2 i := rfl

/-- The monitor with its source number `j` skipping. -/
def Monitor.skipAt (m : Monitor n) (j : ℕ) : Monitor n :=
  { m with sources := m.sources.modify j Source.skipping }

/-- A report that measures no more than it was handed. -/
def Modest (handed seen : Observation) : Prop :=
  handed.verdict = .busy → ∀ v, handed.device_busy = some v →
    ∀ b, seen.device_busy = some b → b ≤ v

/-- Source number `j` of the list is modest when its turn comes, with `merged`
known before the list. -/
def ModestAt (devices : Fin n → DeviceLocator) : List (Source n) → ℕ → (Fin n → Observation) → Prop
  | [], _, _ => True
  | s :: _, 0, merged =>
    ∀ i, Modest (merged i).handed ((s.sample devices fun i => (merged i).handed).2 i)
  | s :: rest, j + 1, merged =>
    ModestAt devices rest j
      fun i => (merged i).merge ((s.sample devices fun i => (merged i).handed).2 i)

/-- In this poll source number `j` reports, for the devices handed to it as
busy and measured, no larger measurement than it was handed. -/
def Monitor.Modest (j : ℕ) (m : Monitor n) (_p : PollInput n) : Prop :=
  ModestAt m.devices m.sources j fun _ => {}

/-! ## One poll -/

/-- A modest report adds nothing to a device that is busy and measured. -/
theorem merge_of_modest {merged seen : Observation} {v : ℚ} (hv : merged.verdict = .busy)
    (hb : merged.device_busy = some v) (h : ∀ b, seen.device_busy = some b → b ≤ v) :
    merged.merge seen = merged := by
  obtain ⟨verdict, pid, device_busy⟩ := merged
  dsimp only at hv hb
  subst hv hb
  unfold Observation.merge
  cases hseen : seen.device_busy with
  | none => simp
  | some b => simp [max_eq_left (h b hseen)]

/-- What a skipping source adds is what the source it replaces adds. -/
theorem merge_skipping {s : Source n} {devices : Fin n → DeviceLocator}
    {merged : Fin n → Observation}
    (h : ∀ i, Modest (merged i).handed ((s.sample devices fun i => (merged i).handed).2 i))
    (i : Fin n) :
    (merged i).merge ((s.skipping.sample devices fun i => (merged i).handed).2 i)
      = (merged i).merge ((s.sample devices fun i => (merged i).handed).2 i) := by
  by_cases hknown : (merged i).verdict = .busy ∧ (merged i).device_busy.isSome
  · have hhanded : (merged i).handed = merged i := if_pos hknown
    obtain ⟨v, hv⟩ := Option.isSome_iff_exists.mp hknown.2
    have hmodest := h i
    rw [hhanded] at hmodest
    -- the one reports what it was handed, the other no more than that
    have hskip : (s.skipping.sample devices fun i => (merged i).handed).2 i = merged i := by
      rw [Source.sample_skipping, hhanded, if_pos hknown]
    rw [hskip, merge_of_modest hknown.1 hv (hmodest hknown.1 v hv)]
    refine merge_of_modest hknown.1 hv fun b hb => ?_
    rw [hv] at hb
    cases hb
    exact le_rfl
  · -- handed as unknown, the device is sampled by both
    have hhanded : (merged i).handed = {} := if_neg hknown
    have hskip : (s.skipping.sample devices fun i => (merged i).handed).2 i
        = (s.sample devices fun i => (merged i).handed).2 i := by
      rw [Source.sample_skipping, if_neg (by simp [hhanded])]
    rw [hskip]

/-- The sources afterwards differ in the skipping one only, and what they know
together is the same. -/
theorem sampleAll_skipping (devices : Fin n → DeviceLocator) (sources : List (Source n)) :
    ∀ (j : ℕ) (merged : Fin n → Observation), ModestAt devices sources j merged →
      sampleAll devices (sources.modify j Source.skipping) merged
        = ((sampleAll devices sources merged).1.modify j Source.skipping,
          (sampleAll devices sources merged).2) := by
  induction sources with
  | nil =>
    intro j merged _
    cases j <;> rfl
  | cons s rest ih =>
    intro j merged h
    cases j with
    | zero =>
      -- the skipping source itself; those after it are handed the same
      have hmerge : (fun i => (merged i).merge
            ((s.skipping.sample devices fun i => (merged i).handed).2 i))
          = fun i => (merged i).merge ((s.sample devices fun i => (merged i).handed).2 i) :=
        funext (merge_skipping h)
      rw [List.modify_zero_cons]
      unfold sampleAll
      dsimp only
      rw [hmerge]
      rfl
    | succ j =>
      have hrest := ih j _ h
      rw [List.modify_succ_cons]
      unfold sampleAll
      dsimp only
      rw [hrest]
      rfl

/-- **One poll**: the same outcome, and afterwards the same monitor but for the
skipping source. -/
theorem Monitor.poll_skipAt {m : Monitor n} {j : ℕ} {p : PollInput n} (h : m.Modest j p) :
    ((m.skipAt j).poll p).2 = (m.poll p).2 ∧ (m.skipAt j).step p = (m.step p).skipAt j := by
  have hall : sampleAll (m.skipAt j).devices (m.skipAt j).sources (fun _ => {})
      = ((sampleAll m.devices m.sources fun _ => {}).1.modify j Source.skipping, m.merged) :=
    sampleAll_skipping m.devices m.sources j _ h
  have hmerged : (m.skipAt j).merged = m.merged := by
    unfold merged
    rw [hall]
    rfl
  have hothers : (m.skipAt j).others p = m.others p := by
    funext i
    unfold others
    rw [hmerged]
    rfl
  have hreport : (m.skipAt j).report p = m.report p := Monitor.report_congr rfl hothers
  have hgate : (m.skipAt j).gate p = m.gate p := Monitor.gate_congr rfl hothers
  have hverdict : ∀ i, ((m.skipAt j).merged i).verdict = (m.merged i).verdict := by
    intro i
    rw [hmerged]
  have hunknown : (m.skipAt j).unknown = m.unknown := Monitor.unknown_congr rfl hverdict
  have hevents : (m.skipAt j).deviceEvents p = m.deviceEvents p := by
    funext i
    unfold deviceEvents
    rw [hmerged, hreport, hunknown]
    rfl
  constructor
  · unfold poll
    rw [hothers, hevents]
  · unfold step poll
    rw [hall, hgate, hreport, hunknown]
    rfl

/-! ## Histories -/

/-- **A source may skip what is already known, as long as it is modest.** In every
history of polls in which source number `j` never measures more than it was handed,
having it skip changes neither a share handed to a gate nor an event of any poll. By
induction on the polls: what the source would have measured is no larger than what it
was handed, and of two measurements the larger one counts (`Monitor.poll_skipAt`). -/
theorem skip_same_outcomes (j : ℕ) (polls : List (PollInput n)) : ∀ m : Monitor n,
    Run.Along Monitor.step (Monitor.Modest j) m polls →
    (m.skipAt j).outcomes polls = m.outcomes polls := by
  induction polls with
  | nil => intro m _; rfl
  | cons p polls ih =>
    intro m h
    obtain ⟨hp, hrest⟩ := Run.along_cons.mp h
    obtain ⟨houtcome, hstep⟩ := Monitor.poll_skipAt hp
    rw [Monitor.outcomes, Monitor.outcomes, houtcome, hstep, ih _ hrest]

/-- The second of two sources, skipping, in one poll: 55 % instead of 70 %. -/
theorem skip_differs :
    let m := Monitor.create (fun _ => "gpu0") (fun _ => {}) twoSources false
    (m.poll (pollAt 0 0)).2.others 0 = some 70
      ∧ (m.poll (pollAt 0 0)).2.events = [.change 0 "gpu0" (some 70) 7]
      ∧ ((m.skipAt 1).poll (pollAt 0 0)).2.others 0 = some 55
      ∧ ((m.skipAt 1).poll (pollAt 0 0)).2.events = [.change 0 "gpu0" (some 55) 7] := by
  decide +kernel

/-- The second source measures less than the first one: 40 % of what keeps the
device busy, say, because it sees one process only. -/
def modestSources : List (Source 1) :=
  [ .constant "first" fun _ => { verdict := .busy, pid := 7, device_busy := some 55 },
    .constant "second" fun _ => { verdict := .busy, pid := 9, device_busy := some 40 } ]

/-- What the second source is handed here is busy and measured, so it does skip:
its process and its 40 % are never looked at. -/
theorem skip_same_outcomes_second :
    let m := Monitor.create (fun _ => "gpu0") (fun _ => {}) modestSources false
    (m.skipAt 1).outcomes [pollAt 0 0, pollAt 2000000000 0]
      = m.outcomes [pollAt 0 0, pollAt 2000000000 0] := by
  refine skip_same_outcomes 1 _ _ ?_
  refine Run.along_cons.mpr ⟨?_, Run.along_cons.mpr ⟨?_, Run.along_nil⟩⟩
  · intro i _ v hv b hb
    cases hv
    cases hb
    norm_num
  · intro i _ v hv b hb
    cases hv
    cases hb
    norm_num

end Loadmaster.Gpu.Contention
