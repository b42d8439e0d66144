/-
What the sources of a monitor make of a poll.

Merging observations is taking a supremum: verdicts are ordered
`unknown < idle < busy`, a measurement is ordered above none, and what is known
of a device after any sources is the supremum of what they reported
(`abs_foldl`). A supremum has no order, so for sources that report regardless
of what they are handed neither has the outcome of a poll (`outcomes_perm`);
and the share of the others can be read off the supremum (`others_spec`).
-/
import Mathlib.Order.BoundedOrder.Basic
import Mathlib.Order.WithBot
import Mathlib.Data.Multiset.Lattice
import Loadmaster.Gpu.Contention.Monitor

set_option autoImplicit false

namespace Loadmaster.Gpu.Contention

open Round

/-! ## Merging is a supremum -/

namespace Verdict

def rank : Verdict → ℕ
  | unknown => 0
  | idle => 1
  | busy => 2

/-- The verdicts are in one chain, by their ranks. -/
theorem rank_injective : Function.Injective rank := by
  intro v w h
  cases v <;> cases w <;> first | rfl | cases h

instance : LinearOrder Verdict := LinearOrder.lift' rank rank_injective

theorem le_def {v w : Verdict} : v ≤ w ↔ v.rank ≤ w.rank := Iff.rfl

instance : BoundedOrder Verdict where
  bot := unknown
  bot_le v := Nat.zero_le v.rank
  top := busy
  le_top v := by cases v <;> decide

end Verdict

namespace Observation

/-- What matters of an observation: its verdict, and its measurement counted
from 0 up. -/
def abs (o : Observation) : Verdict × WithBot ℚ :=
  (o.verdict, match o.device_busy with
    | some b => (max 0 b : ℚ)
    | none => ⊥)

@[simp] theorem abs_empty : abs {} = ⊥ := rfl

theorem merge_verdict (merged seen : Observation) :
    (merged.merge seen).verdict = merged.verdict ⊔ seen.verdict := by
  obtain ⟨v, pid, busy⟩ := merged
  obtain ⟨w, pid', busy'⟩ := seen
  cases v <;> cases w <;> cases busy' <;> rfl

theorem merge_device_busy (merged seen : Observation) :
    (merged.merge seen).device_busy
      = match seen.device_busy with
        | some b => some (max (merged.device_busy.getD 0) b)
        | none => merged.device_busy := by
  unfold merge
  cases seen.device_busy <;> split_ifs <;> rfl

/-- Merging is joining. -/
theorem abs_merge (merged seen : Observation) : (merged.merge seen).abs = merged.abs ⊔ seen.abs := by
  refine Prod.ext (merge_verdict merged seen) ?_
  simp only [abs, merge_device_busy, Prod.snd_sup]
  -- a measurement merged into none is counted from 0 up: `abs` counts it so too
  cases merged.device_busy with
  | none =>
    cases seen.device_busy with
    | none => rfl
    | some b => simp
  | some a =>
    cases seen.device_busy with
    | none => simp
    | some b =>
      simp only [Option.getD_some, ← WithBot.coe_sup]
      rw [sup_sup_distrib_left]

/-- What is known of a device after any sources: the supremum of what they
report, joined to what was known before. -/
theorem abs_foldl (seen : List Observation) (merged : Observation) :
    (seen.foldl merge merged).abs
      = merged.abs ⊔ (seen.map abs : Multiset (Verdict × WithBot ℚ)).sup := by
  induction seen generalizing merged with
  | nil => simp
  | cons o seen ih =>
    rw [List.foldl_cons, ih, abs_merge, List.map_cons, ← Multiset.cons_coe, Multiset.sup_cons,
      sup_assoc]

/-- Counting a measurement from 0 up makes no difference to the share. -/
theorem clamp_max_sub {b own : ℚ} (hown : 0 ≤ own) :
    clamp (max 0 b - own) 0 100 = clamp (b - own) 0 100 := by
  rcases le_total 0 b with hb | hb
  · rw [max_eq_right hb]
  · rw [max_eq_left hb, clamp_of_le (by norm_num) (by linarith),
      clamp_of_le (by norm_num) (by linarith)]

/-- The share of the others depends on no more than that. -/
theorem others_of_abs {o o' : Observation} (h : o.abs = o'.abs) {own : ℚ} (hown : 0 ≤ own) :
    o.others own = o'.others own := by
  obtain ⟨hverdict, hbusy⟩ := Prod.ext_iff.mp h
  have hv : o.verdict = o'.verdict := hverdict
  unfold others
  rw [hv]
  simp only [abs] at hbusy
  -- both are measured or neither is, as `abs` tells a measurement of 0 from none
  cases ho : o.device_busy with
  | none =>
    cases ho' : o'.device_busy with
    | none => rfl
    | some b =>
      rw [ho, ho'] at hbusy
      exact absurd hbusy.symm WithBot.coe_ne_bot
  | some a =>
    cases ho' : o'.device_busy with
    | none =>
      rw [ho, ho'] at hbusy
      exact absurd hbusy WithBot.coe_ne_bot
    | some b =>
      rw [ho, ho'] at hbusy
      have hab : max 0 a = max 0 b := WithBot.coe_injective hbusy
      dsimp only
      rw [← clamp_max_sub hown, hab, clamp_max_sub hown]

end Observation

/-! ## Sources that do not look at what they are handed -/

/-- What the source reports and becomes is the same whatever it is handed. -/
def Source.Independent {n : ℕ} (s : Source n) : Prop :=
  ∀ st devices out out', s.run st devices out = s.run st devices out'

/-- What a source reports when handed nothing. -/
def Source.observe {n : ℕ} (s : Source n) (devices : Fin n → DeviceLocator) : Fin n → Observation :=
  (s.sample devices fun _ => {}).2

/-- The source after that. -/
def Source.next {n : ℕ} (s : Source n) (devices : Fin n → DeviceLocator) : Source n :=
  (s.sample devices fun _ => {}).1

section Independent

variable {n : ℕ} {devices : Fin n → DeviceLocator}

/-- An independent source reports by the devices alone, whatever it is handed. -/
theorem Source.Independent.sample_eq {s : Source n} (h : s.Independent)
    (out : Fin n → Observation) : s.sample devices out = (s.next devices, s.observe devices) := by
  unfold next observe sample
  rw [h s.state devices out fun _ => {}]

theorem Source.Independent.next {s : Source n} (h : s.Independent) :
    (s.next devices).Independent := h

/-- Such sources are sampled one by one, and what they report is merged. -/
theorem sampleAll_independent {sources : List (Source n)} (h : ∀ s ∈ sources, s.Independent)
    (merged : Fin n → Observation) :
    sampleAll devices sources merged
      = (sources.map (·.next devices),
        fun i => (sources.map (·.observe devices i)).foldl Observation.merge (merged i)) := by
  induction sources generalizing merged with
  | nil => rfl
  | cons s rest ih =>
    have hs : s.Independent := h s (by simp)
    have hrest : ∀ s ∈ rest, s.Independent := fun s' hs' => h s' (by simp [hs'])
    simp only [sampleAll, hs.sample_eq, ih hrest, List.map_cons, List.foldl_cons]

/-- What a poll sees on device `i`, in the order of the sources. -/
def Monitor.seen (m : Monitor n) (i : Fin n) : List Observation :=
  m.sources.map (·.observe m.devices i)

variable {m : Monitor n}

/-- So what is merged is the supremum of all reports, as a multiset: no order is left in
it. -/
theorem Monitor.merged_abs (h : ∀ s ∈ m.sources, s.Independent) (i : Fin n) :
    (m.merged i).abs = ((m.seen i).map Observation.abs : Multiset (Verdict × WithBot ℚ)).sup := by
  unfold merged
  rw [sampleAll_independent h]
  exact (Observation.abs_foldl _ _).trans (bot_sup_eq _)

/-- Our own share is never negative, as the busy time only grows. -/
theorem Monitor.own_nonneg (m : Monitor n) (p : PollInput n) (i : Fin n) : 0 ≤ m.own p i := by
  unfold own
  split
  · dsimp only
    split
    · exact (clamp_mem (by norm_num)).1
    · exact le_rfl
  · exact le_rfl

/-- Every report is below what is merged. -/
theorem Monitor.le_merged_abs (h : ∀ s ∈ m.sources, s.Independent) {i : Fin n} {o : Observation}
    (ho : o ∈ m.seen i) : o.abs ≤ (m.merged i).abs := by
  rw [Monitor.merged_abs h]
  exact Multiset.le_sup (Multiset.mem_coe.mpr (List.mem_map_of_mem ho))

/-- What is merged is the least bound of the reports. -/
theorem Monitor.merged_abs_le (h : ∀ s ∈ m.sources, s.Independent) {i : Fin n}
    {x : Verdict × WithBot ℚ} (hx : ∀ o ∈ m.seen i, o.abs ≤ x) : (m.merged i).abs ≤ x := by
  rw [Monitor.merged_abs h]
  refine Multiset.sup_le.mpr fun a ha => ?_
  obtain ⟨o, ho, rfl⟩ := List.mem_map.mp (Multiset.mem_coe.mp ha)
  exact hx o ho

/-- Nobody saw it busy: there is no share. -/
theorem Monitor.others_of_none_busy (h : ∀ s ∈ m.sources, s.Independent) (p : PollInput n)
    {i : Fin n} (hnone : ∀ o ∈ m.seen i, o.verdict ≠ .busy) : m.others p i = none := by
  -- `idle` is above every verdict seen, so it is above what is merged
  have hle : (m.merged i).abs ≤ (Verdict.idle, (m.merged i).abs.2) := by
    refine Monitor.merged_abs_le h fun o ho => Prod.mk_le_mk.mpr ⟨?_, ?_⟩
    · have hv := hnone o ho
      cases hov : o.verdict with
      | unknown => decide
      | idle => exact le_rfl
      | busy => exact absurd hov hv
    · exact (Prod.le_def.mp (Monitor.le_merged_abs h ho)).2
  have hverdict : (m.merged i).verdict ≤ .idle := (Prod.le_def.mp hle).1
  unfold Monitor.others Observation.others
  rw [if_neg]
  intro hbusy
  rw [hbusy] at hverdict
  exact absurd hverdict (by decide)

/-- Somebody saw it busy, nobody measured it: the whole device. -/
theorem Monitor.others_of_unmeasured (h : ∀ s ∈ m.sources, s.Independent) (p : PollInput n)
    {i : Fin n} (hbusy : ∃ o ∈ m.seen i, o.verdict = .busy)
    (hnone : ∀ o ∈ m.seen i, o.device_busy = none) : m.others p i = some 100 := by
  obtain ⟨o, ho, hov⟩ := hbusy
  -- the least that is above a busy device and below what the sources saw
  have habs : (m.merged i).abs = Observation.abs { verdict := .busy } := by
    apply le_antisymm
    · refine Monitor.merged_abs_le h fun o' ho' => Prod.mk_le_mk.mpr ⟨le_top, ?_⟩
      rw [hnone o' ho']
    · have hle := (Prod.le_def.mp (Monitor.le_merged_abs h ho)).1
      exact Prod.le_def.mpr ⟨hov ▸ hle, bot_le⟩
  exact Observation.others_of_abs habs (m.own_nonneg p i)

/-- Somebody saw it busy, and `M` is the largest measurement. -/
theorem Monitor.others_of_measured (h : ∀ s ∈ m.sources, s.Independent) (p : PollInput n)
    {i : Fin n} (hbusy : ∃ o ∈ m.seen i, o.verdict = .busy) {M : ℚ}
    (hM : IsGreatest {b | ∃ o ∈ m.seen i, o.device_busy = some b} M) :
    m.others p i = some (clamp (M - m.own p i) 0 100) := by
  obtain ⟨o, ho, hov⟩ := hbusy
  obtain ⟨⟨oM, hoM, hobM⟩, hmax⟩ := hM
  have habs : (m.merged i).abs = Observation.abs { verdict := .busy, device_busy := some M } := by
    apply le_antisymm
    · refine Monitor.merged_abs_le h fun o' ho' => Prod.mk_le_mk.mpr ⟨le_top, ?_⟩
      cases hb : o'.device_busy with
      | none => exact bot_le
      | some b => exact WithBot.coe_le_coe.mpr (max_le_max le_rfl (hmax ⟨o', ho', hb⟩))
    · -- the verdict and the measurement may be from different sources
      have hverdict := (Prod.le_def.mp (Monitor.le_merged_abs h ho)).1
      have hmeasure := (Prod.le_def.mp (Monitor.le_merged_abs h hoM)).2
      refine Prod.le_def.mpr ⟨hov ▸ hverdict, ?_⟩
      simpa only [Observation.abs, hobM] using hmeasure
  exact Observation.others_of_abs habs (m.own_nonneg p i)

/-! ## The order of the sources -/

/-- An event without the pid it logs. -/
def Event.dropPid : Event n → Event n
  | .warn name => .warn name
  | .change i name others _ => .change i name others 0

def Outcome.dropPid (o : Outcome n) : Outcome n :=
  { o with events := o.events.map Event.dropPid }

/-- The monitor with its sources in another order. -/
def Monitor.reorder (m : Monitor n) (sources : List (Source n)) : Monitor n :=
  { m with sources := sources }

section Reorder

variable {sources : List (Source n)}

theorem Monitor.merged_reorder (h : ∀ s ∈ m.sources, s.Independent)
    (hperm : sources.Perm m.sources) (i : Fin n) :
    ((m.reorder sources).merged i).abs = (m.merged i).abs := by
  have h' : ∀ s ∈ (m.reorder sources).sources, s.Independent := fun s hs =>
    h s (hperm.mem_iff.mp hs)
  rw [Monitor.merged_abs h, Monitor.merged_abs h']
  have hseen : ((m.reorder sources).seen i).Perm (m.seen i) := hperm.map _
  rw [Multiset.coe_eq_coe.mpr (hseen.map Observation.abs)]

theorem Monitor.others_reorder (h : ∀ s ∈ m.sources, s.Independent)
    (hperm : sources.Perm m.sources) (p : PollInput n) :
    (m.reorder sources).others p = m.others p := by
  funext i
  exact Observation.others_of_abs (Monitor.merged_reorder h hperm i) (m.own_nonneg p i)

theorem Monitor.verdict_reorder (h : ∀ s ∈ m.sources, s.Independent)
    (hperm : sources.Perm m.sources) (i : Fin n) :
    ((m.reorder sources).merged i).verdict = (m.merged i).verdict :=
  congrArg Prod.fst (Monitor.merged_reorder h hperm i)

/-- **One poll**: the same outcome but for the pids, and afterwards the same
monitor but for the order of its sources. -/
theorem Monitor.poll_reorder (h : ∀ s ∈ m.sources, s.Independent)
    (hperm : sources.Perm m.sources) (p : PollInput n) :
    ((m.reorder sources).poll p).2.dropPid = (m.poll p).2.dropPid
      ∧ (m.reorder sources).step p = (m.step p).reorder (sources.map (·.next m.devices)) := by
  have h' : ∀ s ∈ (m.reorder sources).sources, s.Independent := fun s hs =>
    h s (hperm.mem_iff.mp hs)
  have hothers := Monitor.others_reorder h hperm p
  have hverdict := Monitor.verdict_reorder h hperm
  have hreport : (m.reorder sources).report p = m.report p := Monitor.report_congr rfl hothers
  have hunknown : (m.reorder sources).unknown = m.unknown := Monitor.unknown_congr rfl hverdict
  constructor
  · -- the pid is the one thing merged that the order shows in
    have hevents : ∀ i, ((m.reorder sources).deviceEvents p i).map Event.dropPid
        = (m.deviceEvents p i).map Event.dropPid := by
      intro i
      unfold deviceEvents
      rw [hreport, hunknown, hverdict]
      simp only [List.map_append, apply_ite (List.map Event.dropPid), List.map_cons, List.map_nil,
        Event.dropPid]
      rfl
    simp only [poll, Outcome.dropPid, hothers, List.map_flatMap, hevents]
  · have hgate : (m.reorder sources).gate p = m.gate p := Monitor.gate_congr rfl hothers
    have hsources : (sampleAll (m.reorder sources).devices (m.reorder sources).sources
        fun _ => {}).1 = sources.map (·.next m.devices) := by
      rw [sampleAll_independent h']
      rfl
    unfold step poll
    rw [hsources, hgate, hreport, hunknown]
    rfl

/-- A poll takes every source on, each by itself. -/
theorem Monitor.step_sources (h : ∀ s ∈ m.sources, s.Independent) (p : PollInput n) :
    (m.step p).sources = m.sources.map (·.next m.devices) := by
  unfold step poll
  rw [sampleAll_independent h]

/-- **A history of polls** has the same outcomes, but for the pids, in every
order of the sources. -/
theorem Monitor.outcomes_perm (polls : List (PollInput n)) : ∀ {m : Monitor n}
    {sources : List (Source n)}, (∀ s ∈ m.sources, s.Independent) → sources.Perm m.sources →
    ((m.reorder sources).outcomes polls).map Outcome.dropPid
      = (m.outcomes polls).map Outcome.dropPid := by
  induction polls with
  | nil => intro m sources _ _; rfl
  | cons p polls ih =>
    intro m sources h hperm
    obtain ⟨houtcome, hstep⟩ := Monitor.poll_reorder h hperm p
    -- the sources afterwards are as independent, and permuted as before
    have hnext : ∀ s ∈ (m.step p).sources, s.Independent := by
      rw [Monitor.step_sources h]
      intro s hs
      obtain ⟨s₀, hs₀, rfl⟩ := List.mem_map.mp hs
      exact (h s₀ hs₀).next
    have hperm' : (sources.map (·.next m.devices)).Perm (m.step p).sources := by
      rw [Monitor.step_sources h]
      exact hperm.map _
    simp only [outcomes, List.map_cons, houtcome, hstep, ih hnext hperm']

end Reorder

end Independent

/-! ## Our own share -/

/-- The part of the wall time since the previous poll that this process's
kernels ran on device `i`, in percent. -/
def ownSince {n : ℕ} (previous : Option (PollInput n)) (p : PollInput n) (i : Fin n) : ℚ :=
  match previous with
  | some q =>
    if q.now < p.now then
      clamp (100 * (p.busy_ms i - q.busy_ms i) / ((p.now - q.now : ℤ) / 1000000)) 0 100
    else 0
  | none => 0

/-- Our own share is measured against the poll before, which is the only state that it
needs. -/
theorem Monitor.own_eq {n : ℕ} (m : Monitor n) (p q : PollInput n) (i : Fin n)
    (hown : m.own_busy_ms = true) : (m.step q).own p i = ownSince (some q) p i := by
  have hwall : (0 : ℚ) < ((p.now - q.now : ℤ) : ℚ) / 1000000 ↔ q.now < p.now := by
    rw [div_pos_iff_of_pos_right (by norm_num), Int.cast_pos, sub_pos]
  have hlast : (m.step q).own_busy_ms_last = q.busy_ms := by
    unfold step poll
    rw [hown]
    rfl
  unfold own ownSince
  rw [step_own_busy_ms, hown, step_last_poll, hlast]
  dsimp only
  by_cases h : q.now < p.now
  · rw [if_pos (hwall.mpr h), if_pos h]
  · rw [if_neg (hwall.not.mpr h), if_neg h]

/-- Over a history, `own` is what the previous poll's reading and time make of
this one's; a monitor without `own_busy_ms_` counts nothing as ours. -/
theorem Monitor.own_create {n : ℕ} (names : Fin n → String) (devices : Fin n → DeviceLocator)
    (sources : List (Source n)) (own_busy_ms : Bool) (polls : List (PollInput n))
    (p : PollInput n) (i : Fin n) :
    (polls.foldl step (create names devices sources own_busy_ms)).own p i
      = if own_busy_ms then ownSince polls.getLast? p i else 0 := by
  have hflag : ∀ ps : List (PollInput n),
      (ps.foldl step (create names devices sources own_busy_ms)).own_busy_ms = own_busy_ms :=
    fun ps => List.foldlRecOn (motive := fun m : Monitor n => m.own_busy_ms = own_busy_ms) ps step
      rfl fun _ hm _ _ => hm
  cases hown : own_busy_ms with
  | false =>
    rw [hown] at hflag
    unfold own
    rw [hflag]
    rfl
  | true =>
    rw [hown] at hflag
    -- the last poll left its own time and reading, whatever came before it
    rcases List.eq_nil_or_concat polls with rfl | ⟨qs, q, rfl⟩
    · rfl
    · rw [List.concat_eq_append, List.foldl_append, List.getLast?_append]
      exact Monitor.own_eq _ p q i (hflag qs)

/-! ## The outcome of a poll -/

/-- **What a poll hands to a gate**, for sources that report regardless of what they
are handed: nothing when nobody says busy; everything when somebody does and nobody
has measured; else the largest measurement less our own share. So all that a history
of polls does, but for the pids it logs, is the same in every order of the sources. An
independent source stays one after any poll (`Monitor.step_sources`), so after any
history the fold over the sources is a maximum, and a maximum has no order. -/
theorem others_spec {n : ℕ} (names : Fin n → String) (devices : Fin n → DeviceLocator)
    (sources : List (Source n)) (hind : ∀ s ∈ sources, s.Independent) (own_busy_ms : Bool)
    (polls : List (PollInput n)) (p : PollInput n) (i : Fin n) :
    let m := polls.foldl Monitor.step (Monitor.create names devices sources own_busy_ms)
    let own := if own_busy_ms then ownSince polls.getLast? p i else 0
    ((∀ o ∈ m.seen i, o.verdict ≠ .busy) → m.others p i = none)
      ∧ ((∃ o ∈ m.seen i, o.verdict = .busy) → (∀ o ∈ m.seen i, o.device_busy = none) →
          m.others p i = some 100)
      ∧ ((∃ o ∈ m.seen i, o.verdict = .busy) →
          ∀ M, IsGreatest {b | ∃ o ∈ m.seen i, o.device_busy = some b} M →
            m.others p i = some (clamp (M - own) 0 100))
      ∧ ∀ sources', sources'.Perm sources →
          ((Monitor.create names devices sources' own_busy_ms).outcomes polls).map Outcome.dropPid
            = ((Monitor.create names devices sources own_busy_ms).outcomes polls).map
                Outcome.dropPid := by
  intro m own
  have hm : ∀ s ∈ m.sources, s.Independent := by
    refine List.foldlRecOn (motive := fun m : Monitor n => ∀ s ∈ m.sources, s.Independent) polls
      Monitor.step hind fun m' hm' q _ => ?_
    rw [Monitor.step_sources hm']
    intro s hs
    obtain ⟨s₀, hs₀, rfl⟩ := List.mem_map.mp hs
    exact (hm' s₀ hs₀).next
  have hown : m.own p i = own := Monitor.own_create names devices sources own_busy_ms polls p i
  refine ⟨Monitor.others_of_none_busy hm p, Monitor.others_of_unmeasured hm p, ?_, ?_⟩
  · intro hbusy M hM
    rw [← hown]
    exact Monitor.others_of_measured hm p hbusy hM
  · intro sources' hperm
    exact Monitor.outcomes_perm (m := Monitor.create names devices sources own_busy_ms) polls hind
      hperm

/-- A source that always reports the same. -/
def Source.constant {n : ℕ} (name : String) (seen : Fin n → Observation) : Source n where
  State := Unit
  state := ()
  name := name
  run _ _ _ := ((), seen)

/-- A busy device measured by one source, and a higher measurement of another
that does not know whose work it is. -/
def twoSources : List (Source 1) :=
  [ .constant "first" fun _ => { verdict := .busy, pid := 7, device_busy := some 55 },
    .constant "second" fun _ => { device_busy := some 70 } ]

def pollAt (now : ℤ) (busy_ms : ℚ) : PollInput 1 where
  now := now
  busy_ms _ := busy_ms

/-- Two seconds after the first poll, 40 % of them ours: the others take
30 %. -/
theorem others_spec_twoSources :
    ([pollAt 0 0].foldl Monitor.step (Monitor.create (fun _ => "gpu0") (fun _ => {}) twoSources
      true)).others (pollAt 2000000000 800) 0 = some 30 := by
  have h := (others_spec (fun _ => "gpu0") (fun _ => {}) twoSources
    (by
      intro s hs
      simp only [twoSources, List.mem_cons, List.not_mem_nil, or_false] at hs
      rcases hs with rfl | rfl
      · intro _ _ _ _; rfl
      · intro _ _ _ _; rfl)
    true [pollAt 0 0] (pollAt 2000000000 800) 0).2.2.1 ⟨_, .head _, rfl⟩ 70
    ⟨⟨_, .tail _ (.head _), rfl⟩, by
      rintro b ⟨o, ho, hob⟩
      have hcases : o = { verdict := .busy, pid := 7, device_busy := some 55 }
          ∨ o = { device_busy := some 70 } := by
        simpa [Monitor.seen, twoSources, Monitor.step, Monitor.poll, Monitor.create, sampleAll,
          Source.sample, Source.observe, Source.constant] using ho
      rcases hcases with rfl | rfl
      · cases hob; norm_num
      · cases hob; norm_num⟩
  rw [h]
  decide +kernel

end Loadmaster.Gpu.Contention
