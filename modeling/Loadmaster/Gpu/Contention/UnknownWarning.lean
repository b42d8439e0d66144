/-
**A device nobody can see is reported once** (`gpu/contention/monitor.cc`).

`unknown_polls_` is a run length and a mark in one (`Lib/Streak`): it comes to
`kGpuYieldUnknownWarnPolls` in the poll that completes the first run of as many
unknown verdicts, and in no other.
-/
import Loadmaster.Gpu.Contention.Monitor
import Loadmaster.Lib.Run
import Loadmaster.Lib.Streak

set_option autoImplicit false

namespace Loadmaster.Gpu.Contention

variable {n : ℕ}

/-- The warning that nobody sees a device. -/
def Event.isWarn : Event n → Bool
  | .warn _ => true
  | .change _ _ _ _ => false

namespace Monitor

/-- No source sees device `i` in poll `k` of a run. -/
def UnknownAt (m : Monitor n) (polls : List (PollInput n)) (i : Fin n) (k : ℕ) : Prop :=
  ((Run.before step m polls k).merged i).verdict = .unknown

instance (m : Monitor n) (polls : List (PollInput n)) (i : Fin n) :
    DecidablePred (m.UnknownAt polls i) := fun _ => inferInstanceAs (Decidable (_ = _))

variable {m : Monitor n} {polls : List (PollInput n)} {i : Fin n} {k : ℕ} {p : PollInput n}

/-- **What the counter holds**: before poll `k` it has counted the polls before. -/
theorem unknown_polls_eq (hm : m.unknown_polls i = 0) (hk : k ≤ polls.length) :
    (Run.before step m polls k).unknown_polls i
      = Streak.latch (m.UnknownAt polls i) kGpuYieldUnknownWarnPolls k := by
  induction k with
  | zero => exact hm
  | succ k ih =>
    have hpoll : polls[k]? = some polls[k] := List.getElem?_eq_getElem hk
    rw [Run.before_succ hpoll, Streak.latch, ← ih (Nat.le_of_succ_le hk)]
    change (Run.before step m polls k).unknown i = _
    change (if ¬ m.UnknownAt polls i k then _ else _) = _
    by_cases hunknown : m.UnknownAt polls i k
    · rw [if_pos hunknown, if_neg (not_not.mpr hunknown)]
    · rw [if_neg hunknown, if_pos hunknown]

/-- A device is warned of in the poll that completes its first run. -/
theorem warns_iff (hm : m.unknown_polls i = 0) (hk : k < polls.length) :
    ((Run.before step m polls k).merged i).verdict = .unknown ∧
        (Run.before step m polls k).unknown i = kGpuYieldUnknownWarnPolls
      ↔ Streak.FirstEndsAt (m.UnknownAt polls i) kGpuYieldUnknownWarnPolls k := by
  have hpoll : polls[k]? = some polls[k] := List.getElem?_eq_getElem hk
  have hcount := unknown_polls_eq (i := i) (k := k + 1) hm hk
  rw [Run.before_succ hpoll] at hcount
  change (Run.before step m polls k).unknown i = _ at hcount
  rw [hcount]
  exact Streak.latch_eq_iff (p := m.UnknownAt polls i) (by decide)

theorem deviceEvents_warns (m : Monitor n) (p : PollInput n) (i : Fin n) :
    (m.deviceEvents p i).filter Event.isWarn
      = if (m.merged i).verdict = .unknown ∧ m.unknown i = kGpuYieldUnknownWarnPolls then
          [.warn (m.names i)] else [] := by
  unfold deviceEvents
  split_ifs <;> rfl

theorem before_names (m : Monitor n) (polls : List (PollInput n)) (k : ℕ) :
    (Run.before step m polls k).names = m.names := by
  apply Run.before_induction (P := fun m' : Monitor n => m'.names = m.names) rfl
  intro k p _ h
  exact h

open Classical in
/-- **A device nobody can see is reported once.** In any history of fewer than 2^31
polls of a new monitor, the warnings of a poll are one for each device for which the
poll completes the first run of `kGpuYieldUnknownWarnPolls` unknown verdicts in a row,
and no others; a device that has such a run has one first run, in one poll; and the
counter stays an `int`. The counter grows with each unknown verdict, and any other
sets it back only below the bound (`unknown_polls_eq`); so it comes to the bound once,
in the poll that completes the first run. -/
theorem warns_once (names : Fin n → String) (devices : Fin n → DeviceLocator)
    (sources : List (Source n)) (own_busy_ms : Bool) (polls : List (PollInput n))
    (hshort : polls.length < 2 ^ 31) :
    let start := Monitor.create names devices sources own_busy_ms
    let unknown := fun i k => start.UnknownAt polls i k
    let first := fun i k => Streak.FirstEndsAt (unknown i) kGpuYieldUnknownWarnPolls k
    (∀ k p, polls[k]? = some p →
        ((Run.before step start polls k).poll p).2.events.filter Event.isWarn
          = ((List.finRange n).filter fun i => first i k).map fun i => .warn (names i)) ∧
      (∀ i, (∃ k < polls.length, Streak.EndsAt (unknown i) kGpuYieldUnknownWarnPolls k) →
        ∃! k, k < polls.length ∧ first i k) ∧
      ∀ i, ∀ k ≤ polls.length, (Run.before step start polls k).unknown_polls i < 2 ^ 31 := by
  intro start unknown first
  refine ⟨?_, fun i h => Streak.existsUnique_firstEndsAt h, ?_⟩
  · intro k p hp
    have hk : k < polls.length := (List.getElem?_eq_some_iff.mp hp).1
    change ((List.finRange n).flatMap _).filter _ = _
    -- device by device: its warning, if it has one, is all that is kept
    induction List.finRange n with
    | nil => rfl
    | cons i is ih =>
      rw [List.flatMap_cons, List.filter_append, ih, deviceEvents_warns, before_names]
      by_cases hfirst : first i k
      · rw [if_pos ((warns_iff rfl hk).mpr hfirst), List.filter_cons_of_pos (by simpa using hfirst)]
        rfl
      · rw [if_neg (mt (warns_iff rfl hk).mp hfirst),
          List.filter_cons_of_neg (by simpa using hfirst)]
        rfl
  · intro i k hk
    rw [unknown_polls_eq rfl hk]
    exact ((Streak.latch_le k).trans hk).trans_lt hshort

/-- A monitor of one device without any sources warns in its third poll. -/
theorem warns_once_unseen :
    let start := Monitor.create (fun _ : Fin 1 => "gpu0") (fun _ => {}) [] false
    let polls := List.replicate 5 (PollInput.mk 0 fun _ => 0)
    ((Run.before step start polls 2).poll ⟨0, fun _ => 0⟩).2.events.filter Event.isWarn
      = [.warn "gpu0"] := by
  classical
  intro start polls
  have h := (warns_once (fun _ : Fin 1 => "gpu0") (fun _ => {}) [] false polls (by decide)).1 2
    ⟨0, fun _ => 0⟩ rfl
  refine h.trans ?_
  -- nothing is ever seen, so the first three polls are a run, and shorter ones are none
  have hunknown : ∀ i k, start.UnknownAt polls i k := by
    intro i k
    have hsources : (Run.before step start polls k).sources = [] := by
      apply Run.before_induction (P := fun m : Monitor 1 => m.sources = []) rfl
      intro k p _ hk
      change (sampleAll _ (Run.before step start polls k).sources _).1 = []
      rw [hk]
      rfl
    unfold UnknownAt merged
    rw [hsources]
    rfl
  have hfirst : ∀ i, Streak.FirstEndsAt (start.UnknownAt polls i) kGpuYieldUnknownWarnPolls 2 := by
    intro i
    refine ⟨⟨by decide, fun j _ _ => hunknown i j⟩, ?_⟩
    intro j hj hends
    have hle := hends.1
    unfold kGpuYieldUnknownWarnPolls at hle
    omega
  rw [List.filter_eq_self.mpr fun i _ => by simpa using hfirst i]
  rfl

end Monitor

end Loadmaster.Gpu.Contention
