/-
From the gates to the workers: no change of the sharing state is lost or
repeated (`gpu/contention/monitor.cc`, `gpu/manager.cc`, `gpu/worker.h`).

The monitor reports edges, the worker keeps a level. `told` is the level each
device was last told, over any list of events. Within a poll the events of the
devices do not touch each other, so what a poll tells is `report` and each
change it makes is one from what was told before (`hear_devices`,
`fresh_devices`); over a history, what the monitor remembers to have reported
is what it has told, and that is the rounded level of its gate.
-/
import Loadmaster.Gpu.Settings
import Loadmaster.Gpu.Contention.Monitor

set_option autoImplicit false

namespace Loadmaster.Gpu.Contention

open Round

variable {n : ℕ}

/-! ## What the devices are told -/

/-- An event changes what its device was last told. -/
def hear (told : Fin n → Option ℤ) : Event n → Fin n → Option ℤ
  | .warn _ => told
  | .change i _ others _ => Function.update told i others

/-- What each device was last told; nothing at first. -/
def told (es : List (Event n)) : Fin n → Option ℤ := es.foldl hear fun _ => none

/-- `on_change` in `InitContentionMonitor`: the worker of the device is told
the new share. -/
def onChange (workers : Fin n → Settings) : Event n → Fin n → Settings
  | .warn _ => workers
  | .change i _ others _ => Function.update workers i ((workers i).setOthers others)

/-- The workers after any events, alone at first. -/
def workersAfter (es : List (Event n)) : Fin n → Settings := es.foldl onChange fun _ => {}

/-- Every change is one, from what was told before. -/
def Fresh : (Fin n → Option ℤ) → List (Event n) → Prop
  | _, [] => True
  | told, .warn _ :: es => Fresh told es
  | told, .change i _ others _ :: es => others ≠ told i ∧ Fresh (Function.update told i others) es

theorem fresh_append (es es' : List (Event n)) : ∀ told : Fin n → Option ℤ,
    Fresh told (es ++ es') ↔ Fresh told es ∧ Fresh (es.foldl hear told) es' := by
  induction es with
  | nil => intro told; simp [Fresh]
  | cons e es ih =>
    intro told
    cases e with
    | warn name => exact ih told
    | change i name others pid =>
      simp only [List.cons_append, Fresh, ih, and_assoc]
      rfl

/-- A worker has what its device was told. -/
theorem workersAfter_others (es : List (Event n)) (i : Fin n) :
    (workersAfter es i).others_percent = Settings.encodeOthers (told es i) := by
  induction es using List.reverseRecOn with
  | nil => rfl
  | append_singleton es e ih =>
    unfold workersAfter told at ih ⊢
    rw [List.foldl_append, List.foldl_append]
    cases e with
    | warn name => exact ih
    | change j name others pid =>
      -- the worker and what was told are set by the same event, for one device
      by_cases hij : i = j
      · subst hij
        simp [onChange, hear, Settings.setOthers]
      · simpa [onChange, hear, Function.update_of_ne hij] using ih

/-! ## One poll -/

namespace Monitor

variable {m : Monitor n} {p : PollInput n}

/-- What the events of one device tell it, and nobody else. -/
theorem hear_deviceEvents (told : Fin n → Option ℤ) (i : Fin n) (htold : told i = m.reported i) :
    (m.deviceEvents p i).foldl hear told = Function.update told i (m.report p i) := by
  -- telling a device what it was told last changes nothing, so not telling it is the same
  have hsame : m.report p i = m.reported i → told = Function.update told i (m.report p i) := by
    intro h
    rw [h, ← htold, Function.update_eq_self]
  unfold deviceEvents
  by_cases hwarn : (m.merged i).verdict = .unknown ∧ m.unknown i = kGpuYieldUnknownWarnPolls
  · by_cases hchange : m.report p i = m.reported i
    · rw [if_pos hwarn, if_neg (not_not_intro hchange)]
      exact hsame hchange
    · rw [if_pos hwarn, if_pos hchange]
      rfl
  · by_cases hchange : m.report p i = m.reported i
    · rw [if_neg hwarn, if_neg (not_not_intro hchange)]
      exact hsame hchange
    · rw [if_neg hwarn, if_pos hchange]
      rfl

theorem fresh_deviceEvents (told : Fin n → Option ℤ) (i : Fin n) (htold : told i = m.reported i) :
    Fresh told (m.deviceEvents p i) := by
  unfold deviceEvents
  split_ifs with hwarn hchange hchange
  · exact ⟨htold ▸ hchange, trivial⟩
  · trivial
  · exact ⟨htold ▸ hchange, trivial⟩
  · trivial

/-- The events of some devices, one after the other: each is told its report,
and told it as a change. -/
theorem hear_devices (l : List (Fin n)) : ∀ told : Fin n → Option ℤ, l.Nodup →
    (∀ i ∈ l, told i = m.reported i) →
    (l.flatMap (m.deviceEvents p)).foldl hear told
        = (fun i => if i ∈ l then m.report p i else told i)
      ∧ Fresh told (l.flatMap (m.deviceEvents p)) := by
  induction l with
  | nil =>
    intro told _ _
    exact ⟨by simp, trivial⟩
  | cons j l ih =>
    intro told hnodup htold
    obtain ⟨hj, hnodup⟩ := List.nodup_cons.mp hnodup
    have hhear := hear_deviceEvents (p := p) told j (htold j (by simp))
    -- the events of `j` leave the later devices with what they were told
    have hrest : ∀ i ∈ l, Function.update told j (m.report p j) i = m.reported i := by
      intro i hi
      have hij : i ≠ j := fun h => hj (h ▸ hi)
      rw [Function.update_of_ne hij, htold i (by simp [hi])]
    obtain ⟨ihhear, ihfresh⟩ := ih _ hnodup hrest
    rw [List.flatMap_cons, List.foldl_append, fresh_append, hhear]
    refine ⟨?_, fresh_deviceEvents told j (htold j (by simp)), ihfresh⟩
    rw [ihhear]
    funext i
    by_cases hij : i = j
    · subst hij
      simp [hj]
    · simp [hij]

/-- What a poll tells is what it reports, as changes from what it remembers. -/
theorem hear_poll (m : Monitor n) (p : PollInput n) :
    (m.poll p).2.events.foldl hear m.reported = (m.step p).reported
      ∧ Fresh m.reported (m.poll p).2.events := by
  obtain ⟨hhear, hfresh⟩ := hear_devices (m := m) (p := p) (List.finRange n) m.reported
    (List.nodup_finRange n) fun _ _ => rfl
  refine ⟨?_, hfresh⟩
  rw [show (m.poll p).2.events = (List.finRange n).flatMap (m.deviceEvents p) from rfl, hhear]
  funext i
  simp

/-! ## Histories -/

/-- All events of a history of polls. -/
def events (m : Monitor n) (polls : List (PollInput n)) : List (Event n) :=
  (m.outcomes polls).flatMap (·.events)

theorem events_cons (m : Monitor n) (p : PollInput n) (polls : List (PollInput n)) :
    m.events (p :: polls) = (m.poll p).2.events ++ (m.step p).events polls := rfl

theorem events_append (polls polls' : List (PollInput n)) : ∀ m : Monitor n,
    m.events (polls ++ polls') = m.events polls ++ (polls.foldl step m).events polls' := by
  induction polls with
  | nil => intro m; rfl
  | cons p polls ih =>
    intro m
    rw [List.cons_append, events_cons, ih, events_cons, List.append_assoc]
    rfl

/-- What a history has told is what the monitor remembers, told as changes. -/
theorem hear_events (polls : List (PollInput n)) : ∀ m : Monitor n,
    (m.events polls).foldl hear m.reported = (polls.foldl step m).reported
      ∧ Fresh m.reported (m.events polls) := by
  induction polls with
  | nil => intro m; exact ⟨rfl, trivial⟩
  | cons p polls ih =>
    intro m
    obtain ⟨hhear, hfresh⟩ := hear_poll m p
    obtain ⟨ihhear, ihfresh⟩ := ih (m.step p)
    rw [events_cons, List.foldl_append, fresh_append, hhear]
    exact ⟨ihhear, hfresh, ihfresh⟩

end Monitor

/-! ## No edge is lost or repeated -/

/-- A call of `on_change` for device `i`. -/
def Event.isChange (i : Fin n) : Event n → Bool
  | .warn _ => false
  | .change j _ _ _ => j = i

theorem Monitor.deviceEvents_changes (m : Monitor n) (p : PollInput n) (i j : Fin n) :
    (m.deviceEvents p j).filter (Event.isChange i)
      = if j = i ∧ m.report p i ≠ m.reported i then
          [.change i (m.names i) (m.report p i) (m.merged i).pid] else [] := by
  unfold deviceEvents
  by_cases hij : j = i
  · subst hij
    split_ifs <;> simp_all [Event.isChange]
  · split_ifs <;> simp_all [Event.isChange]

/-- Device `i` is called for at most once in a poll, when its report differs
from the last one. -/
theorem Monitor.poll_changes (m : Monitor n) (p : PollInput n) (i : Fin n) :
    (m.poll p).2.events.filter (Event.isChange i)
      = if m.report p i ≠ m.reported i then
          [.change i (m.names i) (m.report p i) (m.merged i).pid] else [] := by
  -- over any part of the devices, where `i` comes up at most once
  have hlist : ∀ l : List (Fin n), l.Nodup →
      (l.flatMap (m.deviceEvents p)).filter (Event.isChange i)
        = if i ∈ l ∧ m.report p i ≠ m.reported i then
            [.change i (m.names i) (m.report p i) (m.merged i).pid] else [] := by
    intro l hnodup
    induction l with
    | nil => simp
    | cons j l ih =>
      obtain ⟨hj, hnodup⟩ := List.nodup_cons.mp hnodup
      rw [List.flatMap_cons, List.filter_append, Monitor.deviceEvents_changes, ih hnodup]
      by_cases hij : j = i
      · subst hij
        simp [hj]
      · simp [hij, Ne.symm hij]
  have h := hlist (List.finRange n) (List.nodup_finRange n)
  simp only [List.mem_finRange, true_and] at h
  exact h

/-- **No change of the sharing state is lost or repeated.** After any history
of polls of a new monitor and in the next poll, with `level i` the rounded
level of gate `i` after it:

* `on_change` is called for device `i` exactly when `level i` is not what was
  last told, once, with `level i`;
* the worker of device `i`, driven by these calls only, then has `level i`,
  clamped to a percentage, or -1 for none;
* and no call of the whole history carries what the worker was last told.

What was last told is a fold over the events, and after every poll it is what the
monitor has put down as reported (`Monitor.hear_events`); the next poll compares its
level with exactly that. -/
theorem changes_reach_worker (names : Fin n → String) (devices : Fin n → DeviceLocator)
    (sources : List (Source n)) (own_busy_ms : Bool) (polls : List (PollInput n))
    (p : PollInput n) :
    let start := Monitor.create names devices sources own_busy_ms
    let m := polls.foldl Monitor.step start
    let past := start.events polls
    let now := (m.poll p).2.events
    let level := fun i => ((m.step p).gates i).level.map lround
    (∀ i, now.filter (Event.isChange i)
        = if level i ≠ told past i then [.change i (m.names i) (level i) (m.merged i).pid] else [])
      ∧ (∀ i, (workersAfter (past ++ now) i).others_percent = Settings.encodeOthers (level i))
      ∧ ∀ pre post i name others pid, past ++ now = pre ++ .change i name others pid :: post →
          others ≠ told pre i := by
  intro start m past now level
  have hpast : told past = m.reported := (Monitor.hear_events polls start).1
  have hall := Monitor.hear_events (polls ++ [p]) start
  have hevents : start.events (polls ++ [p]) = past ++ now := by
    rw [Monitor.events_append]
    simp only [Monitor.events, Monitor.outcomes, List.flatMap_cons, List.flatMap_nil,
      List.append_nil]
    rfl
  have hstep : (polls ++ [p]).foldl Monitor.step start = m.step p := by
    rw [List.foldl_append]
    rfl
  rw [hevents, hstep] at hall
  refine ⟨fun i => ?_, fun i => ?_, ?_⟩
  · rw [hpast]
    exact Monitor.poll_changes m p i
  · have hnow : told (past ++ now) i = level i := by
      rw [show told (past ++ now) = (m.step p).reported from hall.1, Monitor.step_reported]
      rfl
    rw [workersAfter_others, hnow]
  · -- freshness of the whole history, read at one of its events
    intro pre post i name others pid hsplit
    have hfresh : Fresh (fun _ => none) (pre ++ .change i name others pid :: post) :=
      hsplit ▸ hall.2
    exact ((fresh_append pre _ _).mp hfresh).2.1

end Loadmaster.Gpu.Contention
