/-
A queue for the maximum over a sliding window of time.

Values are seen one after the other, each with its time. The queue keeps only
those that may still become the maximum: a value is dropped at the back once a
later one is at least as large, and at the front once it has left the window.
`Holds` is the invariant, against the set of everything seen: the queue is in
order of time and strictly decreasing in value, and every value in the window is
covered by a later one in the queue that is at least as large. So the first
value is the largest in the window.

Both ends drop a run of elements, which is the same as dropping all elements of
that kind, since on a queue in order no such element stands behind another one.
-/
import Mathlib.Algebra.Order.Group.Defs
import Mathlib.Algebra.Order.Sub.Basic
import Mathlib.Data.List.DropRight
import Mathlib.Order.Bounds.Basic

set_option autoImplicit false

namespace SlidingMax

/-! ## Dropping at an end -/

section Ends

variable {α : Type*} {p : α → Bool} {l : List α}

/-- If whatever stands before an element of the kind is of the kind, dropping at
the front drops them all. -/
theorem dropWhile_eq_filter (h : l.Pairwise fun a b => p b → p a) :
    l.dropWhile p = l.filter fun a => !p a := by
  induction l with
  | nil => rfl
  | cons a l ih =>
    obtain ⟨ha, hl⟩ := List.pairwise_cons.mp h
    by_cases hp : p a
    · rw [List.dropWhile_cons_of_pos hp, ih hl, List.filter_cons_of_neg (by simp [hp])]
    · have hnone : ∀ b ∈ l, !p b := fun b hb => by simpa using fun hpb => hp (ha b hb hpb)
      rw [List.dropWhile_cons_of_neg hp, List.filter_cons_of_pos (by simp [hp]),
        List.filter_eq_self.mpr hnone]

/-- If whatever stands behind an element of the kind is of the kind, dropping at
the back drops them all. -/
theorem rdropWhile_eq_filter (h : l.Pairwise fun a b => p a → p b) :
    l.rdropWhile p = l.filter fun a => !p a := by
  have hrev : l.reverse.Pairwise fun a b => p b → p a := List.pairwise_reverse.mpr h
  rw [List.rdropWhile, dropWhile_eq_filter hrev, List.filter_reverse, List.reverse_reverse]

end Ends

/-! ## The queue -/

variable {T V : Type*} [AddCommGroup T] [LinearOrder T] [LinearOrder V]

/-- Drop what is `width` or more before `now`. -/
def expire (width now : T) (q : List (T × V)) : List (T × V) :=
  q.dropWhile fun s => width ≤ now - s.1

/-- Append a value and drop those that it covers. -/
def push (now : T) (v : V) (q : List (T × V)) : List (T × V) :=
  q.rdropWhile (fun s => s.2 ≤ v) ++ [(now, v)]

/-- The values in the window. -/
def inWindow (width : T) (seen : Set (T × V)) (now : T) : Set V :=
  {v | ∃ t, (t, v) ∈ seen ∧ now - t < width}

/-- The queue for what was seen until `now`. -/
structure Holds (width : T) (seen : Set (T × V)) (now : T) (q : List (T × V)) : Prop where
  times : q.Pairwise fun a b => a.1 ≤ b.1
  values : q.Pairwise fun a b => b.2 < a.2
  sound : ∀ s ∈ q, s ∈ seen ∧ now - s.1 < width
  complete : ∀ s ∈ seen, now - s.1 < width → ∃ s' ∈ q, s.1 ≤ s'.1 ∧ s.2 ≤ s'.2
  seen_le : ∀ s ∈ seen, s.1 ≤ now

variable {width now now' : T} {v : V} {seen : Set (T × V)} {q : List (T × V)}

theorem Holds.empty (width now : T) : Holds width (∅ : Set (T × V)) now [] where
  times := .nil
  values := .nil
  sound := by simp
  complete := by simp
  seen_le := by simp

/-- **Time passes.** -/
theorem Holds.expire [IsOrderedAddMonoid T] (h : Holds width seen now q) (hnow : now ≤ now') :
    Holds width seen now' (expire width now' q) := by
  have heq : SlidingMax.expire width now' q = q.filter fun s => !decide (width ≤ now' - s.1) := by
    refine dropWhile_eq_filter (h.times.imp fun hab hb => ?_)
    simp only [decide_eq_true_eq] at hb ⊢
    exact hb.trans (sub_le_sub_left hab _)
  have hmem : ∀ s, s ∈ SlidingMax.expire width now' q ↔ s ∈ q ∧ now' - s.1 < width := by
    intro s
    rw [heq, List.mem_filter]
    simp
  refine ⟨?_, ?_, ?_, ?_, ?_⟩
  · rw [heq]
    exact h.times.filter _
  · rw [heq]
    exact h.values.filter _
  · intro s hs
    obtain ⟨hq, hin⟩ := (hmem s).mp hs
    exact ⟨(h.sound s hq).1, hin⟩
  · intro s hs hin
    -- what was in the window now was in it before, and what covers it is later still
    obtain ⟨s', hs', htime, hvalue⟩ := h.complete s hs ((sub_le_sub_right hnow _).trans_lt hin)
    exact ⟨s', (hmem s').mpr ⟨hs', (sub_le_sub_left htime _).trans_lt hin⟩, htime, hvalue⟩
  · intro s hs
    exact (h.seen_le s hs).trans hnow

/-- **A value is seen.** -/
theorem Holds.push (h : Holds width seen now q) (hwidth : 0 < width) :
    Holds width (insert (now, v) seen) now (push now v q) := by
  have heq : q.rdropWhile (fun s => s.2 ≤ v) = q.filter fun s => !decide (s.2 ≤ v) := by
    refine rdropWhile_eq_filter (h.values.imp fun hab ha => ?_)
    simp only [decide_eq_true_eq] at ha ⊢
    exact hab.le.trans ha
  have hmem : ∀ s, s ∈ q.rdropWhile (fun s => s.2 ≤ v) ↔ s ∈ q ∧ v < s.2 := by
    intro s
    rw [heq, List.mem_filter]
    simp
  unfold SlidingMax.push
  refine ⟨?_, ?_, ?_, ?_, ?_⟩
  · -- the new value is the latest
    rw [List.pairwise_append]
    refine ⟨by rw [heq]; exact h.times.filter _, List.pairwise_singleton _ _, ?_⟩
    intro s hs t ht
    rw [List.mem_singleton.mp ht]
    exact h.seen_le s (h.sound s ((hmem s).mp hs).1).1
  · -- and, after the drop, the smallest
    rw [List.pairwise_append]
    refine ⟨by rw [heq]; exact h.values.filter _, List.pairwise_singleton _ _, ?_⟩
    intro s hs t ht
    rw [List.mem_singleton.mp ht]
    exact ((hmem s).mp hs).2
  · intro s hs
    rcases List.mem_append.mp hs with hs | hs
    · obtain ⟨hseen, hin⟩ := h.sound s ((hmem s).mp hs).1
      exact ⟨Set.mem_insert_of_mem _ hseen, hin⟩
    · rw [List.mem_singleton.mp hs]
      exact ⟨Set.mem_insert _ _, by rwa [sub_self]⟩
  · intro s hs hin
    rcases Set.mem_insert_iff.mp hs with rfl | hs
    · exact ⟨_, List.mem_append_right _ (List.mem_singleton_self _), le_rfl, le_rfl⟩
    · obtain ⟨s', hs', htime, hvalue⟩ := h.complete s hs hin
      -- what covered it may just have been dropped, for the new value
      by_cases hdrop : s'.2 ≤ v
      · exact ⟨(now, v), List.mem_append_right _ (List.mem_singleton_self _), h.seen_le s hs,
          hvalue.trans hdrop⟩
      · exact ⟨s', List.mem_append_left _ ((hmem s').mpr ⟨hs', not_le.mp hdrop⟩), htime, hvalue⟩
  · intro s hs
    rcases Set.mem_insert_iff.mp hs with rfl | hs
    · exact le_rfl
    · exact h.seen_le s hs

/-- **The first value of the queue is the largest in the window.** -/
theorem Holds.head?_eq_some_iff (h : Holds width seen now q) :
    q.head?.map Prod.snd = some v ↔ IsGreatest (inWindow width seen now) v := by
  cases q with
  | nil =>
    constructor
    · intro hv
      cases hv
    · rintro ⟨⟨t, hseen, hin⟩, -⟩
      obtain ⟨s', hs', -⟩ := h.complete _ hseen hin
      cases hs'
  | cons s q =>
    obtain ⟨hseen, hin⟩ := h.sound s List.mem_cons_self
    have hmax : IsGreatest (inWindow width seen now) s.2 := by
      refine ⟨⟨s.1, hseen, hin⟩, ?_⟩
      rintro v ⟨t, hv, ht⟩
      obtain ⟨s', hs', -, hle⟩ := h.complete _ hv ht
      rcases List.mem_cons.mp hs' with rfl | hs'
      · exact hle
      · exact hle.trans ((List.pairwise_cons.mp h.values).1 s' hs').le
    constructor
    · intro hv
      cases hv
      exact hmax
    · intro hv
      exact congrArg some (hmax.unique hv)

theorem Holds.head?_eq_none_iff (h : Holds width seen now q) :
    q.head?.map Prod.snd = none ↔ inWindow width seen now = ∅ := by
  constructor
  · intro hnone
    have hnil : q = [] := by simpa using hnone
    rw [Set.eq_empty_iff_forall_notMem]
    rintro v ⟨t, hv, ht⟩
    obtain ⟨s', hs', -⟩ := h.complete _ hv ht
    rw [hnil] at hs'
    cases hs'
  · intro hempty
    cases hq : q.head?.map Prod.snd with
    | none => rfl
    | some v =>
      have hmax := h.head?_eq_some_iff.mp hq
      rw [hempty] at hmax
      exact hmax.1.elim

end SlidingMax
