/-
What the two `rand_normal` schedulers have in common: a walk through the load
points, one point at a time and each for at least an interval, over and over in
a new order. `Averages` is what such a walk is for; `Follows` is the invariant
that carries it from one change of the target to the next.
-/
import Loadmaster.Lib.Cycle
import Mathlib.Algebra.BigOperators.Group.List.Basic

set_option autoImplicit false

namespace Loadmaster.Util

open Cycle

/-! ## Time -/

/-- `duration_cast` from nanoseconds to milliseconds drops the rest. -/
def durationMs (ns : ℤ) : ℤ := ns.tdiv 1000000

theorem le_of_le_durationMs {ms ns : ℤ} (hms : 0 < ms) (h : ms ≤ durationMs ns) :
    ms * 1000000 ≤ ns := by
  unfold durationMs at h
  by_cases hns : 0 ≤ ns
  · rw [Int.tdiv_eq_ediv_of_nonneg hns] at h
    omega
  · -- a negative time has no positive number of milliseconds
    have hneg : ns.tdiv 1000000 ≤ 0 := by
      rw [← Int.neg_neg ns, Int.neg_tdiv, Int.tdiv_eq_ediv_of_nonneg (by omega)]
      omega
    omega

/-! ## The walk -/

/-- A change of the target: when, to which point of the order, and its load. -/
structure Change where
  time : ℤ
  index : ℕ
  target : ℤ
deriving DecidableEq, Repr

/-- What a scheduler keeps of its walk. -/
structure Walk where
  schedule_points : List ℤ
  point_idx : ℕ := 0
  last_change : ℤ := 0
  started : Bool := false
deriving DecidableEq, Repr

namespace Walk

/-- The first tick fires at once, the others after the interval. -/
def due (w : Walk) (interval_ms time : ℤ) : Bool :=
  !(w.started && durationMs (time - w.last_change) < interval_ms)

theorem due_eq_false_iff {w : Walk} {interval_ms time : ℤ} : w.due interval_ms time = false ↔
    w.started = true ∧ durationMs (time - w.last_change) < interval_ms := by
  simp [due]

theorem due_eq_true_iff {w : Walk} {interval_ms time : ℤ} : w.due interval_ms time = true ↔
    ¬ (w.started = true ∧ durationMs (time - w.last_change) < interval_ms) := by
  rw [← due_eq_false_iff, Bool.not_eq_false]

/-- The change at `time`, with the points in the order `points`. -/
def change (w : Walk) (points : List ℤ) (time : ℤ) : Change where
  time := time
  index := w.point_idx
  target := points.getD w.point_idx 0

def advance (w : Walk) (points : List ℤ) (time : ℤ) : Walk where
  schedule_points := points
  point_idx := if w.point_idx + 1 = points.length then 0 else w.point_idx + 1
  last_change := time
  started := true

end Walk

/-- **What the walk is for.** Cut into blocks of the number of points, the
targets of each complete block are the base points in some order, so that they
have the base points' average; the changes are an interval apart; and no index
is out of range. -/
structure Averages (base : List ℤ) (interval_ms : ℤ) (changes : List Change) : Prop where
  block : ∀ k, (k + 1) * base.length ≤ changes.length →
    (((changes.map Change.target).drop (k * base.length)).take base.length).Perm base
  sum : ∀ k, (k + 1) * base.length ≤ changes.length →
    (((changes.map Change.target).drop (k * base.length)).take base.length).sum = base.sum
  apart : ∀ k c c', changes[k]? = some c → changes[k + 1]? = some c' →
    interval_ms * 1000000 ≤ c'.time - c.time
  index_lt : ∀ c ∈ changes, c.index < base.length

/-- The walk after the changes so far. -/
structure Follows (base : List ℤ) (interval_ms : ℤ) (w : Walk) (changes : List Change) : Prop where
  dealt : Dealt base (changes.map Change.target) w.schedule_points w.point_idx
  apart : ∀ k c c', changes[k]? = some c → changes[k + 1]? = some c' →
    interval_ms * 1000000 ≤ c'.time - c.time
  index_lt : ∀ c ∈ changes, c.index < base.length
  last : ∀ c, changes[changes.length - 1]? = some c → w.started = true ∧ c.time = w.last_change

variable {base : List ℤ} {interval_ms time : ℤ} {w : Walk} {changes : List Change}

theorem Follows.averages (h : Follows base interval_ms w changes) :
    Averages base interval_ms changes where
  block := fun k hk => h.dealt.round (by rwa [List.length_map])
  sum := fun k hk => (h.dealt.round (by rwa [List.length_map])).sum_eq
  apart := h.apart
  index_lt := h.index_lt

theorem follows_nil (hne : base ≠ []) {points : List ℤ} (h : points.Perm base) :
    Follows base interval_ms { schedule_points := points } [] where
  dealt := dealt_nil hne h
  apart := by simp
  index_lt := by simp
  last := by simp

/-- **One change of the target** that is due, in a new order at most where the
walk begins anew. -/
theorem Follows.advance (hms : 0 < interval_ms) (h : Follows base interval_ms w changes)
    (hdue : w.due interval_ms time = true) {points : List ℤ} (hperm : points.Perm base)
    (hsame : w.point_idx ≠ 0 → points = w.schedule_points) :
    Follows base interval_ms (w.advance points time) (changes ++ [w.change points time]) where
  dealt := by
    obtain ⟨v, hv⟩ := h.dealt.exists_entry hperm
    have htarget : (w.change points time).target = v := by
      change points.getD w.point_idx 0 = v
      rw [List.getD_eq_getElem?_getD, hv, Option.getD_some]
    rw [List.map_append, List.map_singleton, htarget]
    exact h.dealt.deal hperm hsame hv
  apart := by
    intro k c c' hc hc'
    by_cases hlast : k + 1 < changes.length
    · rw [List.getElem?_append_left (by omega)] at hc
      rw [List.getElem?_append_left hlast] at hc'
      exact h.apart k c c' hc hc'
    · -- the new change is the second of the two
      have hk : k + 1 = changes.length := by
        have := (List.getElem?_eq_some_iff.mp hc').1
        rw [List.length_append, List.length_singleton] at this
        omega
      rw [List.getElem?_append_left (by omega)] at hc
      rw [hk, List.getElem?_append_right le_rfl, Nat.sub_self, List.getElem?_cons_zero] at hc'
      cases hc'
      obtain ⟨hstarted, htime⟩ := h.last c (by rw [← hk, Nat.add_sub_cancel]; exact hc)
      rw [htime]
      apply le_of_le_durationMs hms
      by_contra hearly
      exact Walk.due_eq_true_iff.mp hdue ⟨hstarted, not_le.mp hearly⟩
  index_lt := by
    intro c hc
    rcases List.mem_append.mp hc with hc | hc
    · exact h.index_lt c hc
    · rw [List.mem_singleton.mp hc]
      exact h.dealt.pos_lt
  last := by
    intro c hc
    rw [List.length_append, List.length_singleton, Nat.add_sub_cancel,
      List.getElem?_append_right le_rfl, Nat.sub_self, List.getElem?_cons_zero] at hc
    cases hc
    exact ⟨rfl, rfl⟩

end Loadmaster.Util
