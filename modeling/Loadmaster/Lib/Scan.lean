/-
Scanning a list from the front.

A piece is taken as long as a predicate holds, and the scan goes on with the
rest. `scan_append` reads a piece back that was put in front of a rest which the
predicate stops at; `append_cons_inj` reads back a field that ends at a separator.
-/
import Mathlib.Data.List.TakeWhile
import Mathlib.Tactic.Common

set_option autoImplicit false

namespace Scan

variable {α : Type*} {p : α → Bool} {xs rest : List α}

/-- The predicate fails at once. -/
def Stops (p : α → Bool) (rest : List α) : Prop := ∀ x, rest.head? = some x → p x = false

@[simp] theorem stops_nil : Stops p [] := by simp [Stops]

@[simp] theorem stops_cons {x : α} : Stops p (x :: rest) ↔ p x = false := by simp [Stops]

theorem Stops.front (h : Stops p rest) (hfront : xs <+: rest) : Stops p xs := by
  obtain ⟨ys, rfl⟩ := hfront
  cases xs with
  | nil => exact stops_nil
  | cons x xs => exact stops_cons.mpr (stops_cons.mp h)

/-- **What is put in front is taken, and the rest is left.** -/
theorem scan_append (hxs : ∀ x ∈ xs, p x = true) (hrest : Stops p rest) :
    (xs ++ rest).takeWhile p = xs ∧ (xs ++ rest).dropWhile p = rest := by
  rw [List.takeWhile_append_of_pos hxs, List.dropWhile_append_of_pos hxs]
  cases rest with
  | nil => simp
  | cons x rest =>
    have hx := stops_cons.mp hrest
    simp [hx]

/-- A list without a letter is taken whole up to that letter. -/
theorem takeWhile_ne_of_notMem [DecidableEq α] {c : α} (h : c ∉ xs) :
    xs.takeWhile (· ≠ c) = xs := by
  rw [List.takeWhile_eq_self_iff]
  intro x hx
  rw [decide_eq_true_eq]
  rintro rfl
  exact h hx

/-- What is left begins with nothing that would have been taken. -/
theorem stops_dropWhile (p : α → Bool) (s : List α) : Stops p (s.dropWhile p) := by
  intro x hx
  have h := List.head?_dropWhile_not p s
  rw [hx] at h
  exact h

/-- A list is cut in one way into what is taken and what is left. -/
theorem append_inj_of_stops {ys rest' : List α} (hxs : ∀ x ∈ xs, p x = true)
    (hys : ∀ y ∈ ys, p y = true) (hrest : Stops p rest) (hrest' : Stops p rest')
    (h : xs ++ rest = ys ++ rest') : xs = ys ∧ rest = rest' := by
  have hx := scan_append hxs hrest
  have hy := scan_append hys hrest'
  rw [h] at hx
  exact ⟨hx.1.symm.trans hy.1, hx.2.symm.trans hy.2⟩

/-- **A field ends at its separator.** -/
theorem append_cons_inj {sep : α} {ys r s : List α} (hx : sep ∉ xs) (hy : sep ∉ ys)
    (h : xs ++ sep :: r = ys ++ sep :: s) : xs = ys ∧ r = s := by
  induction xs generalizing ys with
  | nil =>
    cases ys with
    | nil => exact ⟨rfl, (List.cons.inj h).2⟩
    | cons y ys =>
      obtain ⟨rfl, -⟩ := List.cons.inj h
      exact absurd List.mem_cons_self hy
  | cons x xs ih =>
    cases ys with
    | nil =>
      obtain ⟨rfl, -⟩ := List.cons.inj h
      exact absurd List.mem_cons_self hx
    | cons y ys =>
      obtain ⟨rfl, hrest⟩ := List.cons.inj h
      obtain ⟨rfl, rfl⟩ := ih (fun hm => hx (List.mem_cons_of_mem _ hm))
        (fun hm => hy (List.mem_cons_of_mem _ hm)) hrest
      exact ⟨rfl, rfl⟩

end Scan
