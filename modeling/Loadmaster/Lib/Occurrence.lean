/-
The first occurrence of a word in a list, as `find` of a string looks for it.

`NoStart` says where a word does not begin; it is put together piece by piece,
so that a text made of pieces is searched without running through it. A single
letter is looked for from either end (`first`, `last`).
-/
import Mathlib.Data.List.Basic
import Mathlib.Data.List.Infix

set_option autoImplicit false

namespace Occurrence

variable {α : Type*} [DecidableEq α] {pat pre pre' rest s : List α} {n : ℕ}

/-- `find`: where the first occurrence begins. -/
def find (pat : List α) : List α → Option ℕ
  | [] => if pat = [] then some 0 else none
  | c :: s => if pat <+: c :: s then some 0 else (find pat s).map (· + 1)

/-- In `pre ++ rest` the word begins nowhere before `rest`. -/
def NoStart (pat rest : List α) : List α → Prop
  | [] => True
  | c :: pre => ¬ pat <+: c :: (pre ++ rest) ∧ NoStart pat rest pre

omit [DecidableEq α] in
@[simp] theorem noStart_nil : NoStart pat rest [] := trivial

omit [DecidableEq α] in
@[simp] theorem noStart_cons {c : α} :
    NoStart pat rest (c :: pre) ↔ ¬ pat <+: c :: (pre ++ rest) ∧ NoStart pat rest pre := Iff.rfl

omit [DecidableEq α] in
theorem noStart_append :
    NoStart pat rest (pre ++ pre') ↔ NoStart pat (pre' ++ rest) pre ∧ NoStart pat rest pre' := by
  induction pre with
  | nil => simp
  | cons c pre ih =>
    rw [List.cons_append, noStart_cons, noStart_cons, ih, List.append_assoc, and_assoc]

omit [DecidableEq α] in
/-- A word does not begin where its first letter does not stand. -/
theorem noStart_of_notMem {c : α} {word : List α} (h : c ∉ pre) :
    NoStart (c :: word) rest pre := by
  induction pre with
  | nil => trivial
  | cons d pre ih =>
    refine ⟨?_, ih fun hm => h (List.mem_cons_of_mem d hm)⟩
    intro hprefix
    obtain ⟨rfl, -⟩ := List.cons_prefix_cons.mp hprefix
    exact h List.mem_cons_self

theorem find_of_prefix (h : pat <+: s) : find pat s = some 0 := by
  cases s with
  | nil => rw [find, if_pos (List.prefix_nil.mp h)]
  | cons c s => rw [find, if_pos h]

/-- **Where a word begins for the first time**, there it is found. -/
theorem find_append (h : NoStart pat rest pre) (hrest : pat <+: rest) :
    find pat (pre ++ rest) = some pre.length := by
  induction pre with
  | nil => exact find_of_prefix hrest
  | cons c pre ih =>
    rw [List.cons_append, find, if_neg h.1, ih h.2]
    rfl

/-- **And only there.** -/
theorem exists_of_find (h : find pat s = some n) :
    ∃ pre rest, s = pre ++ (pat ++ rest) ∧ pre.length = n ∧ NoStart pat (pat ++ rest) pre := by
  induction s generalizing n with
  | nil =>
    rw [find] at h
    split_ifs at h with hpat
    exact ⟨[], [], by simp [hpat], Option.some.inj h, trivial⟩
  | cons c s ih =>
    rw [find] at h
    split_ifs at h with hprefix
    · obtain ⟨rest, hrest⟩ := hprefix
      exact ⟨[], rest, hrest.symm, Option.some.inj h, trivial⟩
    · obtain ⟨m, hm, rfl⟩ := Option.map_eq_some_iff.mp h
      obtain ⟨pre, rest, rfl, rfl, hno⟩ := ih hm
      exact ⟨c :: pre, rest, rfl, rfl, hprefix, hno⟩

/-! ## A single letter -/

variable {c : α} {post : List α}

/-- Where a letter stands for the first time. -/
def first (c : α) (s : List α) : Option ℕ := s.findIdx? (· = c)

/-- Where a letter stands for the last time. -/
def last (c : α) (s : List α) : Option ℕ :=
  (s.reverse.findIdx? (· = c)).map (s.length - 1 - ·)

theorem first_append (h : c ∉ pre) : first c (pre ++ c :: post) = some pre.length := by
  rw [first, List.findIdx?_eq_some_iff_getElem]
  refine ⟨by simp, by simp, ?_⟩
  intro j hj hget
  rw [decide_eq_true_eq, List.getElem_append_left hj] at hget
  exact h (hget ▸ List.getElem_mem hj)

theorem last_append (h : c ∉ post) : last c (pre ++ c :: post) = some pre.length := by
  have hrev : (pre ++ c :: post).reverse = post.reverse ++ c :: pre.reverse := by simp
  have hfind : first c (post.reverse ++ c :: pre.reverse) = some post.reverse.length :=
    first_append (mt List.mem_reverse.mp h)
  rw [first] at hfind
  rw [last, hrev, hfind, Option.map_some, List.length_append, List.length_reverse,
    List.length_cons]
  congr 1
  omega

theorem lt_of_last (h : last c s = some n) : n < s.length := by
  obtain ⟨m, hm, rfl⟩ := Option.map_eq_some_iff.mp h
  obtain ⟨hlt, -⟩ := List.findIdx?_eq_some_iff_getElem.mp hm
  rw [List.length_reverse] at hlt
  omega

end Occurrence
