/-
Going through a list again and again, in a new order each time.

`Dealt base out order pos` says of what has been dealt out so far, `out`, that
it is made of whole rounds, each of them `base` in some order, and of the first
`pos` entries of the current order. A new order is taken between two rounds
only; `Dealt.deal` is the step, and `Dealt.round` what a whole round is.
-/
import Mathlib.Data.List.Basic
import Mathlib.Tactic.Common
import Mathlib.Tactic.Ring

set_option autoImplicit false

namespace Cycle

variable {α : Type*} {base out order order' : List α} {pos : ℕ}

/-- An outcome of `std::shuffle` for each list. -/
structure Shuffle (α : Type*) where
  run : List α → List α
  perm : ∀ l, (run l).Perm l

structure Dealt (base out order : List α) (pos : ℕ) : Prop where
  perm : order.Perm base
  pos_lt : pos < base.length
  rounds : ∃ rounds : List (List α), (∀ r ∈ rounds, r.Perm base) ∧
    out = rounds.flatten ++ order.take pos

theorem dealt_nil (hne : base ≠ []) (h : order.Perm base) : Dealt base [] order 0 where
  perm := h
  pos_lt := List.length_pos_of_ne_nil hne
  rounds := ⟨[], by simp, by simp⟩

/-- The position there is an entry at. -/
theorem Dealt.exists_entry (h : Dealt base out order pos) (hperm : order'.Perm base) :
    ∃ v, order'[pos]? = some v :=
  ⟨_, List.getElem?_eq_getElem (hperm.length_eq ▸ h.pos_lt)⟩

/-- **One more entry**, in a new order only at the start of a round. -/
theorem Dealt.deal (h : Dealt base out order pos) (hperm : order'.Perm base)
    (hsame : pos ≠ 0 → order' = order) {v : α} (hv : order'[pos]? = some v) :
    Dealt base (out ++ [v]) order' (if pos + 1 = order'.length then 0 else pos + 1) := by
  obtain ⟨rounds, hrounds, rfl⟩ := h.rounds
  have hlen := hperm.length_eq
  have hpos := h.pos_lt
  -- at the start of a round nothing of the old order has been dealt
  have htake : order.take pos = order'.take pos := by
    by_cases hzero : pos = 0
    · rw [hzero, List.take_zero, List.take_zero]
    · rw [hsame hzero]
  have hnext : order'.take pos ++ [v] = order'.take (pos + 1) := by
    rw [List.take_add_one, hv, Option.toList_some]
  split_ifs with hend
  · refine ⟨hperm, by omega, rounds ++ [order'], ?_, ?_⟩
    · intro r hr
      rcases List.mem_append.mp hr with hr | hr
      · exact hrounds r hr
      · rw [List.mem_singleton.mp hr]
        exact hperm
    · rw [htake, List.append_assoc, hnext, hend, List.take_length]
      simp
  · exact ⟨hperm, by omega, rounds, hrounds, by rw [htake, List.append_assoc, hnext]⟩

/-- In a list made of pieces of one length, every such piece is one of them. -/
theorem take_drop_flatten {n : ℕ} {pieces : List (List α)} (hlen : ∀ r ∈ pieces, r.length = n)
    (rest : List α) {k : ℕ} (hk : k < pieces.length) :
    ((pieces.flatten ++ rest).drop (k * n)).take n ∈ pieces := by
  induction pieces generalizing k with
  | nil => exact absurd hk (Nat.not_lt_zero _)
  | cons r pieces ih =>
    have hr : r.length = n := hlen r List.mem_cons_self
    rw [List.flatten_cons, List.append_assoc]
    cases k with
    | zero =>
      rw [Nat.zero_mul, List.drop_zero, ← hr, List.take_left]
      exact List.mem_cons_self
    | succ k =>
      have hskip : (k + 1) * n = r.length + k * n := by
        rw [hr]
        ring
      rw [hskip, ← List.drop_drop, List.drop_left]
      refine List.mem_cons_of_mem _ (ih (fun r' hr' => hlen r' (List.mem_cons_of_mem _ hr')) ?_)
      exact Nat.lt_of_succ_lt_succ hk

/-- **Every whole round** is the base in some order. -/
theorem Dealt.round (h : Dealt base out order pos) {k : ℕ}
    (hk : (k + 1) * base.length ≤ out.length) :
    ((out.drop (k * base.length)).take base.length).Perm base := by
  obtain ⟨rounds, hrounds, rfl⟩ := h.rounds
  have hlen : ∀ r ∈ rounds, r.length = base.length := fun r hr => (hrounds r hr).length_eq
  have hall : rounds.flatten.length = rounds.length * base.length := by
    rw [List.length_flatten, List.map_congr_left hlen, List.map_const',
      List.sum_replicate_nat]
  have hlt : k < rounds.length := by
    have hpos := h.pos_lt
    have htail := List.length_take_le pos order
    rw [List.length_append, hall] at hk
    by_contra hge
    have hmul := Nat.mul_le_mul_right base.length (Nat.not_lt.mp hge)
    rw [Nat.add_mul, Nat.one_mul] at hk
    omega
  exact hrounds _ (take_drop_flatten hlen _ hlt)

end Cycle
