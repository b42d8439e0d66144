/-
The first time that something holds often enough in a row.

`latch` counts how often in a row, starts over when it fails, and no longer does
once the count has reached `T`: it is a run length before the first such run and
a mark that there was one afterwards. `latch_eq_iff` is what a caller needs of
it: the count comes to `T` exactly where the first run of `T` is complete, so
never twice.
-/
import Mathlib.Data.Nat.Find
import Mathlib.Tactic.Common

set_option autoImplicit false

namespace Streak

variable (p : ℕ → Prop) (T : ℕ)

/-- It holds at `k` for the `T`-th time in a row at least. -/
def EndsAt (k : ℕ) : Prop := T ≤ k + 1 ∧ ∀ j ≤ k, k < j + T → p j

/-- No run of `T` was complete before. -/
def FirstEndsAt (k : ℕ) : Prop := EndsAt p T k ∧ ∀ j < k, ¬ EndsAt p T j

/-- The count before `k`. -/
def latch [DecidablePred p] : ℕ → ℕ
  | 0 => 0
  | k + 1 => if p k then latch k + 1 else if latch k < T then 0 else latch k

variable {p T} {k : ℕ}

/-- If there is a run there is a first one, and no other first one. -/
theorem existsUnique_firstEndsAt {n : ℕ} (h : ∃ k < n, EndsAt p T k) :
    ∃! k, k < n ∧ FirstEndsAt p T k := by
  classical
  obtain ⟨k, hkn, hk⟩ := h
  have hex : ∃ k, EndsAt p T k := ⟨k, hk⟩
  refine ⟨Nat.find hex, ⟨Nat.lt_of_le_of_lt (Nat.find_min' hex hk) hkn, Nat.find_spec hex, ?_⟩, ?_⟩
  · intro j hj
    exact Nat.find_min hex hj
  · rintro j ⟨-, hj, hfirst⟩
    apply le_antisymm
    · by_contra hlt
      exact hfirst _ (not_le.mp hlt) (Nat.find_spec hex)
    · exact Nat.find_min' hex hj

variable [DecidablePred p]

/-- Before the first run is complete, `latch` is the length of the present one. -/
structure Counts (p : ℕ → Prop) (T k c : ℕ) : Prop where
  lt : c < T
  le : c ≤ k
  holds : ∀ j < k, k ≤ j + c → p j
  broken : ∀ j < k, k = j + c + 1 → ¬ p j

theorem latch_counts (hT : 0 < T) (h : ∀ j < k, ¬ EndsAt p T j) : Counts p T k (latch p T k) := by
  induction k with
  | zero => exact ⟨hT, le_rfl, by simp, by simp⟩
  | succ k ih =>
    have hk := ih fun j hj => h j (by omega)
    have hlt := hk.lt
    have hle := hk.le
    rw [latch]
    by_cases hp : p k
    · rw [if_pos hp]
      -- everything in the run that now ends at `k`
      have hrun : ∀ j < k + 1, k + 1 ≤ j + (latch p T k + 1) → p j := by
        intro j hj hjk
        rcases Nat.lt_succ_iff_lt_or_eq.mp hj with hj | rfl
        · exact hk.holds j hj (by omega)
        · exact hp
      refine ⟨?_, by omega, hrun, fun j hj hjk => hk.broken j (by omega) (by omega)⟩
      by_contra hfull
      exact h k (by omega) ⟨by omega, fun j hj hjk => hrun j (by omega) (by omega)⟩
    · rw [if_neg hp, if_pos hlt]
      refine ⟨hT, Nat.zero_le _, by omega, fun j hj hjk => ?_⟩
      have hjk' : j = k := by omega
      rw [hjk']
      exact hp

/-- Afterwards it never falls below `T`. -/
theorem le_latch_of_ended (hT : 0 < T) (h : ∃ j < k, EndsAt p T j) : T ≤ latch p T k := by
  induction k with
  | zero => simp at h
  | succ k ih =>
    rw [latch]
    by_cases hbefore : ∃ j < k, EndsAt p T j
    · have hle := ih hbefore
      split_ifs <;> omega
    · -- it is at `k` that the first run is complete
      obtain ⟨j, hj, hends⟩ := h
      have hjk : j = k := by
        by_contra hne
        exact hbefore ⟨j, by omega, hends⟩
      subst hjk
      have hcounts := latch_counts hT fun i hi hi' => hbefore ⟨i, hi, hi'⟩
      have hp : p j := hends.2 j le_rfl (by omega)
      rw [if_pos hp]
      by_contra hlt
      obtain ⟨hT', hrun⟩ := hends
      exact hcounts.broken (j - latch p T j - 1) (by omega) (by omega)
        (hrun _ (by omega) (by omega))

/-- **The count comes to `T` once**, where the first run of `T` is complete. -/
theorem latch_eq_iff (hT : 0 < T) :
    p k ∧ latch p T (k + 1) = T ↔ FirstEndsAt p T k := by
  constructor
  · rintro ⟨hp, heq⟩
    rw [latch, if_pos hp] at heq
    have hfirst : ∀ j < k, ¬ EndsAt p T j := by
      intro j hj hends
      have hle := le_latch_of_ended hT ⟨j, hj, hends⟩
      omega
    have hcounts := latch_counts hT hfirst
    have hle := hcounts.le
    refine ⟨⟨by omega, fun j hj hjk => ?_⟩, hfirst⟩
    rcases Nat.lt_or_eq_of_le hj with hj | rfl
    · exact hcounts.holds j hj (by omega)
    · exact hp
  · rintro ⟨hends, hfirst⟩
    have hp : p k := hends.2 k le_rfl (by omega)
    have hlt := (latch_counts hT hfirst).lt
    have hle := le_latch_of_ended (k := k + 1) hT ⟨k, by omega, hends⟩
    rw [latch, if_pos hp] at hle ⊢
    exact ⟨hp, by omega⟩

/-- A count is at most one more for each time. -/
theorem latch_le (k : ℕ) : latch p T k ≤ k := by
  induction k with
  | zero => exact le_rfl
  | succ k ih =>
    rw [latch]
    split_ifs <;> omega

end Streak
