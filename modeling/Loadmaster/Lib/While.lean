/-
A loop that is left from inside its body.

`body s` is one pass from the state `s`: it goes round again from a new state or
leaves with an answer, and a failed test of the loop's condition is a pass that
leaves at once. `run` gives it so many passes, and is `none` where they do not
suffice. `exists_run` is the rule for total correctness: an invariant, a measure
that each pass makes smaller, and what holds of the answer.
-/
import Mathlib.Tactic.Common

set_option autoImplicit false

namespace While

variable {σ ρ : Type*} {body : σ → σ ⊕ ρ} {s s' : σ} {r : ρ} {fuel : ℕ}

/-- At most `fuel` passes. -/
def run (body : σ → σ ⊕ ρ) : ℕ → σ → Option ρ
  | 0, _ => none
  | fuel + 1, s =>
    match body s with
    | .inl s' => run body fuel s'
    | .inr r => some r

@[simp] theorem run_zero : run body 0 s = none := rfl

theorem run_succ_of_inl (h : body s = .inl s') : run body (fuel + 1) s = run body fuel s' := by
  simp only [run, h]

theorem run_succ_of_inr (h : body s = .inr r) : run body (fuel + 1) s = some r := by
  simp only [run, h]

/-- **The rule for total correctness.** One pass more than the measure is enough,
and any number from there on gives the same answer. -/
theorem exists_run {Post : ρ → Prop} (Inv : σ → Prop) (measure : σ → ℕ)
    (hnext : ∀ s s', Inv s → body s = .inl s' → Inv s' ∧ measure s' < measure s)
    (hleave : ∀ s r, Inv s → body s = .inr r → Post r) (hs : Inv s) :
    ∃ r, Post r ∧ ∀ fuel, measure s < fuel → run body fuel s = some r := by
  induction h : measure s using Nat.strongRecOn generalizing s with
  | _ n ih =>
    cases hbody : body s with
    | inr r =>
      refine ⟨r, hleave s r hs hbody, fun fuel hfuel => ?_⟩
      obtain ⟨fuel, rfl⟩ := Nat.exists_eq_add_of_lt hfuel
      exact run_succ_of_inr hbody
    | inl s' =>
      obtain ⟨hs', hless⟩ := hnext s s' hs hbody
      obtain ⟨r, hr, hrun⟩ := ih (measure s') (h ▸ hless) hs' rfl
      refine ⟨r, hr, fun fuel hfuel => ?_⟩
      obtain ⟨fuel, rfl⟩ := Nat.exists_eq_add_of_lt hfuel
      rw [run_succ_of_inl hbody]
      exact hrun _ (by omega)

/-- What a run has to say of its answer, by induction on its passes: the answer
of the last one has it, and each earlier pass carries it back. -/
theorem run_induction {P : σ → ρ → Prop} (hleave : ∀ s r, body s = .inr r → P s r)
    (hnext : ∀ s s' r, body s = .inl s' → P s' r → P s r) (h : run body fuel s = some r) :
    P s r := by
  induction fuel generalizing s with
  | zero => simp at h
  | succ fuel ih =>
    cases hbody : body s with
    | inl s' =>
      rw [run_succ_of_inl hbody] at h
      exact hnext s s' r hbody (ih h)
    | inr r' =>
      rw [run_succ_of_inr hbody] at h
      cases h
      exact hleave s r hbody

end While
