/-
Runs of a machine that takes one input at a time.

`before step s is k` is the state the machine is in before it takes input
number `k`. Two rules are about all positions of a run at once. `inv` is the
usual one: what holds at the start and is kept by every step whose input is
allowed holds everywhere. `always_iff` is for a property that some allowed
inputs break: it holds everywhere exactly when no input of that kind occurs.
Its two premises about a step are that a good input keeps the invariant, which
carries the property, and that a bad one breaks the property there and then,
so that a run cannot recover what it lost unseen.
-/
import Mathlib.Data.List.TakeDrop
import Mathlib.Tactic.Common

set_option autoImplicit false

namespace Run

variable {σ ι : Type*} {step : σ → ι → σ} {s : σ} {is : List ι}

/-- The state before input number `k`. -/
def before (step : σ → ι → σ) (s : σ) (is : List ι) (k : ℕ) : σ := (is.take k).foldl step s

/-- Every input of the run satisfies `C` where it is taken. -/
def Along (step : σ → ι → σ) (C : σ → ι → Prop) (s : σ) (is : List ι) : Prop :=
  ∀ k i, is[k]? = some i → C (before step s is k) i

@[simp] theorem before_zero : before step s is 0 = s := rfl

theorem before_succ {k : ℕ} {i : ι} (h : is[k]? = some i) :
    before step s is (k + 1) = step (before step s is k) i := by
  unfold before
  rw [List.take_add_one, h, Option.toList_some, List.foldl_append, List.foldl_cons, List.foldl_nil]

@[simp] theorem before_cons_succ {i : ι} {k : ℕ} :
    before step s (i :: is) (k + 1) = before step (step s i) is k := rfl

/-- A run goes on from where it is. -/
theorem before_add {m n : ℕ} :
    before step s is (m + n) = before step (before step s is m) (is.drop m) n := by
  unfold before
  rw [List.take_add, List.foldl_append]

/-- Past its last input a run stays where it is. -/
theorem before_succ_of_none {k : ℕ} (h : is[k]? = none) :
    before step s is (k + 1) = before step s is k := by
  unfold before
  rw [List.take_add_one, h, Option.toList_none, List.append_nil]

@[simp] theorem along_nil {C : σ → ι → Prop} : Along step C s [] := by
  intro k i h
  simp at h

@[simp] theorem along_cons {C : σ → ι → Prop} {i : ι} :
    Along step C s (i :: is) ↔ C s i ∧ Along step C (step s i) is := by
  constructor
  · intro h
    exact ⟨h 0 i rfl, fun k j hj => h (k + 1) j hj⟩
  · rintro ⟨h0, h⟩ k j hj
    cases k with
    | zero => cases hj; exact h0
    | succ k => exact h k j hj

/-- What a run starts with and each of its own steps keeps holds all along. -/
theorem before_induction {P : σ → Prop} (hstart : P s)
    (hstep : ∀ k i, is[k]? = some i → P (before step s is k) → P (step (before step s is k) i))
    (k : ℕ) : P (before step s is k) := by
  induction k with
  | zero => exact hstart
  | succ k ih =>
    cases h : is[k]? with
    | none =>
      rw [before_succ_of_none h]
      exact ih
    | some i =>
      rw [before_succ h]
      exact hstep k i h ih

instance decidableAlong {C : σ → ι → Prop} [∀ s i, Decidable (C s i)] :
    ∀ (s : σ) (is : List ι), Decidable (Along step C s is)
  | _, [] => .isTrue along_nil
  | s, i :: is =>
    have : Decidable (Along step C (step s i) is) := decidableAlong (step s i) is
    decidable_of_iff (C s i ∧ Along step C (step s i) is) along_cons.symm

/-- **The invariant rule.** -/
theorem inv {Inv : σ → Prop} {V : σ → ι → Prop} (hstart : Inv s)
    (hkeep : ∀ s i, Inv s → V s i → Inv (step s i)) (hV : Along step V s is) (k : ℕ) :
    Inv (before step s is k) := by
  apply before_induction hstart
  intro k i hi hk
  exact hkeep _ i hk (hV k i hi)

/-- **The waiting rule.** What each step keeps, short of the awaited event, is
there until the event happens. -/
theorem until_event {P : σ → Prop} {E : σ → ι → Prop} (hstep : ∀ s i, P s → E s i ∨ P (step s i))
    {m n : ℕ} (hmn : m ≤ n) (hm : P (before step s is m)) :
    (∃ k i, m ≤ k ∧ k < n ∧ is[k]? = some i ∧ E (before step s is k) i) ∨
      P (before step s is n) := by
  induction hmn with
  | refl => exact .inr hm
  | @step n hmn ih =>
    rcases ih with ⟨k, i, hmk, hkn, hi, hE⟩ | hP
    · exact .inl ⟨k, i, hmk, Nat.lt_succ_of_lt hkn, hi, hE⟩
    · cases hi : is[n]? with
      | none =>
        rw [before_succ_of_none hi]
        exact .inr hP
      | some i =>
        rw [before_succ hi]
        exact (hstep _ i hP).imp (fun hE => ⟨n, i, hmn, Nat.lt_succ_self n, hi, hE⟩) id

/-- What every step keeps is there from its first state on. -/
theorem kept {P : σ → Prop} (hstep : ∀ s i, P s → P (step s i)) {m n : ℕ} (hmn : m ≤ n)
    (hm : P (before step s is m)) : P (before step s is n) :=
  (until_event (E := fun _ _ => False) (fun s i h => .inr (hstep s i h)) hmn hm).resolve_left
    fun ⟨_, _, _, _, _, h⟩ => h

/-- **The exact condition.** In a run whose inputs are all allowed, `P` holds
in every state exactly when every input meets `C`. -/
theorem always_iff {Inv P : σ → Prop} {V C : σ → ι → Prop} (hstart : Inv s)
    (hP : ∀ s, Inv s → P s)
    (hkeep : ∀ s i, Inv s → V s i → C s i → Inv (step s i))
    (hbreak : ∀ s i, Inv s → V s i → ¬ C s i → ¬ P (step s i))
    (hV : Along step V s is) :
    (∀ k, P (before step s is k)) ↔ Along step C s is := by
  constructor
  · intro hall
    have hgood : ∀ k, Inv (before step s is k) → ∀ i, is[k]? = some i →
        C (before step s is k) i := by
      intro k hk i hi
      by_contra hbad
      have hnext : before step s is (k + 1) = step (before step s is k) i := before_succ hi
      exact hbreak _ i hk (hV k i hi) hbad (hnext ▸ hall (k + 1))
    -- the inputs before number `k` being good, the invariant is still there
    have hinv : ∀ k, Inv (before step s is k) := by
      apply before_induction hstart
      intro k i hi hk
      exact hkeep _ i hk (hV k i hi) (hgood k hk i hi)
    exact fun k => hgood k (hinv k)
  · intro hC k
    have hVC : Along step (fun s i => V s i ∧ C s i) s is := fun k i hi => ⟨hV k i hi, hC k i hi⟩
    exact hP _ (inv hstart (fun s i hs h => hkeep s i hs h.1 h.2) hVC k)

/-! ## Machines that answer -/

variable {ω : Type*}

/-- The state after a run, and the answer to each input. -/
def answers (f : σ → ι → σ × ω) : σ → List ι → σ × List ω
  | s, [] => (s, [])
  | s, i :: is => ((answers f (f s i).1 is).1, (f s i).2 :: (answers f (f s i).1 is).2)

theorem answers_fst (f : σ → ι → σ × ω) (s : σ) (is : List ι) :
    (answers f s is).1 = is.foldl (fun s i => (f s i).1) s := by
  induction is generalizing s with
  | nil => rfl
  | cons i is ih => exact ih (f s i).1

/-- **The answer to an input** is given in the state before it. -/
theorem answers_snd {f : σ → ι → σ × ω} {k : ℕ} {i : ι} (h : is[k]? = some i) (s : σ) :
    (answers f s is).2[k]? = some (f (before (fun s i => (f s i).1) s is k) i).2 := by
  induction is generalizing s k with
  | nil => contradiction
  | cons j is ih =>
    cases k with
    | zero =>
      cases h
      rfl
    | succ k => exact ih h (f s j).1

end Run
