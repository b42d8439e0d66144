/-
Computations on signed machine integers, which may fail or overflow.

An `Outcome` is a result, a failure that the code reports itself, or an overflow
of one of its signed integers, which C++ leaves undefined. `Outcome.Ensures` is
total correctness: no overflow, and a postcondition for each of the other two.
Its rules follow the code: one for a result, one for a failure, one for a
sequence, and one for every exact value that has to fit an integer type.
-/
import Mathlib.Algebra.Group.Int.Defs
import Mathlib.Tactic.Common

set_option autoImplicit false

universe u v

/-- A result, a reported failure, or a signed overflow. -/
inductive Outcome (ε : Type u) (α : Type v)
  | ok (a : α)
  | failed (e : ε)
  | overflow
deriving DecidableEq, Repr

namespace Outcome

variable {ε : Type u} {α β : Type v}

def bind (x : Outcome ε α) (f : α → Outcome ε β) : Outcome ε β :=
  match x with
  | .ok a => f a
  | .failed e => .failed e
  | .overflow => .overflow

instance : Monad (Outcome ε) where
  pure := .ok
  bind := .bind

instance lawfulMonad : LawfulMonad (Outcome ε) := .mk' (Outcome ε)
  (by intro α x; cases x <;> rfl)
  (by intro α β a f; rfl)
  (by intro α β γ x f g; cases x <;> rfl)

theorem ok_bind (a : α) (f : α → Outcome ε β) : (.ok a : Outcome ε α) >>= f = f a := rfl

/-- What a sequence returns. -/
theorem bind_eq_ok {x : Outcome ε α} {f : α → Outcome ε β} {b : β} :
    x >>= f = .ok b ↔ ∃ a, x = .ok a ∧ f a = .ok b := by
  cases x with
  | ok a => exact ⟨fun h => ⟨a, rfl, h⟩, fun ⟨_, ha, h⟩ => ok.inj ha ▸ h⟩
  | failed e => exact ⟨nofun, fun ⟨_, ha, _⟩ => nomatch ha⟩
  | overflow => exact ⟨nofun, fun ⟨_, ha, _⟩ => nomatch ha⟩

/-! ## Integers that have to fit

Both are irreducible: a statement about them is not to be evaluated, since the
bounds are far too large to count up to. -/

/-- An exact value as a 32-bit integer. -/
@[irreducible] def int32 (z : ℤ) : Outcome ε Int32 :=
  if -2 ^ 31 ≤ z ∧ z < 2 ^ 31 then .ok (.ofInt z) else .overflow

/-- An exact value as a 64-bit integer. -/
@[irreducible] def int64 (z : ℤ) : Outcome ε Int64 :=
  if -2 ^ 63 ≤ z ∧ z < 2 ^ 63 then .ok (.ofInt z) else .overflow

theorem int32_eq_ok {z : ℤ} (hmin : -2 ^ 31 ≤ z) (hmax : z < 2 ^ 31) :
    (int32 z : Outcome ε Int32) = .ok (.ofInt z) := by
  unfold int32
  exact if_pos ⟨hmin, hmax⟩

theorem int64_eq_ok {z : ℤ} (hmin : -2 ^ 63 ≤ z) (hmax : z < 2 ^ 63) :
    (int64 z : Outcome ε Int64) = .ok (.ofInt z) := by
  unfold int64
  exact if_pos ⟨hmin, hmax⟩

theorem int64_eq_overflow {z : ℤ} (h : 2 ^ 63 ≤ z) : (int64 z : Outcome ε Int64) = .overflow := by
  unfold int64
  exact if_neg (by omega)

/-! ## Total correctness -/

/-- Nothing overflows; a result satisfies `P` and a failure satisfies `F`. -/
def Ensures (P : α → Prop) (F : ε → Prop) : Outcome ε α → Prop
  | .ok a => P a
  | .failed e => F e
  | .overflow => False

variable {P : α → Prop} {Q : β → Prop} {F G : ε → Prop} {x : Outcome ε α} {f : α → Outcome ε β}

/-- Nothing can go wrong with a value that is there. -/
theorem ensures_pure {a : α} : Ensures P F (pure a : Outcome ε α) ↔ P a := Iff.rfl

/-- **Sequencing.** -/
theorem ensures_bind :
    Ensures Q F (x >>= f) ↔ Ensures (fun a => Ensures Q F (f a)) F x := by
  cases x <;> exact Iff.rfl

/-- The rule of consequence, for values and for failures. -/
theorem Ensures.mono {P' : α → Prop} (h : Ensures P F x) (hP : ∀ a, P a → P' a)
    (hF : ∀ e, F e → G e) : Ensures P' G x := by
  cases x with
  | ok a => exact hP a h
  | failed e => exact hF e h
  | overflow => exact h

/-- The rule of sequence: what the first step ensures is what the second may assume. -/
theorem Ensures.bind (h : Ensures P F x) (hf : ∀ a, P a → Ensures Q F (f a)) :
    Ensures Q F (x >>= f) := ensures_bind.mpr (h.mono hf fun _ he => he)

/-- What is ensured holds of the value returned. -/
theorem Ensures.of_ok {a : α} (h : Ensures P F x) (hx : x = .ok a) : P a := by
  rw [hx] at h
  exact h

/-- Where no failure is possible there is a result. -/
theorem Ensures.exists_ok (h : Ensures P (fun _ => False) x) : ∃ a, x = .ok a ∧ P a := by
  cases x with
  | ok a => exact ⟨a, rfl, h⟩
  | failed e => exact h.elim
  | overflow => exact h.elim

theorem ensures_int32 {z : ℤ} {P : Int32 → Prop} (hmin : -2 ^ 31 ≤ z) (hmax : z < 2 ^ 31)
    (h : ∀ n : Int32, n.toInt = z → P n) : Ensures P F (int32 z) := by
  rw [int32_eq_ok hmin hmax]
  exact h _ (Int32.toInt_ofInt_of_le hmin hmax)

theorem ensures_int64 {z : ℤ} {P : Int64 → Prop} (hmin : -2 ^ 63 ≤ z) (hmax : z < 2 ^ 63)
    (h : ∀ n : Int64, n.toInt = z → P n) : Ensures P F (int64 z) := by
  rw [int64_eq_ok hmin hmax]
  exact h _ (Int64.toInt_ofInt_of_le hmin hmax)

end Outcome
