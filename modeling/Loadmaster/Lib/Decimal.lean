/-
Integers written in decimal.

`Decimal.Denotes` says which integer a whole token stands for: digits, after a
minus sign perhaps. Its value is that of the digits in base ten; `horner` is how
a program adds them up from the left.
-/
import Mathlib.Data.List.Basic
import Mathlib.Data.List.Induction
import Mathlib.Data.Nat.Digits.Defs
import Mathlib.Tactic.Ring

set_option autoImplicit false

namespace Decimal

def digit (c : Char) : ℕ := c.toNat - '0'.toNat

/-- What the digits stand for, the least significant last. -/
def value (digits : List Char) : ℕ := Nat.ofDigits 10 (digits.reverse.map digit)

/-- A number that can be read: digits only, and at least one. -/
def IsNumber (digits : List Char) : Prop := digits ≠ [] ∧ ∀ c ∈ digits, c.isDigit = true

/-- The integer that the whole of a token stands for. -/
def Denotes (token : List Char) (z : ℤ) : Prop :=
  (IsNumber token ∧ z = value token) ∨
    ∃ digits, token = '-' :: digits ∧ IsNumber digits ∧ z = -value digits

theorem value_append_singleton (digits : List Char) (c : Char) :
    value (digits ++ [c]) = value digits * 10 + digit c := by
  unfold value
  rw [List.reverse_append, List.reverse_singleton, List.singleton_append, List.map_cons,
    Nat.ofDigits_cons]
  ring

/-- Reading from the left. -/
theorem horner (digits : List Char) :
    digits.foldl (fun (n : ℤ) c => n * 10 + (digit c : ℕ)) 0 = value digits := by
  induction digits using List.reverseRecOn with
  | nil => rfl
  | append_singleton digits c ih =>
    rw [List.foldl_append, List.foldl_cons, List.foldl_nil, ih, value_append_singleton]
    push_cast
    ring

/-- **What is written reads back.** -/
theorem value_toDigits (n : ℕ) : value (Nat.toDigits 10 n) = n := by
  have hvalue : ∀ cs : List Char, value cs = Nat.ofDigitChars 10 cs 0 := by
    intro cs
    induction cs using List.reverseRecOn with
    | nil => rfl
    | append_singleton cs c ih =>
      rw [value_append_singleton, ih, Nat.ofDigitChars_append, Nat.ofDigitChars_cons,
        Nat.ofDigitChars_nil, Nat.mul_comm]
      rfl
  rw [hvalue, Nat.ofDigitChars_ten_toDigits]

theorem isNumber_toDigits (n : ℕ) : IsNumber (Nat.toDigits 10 n) :=
  ⟨Nat.toDigits_ne_nil, fun _ hc => Nat.isDigit_of_mem_toDigits (by decide) le_rfl hc⟩

/-- A minus sign is no digit. -/
theorem not_isNumber_neg (digits : List Char) : ¬ IsNumber ('-' :: digits) := by
  intro h
  exact absurd (h.2 '-' List.mem_cons_self) (by decide)

theorem denotes_neg_iff {digits : List Char} {z : ℤ} :
    Denotes ('-' :: digits) z ↔ IsNumber digits ∧ z = -value digits := by
  constructor
  · rintro (⟨h, -⟩ | ⟨digits', heq, h⟩)
    · exact absurd h (not_isNumber_neg digits)
    · cases heq
      exact h
  · intro h
    exact .inr ⟨digits, rfl, h⟩

theorem denotes_iff_of_head_ne {token : List Char} {z : ℤ} (h : token.head? ≠ some '-') :
    Denotes token z ↔ IsNumber token ∧ z = value token := by
  constructor
  · rintro (h' | ⟨digits, rfl, -⟩)
    · exact h'
    · exact absurd rfl h
  · exact .inl

/-- A token stands for one integer at most. -/
theorem Denotes.unique {token : List Char} {z z' : ℤ} (h : Denotes token z)
    (h' : Denotes token z') : z = z' := by
  by_cases hneg : token.head? = some '-'
  · rw [List.eq_cons_of_mem_head? hneg, denotes_neg_iff] at h h'
    rw [h.2, h'.2]
  · rw [denotes_iff_of_head_ne hneg] at h h'
    rw [h.2, h'.2]

/-- An integer as it is written. -/
def text (z : ℤ) : List Char :=
  if z < 0 then '-' :: Nat.toDigits 10 z.natAbs else Nat.toDigits 10 z.natAbs

theorem denotes_text (z : ℤ) : Denotes (text z) z := by
  unfold text Denotes
  split_ifs with hneg
  · refine .inr ⟨_, rfl, isNumber_toDigits _, ?_⟩
    rw [value_toDigits]
    omega
  · refine .inl ⟨isNumber_toDigits _, ?_⟩
    rw [value_toDigits]
    omega

/-- A token is made of digits and a minus sign. -/
theorem Denotes.notMem {token : List Char} {z : ℤ} (h : Denotes token z) {c : Char}
    (hdigit : c.isDigit = false) (hminus : c ≠ '-') : c ∉ token := by
  have hnumber : ∀ {digits : List Char}, IsNumber digits → c ∉ digits := by
    intro digits hdigits hmem
    rw [hdigits.2 c hmem] at hdigit
    exact Bool.noConfusion hdigit
  rcases h with ⟨hdigits, -⟩ | ⟨digits, rfl, hdigits, -⟩
  · exact hnumber hdigits
  · intro hmem
    rcases List.mem_cons.mp hmem with hc | hmem
    · exact hminus hc
    · exact hnumber hdigits hmem

end Decimal
