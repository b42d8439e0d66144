/-
Numbers written in hexadecimal, padded with zeros (`%04x` and its like), and
texts made of such fields.

What is written reads back, so a field of a given width tells its number; and a
separator that no digit is tells where a field ends.
-/
import Loadmaster.Lib.Scan
import Mathlib.Data.List.Induction
import Mathlib.Tactic.Common
import Mathlib.Tactic.IntervalCases

set_option autoImplicit false

namespace Hex

/-- The value of a digit, in lower case. -/
def digitValue (c : Char) : ℕ :=
  if c ≤ '9' then c.toNat - '0'.toNat else c.toNat - 'a'.toNat + 10

def value (cs : List Char) : ℕ := cs.foldl (fun n c => 16 * n + digitValue c) 0

/-- `n` in at least `width` digits. -/
def padded (width n : ℕ) : List Char :=
  List.replicate (width - (Nat.toDigits 16 n).length) '0' ++ Nat.toDigits 16 n

variable {width m n : ℕ} {c : Char}

/-- A digit is read as the value it was written for. -/
theorem digitValue_digitChar {d : ℕ} (hd : d < 16) : digitValue (Nat.digitChar d) = d := by
  interval_cases d <;> rfl

/-- One more digit is sixteen times the rest and its own value. -/
@[simp] theorem value_append_singleton (cs : List Char) (c : Char) :
    value (cs ++ [c]) = 16 * value cs + digitValue c := by
  unfold value
  rw [List.foldl_append, List.foldl_cons, List.foldl_nil]

/-- Every digit written is one of the sixteen. -/
theorem mem_toDigits (h : c ∈ Nat.toDigits 16 n) : ∃ d < 16, c = Nat.digitChar d := by
  induction n using Nat.strong_induction_on with
  | _ n ih =>
    rw [Nat.toDigits_eq_if (by decide)] at h
    split_ifs at h with hlt
    · exact ⟨n, hlt, List.mem_singleton.mp h⟩
    · rcases List.mem_append.mp h with h | h
      · exact ih (n / 16) (by omega) h
      · exact ⟨n % 16, Nat.mod_lt n (by decide), List.mem_singleton.mp h⟩

theorem value_toDigits (n : ℕ) : value (Nat.toDigits 16 n) = n := by
  induction n using Nat.strong_induction_on with
  | _ n ih =>
    rw [Nat.toDigits_eq_if (by decide)]
    split_ifs with hlt
    · rw [← List.nil_append [Nat.digitChar n], value_append_singleton, digitValue_digitChar hlt]
      exact Nat.zero_add n
    · rw [value_append_singleton, ih (n / 16) (by omega),
        digitValue_digitChar (Nat.mod_lt n (by decide))]
      omega

/-- Leading zeros do not count. -/
theorem value_replicate_zero (k : ℕ) (cs : List Char) :
    value (List.replicate k '0' ++ cs) = value cs := by
  induction k with
  | zero => rfl
  | succ k ih =>
    rw [← ih, List.replicate_succ, List.cons_append]
    rfl

/-- **What is written reads back.** -/
theorem value_padded (width n : ℕ) : value (padded width n) = n := by
  unfold padded
  rw [value_replicate_zero, value_toDigits]

/-- Padding loses nothing, so different numbers have different texts. -/
theorem padded_inj (h : padded width m = padded width n) : m = n := by
  rw [← value_padded width m, h, value_padded]

theorem mem_padded (h : c ∈ padded width n) : ∃ d < 16, c = Nat.digitChar d := by
  rcases List.mem_append.mp h with h | h
  · exact ⟨0, by decide, List.eq_of_mem_replicate h⟩
  · exact mem_toDigits h

/-- A character that is no digit is not in a field. -/
theorem notMem_padded (h : ∀ d < 16, Nat.digitChar d ≠ c) : c ∉ padded width n := by
  intro hmem
  obtain ⟨d, hd, rfl⟩ := mem_padded hmem
  exact h d hd rfl

/-- A number that fits takes its width exactly. -/
theorem length_padded (hwidth : 0 < width) (hn : n < 16 ^ width) :
    (padded width n).length = width := by
  have hle := (Nat.length_toDigits_le_iff (by decide) hwidth).mpr hn
  unfold padded
  rw [List.length_append, List.length_replicate]
  omega

/-- One that does not takes as many digits as it needs. -/
theorem length_padded_le {most : ℕ} (hwidth : width ≤ most) (hmost : 0 < most)
    (hn : n < 16 ^ most) : (padded width n).length ≤ most := by
  have hle := (Nat.length_toDigits_le_iff (by decide) hmost).mpr hn
  unfold padded
  rw [List.length_append, List.length_replicate]
  omega

/-! ## Reading -/

/-- `isxdigit`: a digit, in either case. -/
def isDigit (c : Char) : Bool := c ∈ "0123456789abcdefABCDEF".toList

/-- The number that digits in either case spell. -/
def read (cs : List Char) : ℕ := value (cs.map Char.toLower)

/-- A digit of either case has a value below 16. -/
theorem digitValue_toLower_lt (h : isDigit c = true) : digitValue c.toLower < 16 := by
  have hall : ("0123456789abcdefABCDEF".toList.all fun c => digitValue c.toLower < 16) = true := by
    decide
  exact of_decide_eq_true (List.all_eq_true.mp hall c (of_decide_eq_true h))

theorem isDigit_digitChar {d : ℕ} (hd : d < 16) : isDigit (Nat.digitChar d) = true := by
  interval_cases d <;> decide

theorem toLower_digitChar {d : ℕ} (hd : d < 16) :
    (Nat.digitChar d).toLower = Nat.digitChar d := by
  interval_cases d <;> rfl

/-- So many digits spell so large a number. -/
theorem read_lt {cs : List Char} (h : ∀ c ∈ cs, isDigit c = true) : read cs < 16 ^ cs.length := by
  induction cs using List.reverseRecOn with
  | nil => exact Nat.one_pos
  | append_singleton cs c ih =>
    have hc := digitValue_toLower_lt (h c (by simp))
    have hcs := ih fun x hx => h x (by simp [hx])
    unfold read at hcs ⊢
    rw [List.map_append, List.map_singleton, value_append_singleton, List.length_append,
      List.length_singleton, pow_succ]
    omega

theorem isDigit_of_mem_padded (h : c ∈ padded width n) : isDigit c = true := by
  obtain ⟨d, hd, rfl⟩ := mem_padded h
  exact isDigit_digitChar hd

/-- A padded number is read back, whatever its width. -/
theorem read_padded (width n : ℕ) : read (padded width n) = n := by
  have hlower : (padded width n).map Char.toLower = (padded width n).map id := by
    apply List.map_congr_left
    intro c hc
    obtain ⟨d, hd, rfl⟩ := mem_padded hc
    exact toLower_digitChar hd
  unfold read
  rw [hlower, List.map_id, value_padded]

theorem padded_ne_nil (width n : ℕ) : padded width n ≠ [] :=
  fun h => Nat.toDigits_ne_nil (List.append_eq_nil_iff.mp h).2

/-! ## Fields in a text -/

variable {α β : Type*}

/-- **A number ends at a separator that is no digit.** -/
theorem padded_append_inj {sep : Char} (hsep : ∀ d < 16, Nat.digitChar d ≠ sep)
    {r s : List Char} (h : padded width m ++ sep :: r = padded width n ++ sep :: s) :
    m = n ∧ r = s := by
  obtain ⟨hfield, hrest⟩ := Scan.append_cons_inj (notMem_padded hsep) (notMem_padded hsep) h
  exact ⟨padded_inj hfield, hrest⟩

/-- Fields of one width need no separator. -/
theorem flatMap_inj {f : α → List β} (hlen : ∀ a b, (f a).length = (f b).length)
    (hinj : ∀ a b, f a = f b → a = b) {xs ys : List α} (hxy : xs.length = ys.length)
    (h : xs.flatMap f = ys.flatMap f) : xs = ys := by
  induction xs generalizing ys with
  | nil => exact (List.length_eq_zero_iff.mp hxy.symm).symm
  | cons x xs ih =>
    cases ys with
    | nil => contradiction
    | cons y ys =>
      rw [List.flatMap_cons, List.flatMap_cons] at h
      obtain ⟨hhead, htail⟩ := List.append_inj h (hlen x y)
      rw [hinj x y hhead, ih (Nat.succ.inj hxy) htail]

end Hex
