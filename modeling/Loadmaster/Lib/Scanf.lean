/-
Numbers as `std::sscanf` reads them.

A conversion for an integer skips blanks, takes a sign perhaps, and then as many
digits as there are; without a digit it fails, and with it all the conversions
after it. What it reads is the integer itself. How that is stored is up to the
conversion: C leaves a value undefined that does not fit, and the C libraries
take the nearest one (`toLongLong`, `toUnsignedLong`).
-/
import Loadmaster.Lib.Decimal
import Loadmaster.Lib.Round
import Loadmaster.Lib.Scan

set_option autoImplicit false

namespace Scanf

/-- `isspace` -/
def isSpace (c : Char) : Bool := c = ' ' || (9 ≤ c.toNat && c.toNat ≤ 13)

def isSign (c : Char) : Bool := c = '-' || c = '+'

/-- One conversion: the integer, and what is left of the text. -/
def scanInt (text : List Char) : Option (ℤ × List Char) :=
  let s := text.dropWhile isSpace
  let negative : Bool := s.head? = some '-'
  let s := if s.head?.any isSign then s.drop 1 else s
  let digits := s.takeWhile Char.isDigit
  if digits = [] then none
  else
    let number : ℤ := Decimal.value digits
    some (if negative then -number else number, s.dropWhile Char.isDigit)

/-- `n` conversions one after the other, up to the first that fails. -/
def scanMany : ℕ → List Char → List ℤ
  | 0, _ => []
  | n + 1, text =>
    match scanInt text with
    | none => []
    | some (z, rest) => z :: scanMany n rest

/-- `%lld` -/
def toLongLong (z : ℤ) : ℤ := Round.clamp z (-2 ^ 63) (2 ^ 63 - 1)

/-- `%d`, which stores the lower half of a `long`. -/
def toInt (z : ℤ) : Int32 := .ofInt (toLongLong z)

/-- `%lu`; a negative number counts modulo `2 ^ 64`. -/
def toUnsignedLong (z : ℤ) : UInt64 := if 2 ^ 64 ≤ z.natAbs then .ofNat (2 ^ 64 - 1) else .ofInt z

/-- `%u`, which stores the lower half of an `unsigned long`. -/
def toUnsignedInt (z : ℤ) : UInt32 := (toUnsignedLong z).toUInt32

/-- `%c` after a blank: the first character that is none. -/
def scanChar (text : List Char) : Option (Char × List Char) :=
  match text.dropWhile isSpace with
  | [] => none
  | c :: rest => some (c, rest)

/-- A number that fits is converted as it is. -/
theorem toLongLong_eq {z : ℤ} (hmin : -2 ^ 63 ≤ z) (hmax : z < 2 ^ 63) : toLongLong z = z := by
  rw [toLongLong, Round.clamp_eq (by omega)]
  omega

/-- A number that is not positive stays so, since it is cut off at the least of the
type. -/
theorem toLongLong_nonpos {z : ℤ} (h : z ≤ 0) : toLongLong z ≤ 0 := by
  rw [toLongLong, Round.clamp_eq (by omega)]
  omega

theorem toUnsignedLong_natCast {n : ℕ} (h : n < 2 ^ 64) : toUnsignedLong n = .ofNat n := by
  rw [toUnsignedLong, Int.natAbs_natCast, if_neg (not_le.mpr h), UInt64.ofInt,
    Int.emod_eq_of_lt (by omega) (by omega), Int.toNat_natCast]

/-- A value of the conversion's own type is stored as it is. -/
theorem toInt_toInt (n : Int32) : toInt n.toInt = n := by
  have hmin := n.le_toInt
  have hmax := n.toInt_lt
  rw [toInt, toLongLong_eq (by omega) (by omega), Int32.ofInt_toInt]

/-- Values that come from the type itself are converted to themselves. -/
theorem ofInt_toLongLong (n : Int64) : Int64.ofInt (toLongLong n.toInt) = n := by
  rw [toLongLong_eq n.le_toInt n.toInt_lt, Int64.ofInt_toInt]

theorem toUnsignedLong_toNat (n : UInt64) : toUnsignedLong n.toNat = n := by
  rw [toUnsignedLong_natCast n.toNat_lt, UInt64.ofNat_toNat]

theorem toUnsignedInt_toNat (n : UInt32) : toUnsignedInt n.toNat = n := by
  have hlt := n.toNat_lt
  apply UInt32.toNat_inj.mp
  rw [toUnsignedInt, toUnsignedLong_natCast (by omega), UInt64.toNat_toUInt32,
    UInt64.toNat_ofNat_of_lt' (by rw [UInt64.size]; omega), Nat.mod_eq_of_lt hlt]

/-! ## Reading back -/

variable {text blanks token rest : List Char} {z : ℤ} {n : ℕ}

/-- No number starts here: after blanks there is neither a digit nor a sign. -/
def NoNumber (text : List Char) : Prop :=
  Scan.Stops (fun c => c.isDigit || isSign c) (text.dropWhile isSpace)

theorem isSpace_eq_false {c : Char} (h : c.isDigit = true ∨ isSign c = true) :
    isSpace c = false := by
  rw [isSpace, Bool.or_eq_false_iff, Bool.and_eq_false_iff]
  rcases h with h | h
  · have hlow : 48 ≤ c.toNat := (Char.isDigit_iff_toNat.mp h).1
    refine ⟨decide_eq_false ?_, .inr (decide_eq_false (by omega))⟩
    rintro rfl
    exact absurd hlow (by decide)
  · rw [isSign, Bool.or_eq_true, decide_eq_true_eq, decide_eq_true_eq] at h
    rcases h with rfl | rfl <;> decide

theorem isSign_eq_false {c : Char} (h : c.isDigit = true) : isSign c = false := by
  rw [isSign, Bool.or_eq_false_iff]
  constructor <;> exact decide_eq_false (by rintro rfl; exact absurd h (by decide))

/-- Blanks are skipped up to what is none. -/
theorem dropWhile_isSpace (hblanks : ∀ c ∈ blanks, isSpace c = true)
    (hrest : Scan.Stops isSpace rest) : (blanks ++ rest).dropWhile isSpace = rest :=
  (Scan.scan_append hblanks hrest).2

/-- Without a number in front there is nothing to convert. -/
theorem scanInt_of_noNumber (h : NoNumber text) : scanInt text = none := by
  unfold NoNumber at h
  unfold scanInt
  generalize text.dropWhile isSpace = s at h ⊢
  cases s with
  | nil => rfl
  | cons c s =>
    rw [Scan.stops_cons, Bool.or_eq_false_iff] at h
    simp [h.1, h.2]

/-- Digits are read up to what is none. -/
theorem scan_digits {digits : List Char} (hdigits : Decimal.IsNumber digits)
    (hrest : Scan.Stops Char.isDigit rest) :
    (digits ++ rest).takeWhile Char.isDigit = digits ∧
      (digits ++ rest).dropWhile Char.isDigit = rest := Scan.scan_append hdigits.2 hrest

/-- **A number is read back**, up to what is no digit. -/
theorem scanInt_append (hblanks : ∀ c ∈ blanks, isSpace c = true)
    (htoken : Decimal.Denotes token z) (hrest : Scan.Stops Char.isDigit rest) :
    scanInt (blanks ++ (token ++ rest)) = some (z, rest) := by
  unfold scanInt
  rcases htoken with ⟨hnumber, rfl⟩ | ⟨digits, rfl, hnumber, rfl⟩
  · -- the first digit is neither a blank nor a sign
    obtain ⟨c, cs, rfl⟩ := List.exists_cons_of_ne_nil hnumber.1
    have hc : c.isDigit = true := hnumber.2 c List.mem_cons_self
    have hsign := isSign_eq_false hc
    have hminus : c ≠ '-' := by
      rintro rfl
      exact absurd hc (by decide)
    rw [dropWhile_isSpace hblanks (by simp [isSpace_eq_false (.inl hc)])]
    have hscan := scan_digits hnumber hrest
    simp only [List.cons_append, List.head?_cons, Option.any_some, hsign, Bool.false_eq_true,
      if_false] at hscan ⊢
    rw [hscan.1, hscan.2]
    simp [hminus]
  · have hminus : isSpace '-' = false := isSpace_eq_false (.inr (by decide))
    rw [dropWhile_isSpace hblanks (by simp [hminus])]
    have hscan := scan_digits hnumber hrest
    simp only [List.cons_append, List.head?_cons, Option.any_some, isSign, List.drop_succ_cons,
      List.drop_zero, decide_true, Bool.true_or, if_true]
    rw [hscan.1, hscan.2, if_neg hnumber.1]

/-- The same without blanks in front. -/
theorem scanInt_token (htoken : Decimal.Denotes token z) (hrest : Scan.Stops Char.isDigit rest) :
    scanInt (token ++ rest) = some (z, rest) :=
  scanInt_append (fun _ h => absurd h List.not_mem_nil) htoken hrest

/-- A format of several numbers stops where there is none. -/
theorem scanMany_of_noNumber (h : NoNumber text) : scanMany n text = [] := by
  cases n with
  | zero => rfl
  | succ n => rw [scanMany, scanInt_of_noNumber h]

/-- A number with blanks in front is taken, and the scan goes on behind it. -/
theorem scanMany_append (hblanks : ∀ c ∈ blanks, isSpace c = true)
    (htoken : Decimal.Denotes token z) (hrest : Scan.Stops Char.isDigit rest) :
    scanMany (n + 1) (blanks ++ (token ++ rest)) = z :: scanMany n rest := by
  rw [scanMany, scanInt_append hblanks htoken hrest]

theorem scanMany_token (htoken : Decimal.Denotes token z) (hrest : Scan.Stops Char.isDigit rest) :
    scanMany (n + 1) (token ++ rest) = z :: scanMany n rest := by
  rw [scanMany, scanInt_token htoken hrest]

/-- **Numbers with a blank in front of each** are read back, up to what is no
digit. -/
theorem scanMany_numbers {zs : List ℤ} (hrest : Scan.Stops Char.isDigit rest) :
    scanMany zs.length ((zs.flatMap fun z => ' ' :: Decimal.text z) ++ rest) = zs := by
  induction zs with
  | nil => rfl
  | cons z zs ih =>
    have hblank : ∀ c ∈ [' '], isSpace c = true := List.forall_mem_singleton.mpr (by decide)
    have hstop : Scan.Stops Char.isDigit ((zs.flatMap fun z => ' ' :: Decimal.text z) ++ rest) := by
      cases zs with
      | nil => exact hrest
      | cons z' zs => exact Scan.stops_cons.mpr (by decide)
    rw [List.flatMap_cons, List.length_cons, List.append_assoc, List.cons_append,
      ← List.singleton_append, scanMany_append hblank (Decimal.denotes_text z) hstop, ih]

end Scanf
