/-
Directories and files of `/sys` and `/proc` (`gpu/contention/linux_fs.cc`), and
the numbers in their names and contents.

What the operating system answers is an `Fs`. `Lists` says which numbers a
directory has entries for; `mem_listNumericDir` reads them back.
-/
import Loadmaster.Gpu.Contention.Parse
import Loadmaster.Lib.Decimal
import Loadmaster.Lib.Scan

set_option autoImplicit false

namespace Loadmaster.Gpu.Contention

/-- The names in a directory, none if it cannot be opened, and the text of a
file. -/
structure Fs where
  listDir : Text → List Text
  readFile : Text → Option Text

/-- `std::to_string` -/
def toText (n : ℕ) : Text := Nat.toDigits 10 n

theorem isNumber_toText (n : ℕ) : Decimal.IsNumber (toText n) := Decimal.isNumber_toDigits n

@[simp] theorem value_toText (n : ℕ) : Decimal.value (toText n) = n := Decimal.value_toDigits n

/-- `ListNumericDir` -/
def Fs.listNumericDir (fs : Fs) (path : Text) : List ℕ :=
  (fs.listDir path).filterMap fun name =>
    if name = [] ∨ 9 < name.length ∨ name.all Char.isDigit = false then none
    else some (Decimal.value name)

/-- `isspace` -/
def isSpace (c : Char) : Bool := c = ' ' || (9 ≤ c.toNat && c.toNat ≤ 13)

/-- `strtoul` of the C library, in base ten. -/
def strtoul (text : Text) : UInt64 :=
  let s := text.dropWhile isSpace
  let negative := s.head? = some '-'
  let s := if s.head? = some '-' ∨ s.head? = some '+' then s.drop 1 else s
  let number := Decimal.value (s.takeWhile Char.isDigit)
  if 2 ^ 64 ≤ number then .ofNat (2 ^ 64 - 1)
  else if negative then -.ofNat number
  else .ofNat number

/-- The entry of a directory. -/
def entryOf (dir : Text) (n : ℕ) : Text := dir ++ '/' :: toText n

/-! ## Reading numbers back -/

/-- A directory with an entry for each of the numbers, and others that have no
number for a name. -/
def Fs.Lists (fs : Fs) (dir : Text) (ns : List ℕ) : Prop :=
  ∃ others, (∀ name ∈ others, ¬ Decimal.IsNumber name) ∧
    (fs.listDir dir).Perm (ns.map toText ++ others)

/-- A file that starts with the number. -/
def Fs.Reads (fs : Fs) (path : Text) (n : ℕ) : Prop :=
  ∃ rest, Scan.Stops Char.isDigit rest ∧ fs.readFile path = some (toText n ++ rest)

variable {fs : Fs} {dir : Text} {ns : List ℕ}

theorem Fs.mem_listNumericDir (h : fs.Lists dir ns) (hsmall : ∀ n ∈ ns, n < 10 ^ 9) (n : ℕ) :
    n ∈ fs.listNumericDir dir ↔ n ∈ ns := by
  obtain ⟨others, hothers, hperm⟩ := h
  unfold listNumericDir
  rw [(hperm.filterMap _).mem_iff, List.mem_filterMap]
  constructor
  · rintro ⟨name, hname, hn⟩
    split_ifs at hn with hbad
    obtain ⟨hne, hbad⟩ := not_or.mp hbad
    have hall : name.all Char.isDigit = true := by simpa using (not_or.mp hbad).2
    rcases List.mem_append.mp hname with hmem | hmem
    · -- a name of an entry reads back as its number
      obtain ⟨m, hm, rfl⟩ := List.mem_map.mp hmem
      rw [← Option.some.inj hn, value_toText]
      exact hm
    · exact absurd ⟨hne, List.all_eq_true.mp hall⟩ (hothers name hmem)
  · intro hn
    obtain ⟨hne, hdigits⟩ := isNumber_toText n
    have hlen : (toText n).length ≤ 9 :=
      (Nat.length_toDigits_le_iff (by decide) (by decide)).mpr (hsmall n hn)
    refine ⟨toText n, List.mem_append_left _ (List.mem_map_of_mem hn), ?_⟩
    rw [if_neg]
    · rw [value_toText]
    · rw [not_or, not_or]
      exact ⟨hne, not_lt.mpr hlen, by simpa using hdigits⟩

/-- The entries are numbered by what they stand for. -/
theorem Fs.mem_listNumericDir_map {α : Type*} {xs : List α} {number : α → ℕ}
    (h : fs.Lists dir (xs.map number)) (hsmall : ∀ x ∈ xs, number x < 10 ^ 9) (n : ℕ) :
    n ∈ fs.listNumericDir dir ↔ ∃ x ∈ xs, number x = n := by
  rw [Fs.mem_listNumericDir h (List.forall_mem_map.mpr hsmall), List.mem_map]

/-- A number is read up to what is no digit. -/
theorem takeWhile_toText (n : ℕ) {rest : Text} (hrest : Scan.Stops Char.isDigit rest) :
    (toText n ++ rest).takeWhile Char.isDigit = toText n :=
  (Scan.scan_append (isNumber_toText n).2 hrest).1

theorem strtoul_toText {n : ℕ} (hn : n < 2 ^ 64) {rest : Text}
    (hrest : Scan.Stops Char.isDigit rest) : strtoul (toText n ++ rest) = .ofNat n := by
  obtain ⟨hne, hdigits⟩ := isNumber_toText n
  obtain ⟨c, cs, hcs⟩ := List.exists_cons_of_ne_nil hne
  have hc : c.isDigit = true := hdigits c (hcs ▸ List.mem_cons_self)
  -- a digit is neither a blank nor a sign, so the number starts at once
  have hlow : 48 ≤ c.toNat := (Char.isDigit_iff_toNat.mp hc).1
  have hspace : isSpace c = false := by
    rw [isSpace, Bool.or_eq_false_iff]
    constructor
    · apply decide_eq_false
      rintro rfl
      contradiction
    · rw [Bool.and_eq_false_iff]
      exact .inr (decide_eq_false (by omega))
  have hskip : (toText n ++ rest).dropWhile isSpace = toText n ++ rest := by
    rw [hcs, List.cons_append, List.dropWhile_cons_of_neg (by simp [hspace])]
  have hhead : ∀ sign : Char, sign.isDigit = false → (toText n ++ rest).head? ≠ some sign := by
    rintro sign hsign h
    rw [hcs, List.cons_append, List.head?_cons] at h
    rw [← Option.some.inj h, hc] at hsign
    contradiction
  have hminus := hhead '-' (by decide)
  have hplus := hhead '+' (by decide)
  unfold strtoul
  dsimp only
  rw [hskip, if_neg (not_or.mpr ⟨hminus, hplus⟩), takeWhile_toText n hrest,
    value_toText, if_neg (not_le.mpr hn), if_neg (by simpa using hminus)]

end Loadmaster.Gpu.Contention
