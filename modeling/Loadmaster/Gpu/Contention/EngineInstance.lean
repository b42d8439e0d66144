/-
Names of the Windows "GPU Engine" counters (`ParseGpuEngineInstance` of
`gpu/contention/parse.cc`):
`pid_<pid>_luid_0x<high>_0x<low>_phys_<p>_eng_<e>_engtype_<type>`.

The numbers in front are parsed, what follows them is searched for the first
`_engtype_`. `EngineName.text` writes a name; `Denotes` says, without the
parser, what any accepted name is made of and what it stands for.
-/
import Loadmaster.Gpu.Contention.IoRegSource
import Loadmaster.Lib.Occurrence

set_option autoImplicit false

namespace Loadmaster.Gpu.Contention

open Occurrence

/-! ## The source -/

structure GpuEngineInstance where
  pid : ℤ := 0
  luid : UInt64 := 0
  engine_type : Text := []
deriving DecidableEq

/-- `(static_cast<uint64_t>(luid_high) << 32) | luid_low` -/
def luidOf (luid_high luid_low : UInt32) : UInt64 :=
  (luid_high.toUInt64 <<< 32) ||| luid_low.toUInt64

/-- The word in front of the engine type. -/
def kEngtype : Text := "_engtype_".toList

/-- `ParseGpuEngineInstance` -/
def parseGpuEngineInstance (name : Text) : Option GpuEngineInstance := do
  let s ← takePrefix name "pid_"
  let (pid, s) ← takeDecimal s
  let s ← takePrefix s "_luid_0x"
  let (luid_high, s) ← takeHex s 8
  let s ← takePrefix s "_0x"
  let (luid_low, s) ← takeHex s 8
  let type_pos ← find kEngtype s
  some {
    pid := pid
    luid := luidOf luid_high luid_low
    engine_type := s.drop (type_pos + kEngtype.length) }

/-! ## Names -/

/-- The fields of a name, as they are written. -/
structure EngineName where
  pid : Text
  high : Text
  low : Text
  phys : Text
  eng : Text
  type : Text

namespace EngineName

def text (n : EngineName) : Text :=
  "pid_".toList ++ (n.pid ++ ("_luid_0x".toList ++ (n.high ++ ("_0x".toList ++ (n.low ++
    (("_phys_".toList ++ (n.phys ++ ("_eng_".toList ++ n.eng))) ++ (kEngtype ++ n.type)))))))

/-- Decimals without sign, a process id that is an `int`, and halves of one to
eight hexadecimal digits. The type is any text. -/
structure WellFormed (n : EngineName) : Prop where
  pid : Decimal.IsNumber n.pid
  pid_lt : Decimal.value n.pid < 2 ^ 31
  high : HexField 8 n.high
  low : HexField 8 n.low
  phys : Decimal.IsNumber n.phys
  eng : Decimal.IsNumber n.eng

/-- What a name stands for. -/
def denoted (n : EngineName) : GpuEngineInstance where
  pid := Decimal.value n.pid
  luid := luidOf (.ofNat (Hex.read n.high)) (.ofNat (Hex.read n.low))
  engine_type := n.type

end EngineName

/-- What an accepted name is made of: the three numbers, then anything that
does not go on with a hexadecimal digit, then the first `_engtype_` and the
type. -/
structure NameParts (name : Text) (out : GpuEngineInstance) (pid high low before : Text) :
    Prop where
  pid_number : Decimal.IsNumber pid
  pid_lt : Decimal.value pid < 2 ^ 31
  high_field : HexField 8 high
  low_field : HexField 8 low
  low_ends : Scan.Stops Hex.isDigit (before ++ (kEngtype ++ out.engine_type))
  first : NoStart kEngtype (kEngtype ++ out.engine_type) before
  name_eq : name = "pid_".toList ++ (pid ++ ("_luid_0x".toList ++ (high ++ ("_0x".toList ++
    (low ++ (before ++ (kEngtype ++ out.engine_type)))))))
  pid_eq : out.pid = Decimal.value pid
  luid_eq : out.luid = luidOf (.ofNat (Hex.read high)) (.ofNat (Hex.read low))

def DenotesEngine (name : Text) (out : GpuEngineInstance) : Prop :=
  ∃ pid high low before : Text, NameParts name out pid high low before

/-! ## The numbers -/

section Taking

variable {s rest cs : Text}

theorem takeDecimal_number (h : Decimal.IsNumber cs) (hlt : Decimal.value cs < 2 ^ 31)
    (hrest : Scan.Stops Char.isDigit rest) :
    takeDecimal (cs ++ rest) = some ((Decimal.value cs : ℤ), rest) := by
  obtain ⟨htake, hdrop⟩ := Scan.scan_append h.2 hrest
  unfold takeDecimal
  dsimp only
  rw [htake, hdrop, if_neg (not_or.mpr ⟨h.1, by omega⟩)]

theorem exists_number_of_takeDecimal {z : ℤ} (h : takeDecimal s = some (z, rest)) :
    ∃ cs, Decimal.IsNumber cs ∧ Decimal.value cs < 2 ^ 31 ∧ s = cs ++ rest
      ∧ z = Decimal.value cs := by
  unfold takeDecimal at h
  dsimp only at h
  split_ifs at h with hbad
  obtain ⟨hne, hlt⟩ := not_or.mp hbad
  obtain ⟨rfl, rfl⟩ := Prod.mk.inj (Option.some.inj h)
  exact ⟨s.takeWhile Char.isDigit, ⟨hne, fun c hc => List.mem_takeWhile_imp hc⟩, by omega,
    List.takeWhile_append_dropWhile.symm, rfl⟩

end Taking

/-- The halves of a LUID make it up. -/
theorem luidOf_toNat (high low : UInt32) :
    (luidOf high low).toNat = high.toNat * 2 ^ 32 + low.toNat := by
  have hhigh : high.toNat < 2 ^ 32 := high.toNat_lt
  have hlow : low.toNat < 2 ^ 32 := low.toNat_lt
  have hshift : high.toNat <<< 32 % 2 ^ 64 = high.toNat <<< 32 := by
    rw [Nat.shiftLeft_eq]
    exact Nat.mod_eq_of_lt (by omega)
  rw [luidOf, UInt64.toNat_or, UInt64.toNat_shiftLeft, UInt32.toNat_toUInt64,
    UInt32.toNat_toUInt64, show UInt64.toNat 32 % 64 = 32 from rfl, hshift,
    ← Nat.shiftLeft_add_eq_or_of_lt hlow, Nat.shiftLeft_eq]

/-- Fields that spell the halves of a LUID give it back. -/
theorem luidOf_halves {luid : UInt64} {high low : Text} (hhigh : HexField 8 high)
    (hlow : HexField 8 low) (hh : Hex.read high = luid.toNat / 2 ^ 32)
    (hl : Hex.read low = luid.toNat % 2 ^ 32) :
    luidOf (.ofNat (Hex.read high)) (.ofNat (Hex.read low)) = luid := by
  apply UInt64.toNat_inj.mp
  rw [luidOf_toNat, toNat_read hhigh (le_refl 8), toNat_read hlow (le_refl 8), hh, hl]
  omega

/-! ## The search -/

theorem digit_ne {digits : Text} {c : Char} (h : Decimal.IsNumber digits)
    (hc : c.isDigit = false) : c ∉ digits := by
  intro hmem
  rw [h.2 c hmem] at hc
  exact Bool.noConfusion hc

theorem kEngtype_eq : kEngtype = ['_', 'e', 'n', 'g', 't', 'y', 'p', 'e', '_'] := rfl

/-- An underscore in front of a number begins no `_engtype_`. -/
theorem not_engtype_number {digits rest : Text} (h : Decimal.IsNumber digits) :
    ¬ kEngtype <+: '_' :: (digits ++ rest) := by
  obtain ⟨c, cs, rfl⟩ := List.exists_cons_of_ne_nil h.1
  intro hprefix
  rw [kEngtype_eq, List.cons_append, List.cons_prefix_cons, List.cons_prefix_cons] at hprefix
  -- the letter after it would be the number's first digit
  obtain ⟨-, rfl, -⟩ := hprefix
  exact digit_ne h (by decide) List.mem_cons_self

theorem noStart_number {digits rest : Text} (h : Decimal.IsNumber digits) :
    NoStart kEngtype rest digits := noStart_of_notMem (digit_ne h (by decide))

/-- Neither does a word that ends in front of a number. -/
theorem noStart_word (word : Text) {digits rest : Text} (hword : '_' ∉ word)
    (hnot : ¬ kEngtype <+: '_' :: (word ++ '_' :: (digits ++ rest)))
    (h : Decimal.IsNumber digits) :
    NoStart kEngtype rest ('_' :: (word ++ '_' :: digits)) := by
  have hrest : NoStart kEngtype rest ('_' :: digits) :=
    ⟨not_engtype_number h, noStart_number h⟩
  refine ⟨?_, noStart_append.mpr ⟨noStart_of_notMem hword, hrest⟩⟩
  rwa [List.append_assoc, List.cons_append]

/-- The adapter and engine numbers hold no `_engtype_`. -/
theorem noStart_phys_eng {phys eng rest : Text} (hphys : Decimal.IsNumber phys)
    (heng : Decimal.IsNumber eng) :
    NoStart kEngtype rest ("_phys_".toList ++ (phys ++ ("_eng_".toList ++ eng))) := by
  have hfirst : NoStart kEngtype (("_eng_".toList ++ eng) ++ rest) ("_phys_".toList ++ phys) := by
    apply noStart_word "phys".toList (by decide) _ hphys
    have hletters : ¬ ['_', 'e', 'n', 'g', 't', 'y', 'p', 'e', '_'] <+:
        '_' :: 'p' :: ("hys".toList ++ '_' :: (phys ++ (("_eng_".toList ++ eng) ++ rest))) := by
      simp [List.cons_prefix_cons]
    exact hletters
  have hsecond : NoStart kEngtype rest ("_eng_".toList ++ eng) := by
    apply noStart_word "eng".toList (by decide) _ heng
    have hletters : ¬ ['_', 'e', 'n', 'g', 't', 'y', 'p', 'e', '_'] <+:
        '_' :: 'e' :: 'n' :: 'g' :: '_' :: (eng ++ rest) := by
      simp [List.cons_prefix_cons]
    exact hletters
  rw [← List.append_assoc, noStart_append]
  exact ⟨hfirst, hsecond⟩

/-! ## Reading a name -/

/-- The process id ends in front of the LUID, -/
theorem stops_luid (rest : Text) : Scan.Stops Char.isDigit ("_luid_0x".toList ++ rest) :=
  Scan.stops_cons.mpr (by decide)

/-- its high half in front of the low one. -/
theorem stops_low (rest : Text) : Scan.Stops Hex.isDigit ("_0x".toList ++ rest) :=
  Scan.stops_cons.mpr (by decide)

theorem parse_of_parts {name pid high low before : Text} {out : GpuEngineInstance}
    (h : NameParts name out pid high low before) : parseGpuEngineInstance name = some out := by
  have hdecimal : takeDecimal (pid ++ ("_luid_0x".toList ++ (high ++ ("_0x".toList ++
      (low ++ (before ++ (kEngtype ++ out.engine_type))))))) = some _ :=
    takeDecimal_number h.pid_number h.pid_lt (stops_luid _)
  have hhigh : takeHex (high ++ ("_0x".toList ++ (low ++ (before ++
      (kEngtype ++ out.engine_type))))) 8 = some _ :=
    takeHex_field h.high_field (stops_low _)
  have hlow := takeHex_field h.low_field h.low_ends
  have hfind := find_append h.first (List.prefix_append kEngtype out.engine_type)
  have htype : (before ++ (kEngtype ++ out.engine_type)).drop (before.length + kEngtype.length)
      = out.engine_type := by
    rw [← List.drop_drop, List.drop_left, List.drop_left]
  unfold parseGpuEngineInstance
  rw [h.name_eq]
  simp only [Option.bind_eq_bind, takePrefix_eq_some.mpr rfl, Option.bind_some, hdecimal, hhigh,
    hlow, hfind, htype]
  rw [← h.pid_eq, ← h.luid_eq]

/-- What follows a number that was taken begins with no digit. -/
theorem stops_of_takeHex {s rest : Text} {most : ℕ} {v : UInt32}
    (h : takeHex s most = some (v, rest)) : Scan.Stops Hex.isDigit rest := by
  unfold takeHex at h
  dsimp only at h
  split_ifs at h
  obtain ⟨-, rfl⟩ := Prod.mk.inj (Option.some.inj h)
  exact Scan.stops_dropWhile Hex.isDigit s

theorem parts_of_parse {name : Text} {out : GpuEngineInstance}
    (h : parseGpuEngineInstance name = some out) : DenotesEngine name out := by
  unfold parseGpuEngineInstance at h
  simp only [Option.bind_eq_bind, Option.bind_eq_some_iff, Prod.exists, Option.some.injEq] at h
  obtain ⟨s, hname, z, s₁, hpid, s₂, hluid, v, s₃, hhigh, s₄, hx, w, s₅, hlow, pos, hfind, rfl⟩ := h
  have hends := stops_of_takeHex hlow
  obtain ⟨pid, hnumber, hlt, rfl, rfl⟩ := exists_number_of_takeDecimal hpid
  obtain ⟨high, hhighField, rfl, rfl⟩ := exists_field_of_takeHex hhigh
  obtain ⟨low, hlowField, rfl, rfl⟩ := exists_field_of_takeHex hlow
  obtain ⟨before, type, rfl, rfl, hno⟩ := exists_of_find hfind
  rw [takePrefix_eq_some] at hname hluid hx
  have htype : (before ++ (kEngtype ++ type)).drop (before.length + kEngtype.length) = type := by
    rw [← List.drop_drop, List.drop_left, List.drop_left]
  refine ⟨pid, high, low, before, ?_⟩
  rw [htype]
  exact {
    pid_number := hnumber
    pid_lt := hlt
    high_field := hhighField
    low_field := hlowField
    low_ends := hends
    first := hno
    name_eq := by rw [hname, hluid, hx]
    pid_eq := rfl
    luid_eq := rfl }

/-- What is accepted, and as what. -/
theorem parseGpuEngineInstance_eq_some {name : Text} {out : GpuEngineInstance} :
    parseGpuEngineInstance name = some out ↔ DenotesEngine name out := by
  refine ⟨parts_of_parse, ?_⟩
  rintro ⟨pid, high, low, before, h⟩
  exact parse_of_parts h

/-- A name that is written well denotes its fields. -/
theorem EngineName.WellFormed.parts {n : EngineName} (h : n.WellFormed) :
    NameParts n.text n.denoted n.pid n.high n.low
      ("_phys_".toList ++ (n.phys ++ ("_eng_".toList ++ n.eng))) where
  pid_number := h.pid
  pid_lt := h.pid_lt
  high_field := h.high
  low_field := h.low
  low_ends := Scan.stops_cons.mpr (by decide)
  first := noStart_phys_eng h.phys h.eng
  name_eq := rfl
  pid_eq := rfl
  luid_eq := rfl

/-- Runs of digits in the places of the three numbers, of any length and none
at all. -/
structure DigitRuns (name pid high low rest : Text) : Prop where
  pid_digits : ∀ c ∈ pid, c.isDigit = true
  high_digits : ∀ c ∈ high, Hex.isDigit c = true
  low_digits : ∀ c ∈ low, Hex.isDigit c = true
  ends : Scan.Stops Hex.isDigit rest
  name_eq : name = "pid_".toList ++ (pid ++ ("_luid_0x".toList ++ (high ++ ("_0x".toList ++
    (low ++ rest)))))

/-- If such a name is accepted, then each run has a length that is allowed. -/
theorem DigitRuns.allowed {name pid high low rest : Text} {out : GpuEngineInstance}
    (hruns : DigitRuns name pid high low rest) (h : parseGpuEngineInstance name = some out) :
    Decimal.IsNumber pid ∧ Decimal.value pid < 2 ^ 31 ∧ HexField 8 high ∧ HexField 8 low := by
  obtain ⟨pid', high', low', before, hparts⟩ := parts_of_parse h
  have hname := hparts.name_eq
  rw [hruns.name_eq] at hname
  -- the runs end where they end, so both readings of the name cut it alike
  obtain ⟨rfl, hluid⟩ := Scan.append_inj_of_stops hruns.pid_digits hparts.pid_number.2
    (stops_luid _) (stops_luid _) (List.append_cancel_left hname)
  obtain ⟨rfl, hx⟩ := Scan.append_inj_of_stops hruns.high_digits hparts.high_field.digits
    (stops_low _) (stops_low _) (List.append_cancel_left hluid)
  obtain ⟨rfl, -⟩ := Scan.append_inj_of_stops hruns.low_digits hparts.low_field.digits hruns.ends
    hparts.low_ends (List.append_cancel_left hx)
  exact ⟨hparts.pid_number, hparts.pid_lt, hparts.high_field, hparts.low_field⟩

/-- **GPU engine names round-trip.** A name that is written well, with a process id
that is an `int`, halves that spell a 64-bit LUID, adapter and engine numbers and a
type of any characters, gives back exactly the process id, the LUID and the whole
type. What is accepted is exactly what `DenotesEngine` says, a decimal process id in
the range of `int` and the two halves of at most eight digits; a name with a number
that is too long, too large or missing is not. Every piece of a name ends where the
next literal begins, which no digit of it can (`stops_luid`, `stops_low`), so a
well-written name is cut in only one way, and the parser cuts it so. -/
theorem engine_instance_round_trip :
    (∀ n : EngineName, n.WellFormed →
      parseGpuEngineInstance n.text = some n.denoted
      ∧ ∀ luid : UInt64, Hex.read n.high = luid.toNat / 2 ^ 32 →
        Hex.read n.low = luid.toNat % 2 ^ 32 →
        parseGpuEngineInstance n.text = some ⟨Decimal.value n.pid, luid, n.type⟩)
    ∧ (∀ (name : Text) (out : GpuEngineInstance),
      parseGpuEngineInstance name = some out ↔ DenotesEngine name out)
    ∧ ∀ name pid high low rest : Text, DigitRuns name pid high low rest →
      ¬ (Decimal.IsNumber pid ∧ Decimal.value pid < 2 ^ 31 ∧ HexField 8 high ∧ HexField 8 low) →
      parseGpuEngineInstance name = none := by
  refine ⟨?_, fun name out => parseGpuEngineInstance_eq_some, ?_⟩
  · intro n h
    have hparse := parse_of_parts h.parts
    refine ⟨hparse, ?_⟩
    intro luid hhigh hlow
    rw [hparse, EngineName.denoted, luidOf_halves h.high h.low hhigh hlow]
  · intro name pid high low rest hruns hbad
    by_contra hne
    obtain ⟨out, hout⟩ := Option.ne_none_iff_exists'.mp hne
    exact hbad (hruns.allowed hout)

/-- The type keeps an `_engtype_` of its own, and the halves are in any case. -/
example : parseGpuEngineInstance
    "pid_7_luid_0x1_0xD1b2_phys_0_eng_3_engtype_3D_engtype_x".toList
      = some ⟨7, 0x10000d1b2, "3D_engtype_x".toList⟩ := by
  decide +kernel

end Loadmaster.Gpu.Contention
