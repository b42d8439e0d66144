/-
**PCI addresses compare equal exactly when they are equal**
(`gpu/contention/parse.cc`).

Every vendor spells an address its own way, and devices are matched by the text
that `CanonicalPciBusId` makes of it. `Denotes` says what a spelling means,
without the parser: fields of hexadecimal digits between their separators, and
the address that they are the numbers of.
-/
import Loadmaster.Gpu.Contention.Parse
import Loadmaster.Lib.Hex
import Loadmaster.Lib.Scan
import Loadmaster.Lib.Word

set_option autoImplicit false

namespace Loadmaster.Gpu.Contention

/-! ## The source -/

/-- `TakeHex`: the number that the digits in front spell, and what follows. -/
def takeHex (s : Text) (max_digits : ℕ) : Option (UInt32 × Text) :=
  let digits := s.takeWhile Hex.isDigit
  if max_digits < digits.length ∨ digits = [] then none
  else some (UInt32.ofNat (Hex.read digits), s.dropWhile Hex.isDigit)

/-- `TakeChar` -/
def takeChar (s : Text) (c : Char) : Option Text :=
  match s with
  | [] => none
  | x :: rest => if x = c then some rest else none

/-- `FormatPciBusId`: `%04x:%02x:%02x.%x`, of 31 characters at most. -/
def formatPciBusId (domain bus device function : UInt32) : Text :=
  (Hex.padded 4 domain.toNat ++ ':' :: (Hex.padded 2 bus.toNat ++ ':' ::
    (Hex.padded 2 device.toNat ++ '.' :: Hex.padded 1 function.toNat))).take 31

/-- The loop of `CanonicalPciBusId`, with room for so many more fields. -/
def takePciFields : ℕ → Text → Option (List UInt32 × Text)
  | 0, _ => none
  | room + 1, s =>
    match takeHex s 8 with
    | none => none
    | some (field, s) =>
      match takeChar s ':' with
      | none => some ([field], s)
      | some s => (takePciFields room s).map fun r => (field :: r.1, r.2)

/-- `CanonicalPciBusId` -/
def canonicalPciBusId (text : Text) : Text :=
  match takePciFields 3 text with
  | none => []
  | some (fields, s) =>
    let count := fields.length
    match if count < 2 then none else (takeChar s '.').bind (takeHex · 1) with
    | some (function, []) =>
      let domain := if count = 3 then fields.getD 0 0 else 0
      let bus := fields.getD (count - 2) 0
      let device := fields.getD (count - 1) 0
      if 0xffff < domain ∨ 0xff < bus ∨ 0x1f < device ∨ 7 < function then []
      else formatPciBusId domain bus device function
    | _ => []

/-- `KfdPciBusId` -/
def kfdPciBusId (domain location_id : UInt32) : Text :=
  formatPciBusId domain ((location_id >>> 8) &&& 0xff) ((location_id >>> 3) &&& 0x1f)
    (location_id &&& 0x7)

/-! ## Addresses and their spellings -/

/-- An address that a PCI function can have. -/
structure PciAddress where
  domain : ℕ
  bus : ℕ
  device : ℕ
  function : ℕ
  domain_le : domain ≤ 0xffff
  bus_le : bus ≤ 0xff
  device_le : device ≤ 0x1f
  function_le : function ≤ 7
deriving DecidableEq

/-- One to `most` hexadecimal digits. -/
structure HexField (most : ℕ) (cs : Text) : Prop where
  digits : ∀ c ∈ cs, Hex.isDigit c = true
  ne_nil : cs ≠ []
  length_le : cs.length ≤ most

/-- The fields of a text `[domain:]bus:device.function`. -/
structure PciFields where
  domain : Option Text
  bus : Text
  device : Text
  function : Text

namespace PciFields

structure WellFormed (f : PciFields) : Prop where
  domain : ∀ d, f.domain = some d → HexField 8 d
  bus : HexField 8 f.bus
  device : HexField 8 f.device
  function : HexField 1 f.function

def text (f : PciFields) : Text :=
  match f.domain with
  | some d => d ++ ':' :: (f.bus ++ ':' :: (f.device ++ '.' :: f.function))
  | none => f.bus ++ ':' :: (f.device ++ '.' :: f.function)

/-- A missing domain is domain 0. -/
def domainNumber (f : PciFields) : ℕ := (f.domain.map Hex.read).getD 0

end PciFields

/-- The text spells the address. -/
def Denotes (s : Text) (a : PciAddress) : Prop :=
  ∃ f : PciFields, f.WellFormed ∧ s = f.text ∧ a.domain = f.domainNumber ∧
    a.bus = Hex.read f.bus ∧ a.device = Hex.read f.device ∧ a.function = Hex.read f.function

/-- What an address is compared by. -/
def PciAddress.text (a : PciAddress) : Text :=
  formatPciBusId (.ofNat a.domain) (.ofNat a.bus) (.ofNat a.device) (.ofNat a.function)

/-! ## Taking a field -/

variable {most : ℕ} {cs rest s : Text}

/-- A field of an address ends at its colon or at the dot. -/
theorem stops_colon : Scan.Stops Hex.isDigit (':' :: rest) := Scan.stops_cons.mpr (by decide)

theorem stops_dot : Scan.Stops Hex.isDigit ('.' :: rest) := Scan.stops_cons.mpr (by decide)

/-- **A field is taken as the number it spells.** -/
theorem takeHex_field (h : HexField most cs) (hrest : Scan.Stops Hex.isDigit rest) :
    takeHex (cs ++ rest) most = some (.ofNat (Hex.read cs), rest) := by
  obtain ⟨htake, hdrop⟩ := Scan.scan_append h.digits hrest
  unfold takeHex
  dsimp only
  rw [htake, hdrop, if_neg (not_or.mpr ⟨not_lt.mpr h.length_le, h.ne_nil⟩)]

/-- **And nothing else is taken.** -/
theorem exists_field_of_takeHex {v : UInt32} (h : takeHex s most = some (v, rest)) :
    ∃ cs, HexField most cs ∧ s = cs ++ rest ∧ v = .ofNat (Hex.read cs) := by
  unfold takeHex at h
  dsimp only at h
  split_ifs at h with hbad
  obtain ⟨hlen, hne⟩ := not_or.mp hbad
  obtain ⟨rfl, rfl⟩ := Prod.mk.inj (Option.some.inj h)
  exact ⟨s.takeWhile Hex.isDigit, ⟨fun c hc => List.mem_takeWhile_imp hc, hne, not_lt.mp hlen⟩,
    List.takeWhile_append_dropWhile.symm, rfl⟩

/-- Where a character is taken it was the first. -/
theorem exists_of_takeChar {c : Char} (h : takeChar s c = some rest) : s = c :: rest := by
  unfold takeChar at h
  split at h
  · contradiction
  · split_ifs at h with hc
    rw [hc, Option.some.inj h]

@[simp] theorem takeChar_cons_self (c : Char) : takeChar (c :: rest) c = some rest := if_pos rfl

/-- A field fits a `uint32_t`. -/
theorem toNat_read (h : HexField most cs) (hmost : most ≤ 8) :
    (UInt32.ofNat (Hex.read cs)).toNat = Hex.read cs := by
  apply UInt32.toNat_ofNat_of_lt'
  calc Hex.read cs < 16 ^ cs.length := Hex.read_lt h.digits
    _ ≤ 16 ^ 8 := Nat.pow_le_pow_right (by decide) (h.length_le.trans hmost)
    _ = UInt32.size := by decide

/-! ## Taking an address -/

namespace PciFields

variable {f : PciFields}

/-- The numbers of the fields in front of the function. -/
def numbers (f : PciFields) : List UInt32 :=
  (match f.domain with
    | some d => [.ofNat (Hex.read d)]
    | none => []) ++ [.ofNat (Hex.read f.bus), .ofNat (Hex.read f.device)]

/-- Three fields are read off a well-formed text, up to the function. -/
theorem takePciFields_text (h : f.WellFormed) :
    takePciFields 3 f.text = some (f.numbers, '.' :: f.function) := by
  have hbus : ∀ room, takePciFields (room + 2) (f.bus ++ ':' :: (f.device ++ '.' :: f.function))
      = some ([.ofNat (Hex.read f.bus), .ofNat (Hex.read f.device)], '.' :: f.function) := by
    intro room
    rw [takePciFields, takeHex_field h.bus stops_colon]
    dsimp only
    rw [takeChar_cons_self]
    dsimp only
    rw [takePciFields, takeHex_field h.device stops_dot]
    rfl
  unfold text numbers
  cases hdomain : f.domain with
  | none => exact hbus 1
  | some d =>
    dsimp only
    rw [takePciFields, takeHex_field (h.domain d hdomain) stops_colon]
    dsimp only
    rw [takeChar_cons_self]
    dsimp only
    rw [hbus 0]
    rfl

/-- **What is made of a spelling.** -/
theorem canonicalPciBusId_text (h : f.WellFormed) :
    canonicalPciBusId f.text
      = if 0xffff < f.domainNumber ∨ 0xff < Hex.read f.bus ∨ 0x1f < Hex.read f.device ∨
            7 < Hex.read f.function then []
        else formatPciBusId (.ofNat f.domainNumber) (.ofNat (Hex.read f.bus))
          (.ofNat (Hex.read f.device)) (.ofNat (Hex.read f.function)) := by
  have hbus := toNat_read h.bus le_rfl
  have hdevice := toNat_read h.device le_rfl
  have hfunction := toNat_read h.function (by decide)
  have htake : takeHex f.function 1 = some (.ofNat (Hex.read f.function), []) := by
    have hfield := takeHex_field h.function Scan.stops_nil
    rwa [List.append_nil] at hfield
  unfold canonicalPciBusId
  rw [takePciFields_text h]
  cases hdomain : f.domain with
  | none =>
    have hzero : f.domainNumber = 0 := by rw [domainNumber, hdomain]; rfl
    simp [numbers, hdomain, hzero, htake, UInt32.lt_iff_toNat_lt, hbus, hdevice, hfunction]
  | some d =>
    have hd : f.domainNumber = Hex.read d := by rw [domainNumber, hdomain]; rfl
    have hnumber := toNat_read (h.domain d hdomain) le_rfl
    simp [numbers, hdomain, hd, htake, UInt32.lt_iff_toNat_lt, hbus, hdevice, hfunction, hnumber]

/-- One more field was taken: it is the last, or more follow its colon. -/
theorem takePciFields_succ {room : ℕ} {fields : List UInt32}
    (h : takePciFields (room + 1) s = some (fields, rest)) :
    ∃ cs, HexField 8 cs ∧
      ((s = cs ++ rest ∧ fields.length = 1) ∨ ∃ t fields', s = cs ++ ':' :: t ∧
        fields.length = fields'.length + 1 ∧ takePciFields room t = some (fields', rest)) := by
  rw [takePciFields] at h
  cases hfield : takeHex s 8 with
  | none => simp [hfield] at h
  | some r =>
    obtain ⟨cs, hcs, hs, -⟩ := exists_field_of_takeHex hfield
    refine ⟨cs, hcs, ?_⟩
    cases hcolon : takeChar r.2 ':' with
    | none =>
      simp only [hfield, hcolon, Option.some.injEq, Prod.mk.injEq] at h
      obtain ⟨rfl, rfl⟩ := h
      exact .inl ⟨hs, rfl⟩
    | some t =>
      rw [exists_of_takeChar hcolon] at hs
      simp only [hfield, hcolon, Option.map_eq_some_iff, Prod.mk.injEq] at h
      obtain ⟨⟨fields', rest'⟩, hmore, rfl, rfl⟩ := h
      exact .inr ⟨t, fields', hs, rfl, hmore⟩

/-- **Fields that were taken** are those of a text, up to the function. -/
theorem exists_of_takePciFields {fields : List UInt32}
    (h : takePciFields 3 s = some (fields, rest)) (htwo : 2 ≤ fields.length) :
    ∃ domain bus device, (∀ d, domain = some d → HexField 8 d) ∧ HexField 8 bus ∧
      HexField 8 device ∧ ∀ function, rest = '.' :: function →
        s = text ⟨domain, bus, device, function⟩ := by
  obtain ⟨cs₁, h₁, ⟨-, hlen⟩ | ⟨t₁, fields₁, rfl, hlen₁, h⟩⟩ := takePciFields_succ h
  · omega
  obtain ⟨cs₂, h₂, ⟨rfl, -⟩ | ⟨t₂, fields₂, rfl, hlen₂, h⟩⟩ := takePciFields_succ h
  · -- two fields: a bus and a device
    refine ⟨none, cs₁, cs₂, by simp, h₁, h₂, ?_⟩
    rintro function rfl
    rfl
  obtain ⟨cs₃, h₃, ⟨rfl, -⟩ | ⟨t₃, fields₃, rfl, hlen₃, h⟩⟩ := takePciFields_succ h
  · -- three: the first is the domain
    refine ⟨some cs₁, cs₂, cs₃, ?_, h₂, h₃, ?_⟩
    · rintro d ⟨⟩
      exact h₁
    · rintro function rfl
      rfl
  · simp [takePciFields] at h

/-- **Only spellings of the form are taken.** -/
theorem exists_of_canonicalPciBusId (h : canonicalPciBusId s ≠ []) :
    ∃ f : PciFields, f.WellFormed ∧ s = f.text := by
  unfold canonicalPciBusId at h
  cases hfields : takePciFields 3 s with
  | none => simp [hfields] at h
  | some r =>
    obtain ⟨fields, rest⟩ := r
    simp only [hfields] at h
    by_cases hfew : fields.length < 2
    · simp [hfew] at h
    obtain ⟨domain, bus, device, hdomain, hbus, hdevice, htext⟩ :=
      exists_of_takePciFields hfields (not_lt.mp hfew)
    rw [if_neg hfew] at h
    -- what follows the fields: a dot, a digit, and the end of the text
    cases hdot : takeChar rest '.' with
    | none => simp [hdot] at h
    | some t =>
      cases hfunction : takeHex t 1 with
      | none => simp [hdot, hfunction] at h
      | some r =>
        obtain ⟨v, end_⟩ := r
        obtain ⟨cs, hcs, rfl, -⟩ := exists_field_of_takeHex hfunction
        cases end_ with
        | cons c end_ => simp [hdot, hfunction] at h
        | nil =>
          rw [List.append_nil] at hdot
          exact ⟨⟨domain, bus, device, cs⟩, ⟨hdomain, hbus, hdevice, hcs⟩,
            htext cs (exists_of_takeChar hdot)⟩

end PciFields

/-! ## The canonical text -/

variable {a b : PciAddress}

/-- The text fits its buffer. -/
theorem formatPciBusId_eq {domain bus device function : UInt32} (hbus : bus.toNat ≤ 0xff)
    (hdevice : device.toNat ≤ 0x1f) (hfunction : function.toNat ≤ 7) :
    formatPciBusId domain bus device function
      = Hex.padded 4 domain.toNat ++ ':' :: (Hex.padded 2 bus.toNat ++ ':' ::
          (Hex.padded 2 device.toNat ++ '.' :: Hex.padded 1 function.toNat)) := by
  have h8 : (Hex.padded 4 domain.toNat).length ≤ 8 :=
    Hex.length_padded_le (by decide) (by decide) domain.toNat_lt
  have h2 : (Hex.padded 2 bus.toNat).length = 2 := Hex.length_padded (by decide) (by omega)
  have h2' : (Hex.padded 2 device.toNat).length = 2 := Hex.length_padded (by decide) (by omega)
  have h1 : (Hex.padded 1 function.toNat).length = 1 := Hex.length_padded (by decide) (by omega)
  unfold formatPciBusId
  apply List.take_of_length_le
  simp only [List.length_append, List.length_cons, h2, h2', h1]
  omega

/-- The numbers of an address fit a `uint32_t`. -/
theorem PciAddress.text_eq (a : PciAddress) :
    a.text = PciFields.text ⟨some (Hex.padded 4 a.domain), Hex.padded 2 a.bus,
      Hex.padded 2 a.device, Hex.padded 1 a.function⟩ := by
  have hdomain := a.domain_le
  have hbus := a.bus_le
  have hdevice := a.device_le
  have hfunction := a.function_le
  have hsmall : ∀ n : ℕ, n ≤ 0xffff → (UInt32.ofNat n).toNat = n := fun n hn =>
    UInt32.toNat_ofNat_of_lt' (by unfold UInt32.size; omega)
  unfold text PciFields.text
  rw [formatPciBusId_eq] <;> rw [hsmall _ (by omega)]
  · rw [hsmall _ (by omega), hsmall _ (by omega), hsmall _ (by omega)]
  · exact hbus
  · exact hdevice
  · exact hfunction

/-- A padded number that is not too wide is a field. -/
theorem hexField_padded {width n : ℕ} (hwidth : 0 < width) (hn : n < 16 ^ width)
    (hmost : width ≤ most) : HexField most (Hex.padded width n) where
  digits _ hc := Hex.isDigit_of_mem_padded hc
  ne_nil := Hex.padded_ne_nil width n
  length_le := (Hex.length_padded hwidth hn).trans_le hmost

/-- **The canonical text is a spelling** of its address. -/
theorem PciAddress.denotes_text (a : PciAddress) : Denotes a.text a := by
  have hdomain := a.domain_le
  have hbus := a.bus_le
  have hdevice := a.device_le
  have hfunction := a.function_le
  refine ⟨_, ?_, a.text_eq, ?_, ?_, ?_, ?_⟩
  · refine ⟨?_, ?_, ?_, ?_⟩
    · rintro d ⟨⟩
      exact hexField_padded (by decide) (by omega) (by decide)
    · exact hexField_padded (by decide) (by omega) (by decide)
    · exact hexField_padded (by decide) (by omega) (by decide)
    · exact hexField_padded (by decide) (by omega) le_rfl
  · exact (Hex.read_padded 4 a.domain).symm
  · exact (Hex.read_padded 2 a.bus).symm
  · exact (Hex.read_padded 2 a.device).symm
  · exact (Hex.read_padded 1 a.function).symm

/-- The text of an address is not empty, which stands for none. -/
theorem PciAddress.text_ne_nil (a : PciAddress) : a.text ≠ [] := by
  rw [a.text_eq]
  simp [PciFields.text]

/-- Two addresses have one text only if they are equal, because each field ends at a
separator and is read back. -/
theorem PciAddress.text_inj (h : a.text = b.text) : a = b := by
  rw [a.text_eq, b.text_eq] at h
  obtain ⟨hdomain, h⟩ := Hex.padded_append_inj (by decide) h
  obtain ⟨hbus, h⟩ := Hex.padded_append_inj (by decide) h
  obtain ⟨hdevice, hfunction⟩ := Hex.padded_append_inj (by decide) h
  cases a
  cases b
  congr
  exact Hex.padded_inj hfunction

/-- **A spelling is brought into the canonical form of its address.** -/
theorem canonicalPciBusId_of_denotes (h : Denotes s a) : canonicalPciBusId s = a.text := by
  obtain ⟨f, hf, rfl, hdomain, hbus, hdevice, hfunction⟩ := h
  rw [PciFields.canonicalPciBusId_text hf, if_neg]
  · unfold PciAddress.text
    rw [hdomain, hbus, hdevice, hfunction]
  · rw [← hdomain, ← hbus, ← hdevice, ← hfunction]
    exact not_or.mpr ⟨not_lt.mpr a.domain_le, not_or.mpr ⟨not_lt.mpr a.bus_le,
      not_or.mpr ⟨not_lt.mpr a.device_le, not_lt.mpr a.function_le⟩⟩⟩

/-- **And nothing else is accepted.** -/
theorem exists_denotes (h : canonicalPciBusId s ≠ []) : ∃ a, Denotes s a := by
  obtain ⟨f, hf, rfl⟩ := PciFields.exists_of_canonicalPciBusId h
  rw [PciFields.canonicalPciBusId_text hf] at h
  split_ifs at h with hrange
  · contradiction
  · obtain ⟨hdomain, hrange⟩ := not_or.mp hrange
    obtain ⟨hbus, hrange⟩ := not_or.mp hrange
    obtain ⟨hdevice, hfunction⟩ := not_or.mp hrange
    exact ⟨⟨f.domainNumber, Hex.read f.bus, Hex.read f.device, Hex.read f.function,
      not_lt.mp hdomain, not_lt.mp hbus, not_lt.mp hdevice, not_lt.mp hfunction⟩,
      f, hf, rfl, rfl, rfl, rfl, rfl⟩

/-- `location_id` as the kernel packs it. -/
def PciAddress.locationId (a : PciAddress) : UInt32 :=
  UInt32.ofNat a.bus <<< 8 ||| UInt32.ofNat a.device <<< 3 ||| UInt32.ofNat a.function

/-- The location is the bus, the device and the function, side by side, so shifting and
masking gives each of them back. -/
theorem PciAddress.toNat_locationId (a : PciAddress) :
    a.locationId.toNat = 256 * a.bus + 8 * a.device + a.function := by
  have hbus := a.bus_le
  have hdevice := a.device_le
  have hfunction := a.function_le
  have hsmall : ∀ n : ℕ, n ≤ 0xff → (UInt32.ofNat n).toNat = n := fun n hn =>
    UInt32.toNat_ofNat_of_lt' (by unfold UInt32.size; omega)
  have hshift8 : (UInt32.ofNat a.bus <<< 8).toNat = a.bus <<< 8 := by
    rw [UInt32.toNat_shiftLeft, hsmall _ hbus]
    change a.bus <<< 8 % 2 ^ 32 = a.bus <<< 8
    rw [Nat.shiftLeft_eq]
    omega
  have hshift3 : (UInt32.ofNat a.device <<< 3).toNat = a.device <<< 3 := by
    rw [UInt32.toNat_shiftLeft, hsmall _ (by omega)]
    change a.device <<< 3 % 2 ^ 32 = a.device <<< 3
    rw [Nat.shiftLeft_eq]
    omega
  -- the parts take bits of their own, so they add up
  have hlow : a.device <<< 3 ||| a.function = a.device <<< 3 + a.function :=
    (Nat.shiftLeft_add_eq_or_of_lt (by omega) a.device).symm
  have hhigh : a.bus <<< 8 ||| (a.device <<< 3 + a.function)
      = a.bus <<< 8 + (a.device <<< 3 + a.function) := by
    refine (Nat.shiftLeft_add_eq_or_of_lt ?_ a.bus).symm
    rw [Nat.shiftLeft_eq]
    omega
  unfold locationId
  rw [UInt32.toNat_or, UInt32.toNat_or, hshift8, hshift3, hsmall _ (by omega), Nat.or_assoc, hlow,
    hhigh, Nat.shiftLeft_eq, Nat.shiftLeft_eq]
  omega

/-! The fields of a `location_id`. -/

theorem toNat_busBits (location : UInt32) :
    ((location >>> 8) &&& 0xff).toNat = location.toNat / 256 % 256 :=
  Word.toNat_shiftRight_and_ones (w := 8) location (by decide) rfl

theorem toNat_deviceBits (location : UInt32) :
    ((location >>> 3) &&& 0x1f).toNat = location.toNat / 8 % 32 :=
  Word.toNat_shiftRight_and_ones (w := 5) location (by decide) rfl

theorem toNat_functionBits (location : UInt32) : (location &&& 0x7).toNat = location.toNat % 8 :=
  Word.toNat_and_ones (w := 3) location rfl

/-- The kernel's address of a function is that of the other vendors. -/
theorem kfdPciBusId_eq (a : PciAddress) :
    kfdPciBusId (.ofNat a.domain) a.locationId = a.text := by
  have hbus := a.bus_le
  have hdevice := a.device_le
  have hfunction := a.function_le
  have hfield : ∀ (x : UInt32) (n : ℕ), n ≤ 0xff → x.toNat = n → x = .ofNat n := by
    intro x n hn hx
    apply UInt32.toNat_inj.mp
    rw [hx, UInt32.toNat_ofNat_of_lt' (by unfold UInt32.size; omega)]
  unfold kfdPciBusId PciAddress.text
  congr 1
  · apply hfield _ _ hbus
    rw [toNat_busBits, a.toNat_locationId]
    omega
  · apply hfield _ _ (by omega)
    rw [toNat_deviceBits, a.toNat_locationId]
    omega
  · apply hfield _ _ (by omega)
    rw [toNat_functionBits, a.toNat_locationId]
    omega

/-- **PCI addresses compare equal exactly when they are equal.** A text is accepted if
and only if it spells an address; the texts made of two spellings are equal if and
only if the addresses are; what is made of a text is left as it is; and it is what
`FormatPciBusId` and `KfdPciBusId` make of the address. A text spells one address at
most, and the canonical text of an address spells it again (`denotes_text`); so an
address can be told from its text, and all four parts follow. -/
theorem canonicalPciBusId_exact (s t : Text) :
    (canonicalPciBusId s ≠ [] ↔ ∃ a, Denotes s a) ∧
      (∀ a b, Denotes s a → Denotes t b → (canonicalPciBusId s = canonicalPciBusId t ↔ a = b)) ∧
      canonicalPciBusId (canonicalPciBusId s) = canonicalPciBusId s ∧
      ∀ a, Denotes s a →
        canonicalPciBusId s
            = formatPciBusId (.ofNat a.domain) (.ofNat a.bus) (.ofNat a.device)
                (.ofNat a.function) ∧
          canonicalPciBusId s = kfdPciBusId (.ofNat a.domain) a.locationId := by
  refine ⟨⟨exists_denotes, ?_⟩, ?_, ?_, ?_⟩
  · rintro ⟨a, ha⟩
    rw [canonicalPciBusId_of_denotes ha]
    exact a.text_ne_nil
  · intro a b ha hb
    rw [canonicalPciBusId_of_denotes ha, canonicalPciBusId_of_denotes hb]
    exact ⟨PciAddress.text_inj, fun h => congrArg _ h⟩
  · by_cases hs : canonicalPciBusId s = []
    · rw [hs]
      rfl
    · obtain ⟨a, ha⟩ := exists_denotes hs
      rw [canonicalPciBusId_of_denotes ha, canonicalPciBusId_of_denotes a.denotes_text]
  · intro a ha
    rw [canonicalPciBusId_of_denotes ha]
    exact ⟨rfl, (kfdPciBusId_eq a).symm⟩

example : canonicalPciBusId "00000000:0A:00.0".toList = "0000:0a:00.0".toList := by decide

end Loadmaster.Gpu.Contention
