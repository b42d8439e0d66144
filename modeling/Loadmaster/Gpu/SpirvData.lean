/-
The SPIR-V payload of the Intel backend (`CMakeLists.txt`, the loop over
`INTEL_SPIRV_HEX`): the build turns the hex dump of `busy_kernel.spv` into the
text of a C array, masked byte by byte.

`math(EXPR …)` counts in 64-bit integers; every value here is far below that,
so natural numbers do. The text is compared with `Encode` after it has been read as C reads
it (`arrayValues`).
-/
import Loadmaster.Lib.Hex
import Loadmaster.Lib.Scanf
import Loadmaster.Util.Obfuscate

set_option autoImplicit false

namespace Loadmaster.Gpu

open Util.Obfuscate

/-! ## The build's loop -/

/-- `file(READ … HEX)`. -/
def hexDump (file : List UInt8) : List Char := file.flatMap fun b => Hex.padded 2 b.toNat

/-- What `math(EXPR … OUTPUT_FORMAT HEXADECIMAL)` stores. -/
def hexLiteral (n : ℕ) : List Char := '0' :: 'x' :: Nat.toDigits 16 n

/-- The value of a hexadecimal literal, in an expression of the build or in C. -/
def literalValue (text : List Char) : Option ℕ :=
  let digits := text.drop 2
  if text.take 2 = ['0', 'x'] ∧ digits ≠ [] ∧ digits.all Hex.isDigit then some (Hex.read digits)
  else none

/-- `_keys`: the key's bytes from the lowest, pre-extracted. -/
def keyTexts (key : ℕ) : List (List Char) :=
  [hexLiteral (key &&& 0xff), hexLiteral ((key >>> 8) &&& 0xff),
    hexLiteral ((key >>> 16) &&& 0xff), hexLiteral ((key >>> 24) &&& 0xff)]

/-- `INTEL_SPIRV_C_ARRAY` and `_byte_count_dec`. -/
structure ArrayLoop where
  text : List Char := []
  byte_count_dec : ℕ := 0
deriving DecidableEq, Repr

/-- The loop's body at `_pos`; `none` where CMake stops with an error. -/
def arrayStep (hex : List Char) (keys : List (List Char)) (s : ArrayLoop) (pos : ℕ) :
    Option ArrayLoop := do
  let byte_hex := (hex.drop pos).take 2
  let k ← keys[s.byte_count_dec % 4]?
  let idx_mask := s.byte_count_dec % 256
  let b ← literalValue ('0' :: 'x' :: byte_hex)
  let kv ← literalValue k
  let enc := hexLiteral (b ^^^ kv ^^^ idx_mask)
  let text := s.text ++ enc ++ [',']
  let byte_count_dec := s.byte_count_dec + 1
  some {
    text := if byte_count_dec % 16 = 0 then text ++ "\n    ".toList else text
    byte_count_dec := byte_count_dec }

/-- The positions of `foreach(_pos RANGE 0 last 2)`. -/
def rangeByTwo (last : ℕ) : List ℕ := List.range' 0 (last / 2 + 1) 2

/-- The text of the array, for the key whose text is `key`. `RANGE` takes no
end below its start, so the build stops at an empty file. -/
def spirvCArray (key : List Char) (file : List UInt8) : Option (List Char) := do
  let hex := hexDump file
  let keys := keyTexts (← literalValue key)
  if hex.length = 0 then none
  else
    let s ← (rangeByTwo (hex.length - 1)).foldlM (arrayStep hex keys) {}
    some s.text

/-! ## The array as C reads it -/

/-- A field without the blanks around it. -/
def trim (text : List Char) : List Char :=
  ((text.dropWhile Scanf.isSpace).reverse.dropWhile Scanf.isSpace).reverse

/-- One element of an array of bytes; a larger value does not compile. -/
def byteValue (field : List Char) : Option UInt8 :=
  (literalValue (trim field)).bind fun n => if n < 256 then some n.toUInt8 else none

/-- The elements of an initializer list, in which a trailing comma is allowed. -/
def arrayValues (text : List Char) : Option (List UInt8) :=
  let fields := text.splitOn ','
  if (fields.getLast?.map trim) = some [] then fields.dropLast.mapM byteValue
  else fields.mapM byteValue

/-! ## Literals -/

/-- A literal of hex digits has the value of its digits. -/
theorem literalValue_of_digits {digits : List Char} (hne : digits ≠ [])
    (hdigits : ∀ c ∈ digits, Hex.isDigit c = true) :
    literalValue ('0' :: 'x' :: digits) = some (Hex.read digits) := by
  unfold literalValue
  exact if_pos ⟨rfl, hne, List.all_eq_true.mpr hdigits⟩

/-- The digits of a number are those padded to no width. -/
theorem toDigits_eq_padded (n : ℕ) : Nat.toDigits 16 n = Hex.padded 0 n := by
  unfold Hex.padded
  simp

@[simp] theorem literalValue_hexLiteral (n : ℕ) : literalValue (hexLiteral n) = some n := by
  rw [hexLiteral, toDigits_eq_padded,
    literalValue_of_digits (Hex.padded_ne_nil 0 n) fun _ => Hex.isDigit_of_mem_padded,
    Hex.read_padded]

/-- Padding with zeros does not change the value. -/
theorem literalValue_padded (width n : ℕ) :
    literalValue ('0' :: 'x' :: Hex.padded width n) = some n := by
  rw [literalValue_of_digits (Hex.padded_ne_nil width n) fun _ => Hex.isDigit_of_mem_padded,
    Hex.read_padded]

/-- A literal is made of digits and the `x`. -/
theorem mem_hexLiteral {n : ℕ} {c : Char} (h : c ∈ hexLiteral n) :
    Hex.isDigit c = true ∨ c = 'x' := by
  rw [hexLiteral, List.mem_cons, List.mem_cons, toDigits_eq_padded] at h
  rcases h with rfl | rfl | h
  · exact Or.inl (by decide)
  · exact Or.inr rfl
  · exact Or.inl (Hex.isDigit_of_mem_padded h)

/-- There is no comma in a literal, so commas cut an array's text into its literals. -/
theorem comma_notMem_hexLiteral (n : ℕ) : ',' ∉ hexLiteral n := by
  intro h
  rcases mem_hexLiteral h with h | h <;> exact absurd h (by decide)

theorem not_isSpace_of_mem_hexLiteral {n : ℕ} {c : Char} (h : c ∈ hexLiteral n) :
    Scanf.isSpace c = false := by
  rcases mem_hexLiteral h with h | rfl
  · have hall : ("0123456789abcdefABCDEF".toList.all fun c => !Scanf.isSpace c) = true := by
      decide
    simpa using List.all_eq_true.mp hall c (of_decide_eq_true h)
  · decide

theorem trim_blanks {blanks : List Char} (h : ∀ c ∈ blanks, Scanf.isSpace c = true) :
    trim blanks = [] := by
  rw [trim, List.dropWhile_eq_nil_iff.mpr h]
  rfl

/-- There is no blank in a literal, so trimming takes off exactly what stands in front
of it. -/
theorem trim_blanks_hexLiteral {blanks : List Char} (h : ∀ c ∈ blanks, Scanf.isSpace c = true)
    (n : ℕ) : trim (blanks ++ hexLiteral n) = hexLiteral n := by
  have hzero : Scan.Stops Scanf.isSpace (hexLiteral n) := Scan.stops_cons.mpr (by decide)
  have hlast : Scan.Stops Scanf.isSpace (hexLiteral n).reverse := fun c hc =>
    not_isSpace_of_mem_hexLiteral (List.mem_reverse.mp (List.mem_of_mem_head? hc))
  have hkeep : (hexLiteral n).reverse.dropWhile Scanf.isSpace = (hexLiteral n).reverse :=
    Scanf.dropWhile_isSpace (fun _ hc => absurd hc List.not_mem_nil) hlast
  rw [trim, Scanf.dropWhile_isSpace h hzero, hkeep, List.reverse_reverse]

/-- One byte in the array's text, perhaps on a new line. -/
theorem byteValue_field {blanks : List Char} (h : ∀ c ∈ blanks, Scanf.isSpace c = true)
    (b : UInt8) : byteValue (blanks ++ hexLiteral b.toNat) = some b := by
  have hlt : b.toNat < 256 := b.toNat_lt
  rw [byteValue, trim_blanks_hexLiteral h, literalValue_hexLiteral, Option.bind_some, if_pos hlt,
    Nat.toUInt8_eq, UInt8.ofNat_toNat]

/-! ## The hex dump -/

theorem length_padded_two (b : UInt8) : (Hex.padded 2 b.toNat).length = 2 :=
  Hex.length_padded (by decide) b.toNat_lt

@[simp] theorem length_hexDump (file : List UInt8) : (hexDump file).length = 2 * file.length := by
  induction file with
  | nil => rfl
  | cons b file ih =>
    rw [hexDump, List.flatMap_cons, List.length_append, length_padded_two] at *
    rw [ih, List.length_cons]
    omega

/-- The pair of digits at an even position is one byte of the file. -/
theorem hexDump_pair {file : List UInt8} : ∀ {i : ℕ} {b : UInt8}, file[i]? = some b →
    ((hexDump file).drop (2 * i)).take 2 = Hex.padded 2 b.toNat := by
  induction file with
  | nil => intro i b h; simp at h
  | cons c file ih =>
    intro i b h
    have hcons : hexDump (c :: file) = Hex.padded 2 c.toNat ++ hexDump file := List.flatMap_cons
    rw [hcons]
    cases i with
    | zero =>
      rw [List.getElem?_cons_zero, Option.some.injEq] at h
      rw [h, Nat.mul_zero, List.drop_zero, List.take_left' (length_padded_two b)]
    | succ i =>
      rw [List.getElem?_cons_succ] at h
      rw [Nat.mul_succ, Nat.add_comm, ← List.drop_drop, List.drop_left' (length_padded_two c)]
      exact ih h

/-! ## The loop -/

/-- The line break after every sixteen bytes, in front of byte `i`. -/
def lineBreak (i : ℕ) : List Char := if 0 < i ∧ i % 16 = 0 then "\n    ".toList else []

/-- The fields of the array's text, without the commas. -/
def arrayFields (bytes : List UInt8) : List (List Char) :=
  bytes.mapIdx fun i b => lineBreak i ++ hexLiteral b.toNat

/-- The array's text: a comma after each field, and perhaps a line break. -/
def arrayText (bytes : List UInt8) : List Char :=
  (arrayFields bytes).flatMap (· ++ [',']) ++ lineBreak bytes.length

/-- The build breaks the text after some literals, and a break is blank. -/
theorem isSpace_lineBreak (i : ℕ) : ∀ c ∈ lineBreak i, Scanf.isSpace c = true := by
  unfold lineBreak
  split
  · simp [Scanf.isSpace]
  · exact List.forall_mem_nil _

theorem comma_notMem_lineBreak (i : ℕ) : ',' ∉ lineBreak i := fun h =>
  absurd (isSpace_lineBreak i _ h) (by decide)

/-- One more byte is one more literal, with its comma and perhaps a break. -/
theorem arrayText_append_singleton (bytes : List UInt8) (b : UInt8) :
    arrayText (bytes ++ [b])
      = arrayText bytes ++ hexLiteral b.toNat ++ [','] ++ lineBreak (bytes.length + 1) := by
  unfold arrayText arrayFields
  rw [List.mapIdx_append, List.flatMap_append, List.mapIdx_singleton, List.flatMap_singleton,
    Nat.zero_add, List.length_append, List.length_singleton]
  simp only [List.append_assoc]

/-- The pre-extracted key bytes are what the mask takes from the key. -/
theorem keyTexts_getElem (key i : ℕ) :
    (keyTexts key)[i % 4]? = some (hexLiteral ((key >>> (8 * (i % 4))) &&& 0xff)) := by
  have hlt : i % 4 < 4 := Nat.mod_lt i (by decide)
  generalize i % 4 = j at hlt ⊢
  interval_cases j <;> rfl

/-- One round of the loop, at byte `i` of the file. -/
theorem arrayStep_eq {file bytes : List UInt8} {key : UInt32} {b : UInt8}
    (hb : file[bytes.length]? = some b) :
    arrayStep (hexDump file) (keyTexts key.toNat) ⟨arrayText bytes, bytes.length⟩
        (2 * bytes.length)
      = some ⟨arrayText (bytes ++ [mixByte true b key bytes.length]), bytes.length + 1⟩ := by
  have hbreak : ∀ text : List Char,
      (if (bytes.length + 1) % 16 = 0 then text ++ "\n    ".toList else text)
        = text ++ lineBreak (bytes.length + 1) := by
    intro text
    unfold lineBreak
    split_ifs with h1 h2 h2
    · rfl
    · exact absurd ⟨Nat.succ_pos _, h1⟩ h2
    · exact absurd h2.2 h1
    · exact (List.append_nil text).symm
  unfold arrayStep
  rw [keyTexts_getElem, hexDump_pair hb]
  simp only [Option.bind_eq_bind, Option.bind_some, literalValue_padded, literalValue_hexLiteral,
    hbreak]
  rw [← mixByte_toNat, arrayText_append_singleton]

/-- The first `n` rounds write the first `n` bytes. -/
theorem foldlM_arrayStep (file : List UInt8) (key : UInt32) : ∀ n ≤ file.length,
    (List.range' 0 n 2).foldlM (arrayStep (hexDump file) (keyTexts key.toNat)) {}
      = some ⟨arrayText ((encode true (asLiteral file) key).take n), n⟩ := by
  intro n hn
  induction n with
  | zero => rfl
  | succ n ih =>
    obtain ⟨b, hb⟩ : ∃ b, file[n]? = some b := ⟨_, List.getElem?_eq_getElem (by omega)⟩
    have henc : (encode true (asLiteral file) key)[n]? = some (mixByte true b key n) := by
      rw [encode_asLiteral, List.getElem?_mapIdx, hb, Option.map_some]
    have hlen : ((encode true (asLiteral file) key).take n).length = n := by
      rw [List.length_take, length_encode_asLiteral]
      omega
    have hstep : arrayStep (hexDump file) (keyTexts key.toNat) _ _ = some _ :=
      arrayStep_eq (by rwa [hlen])
    rw [hlen] at hstep
    rw [List.range'_concat, List.foldlM_append, ih (by omega), Nat.zero_add]
    simp only [Option.bind_eq_bind, Option.bind_some, List.foldlM_cons, List.foldlM_nil, hstep]
    rw [List.take_add_one, henc]
    rfl

/-! ## The array -/

/-- A text of fields, each with a comma behind it, is cut into these fields and what is
left. -/
theorem splitOn_fields {fields : List (List Char)} {last : List Char}
    (hfields : ∀ f ∈ fields, ',' ∉ f) (hlast : ',' ∉ last) :
    (fields.flatMap (· ++ [',']) ++ last).splitOn ',' = fields ++ [last] := by
  induction fields with
  | nil => exact List.splitOn_eq_singleton hlast
  | cons f fields ih =>
    have hrest : (f :: fields).flatMap (· ++ [',']) ++ last
        = f ++ ',' :: (fields.flatMap (· ++ [',']) ++ last) := by simp
    rw [hrest, List.splitOn_append_cons_self_of_not_mem (hfields f List.mem_cons_self),
      ih fun g hg => hfields g (List.mem_cons_of_mem _ hg), List.cons_append]

theorem mapM_mapIdx {α β : Type} {g : β → Option α} {bytes : List α} : ∀ {f : ℕ → α → β},
    (∀ i b, g (f i b) = some b) → (bytes.mapIdx f).mapM g = some bytes := by
  induction bytes with
  | nil => intro f _; rfl
  | cons b bytes ih =>
    intro f h
    rw [List.mapIdx_cons, List.mapM_cons, h 0 b, ih fun i => h (i + 1)]
    rfl

/-- The array's text reads back as the bytes it was made of. -/
theorem arrayValues_arrayText (bytes : List UInt8) :
    arrayValues (arrayText bytes) = some bytes := by
  have hcomma : ∀ f ∈ arrayFields bytes, ',' ∉ f := by
    intro f hf
    obtain ⟨i, hi, rfl⟩ := List.mem_mapIdx.mp hf
    intro hmem
    rcases List.mem_append.mp hmem with h | h
    · exact comma_notMem_lineBreak i h
    · exact comma_notMem_hexLiteral _ h
  have hsplit := splitOn_fields hcomma (comma_notMem_lineBreak bytes.length)
  unfold arrayValues arrayText
  simp only [hsplit, List.getLast?_append, List.dropLast_concat, List.getLast?_singleton,
    Option.some_or, Option.map_some, trim_blanks (isSpace_lineBreak _), if_true]
  exact mapM_mapIdx fun i b => byteValue_field (isSpace_lineBreak i) b

/-- The build writes the array of what `Encode` makes of the file. -/
theorem spirvCArray_eq {key : UInt32} {digits : List Char} (hne : digits ≠ [])
    (hdigits : ∀ c ∈ digits, Hex.isDigit c = true) (hkey : Hex.read digits = key.toNat)
    {file : List UInt8} (hfile : file ≠ []) :
    spirvCArray ('0' :: 'x' :: digits) file
      = some (arrayText (encode true (asLiteral file) key)) := by
  have hpos : 0 < file.length := List.length_pos_of_ne_nil hfile
  have hrange : rangeByTwo (2 * file.length - 1) = List.range' 0 file.length 2 := by
    unfold rangeByTwo
    congr 1
    omega
  unfold spirvCArray
  simp only [literalValue_of_digits hne hdigits, hkey, Option.bind_eq_bind, Option.bind_some,
    length_hexDump]
  rw [if_neg (by omega), hrange, foldlM_arrayStep file key _ (le_refl _), Option.bind_some,
    List.take_of_length_le (by simp)]

/-- **Encoded payloads decode to the original, whoever encoded them.** `Decode` of
`Encode` is the payload and one NUL, `DecodeBytes` of `Encode` is the payload. For
every spelling of the key, the array that the build makes of the hex dump of a file
that is not empty is byte for byte what `Encode` makes of the file, so `DecodeBytes`
with that key restores it. A byte is mixed by an exclusive or with what the key and
the index give, and to mix it twice gives it back; the hex dump only has to be cut
where the build cuts it (`spirvCArray_eq`). -/
theorem payload_round_trip (payload : List UInt8) (key : UInt32) :
    decode true (encode true (asLiteral payload) key) key = payload ++ [0]
      ∧ decodeBytes true (encode true (asLiteral payload) key)
          (encode true (asLiteral payload) key).length key = payload
      ∧ ∀ digits : List Char, digits ≠ [] → (∀ c ∈ digits, Hex.isDigit c = true) →
        Hex.read digits = key.toNat → payload ≠ [] → ∃ text bytes,
          spirvCArray ('0' :: 'x' :: digits) payload = some text
          ∧ arrayValues text = some bytes ∧ bytes = encode true (asLiteral payload) key
          ∧ decodeBytes true bytes bytes.length key = payload := by
  have hbytes : decodeBytes true (encode true (asLiteral payload) key)
      (encode true (asLiteral payload) key).length key = payload := by
    rw [length_encode_asLiteral]
    exact decodeBytes_encode payload key
  refine ⟨decode_encode payload key, hbytes, ?_⟩
  intro digits hne hdigits hkey hpayload
  exact ⟨_, _, spirvCArray_eq hne hdigits hkey hpayload, arrayValues_arrayText _, rfl, hbytes⟩

/-- The backend's own key, and a file of four bytes. -/
example : spirvCArray "0xB52E4C8D".toList [0x03, 0x02, 0x23, 0x07]
    = some "0x8e,0x4f,0xf,0xb1,".toList := by
  decide +kernel

end Loadmaster.Gpu
