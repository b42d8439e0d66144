/-
`util/obfuscate.h`: the rolling mask over embedded payloads, and its three
copies.

`MixByte`, `Decode` and `DecodeBytes` each compute the mask of a byte on their
own; the definitions here do so too. A payload is the list of its bytes, an
index is a natural number. The build's switch `LOADMASTER_OBFUSCATE` is the
argument `obfuscate`.
-/
import Mathlib.Data.List.Basic
import Mathlib.Data.UInt

set_option autoImplicit false

namespace Loadmaster.Util.Obfuscate

variable {obfuscate : Bool}

/-- `MixByte`. -/
def mixByte (obfuscate : Bool) (plain : UInt8) (key : UInt32) (index : ℕ) : UInt8 :=
  let k := ((key >>> (8 * (index &&& 3).toUInt32)) &&& 0xff).toUInt8
  let i := (index &&& 0xff).toUInt8
  if obfuscate then plain ^^^ k ^^^ i else plain

/-- `Encode`: `literal` ends with a NUL, which is dropped. -/
def encode (obfuscate : Bool) (literal : List UInt8) (key : UInt32) : List UInt8 :=
  literal.dropLast.mapIdx fun i c => mixByte obfuscate c key i

/-- `Decode`: what it writes to `dst`. -/
def decode (obfuscate : Bool) (src : List UInt8) (key : UInt32) : List UInt8 :=
  (if obfuscate then
    src.mapIdx fun i c =>
      let k := ((key >>> (8 * (i &&& 3).toUInt32)) &&& 0xff).toUInt8
      let idx := (i &&& 0xff).toUInt8
      c ^^^ k ^^^ idx
  else src) ++ [0]

/-- `DecodeBytes`: what it writes to `dst`. -/
def decodeBytes (obfuscate : Bool) (src : List UInt8) (size : ℕ) (key : UInt32) : List UInt8 :=
  if obfuscate then
    (src.take size).mapIdx fun i c =>
      let k := ((key >>> (8 * (i &&& 3).toUInt32)) &&& 0xff).toUInt8
      let idx := (i &&& 0xff).toUInt8
      c ^^^ k ^^^ idx
  else src.take size

/-- A payload as the string literal that `Encode` takes. -/
def asLiteral (bytes : List UInt8) : List UInt8 := bytes ++ [0]

theorem encode_asLiteral (bytes : List UInt8) (key : UInt32) :
    encode obfuscate (asLiteral bytes) key
      = bytes.mapIdx fun i c => mixByte obfuscate c key i := by
  rw [encode, asLiteral, List.dropLast_concat]

@[simp] theorem length_encode_asLiteral (bytes : List UInt8) (key : UInt32) :
    (encode obfuscate (asLiteral bytes) key).length = bytes.length := by
  rw [encode_asLiteral, List.length_mapIdx]

/-! ## The mask undoes itself -/

theorem xor_xor_cancel (c k i : UInt8) : (c ^^^ k ^^^ i) ^^^ k ^^^ i = c := by
  rw [UInt8.xor_assoc, UInt8.xor_assoc c, UInt8.xor_assoc c, UInt8.xor_comm k i,
    UInt8.xor_self, UInt8.xor_zero]

/-- The decoders' step is `MixByte` itself, so masking twice is not masking. -/
theorem mixByte_mixByte (c : UInt8) (key : UInt32) (i : ℕ) :
    mixByte obfuscate (mixByte obfuscate c key i) key i = c := by
  cases obfuscate with
  | false => rfl
  | true => exact xor_xor_cancel c _ _

/-- Switched off, the mask leaves a payload as it is. -/
theorem mapIdx_mixByte_off (src : List UInt8) (key : UInt32) :
    (src.mapIdx fun i c => mixByte false c key i) = src :=
  List.mapIdx_eq_iff.mpr fun i => by simp [mixByte]

theorem decode_eq (src : List UInt8) (key : UInt32) :
    decode obfuscate src key = (src.mapIdx fun i c => mixByte obfuscate c key i) ++ [0] := by
  cases obfuscate with
  | false =>
    rw [mapIdx_mixByte_off]
    rfl
  | true => rfl

theorem decodeBytes_eq (src : List UInt8) (size : ℕ) (key : UInt32) :
    decodeBytes obfuscate src size key
      = (src.take size).mapIdx fun i c => mixByte obfuscate c key i := by
  cases obfuscate with
  | false =>
    rw [mapIdx_mixByte_off]
    rfl
  | true => rfl

theorem mapIdx_mixByte_mixByte (bytes : List UInt8) (key : UInt32) :
    ((bytes.mapIdx fun i c => mixByte obfuscate c key i).mapIdx
      fun i c => mixByte obfuscate c key i) = bytes := by
  rw [List.mapIdx_eq_iff]
  intro i
  rw [List.getElem?_mapIdx, Option.map_map]
  simp only [Function.comp_def, mixByte_mixByte, Option.map_id']

/-- `Decode` gives the payload back, and one NUL. -/
theorem decode_encode (bytes : List UInt8) (key : UInt32) :
    decode obfuscate (encode obfuscate (asLiteral bytes) key) key = bytes ++ [0] := by
  rw [decode_eq, encode_asLiteral, mapIdx_mixByte_mixByte]

/-- `DecodeBytes` gives the payload back. -/
theorem decodeBytes_encode (bytes : List UInt8) (key : UInt32) :
    decodeBytes obfuscate (encode obfuscate (asLiteral bytes) key) bytes.length key = bytes := by
  rw [decodeBytes_eq, List.take_of_length_le (by simp), encode_asLiteral, mapIdx_mixByte_mixByte]

/-! ## The mask as a number -/

/-- The mask of the byte at `index` on numbers: the key's bytes in turn, from
the lowest, and the index below 256. -/
theorem mixByte_toNat (plain : UInt8) (key : UInt32) (index : ℕ) :
    (mixByte true plain key index).toNat
      = plain.toNat ^^^ ((key.toNat >>> (8 * (index % 4))) &&& 0xff) ^^^ (index % 256) := by
  have hthree : index &&& 3 = index % 4 := Nat.and_two_pow_sub_one_eq_mod index 2
  have hbyte : index &&& 0xff = index % 256 := Nat.and_two_pow_sub_one_eq_mod index 8
  have hlt : index % 4 < 4 := Nat.mod_lt _ (by decide)
  -- the shift is at most 24 places, so it is what it says
  have hshift : (8 * (index % 4).toUInt32).toNat % 32 = 8 * (index % 4) := by
    rw [UInt32.toNat_mul]
    simp
    omega
  have hand : ((key.toNat >>> (8 * (index % 4))) &&& 0xff) < 256 :=
    lt_of_le_of_lt Nat.and_le_right (by decide)
  simp only [mixByte, if_true, hthree, hbyte, UInt8.toNat_xor, UInt32.toNat_toUInt8,
    UInt32.toNat_and, UInt32.toNat_shiftRight, hshift, Nat.toUInt8_eq]
  rw [show UInt32.toNat 0xff = 0xff from rfl, Nat.mod_eq_of_lt hand]
  simp

end Loadmaster.Util.Obfuscate
