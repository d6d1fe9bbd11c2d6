import Mathlib.Data.List.Basic
import ClientForge.Text.Quoted
import ClientForge.Text.Utf8

/-! What percent escapes hide can be read back: bytes that encode characters read as those characters, an escape as its
byte, and so a text comes back whichever of its characters have been escaped. -/

namespace ClientForge.Text

section Bytes

variable {n : Nat} {bound : UInt8}

private theorem toNat_byte (small : n < 256) : (UInt8.ofNat n).toNat = n := by
  rw [UInt8.toNat_ofNat', Nat.mod_eq_of_lt small]

private theorem byte_lt (small : n < 256) : UInt8.ofNat n < bound ↔ n < bound.toNat := by
  rw [UInt8.lt_iff_toNat_lt, toNat_byte small]

private theorem byte_le (small : n < 256) : UInt8.ofNat n ≤ bound ↔ n ≤ bound.toNat := by
  rw [UInt8.le_iff_toNat_le, toNat_byte small]

private theorem le_byte (small : n < 256) : bound ≤ UInt8.ofNat n ↔ bound.toNat ≤ n := by
  rw [UInt8.le_iff_toNat_le, toNat_byte small]

private theorem byte_between (small : n < 256) {low high : UInt8} :
    (low ≤ UInt8.ofNat n && UInt8.ofNat n ≤ high) = true ↔ low.toNat ≤ n ∧ n ≤ high.toNat := by
  rw [Bool.and_eq_true, decide_eq_true_eq, decide_eq_true_eq, le_byte small, byte_le small]

private theorem byte_eq (small : n < 256) : (UInt8.ofNat n == bound) = true ↔ n = bound.toNat := by
  rw [beq_iff_eq, ← UInt8.toNat_inj, toNat_byte small]

private theorem isContinuation_byte (n : Nat) : isContinuation (UInt8.ofNat (n % 64 + 128)) = true := by
  rw [isContinuation, byte_between (by omega)]
  simp only [UInt8.reduceToNat]
  omega

private theorem payload_byte (n : Nat) : payload (UInt8.ofNat (n % 64 + 128)) = n % 64 := by
  rw [payload, toNat_byte (by omega)]
  omega

variable (rest : List UInt8)

private theorem decodeLossy_one (small : n ≤ 127) :
    decodeLossy (UInt8.ofNat n :: rest) = Char.ofNat n :: decodeLossy rest := by
  have lead : UInt8.ofNat n < 0x80 := (byte_lt (by omega)).mpr (Nat.lt_succ_of_le small)
  rw [decodeLossy.eq_def]
  simp only [if_pos lead, toNat_byte (Nat.lt_of_le_of_lt small (by decide))]

private theorem decodeLossy_two (above : 127 < n) (small : n ≤ 2047) :
    decodeLossy (UInt8.ofNat (n / 64 % 32 + 192) :: UInt8.ofNat (n % 64 + 128) :: rest) =
      Char.ofNat n :: decodeLossy rest := by
  have byte : n / 64 % 32 + 192 < 256 := by omega
  have code : (n / 64 % 32 + 192) % 32 * 64 + n % 64 = n := by omega
  rw [decodeLossy.eq_def]
  simp only [byte_lt byte, byte_between byte, UInt8.reduceToNat, isContinuation_byte, payload_byte, toNat_byte byte, code]
  rw [if_neg (by omega), if_pos (by omega), if_pos trivial]

private theorem isSecondOfThree_byte (above : 2047 < n) (small : n ≤ 65535) (scalar : n < 0xd800 ∨ 0xdfff < n) :
    isSecondOfThree (UInt8.ofNat (n / 4096 % 16 + 224)) (UInt8.ofNat (n / 64 % 64 + 128)) = true := by
  have first : n / 4096 % 16 + 224 < 256 := by omega
  have second : n / 64 % 64 + 128 < 256 := by omega
  rw [isSecondOfThree]
  simp only [byte_eq first, UInt8.reduceToNat, isContinuation_byte]
  split
  next lowest => exact (byte_between second).mpr (by simp only [UInt8.reduceToNat]; omega)
  next =>
    split
    next surrogates => exact (byte_between second).mpr (by simp only [UInt8.reduceToNat]; omega)
    next => rfl

private theorem decodeLossy_three (above : 2047 < n) (small : n ≤ 65535) (scalar : n < 0xd800 ∨ 0xdfff < n) :
    decodeLossy (UInt8.ofNat (n / 4096 % 16 + 224) :: UInt8.ofNat (n / 64 % 64 + 128) :: UInt8.ofNat (n % 64 + 128)
        :: rest) = Char.ofNat n :: decodeLossy rest := by
  have byte : n / 4096 % 16 + 224 < 256 := by omega
  have code : (n / 4096 % 16 + 224) % 16 * 4096 + n / 64 % 64 * 64 + n % 64 = n := by omega
  rw [decodeLossy.eq_def]
  simp only [byte_lt byte, byte_between byte, UInt8.reduceToNat, isSecondOfThree_byte above small scalar,
    isContinuation_byte, payload_byte, toNat_byte byte, code]
  rw [if_neg (by omega), if_neg (by omega), if_pos (by omega), if_pos trivial, if_pos trivial]

private theorem isSecondOfFour_byte (above : 65535 < n) (small : n < 0x110000) :
    isSecondOfFour (UInt8.ofNat (n / 262144 % 8 + 240)) (UInt8.ofNat (n / 4096 % 64 + 128)) = true := by
  have first : n / 262144 % 8 + 240 < 256 := by omega
  have second : n / 4096 % 64 + 128 < 256 := by omega
  rw [isSecondOfFour]
  simp only [byte_eq first, UInt8.reduceToNat, isContinuation_byte]
  split
  next lowest => exact (byte_between second).mpr (by simp only [UInt8.reduceToNat]; omega)
  next =>
    split
    next highest => exact (byte_between second).mpr (by simp only [UInt8.reduceToNat]; omega)
    next => rfl

private theorem decodeLossy_four (above : 65535 < n) (small : n < 0x110000) :
    decodeLossy (UInt8.ofNat (n / 262144 % 8 + 240) :: UInt8.ofNat (n / 4096 % 64 + 128) ::
        UInt8.ofNat (n / 64 % 64 + 128) :: UInt8.ofNat (n % 64 + 128) :: rest) = Char.ofNat n :: decodeLossy rest := by
  have byte : n / 262144 % 8 + 240 < 256 := by omega
  have code : (n / 262144 % 8 + 240) % 8 * 262144 + n / 4096 % 64 * 4096 + n / 64 % 64 * 64 + n % 64 = n := by omega
  rw [decodeLossy.eq_def]
  simp only [byte_lt byte, byte_between byte, UInt8.reduceToNat, isSecondOfFour_byte above small,
    isContinuation_byte, payload_byte, toNat_byte byte, code]
  rw [if_neg (by omega), if_neg (by omega), if_neg (by omega), if_pos (by omega), if_pos trivial, if_pos trivial,
    if_pos trivial]

end Bytes

theorem decodeLossy_utf8EncodeChar (c : Char) (rest : List UInt8) :
    decodeLossy (String.utf8EncodeChar c ++ rest) = c :: decodeLossy rest := by
  have scalar : c.val.toNat < 0xd800 ∨ 0xdfff < c.val.toNat ∧ c.val.toNat < 0x110000 := c.valid
  have code : Char.ofNat c.val.toNat = c := Char.ofNat_toNat c
  rw [String.utf8EncodeChar]
  split
  next one => exact (decodeLossy_one rest one).trans (by rw [code])
  next above =>
    split
    next two => exact (decodeLossy_two rest (by omega) two).trans (by rw [code])
    next above =>
      split
      next three => exact (decodeLossy_three rest (by omega) three (by omega)).trans (by rw [code])
      next above => exact (decodeLossy_four rest (by omega) (by omega)).trans (by rw [code])

theorem decodeLossy_utf8Bytes (text : List Char) : decodeLossy (utf8Bytes text) = text := by
  induction text with
  | nil => rfl
  | cons c text ih => rw [utf8Bytes, List.flatMap_cons, decodeLossy_utf8EncodeChar, ← utf8Bytes, ih]

def escapeByte (b : UInt8) : List Char :=
  ['%', (hexDigit (b.toNat / 16)).toUpper, (hexDigit (b.toNat % 16)).toUpper]

/-- Writes the bytes of every character that is not `kept` as escapes. -/
def percentEncode (kept : Char → Bool) (text : List Char) : List Char :=
  text.flatMap fun c => if kept c then [c] else (String.utf8EncodeChar c).flatMap escapeByte

private theorem hexValue?_capital {n : Nat} (small : n < 16) : hexValue? (hexDigit n).toUpper = some n := by
  have all : ∀ n < 16, hexValue? (hexDigit n).toUpper = some n := by decide
  exact all n small

private theorem hexByte?_escapeByte (b : UInt8) :
    hexByte? (hexDigit (b.toNat / 16)).toUpper (hexDigit (b.toNat % 16)).toUpper = some b := by
  have small : b.toNat < 256 := b.toNat_lt
  rw [hexByte?, hexValue?_capital (by omega), hexValue?_capital (by omega), Option.bind_eq_bind, Option.bind_some,
    Option.bind_some, Nat.div_add_mod, UInt8.ofNat_toNat]

theorem percentBytes_escapeByte (b : UInt8) (rest : List Char) :
    percentBytes (escapeByte b ++ rest) = b :: percentBytes rest := by
  rw [escapeByte, List.cons_append, List.cons_append, List.cons_append, List.nil_append, percentBytes,
    hexByte?_escapeByte]

theorem percentBytes_flatMap_escapeByte (bytes : List UInt8) (rest : List Char) :
    percentBytes (bytes.flatMap escapeByte ++ rest) = bytes ++ percentBytes rest := by
  induction bytes with
  | nil => rfl
  | cons b bytes ih =>
    rw [List.flatMap_cons, List.append_assoc, percentBytes_escapeByte, ih, List.cons_append]

theorem percentBytes_cons {c : Char} (other : c ≠ '%') (rest : List Char) :
    percentBytes (c :: rest) = String.utf8EncodeChar c ++ percentBytes rest := by
  rw [percentBytes.eq_def]
  split
  next none => cases none
  next chars => exact absurd (List.cons.inj chars).1 other
  next chars => cases chars; rfl

theorem percentBytes_percentEncode {kept : Char → Bool} (escaped : kept '%' = false) (text : List Char) :
    percentBytes (percentEncode kept text) = utf8Bytes text := by
  induction text with
  | nil => rfl
  | cons c text ih =>
    rw [percentEncode, List.flatMap_cons, ← percentEncode, utf8Bytes, List.flatMap_cons, ← utf8Bytes, ← ih]
    split
    next plain =>
      have other : c ≠ '%' := by
        rintro rfl
        exact Bool.false_ne_true (escaped.symm.trans plain)
      exact percentBytes_cons other _
    next => exact percentBytes_flatMap_escapeByte _ _

theorem percentDecode_percentEncode {kept : Char → Bool} (escaped : kept '%' = false) (text : List Char) :
    percentDecode (percentEncode kept text) = text := by
  rw [percentDecode, percentBytes_percentEncode escaped, decodeLossy_utf8Bytes]

end ClientForge.Text
