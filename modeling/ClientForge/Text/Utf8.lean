/-!
Characters as UTF-8, and reading bytes as UTF-8 when they may be malformed. Each longest malformed
run that could still have begun a character reads as one replacement character. A percent escape is
a percent sign with two hexadecimal digits and stands for one byte.
-/

namespace ClientForge.Text

def utf8Bytes (text : List Char) : List UInt8 := text.flatMap String.utf8EncodeChar

/-- Stands for bytes that are no character. -/
def replacementChar : Char := '\ufffd'

def isContinuation (b : UInt8) : Bool := 0x80 ≤ b && b ≤ 0xbf

def payload (b : UInt8) : Nat := b.toNat % 64

/-- The first continuation bytes that may follow `lead` in a character of three bytes, so that the
character is neither overlong nor a surrogate. -/
def isSecondOfThree (lead b : UInt8) : Bool :=
  if lead == 0xe0 then 0xa0 ≤ b && b ≤ 0xbf
  else if lead == 0xed then 0x80 ≤ b && b ≤ 0x9f
  else isContinuation b

/-- The first continuation bytes that may follow `lead` in a character of four bytes, so that the
character is neither overlong nor beyond the last code point. -/
def isSecondOfFour (lead b : UInt8) : Bool :=
  if lead == 0xf0 then 0x90 ≤ b && b ≤ 0xbf
  else if lead == 0xf4 then 0x80 ≤ b && b ≤ 0x8f
  else isContinuation b

/-- Reads the bytes; malformed runs read as replacement characters. -/
def decodeLossy : List UInt8 → List Char
  | [] => []
  | a :: rest =>
    if a < 0x80 then Char.ofNat a.toNat :: decodeLossy rest
    else if 0xc2 ≤ a && a ≤ 0xdf then
      match rest with
      | b :: rest' =>
        if isContinuation b then
          Char.ofNat (a.toNat % 32 * 64 + payload b) :: decodeLossy rest'
        else replacementChar :: decodeLossy (b :: rest')
      | [] => [replacementChar]
    else if 0xe0 ≤ a && a ≤ 0xef then
      match rest with
      | b :: rest' =>
        if isSecondOfThree a b then
          match rest' with
          | c :: rest'' =>
            if isContinuation c then
              Char.ofNat (a.toNat % 16 * 4096 + payload b * 64 + payload c) :: decodeLossy rest''
            else replacementChar :: decodeLossy (c :: rest'')
          | [] => [replacementChar]
        else replacementChar :: decodeLossy (b :: rest')
      | [] => [replacementChar]
    else if 0xf0 ≤ a && a ≤ 0xf4 then
      match rest with
      | b :: rest' =>
        if isSecondOfFour a b then
          match rest' with
          | c :: rest'' =>
            if isContinuation c then
              match rest'' with
              | d :: rest''' =>
                if isContinuation d then
                  Char.ofNat (a.toNat % 8 * 262144 + payload b * 4096 + payload c * 64 + payload d)
                    :: decodeLossy rest'''
                else replacementChar :: decodeLossy (d :: rest''')
              | [] => [replacementChar]
            else replacementChar :: decodeLossy (c :: rest'')
          | [] => [replacementChar]
        else replacementChar :: decodeLossy (b :: rest')
      | [] => [replacementChar]
    else replacementChar :: decodeLossy rest

/-- Whether bytes are well-formed: then, and only then, writing what they read as gives them back. -/
def isUtf8 (bytes : List UInt8) : Bool := utf8Bytes (decodeLossy bytes) = bytes

def hexValue? (c : Char) : Option Nat :=
  if c.isDigit then some (c.toNat - '0'.toNat)
  else if 'a' ≤ c && c ≤ 'f' then some (c.toNat - 'a'.toNat + 10)
  else if 'A' ≤ c && c ≤ 'F' then some (c.toNat - 'A'.toNat + 10)
  else none

def hexByte? (high low : Char) : Option UInt8 := do
  let h ← hexValue? high
  let l ← hexValue? low
  some (UInt8.ofNat (16 * h + l))

/-- The bytes that a text with percent escapes denotes. -/
def percentBytes : List Char → List UInt8
  | [] => []
  | '%' :: high :: low :: rest =>
    match hexByte? high low with
    | some byte => byte :: percentBytes rest
    | none => String.utf8EncodeChar '%' ++ percentBytes (high :: low :: rest)
  | c :: rest => String.utf8EncodeChar c ++ percentBytes rest

def percentDecode (text : List Char) : List Char :=
  decodeLossy (percentBytes text)

end ClientForge.Text
