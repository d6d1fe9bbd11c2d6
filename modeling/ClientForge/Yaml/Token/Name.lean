import ClientForge.Text.Utf8
import ClientForge.Yaml.Cursor
import ClientForge.Yaml.Token.Basic

/-!
Tokens with names: anchors and aliases, tags, and directives.
-/

namespace ClientForge.Yaml

/-- Reads the name of an anchor or an alias, on from behind its indicator. -/
def readAnchor (cursor : Cursor) : Option (String × Cursor) :=
  let (name, after) := cursor.takeWhile isNameChar
  let endsWell := match after.next? with
    | none => true
    | some c => isSpacing c || "?:,]\x7d%@`".toList.contains c
  if name = [] || !endsWell then none else some (String.ofList name, after)

/-- Whether a character may stand in a tag; the comma and square brackets only where the tag has an
end of its own. -/
def isTagChar (isDelimited : Bool) (c : Char) : Bool :=
  isNameChar c || ";/?:@&=+$.%!~*'()".toList.contains c ||
    (isDelimited && (c == ',' || c == '[' || c == ']'))

/-- How many bytes the character has that begins with a byte. -/
def utf8Width? (b : UInt8) : Option Nat :=
  if b < 0x80 then some 1
  else if 0xc0 ≤ b && b ≤ 0xdf then some 2
  else if 0xe0 ≤ b && b ≤ 0xef then some 3
  else if 0xf0 ≤ b && b ≤ 0xf7 then some 4
  else none

/-- The bytes of the escapes that make up one character; `count` of them are still to come. -/
def readOctets : Nat → List Char → Option (List UInt8)
  | 0, _ => some []
  | count + 1, '%' :: high :: low :: rest => do
    let byte ← Text.hexByte? high low
    if !Text.isContinuation byte then none
    else (readOctets count rest).map (byte :: ·)
  | _ + 1, _ => none

/-- The character that a run of escapes begins with, and how many escapes it has. -/
def readEscapedChar : List Char → Option (List UInt8 × Nat)
  | '%' :: high :: low :: rest => do
    let lead ← Text.hexByte? high low
    let width ← utf8Width? lead
    let others ← readOctets (width - 1) rest
    return (lead :: others, width)
  | _ => none

/-- Reads the characters of a tag; `skip` characters belong to the escapes read last. -/
def readTagChars (isDelimited : Bool) : Nat → List Char → Option (Tag × Nat)
  | _, [] => some ([], 0)
  | skip + 1, _ :: rest =>
    (readTagChars isDelimited skip rest).map fun (tag, length) => (tag, length + 1)
  | 0, c :: rest =>
    if !isTagChar isDelimited c then some ([], 0)
    else if c == '%' then
      match readEscapedChar (c :: rest) with
      | none => none
      | some (bytes, width) =>
        (readTagChars isDelimited (3 * width - 1) rest).map fun (tag, length) =>
          (bytes ++ tag, length + 1)
    else
      (readTagChars isDelimited 0 rest).map fun (tag, length) =>
        (String.utf8EncodeChar c ++ tag, length + 1)

def readTagText (isDelimited : Bool) (cursor : Cursor) : Option (Tag × Cursor) :=
  (readTagChars isDelimited 0 cursor.rest).map fun (tag, length) => (tag, cursor.skip length)

/-- Reads the handle of a tag: `!`, `!!`, `!name!`, or an exclamation mark with the beginning of a
name that no other one ends. -/
def readHandle (cursor : Cursor) : Option (List Char × Cursor) :=
  if cursor.next? = some '!' then
    let (name, after) := (cursor.skip 1).takeWhile isNameChar
    if after.next? = some '!' then some ('!' :: name ++ ['!'], after.skip 1)
    else some ('!' :: name, after)
  else none

/-- Whether a handle stands for the beginning of a tag. -/
def isNamedHandle (handle : List Char) : Bool :=
  1 < handle.length && handle.getLast? = some '!'

/-- Reads a tag. A lone exclamation mark, with nothing behind it that counts, is a tag of its own. -/
def readTag (inFlow : Bool) (cursor : Cursor) : Option (Token × Cursor) := do
  let (handle, suffix, after) ←
    if cursor.second? = some '<' then do
      let (suffix, after) ← readTagText true (cursor.skip 2)
      if suffix = [] || after.next? ≠ some '>' then none
      else some (([] : List Char), suffix.untilZero, after.skip 1)
    else do
      let (handle, after) ← readHandle cursor
      let (suffix, after) ← readTagText false after
      if isNamedHandle handle then
        if suffix = [] then none else some (handle, suffix.untilZero, after)
      else
        let suffix := Tag.untilZero (Text.utf8Bytes handle.tail ++ suffix)
        if suffix = [] then some ([], Tag.ofText "!", after) else some (['!'], suffix, after)
  if Cursor.separates after.next? || (inFlow && after.next? = some ',') then
    some (.tag (String.ofList handle) suffix, after)
  else none

def readVersionNumber (cursor : Cursor) : Option (Nat × Cursor) :=
  let (digits, after) := cursor.takeWhile Char.isDigit
  if digits = [] || 9 < digits.length then none
  else some (digits.foldl (fun n c => 10 * n + (c.toNat - '0'.toNat)) 0, after)

/-- Reads a directive: the version of YAML or the meaning of a tag handle. -/
def readDirective (cursor : Cursor) : Option (Token × Cursor) := do
  let (name, after) := (cursor.skip 1).takeWhile isNameChar
  if !Cursor.separates after.next? then none
  let argument := after.skipWhile isGap
  let (token, after) ←
    if name = "YAML".toList then do
      let (major, after) ← readVersionNumber argument
      if after.next? ≠ some '.' then none
      let (minor, after) ← readVersionNumber (after.skip 1)
      some (Token.version major minor, after)
    else if name = "TAG".toList then do
      let (handle, after) ← readHandle argument
      if handle ≠ ['!'] && !isNamedHandle handle then none
      if !after.nextIs isGap then none
      let (expansion, after) ← readTagText true (after.skipWhile isGap)
      if expansion = [] || !Cursor.separates after.next? then none
      some (Token.tagHandle (String.ofList handle) expansion.untilZero, after)
    else none
  let blank := after.skipWhile isGap
  let lineEnd := if blank.next? = some '#' then blank.skipWhile (!isBreak ·) else blank
  if !Cursor.endsLine lineEnd.next? then none
  some (token, lineEnd.skipBreak)

end ClientForge.Yaml
