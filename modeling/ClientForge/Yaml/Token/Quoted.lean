import ClientForge.Text.Utf8
import ClientForge.Yaml.Token.Gap

/-!
Scalars in quotes. Between single quotes a quote is written twice; between double quotes a backslash
begins an escape.
-/

namespace ClientForge.Yaml

/-- The character that a backslash and a letter stand for. -/
def escaped? : Char → Option Char
  | '0' => some '\x00'
  | 'a' => some '\x07'
  | 'b' => some '\x08'
  | 't' => some '\t'
  | '\t' => some '\t'
  | 'n' => some '\n'
  | 'v' => some '\x0b'
  | 'f' => some '\x0c'
  | 'r' => some '\r'
  | 'e' => some '\x1b'
  | ' ' => some ' '
  | '"' => some '"'
  | '/' => some '/'
  | '\\' => some '\\'
  | 'N' => some '\u0085'
  | '_' => some '\u00a0'
  | 'L' => some '\u2028'
  | 'P' => some '\u2029'
  | _ => none

/-- How many hexadecimal digits follow a backslash and a letter. -/
def escapeDigits? : Char → Option Nat
  | 'x' => some 2
  | 'u' => some 4
  | 'U' => some 8
  | _ => none

/-- The character of a code point, unless it is a surrogate or too great. -/
def charOfCode? (code : Nat) : Option Char :=
  if (0xd800 ≤ code && code ≤ 0xdfff) || 0x10ffff < code then none else some (Char.ofNat code)

def hexNumber? (digits : List Char) : Option Nat :=
  digits.foldlM (fun n c => (Text.hexValue? c).map fun d => 16 * n + d) 0

inductive WordEnd where
  | word
  | escapedBreak
  deriving DecidableEq, Repr

/-- The character of an escape, and what stands behind it; `rest` stands behind the backslash. -/
def readEscape (rest : List Char) : Option (Char × Nat) :=
  match rest with
  | [] => none
  | letter :: digits =>
    match escaped? letter with
    | some c => some (c, 1)
    | none =>
      match escapeDigits? letter with
      | none => none
      | some count =>
        if digits.length < count then none
        else ((hexNumber? (digits.take count)).bind charOfCode?).map fun c => (c, count + 1)

/-- Reads a word of a quoted scalar on from the characters `reversed`, last first; `count` bounds the
characters that are left. -/
def readWord (isSingle : Bool) : Nat → List Char → Cursor → Option (List Char × WordEnd × Cursor)
  | 0, reversed, cursor => some (reversed, .word, cursor)
  | count + 1, reversed, cursor =>
    match cursor.rest with
    | [] => some (reversed, .word, cursor)
    | c :: rest =>
      if isSpacing c then some (reversed, .word, cursor)
      else if isSingle then
        if c == '\'' then
          if rest.head? = some '\'' then readWord isSingle count ('\'' :: reversed) (cursor.skip 2)
          else some (reversed, .word, cursor)
        else readWord isSingle count (c :: reversed) (cursor.skip 1)
      else if c == '"' then some (reversed, .word, cursor)
      else if c == '\\' then
        if (cursor.skip 1).nextIs isBreak then
          some (reversed, .escapedBreak, (cursor.skip 1).skipBreak)
        else
          match readEscape rest with
          | none => none
          | some (e, length) => readWord isSingle count (e :: reversed) (cursor.skip (length + 1))
      else readWord isSingle count (c :: reversed) (cursor.skip 1)

/-- Reads a quoted scalar on from behind its first quote or from the characters `reversed`, last
first; `count` bounds its words, and `limit` the characters of each word and gap. -/
def readQuoted (isSingle : Bool) (limit : Nat) : Nat → List Char → Cursor → Option (List Char × Cursor)
  | 0, _, _ => none
  | count + 1, reversed, cursor =>
    if cursor.atDocumentMark || cursor.rest.isEmpty then none
    else
      match readWord isSingle limit reversed cursor with
      | none => none
      | some (reversed, wordEnd, after) =>
        if after.next? = some (if isSingle then '\'' else '"') then
          some (reversed.reverse, after.skip 1)
        else
          let gap := if wordEnd = .escapedBreak then Gap.afterEscapedBreak else Gap.none
          match Gap.read 0 limit gap after with
          | none => none
          | some (gap, after) =>
            readQuoted isSingle limit count (gap.text.reverse ++ reversed) after

end ClientForge.Yaml
