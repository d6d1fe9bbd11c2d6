/-!
A place in a text: what comes next, and where that is. Lines end at a line feed, a carriage return or
both, and at the line ends of Unicode.
-/

namespace ClientForge.Yaml

/-- Whether a text may hold the character at all. -/
def isAllowed (c : Char) : Bool :=
  c == '\t' || c == '\n' || c == '\r' || (0x20 ≤ c.toNat && c.toNat ≤ 0x7e) || c.toNat == 0x85 ||
    (0xa0 ≤ c.toNat && c.toNat ≤ 0xfffd) || 0x10000 ≤ c.toNat

def isBreak (c : Char) : Bool :=
  c == '\n' || c == '\r' || c.toNat == 0x85 || c.toNat == 0x2028 || c.toNat == 0x2029

def isGap (c : Char) : Bool := c == ' ' || c == '\t'

/-- Whether a character separates words: a space, a tab or a line end. -/
def isSpacing (c : Char) : Bool := isGap c || isBreak c

/-- Whether a character may stand in the names of anchors, directives and tag handles. -/
def isNameChar (c : Char) : Bool := c.isAlphanum || c == '_' || c == '-'

/-- A place in a text: what comes next, how many bytes stand before it, and its line and column. -/
structure Cursor where
  rest : List Char
  index : Nat
  line : Nat
  column : Nat
  deriving Repr

namespace Cursor

def start (text : List Char) : Cursor := ⟨text, 0, 0, 0⟩

/-- How many bytes characters have. -/
def width : List Char → Nat
  | [] => 0
  | c :: rest => c.utf8Size + width rest

def next? (cursor : Cursor) : Option Char := cursor.rest.head?

def second? (cursor : Cursor) : Option Char := cursor.rest[1]?

def nextIs (cursor : Cursor) (test : Char → Bool) : Bool :=
  match cursor.rest with
  | [] => false
  | c :: _ => test c

/-- Whether a character is missing or separates words. -/
def separates : Option Char → Bool
  | none => true
  | some c => isSpacing c

/-- Whether a character is missing or ends a line. -/
def endsLine : Option Char → Bool
  | none => true
  | some c => isBreak c

/-- Passes over characters that end no line. -/
def skip (cursor : Cursor) (count : Nat) : Cursor :=
  ⟨cursor.rest.drop count, cursor.index + width (cursor.rest.take count), cursor.line,
    cursor.column + count⟩

/-- Passes over a byte order mark at the beginning of a line. It does not count, but takes a column. -/
def skipByteOrderMark (cursor : Cursor) : Cursor :=
  if cursor.column = 0 && cursor.next? = some '\ufeff' then cursor.skip 1 else cursor

/-- Passes over the characters that pass a test; none of them ends a line. -/
def skipWhile (cursor : Cursor) (test : Char → Bool) : Cursor :=
  cursor.skip (cursor.rest.takeWhile test).length

def takeWhile (cursor : Cursor) (test : Char → Bool) : List Char × Cursor :=
  (cursor.rest.takeWhile test, cursor.skipWhile test)

/-- Takes a line end as it counts in a text: the line ends of Unicode stay, the others are a line
feed. -/
def takeBreak (cursor : Cursor) : List Char × Cursor :=
  match cursor.rest with
  | '\r' :: '\n' :: rest => (['\n'], ⟨rest, cursor.index + 2, cursor.line + 1, 0⟩)
  | c :: rest =>
    let after : Cursor := ⟨rest, cursor.index + c.utf8Size, cursor.line + 1, 0⟩
    if c.toNat == 0x2028 || c.toNat == 0x2029 then ([c], after)
    else if isBreak c then (['\n'], after)
    else ([], cursor)
  | [] => ([], cursor)

def skipBreak (cursor : Cursor) : Cursor := cursor.takeBreak.2

/-- Whether a mark of three equal characters stands alone here at the beginning of a line. -/
def atMark (cursor : Cursor) (c : Char) : Bool :=
  cursor.column = 0 && cursor.rest.take 3 = [c, c, c] && separates cursor.rest[3]?

def atDocumentMark (cursor : Cursor) : Bool := cursor.atMark '-' || cursor.atMark '.'

end Cursor

end ClientForge.Yaml
