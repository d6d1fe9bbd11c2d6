import ClientForge.Yaml.Cursor

/-!
Block scalars: the indented lines below a bar, which keeps their line ends, or below an angle bracket,
which folds them.
-/

namespace ClientForge.Yaml

/-- What happens to the line ends behind a block scalar. -/
inductive Chomping where
  | strip
  | clip
  | keep
  deriving DecidableEq, Repr

/-- What stands behind the indicator of a block scalar: chomping, and the indentation if it is
given. -/
structure BlockHeader where
  chomping : Chomping
  increment : Option Nat
  deriving Repr

def chompingOf? : Char → Option Chomping
  | '+' => some .keep
  | '-' => some .strip
  | _ => none

/-- The indentation that a character asks for; there is none of zero columns. -/
def incrementOf? (c : Char) : Option Nat :=
  if c.isDigit && c != '0' then some (c.toNat - '0'.toNat) else none

def readHeader (cursor : Cursor) : Option (BlockHeader × Cursor) :=
  let chomping := cursor.next?.bind chompingOf?
  let afterFirst := if chomping.isSome then cursor.skip 1 else cursor
  let digit := afterFirst.next?.filter Char.isDigit
  let afterDigit := if digit.isSome then afterFirst.skip 1 else afterFirst
  let chompingBehind :=
    if chomping.isNone && digit.isSome then afterDigit.next?.bind chompingOf? else none
  let afterAll := if chompingBehind.isSome then afterDigit.skip 1 else afterDigit
  if digit = some '0' then none
  else
    let blank := afterAll.skipWhile isGap
    let lineEnd := if blank.next? = some '#' then blank.skipWhile (!isBreak ·) else blank
    if !Cursor.endsLine lineEnd.next? then none
    else some (⟨(chomping.or chompingBehind).getD .clip, digit.bind incrementOf?⟩, lineEnd.skipBreak)

/-- Reads the empty lines before a line of a block scalar, and finds its indentation if it is not
known. Before the indentation there may be no tab. `count` bounds the lines. -/
def readBreaks (indent : Option Nat) :
    Nat → Nat → List Char → Cursor → Option (Nat × List Char × Cursor)
  | 0, widest, breaks, cursor => some (widest, breaks, cursor)
  | count + 1, widest, breaks, cursor =>
    let spaces := (cursor.rest.takeWhile (· == ' ')).length
    let spaces := match indent with
      | some indent => min spaces (indent - cursor.column)
      | none => spaces
    let cursor := cursor.skip spaces
    let widest := max widest cursor.column
    let isBefore := match indent with
      | some indent => cursor.column < indent
      | none => true
    if isBefore && cursor.next? = some '\t' then none
    else if cursor.nextIs isBreak then
      let (lineEnd, after) := cursor.takeBreak
      readBreaks indent count widest (breaks ++ lineEnd) after
    else some (widest, breaks, cursor)

/-- A block scalar that is being read: the characters of its lines, last first; the end of its last
line and the empty lines behind that; and whether the last line begins with a blank. -/
structure BlockDraft where
  reversed : List Char
  lineEnd : List Char
  breaks : List Char
  startsBlank : Bool

/-- What stands before the next line: a folded line end becomes a space, unless one of the two lines
begins with a blank or empty lines stand between them. -/
def BlockDraft.join (isLiteral : Bool) (draft : BlockDraft) (nextStartsBlank : Bool) : List Char :=
  if !isLiteral && draft.lineEnd.head? = some '\n' && !draft.startsBlank && !nextStartsBlank then
    if draft.breaks = [] then [' '] else draft.breaks
  else draft.lineEnd ++ draft.breaks

/-- Reads the lines of a block scalar; `count` bounds them, and `limit` the empty lines between
them. -/
def readLines (isLiteral : Bool) (indent limit : Nat) :
    Nat → BlockDraft → Cursor → Option (BlockDraft × Cursor)
  | 0, draft, cursor => some (draft, cursor)
  | count + 1, draft, cursor =>
    if cursor.column = indent && !cursor.rest.isEmpty then
      let startsBlank := cursor.nextIs isGap
      let before := draft.join isLiteral startsBlank
      let (line, after) := cursor.takeWhile (!isBreak ·)
      let (lineEnd, after) := after.takeBreak
      match readBreaks (some indent) limit 0 [] after with
      | none => none
      | some (_, breaks, after) =>
        readLines isLiteral indent limit count
          ⟨line.reverse ++ before.reverse ++ draft.reversed, lineEnd, breaks, startsBlank⟩ after
    else some (draft, cursor)

/-- Reads a block scalar on from behind its indicator. `parent` is the column of the block that it
stands in, and `limit` bounds its lines. -/
def readBlock (isLiteral : Bool) (parent : Option Nat) (limit : Nat) (cursor : Cursor) :
    Option (List Char × Cursor) := do
  let (header, cursor) ← readHeader cursor
  let given := header.increment.map fun increment => parent.getD 0 + increment
  let (widest, breaks, cursor) ← readBreaks given limit 0 [] cursor
  let indent := given.getD (max widest (max 1 ((parent.map (· + 1)).getD 0)))
  let (draft, cursor) ←
    readLines isLiteral indent limit limit ⟨[], [], breaks, false⟩ cursor
  let ending := match header.chomping with
    | .strip => []
    | .clip => draft.lineEnd
    | .keep => draft.lineEnd ++ draft.breaks
  return (draft.reversed.reverse ++ ending, cursor)

end ClientForge.Yaml
