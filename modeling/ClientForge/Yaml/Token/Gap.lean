import ClientForge.Yaml.Cursor

/-!
Gaps inside scalars. A gap without a line end stays as it is; in a gap with line ends the first one
becomes a space, unless others follow it, which then stay.
-/

namespace ClientForge.Yaml

/-- What stands between two words of a scalar. -/
structure Gap where
  blanks : List Char
  isBroken : Bool
  firstBreak : List Char
  otherBreaks : List Char
  deriving Repr

namespace Gap

def none : Gap := ⟨[], false, [], []⟩

/-- A gap that begins with a line end that does not count. -/
def afterEscapedBreak : Gap := ⟨[], true, [], []⟩

/-- What a gap adds to the text of a scalar. -/
def text (gap : Gap) : List Char :=
  if gap.isBroken then
    if gap.firstBreak.head? = some '\n' then
      if gap.otherBreaks = [] then [' '] else gap.otherBreaks
    else gap.firstBreak ++ gap.otherBreaks
  else gap.blanks

/-- Reads a gap. Behind a line end no tab may stand before column `indent`. `count` bounds the
characters of the gap. -/
def read (indent : Nat) : Nat → Gap → Cursor → Option (Gap × Cursor)
  | 0, gap, cursor => some (gap, cursor)
  | count + 1, gap, cursor =>
    match cursor.rest with
    | [] => some (gap, cursor)
    | c :: _ =>
      if isGap c then
        if gap.isBroken then
          if c == '\t' && cursor.column < indent then Option.none
          else read indent count gap (cursor.skip 1)
        else read indent count { gap with blanks := gap.blanks ++ [c] } (cursor.skip 1)
      else if isBreak c then
        let (lineEnd, after) := cursor.takeBreak
        if gap.isBroken then
          read indent count { gap with otherBreaks := gap.otherBreaks ++ lineEnd } after
        else read indent count ⟨[], true, lineEnd, gap.otherBreaks⟩ after
      else some (gap, cursor)

end Gap

end ClientForge.Yaml
