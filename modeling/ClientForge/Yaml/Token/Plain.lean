import ClientForge.Yaml.Token.Gap

/-!
Scalars without quotes. They end at a comment, at a colon before a blank, where the indentation
says so, and inside brackets also at a bracket or a comma.
-/

namespace ClientForge.Yaml

/-- The brackets and the comma, which end a plain scalar inside brackets. -/
def isFlowIndicator (c : Char) : Bool :=
  c == ',' || c == '[' || c == ']' || c == '\x7b' || c == '\x7d'

/-- How many characters the next word of a plain scalar has. Inside brackets no bracket, comma or
question mark may follow a colon. -/
def plainWord (inFlow : Bool) : List Char → Option Nat
  | [] => some 0
  | c :: rest =>
    if isSpacing c then some 0
    else if inFlow && c == ':' && rest.head?.any (fun d => isFlowIndicator d || d == '?') then none
    else if (c == ':' && Cursor.separates rest.head?) || (inFlow && isFlowIndicator c) then some 0
    else (plainWord inFlow rest).map (· + 1)

/-- A plain scalar, and whether the gap behind it has a line end. -/
structure PlainScalar where
  text : List Char
  endsBroken : Bool
  after : Cursor

/-- Reads a plain scalar on from a gap behind the characters `reversed`, last first; `count` bounds
its words, and `limit` the characters of each gap. -/
def readPlain (inFlow : Bool) (indent limit : Nat) : Nat → List Char → Gap → Cursor → Option PlainScalar
  | 0, reversed, gap, cursor => some ⟨reversed.reverse, gap.isBroken, cursor⟩
  | count + 1, reversed, gap, cursor =>
    if cursor.atDocumentMark || cursor.next? = some '#' then
      some ⟨reversed.reverse, gap.isBroken, cursor⟩
    else
      match plainWord inFlow cursor.rest with
      | none => none
      | some length =>
        let word := cursor.rest.take length
        let after := cursor.skip length
        let (reversed, gap) :=
          if word = [] then (reversed, gap)
          else (word.reverse ++ gap.text.reverse ++ reversed, Gap.none)
        if !after.nextIs isSpacing then some ⟨reversed.reverse, gap.isBroken, after⟩
        else
          match Gap.read indent limit gap after with
          | none => none
          | some (gap, after) =>
            if !inFlow && after.column < indent then some ⟨reversed.reverse, gap.isBroken, after⟩
            else readPlain inFlow indent limit count reversed gap after

end ClientForge.Yaml
