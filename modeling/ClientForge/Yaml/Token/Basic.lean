import ClientForge.Text.Utf8

/-!
The tokens of a YAML text.
-/

namespace ClientForge.Yaml

/-- A tag or a part of one. It is bytes, since the escapes in a tag need not make up characters. -/
abbrev Tag := List UInt8

def Tag.ofText (text : String) : Tag := Text.utf8Bytes text.toList

/-- A tag as far as it counts, which is up to a zero byte. -/
def Tag.untilZero (tag : Tag) : Tag := tag.takeWhile (· != 0)

/-- A token. Where blocks begin and end is a token of its own, found from the indentation. -/
inductive Token where
  | version (major minor : Nat)
  | tagHandle (handle : String) (expansion : Tag)
  | documentStart
  | documentEnd
  | streamEnd
  | blockSequenceStart
  | blockMappingStart
  | blockEnd
  | flowSequenceStart
  | flowSequenceEnd
  | flowMappingStart
  | flowMappingEnd
  | blockEntry
  | flowEntry
  | key
  | value
  | alias (name : String)
  | anchor (name : String)
  | tag (handle : String) (suffix : Tag)
  | scalar (text : String) (isPlain : Bool)
  deriving DecidableEq, Repr

end ClientForge.Yaml
