import ClientForge.Text.Replace
import ClientForge.Text.Split
import ClientForge.Text.Utf8

/-!
References into the components of the same document: `#/components/schemas/Pet`.
-/

namespace ClientForge.Document

/-- A segment of a pointer without its escapes: first those of the pointer, then those of a URI. -/
def decodeSegment (segment : String) : String :=
  let unescaped := Text.replaceChars ['~', '1'] ['/'] segment.toList
  let unescaped := Text.replaceChars ['~', '0'] ['~'] unescaped
  String.ofList (Text.percentDecode unescaped)

def afterStart? (start : List Char) (text : List Char) : Option (List Char) :=
  if start.isPrefixOf text then some (text.drop start.length) else none

/-- The name of the component that a reference into a part of the components points to. -/
def componentName? (location part : String) : Option String :=
  match afterStart? ['#', '/'] location.toList with
  | none => none
  | some pointer =>
    match Text.splitAt '/' (String.ofList pointer) with
    | [root, owner, segment] =>
      if root = "components" && owner = part && decodeSegment segment ≠ "" then
        some (decodeSegment segment)
      else none
    | _ => none

end ClientForge.Document
