import ClientForge.Text.Split
import ClientForge.TypeRef

/-!
Lines of the generated source, comments among them, and types as they are written in it.
-/

namespace ClientForge.Source

def text (lines : List String) : String := String.join (lines.map (· ++ "\n"))

def header : List String := ["// Generated by clientgen. Do not edit.", ""]

/-- A documentation comment: one line for each line of the text, and none for a blank text. -/
def docComment (indent : String) (text : Option String) : List String :=
  (Text.lines (Text.trim (text.getD ""))).map fun line =>
    let line := Text.trimEnd line
    if line = "" then indent ++ "///" else indent ++ "/// " ++ line

end ClientForge.Source

namespace ClientForge.TypeRef

def scalarText : Scalar → String
  | .int => "i32"
  | .long => "i64"
  | .float => "f32"
  | .double => "f64"
  | .boolean => "bool"
  | .string => "String"

/-- A type; `qualifier` stands before the name of every model. -/
def text (qualifier : String) : TypeRef → String
  | .scalar kind => scalarText kind
  | .list items => "Vec<" ++ items.text qualifier ++ ">"
  | .map values => "std::collections::BTreeMap<String, " ++ values.text qualifier ++ ">"
  | .named name => qualifier ++ name
  | .optional value => "Option<" ++ value.text qualifier ++ ">"
  | .unknown => "serde_json::Value"

/-- A type whose model is stored behind a pointer. -/
def boxedText (qualifier : String) : TypeRef → String
  | .optional value => "Option<" ++ value.boxedText qualifier ++ ">"
  | .named name => "Box<" ++ qualifier ++ name ++ ">"
  | type => type.text qualifier

end ClientForge.TypeRef
