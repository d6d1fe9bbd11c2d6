import ClientForge.Ident.Words

/-!
Identifiers of the generated Rust source. Any text gives an identifier: its words are joined in one
of two cases, and the result is repaired if it is empty, begins with a digit or is a word of the
language.
-/

namespace ClientForge.Ident

/-- The words that no `snake_case` identifier may be. -/
def keywords : List String :=
  ["as", "async", "await", "break", "const", "continue", "crate", "dyn", "else", "enum", "extern",
    "false", "fn", "for", "if", "impl", "in", "let", "loop", "match", "mod", "move", "mut", "pub",
    "ref", "return", "self", "static", "struct", "super", "trait", "true", "type", "unsafe", "use",
    "where", "while", "abstract", "become", "box", "do", "final", "gen", "macro", "override",
    "priv", "try", "typeof", "unsized", "virtual", "yield"]

/-- Type names that would hide a type of the language or of the generated source. -/
def reservedTypes : List String := ["Self", "Option", "Result", "String", "Vec", "Box"]

def titleWord : List Char → List Char
  | [] => []
  | c :: rest => c.toUpper :: rest.map Char.toLower

/-- The words joined without a gap, each with a capital: `PetStore`. -/
def pascal (raw : String) : String :=
  String.ofList ((words raw).flatMap titleWord)

/-- The words in lower case, joined by underscores: `pet_store`. -/
def snake (raw : String) : String :=
  String.ofList (List.intercalate ['_'] ((words raw).map (·.map Char.toLower)))

def startsWithDigit (name : String) : Bool :=
  match name.toList with
  | [] => false
  | c :: _ => c.isDigit

/-- The identifier of a type: `pet-store.Order` gives `PetStoreOrder`, `2fa` gives `T2fa`. -/
def typeIdent (raw : String) : String :=
  let name := pascal raw
  let name := if name = "" then "Unnamed" else if startsWithDigit name then "T" ++ name else name
  if name ∈ reservedTypes then name ++ "Model" else name

/-- The identifier of a value: `Pet Store` gives `pet_store`, `type` gives `type_`. -/
def snakeIdent (raw : String) : String :=
  let name := snake raw
  let name := if name = "" then "value" else if startsWithDigit name then "v" ++ name else name
  if name ∈ keywords then name ++ "_" else name

def memberIdent (literal : String) : String :=
  let name := pascal literal
  if name = "" then "Empty"
  else if startsWithDigit name then "Value" ++ name
  else if name = "Self" then "SelfValue"
  else name

end ClientForge.Ident
