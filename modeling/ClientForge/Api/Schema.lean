/-!
Resolved schemas. Objects and string enumerations stand only at the top of a named entry; wherever
one is used there is a reference to its entry.
-/

namespace ClientForge.Api

inductive Primitive where
  | integer
  | number
  | string
  | boolean
  deriving DecidableEq, Repr

def Primitive.ofKeyword? : String → Option Primitive
  | "integer" => some .integer
  | "number" => some .number
  | "string" => some .string
  | "boolean" => some .boolean
  | _ => none

/-- A property of an object, with a value schema of any kind. -/
structure Property (σ : Type) where
  schema : σ
  required : Bool
  nullable : Bool
  description : Option String
  deriving DecidableEq, Repr

/-- A resolved schema. -/
inductive Schema where
  | primitive (kind : Primitive) (format : Option String)
  | array (items : Schema)
  | map (values : Schema)
  | enumeration (literals : List String)
  | object (properties : List (String × Property Schema))
  | reference (name : String)
  | unknown
  deriving Repr

namespace Schema

instance : Inhabited Schema := ⟨.unknown⟩

mutual

/-- The names that a schema refers to, also through arrays, maps and properties. -/
def references : Schema → List String
  | .reference name => [name]
  | .array items => references items
  | .map values => references values
  | .object properties => propertyReferences properties
  | _ => []

def propertyReferences : List (String × Property Schema) → List String
  | [] => []
  | (_, ⟨schema, _, _, _⟩) :: rest => references schema ++ propertyReferences rest

end

mutual

/-- The names that a schema refers to without an array or a map between, so that a value of it
stores the other value in itself. -/
def directReferences : Schema → List String
  | .reference name => [name]
  | .object properties => propertyDirectReferences properties
  | _ => []

def propertyDirectReferences : List (String × Property Schema) → List String
  | [] => []
  | (_, ⟨schema, _, _, _⟩) :: rest => directReferences schema ++ propertyDirectReferences rest

end

end Schema

end ClientForge.Api
