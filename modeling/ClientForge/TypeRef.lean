import ClientForge.Api.Schema

/-!
Types of values in the generated source, before they are written out.
-/

namespace ClientForge

open Api

inductive Scalar where
  | int
  | long
  | float
  | double
  | boolean
  | string
  deriving DecidableEq, Repr

/-- A type; names are those of models. -/
inductive TypeRef where
  | scalar (kind : Scalar)
  | list (items : TypeRef)
  | map (values : TypeRef)
  | named (name : String)
  | optional (value : TypeRef)
  | unknown
  deriving DecidableEq, Repr

namespace TypeRef

def isOptional : TypeRef → Bool
  | .optional _ => true
  | _ => false

/-- Makes a type optional unless it is. -/
def orAbsent : TypeRef → TypeRef
  | .optional value => .optional value
  | type => .optional type

def rename (change : String → String) : TypeRef → TypeRef
  | .named name => .named (change name)
  | .list items => .list (items.rename change)
  | .map values => .map (values.rename change)
  | .optional value => .optional (value.rename change)
  | type => type

def names : TypeRef → List String
  | .named name => [name]
  | .list items => items.names
  | .map values => values.names
  | .optional value => value.names
  | _ => []

def ofPrimitive (kind : Primitive) (format : Option String) : Scalar :=
  match kind with
  | .integer => if format = some "int64" then .long else .int
  | .number => if format = some "float" then .float else .double
  | .boolean => .boolean
  | .string => .string

/-- The type of a schema's values; an enumeration or an object has the name of its context. -/
def ofSchema (context : String) : Schema → TypeRef
  | .primitive kind format => .scalar (ofPrimitive kind format)
  | .array items => .list (ofSchema context items)
  | .map values => .map (ofSchema context values)
  | .enumeration _ => .named context
  | .object _ => .named context
  | .reference name => .named name
  | .unknown => .unknown

/-- The type of a property, optional if the property may be absent or null. -/
def ofProperty (context : String) (property : Property Schema) : TypeRef :=
  let type := ofSchema context property.schema
  if !property.required || property.nullable then type.orAbsent else type

end TypeRef

end ClientForge
