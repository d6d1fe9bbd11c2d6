import ClientForge.Ident.Basic
import ClientForge.Ident.Scope
import ClientForge.Plan.Declaration
import ClientForge.Plan.Reach

/-!
Models. A field is boxed if its model stores a value of the struct in itself. An alias that leads
back to itself is broken: through arrays and maps by a type of its own, else by a value of any kind.
-/

namespace ClientForge.Plan

open Api Ident

/-- Whether a schema leads to `target` without an array or a map between. -/
def storesIn (schemas : Table String Schema) (target name : String) : Bool :=
  (reach schemas Schema.directReferences [name]).contains target

/-- The schemas that an alias leads to. Objects and enumerations are types of their own and lead
nowhere. -/
def aliasEdges (throughCollections : Bool) : Schema → List String
  | .reference name => [name]
  | .array items => if throughCollections then items.references else []
  | .map values => if throughCollections then values.references else []
  | _ => []

/-- Whether a schema leads back to itself along aliases. -/
def isAliasCycle (schemas : Table String Schema) (throughCollections : Bool) (name : String) : Bool :=
  match schemas.get? name with
  | none => false
  | some schema =>
    (reach schemas (aliasEdges throughCollections) (aliasEdges throughCollections schema)).contains
      name

def fields (schemas : Table String Schema) (typeName : String → String) (name : String)
    (properties : List (String × Property Schema)) : List Field :=
  let idents := Scope.snake.allocateAll (properties.map fun (key, _) => snakeIdent key)
  (properties.zip idents).map fun ((key, property), ident) =>
    { ident
      wireName := key
      type := (TypeRef.ofProperty key property).rename typeName
      boxed := property.schema.directReferences.any (storesIn schemas name)
      description := property.description }

def members (literals : List String) (fallback : Option String) : List Member × Option String :=
  let idents := Scope.pascal.allocateAll ((literals ++ fallback.toList).map memberIdent)
  ((literals.zip idents).map fun (literal, ident) => { ident, literal },
    idents[literals.length]?)

def modelKind (schemas : Table String Schema) (typeName : String → String) (settings : Settings)
    (name : String) (schema : Schema) : ModelKind :=
  let type := (TypeRef.ofSchema name schema).rename typeName
  match schema with
  | .object properties => .struct (fields schemas typeName name properties)
  | .enumeration literals =>
    let (members, fallback) := members literals settings.enumFallback
    .enumeration members fallback
  | .reference _ => if isAliasCycle schemas false name then .alias .unknown else .alias type
  | .array _ => if isAliasCycle schemas true name then .newtype type else .alias type
  | .map _ => if isAliasCycle schemas true name then .newtype type else .alias type
  | _ => .alias type

end ClientForge.Plan
