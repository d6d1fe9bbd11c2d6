import ClientForge.Document.Pointer
import ClientForge.Resolve.Registry
import ClientForge.Text.Uppercase

/-!
Resolving schemas: every object and every string enumeration becomes a named entry, and every use of
one a reference to its entry. An entry is written before what it holds is resolved, so that a schema
that comes back to itself finds its own name.
-/

namespace ClientForge.Resolve

open Api Document

/-- Resolving changes the registry, also where it fails. -/
abbrev Resolving (α : Type) := ExceptT ReferenceFault (StateM Registry) α

/-- Resolves an entry of its own: what it holds belongs to `name` while `inner` runs. -/
def within (name : String) (inner : Resolving α) : Resolving α := do
  modify fun registry => { registry with owners := name :: registry.owners }
  let result ← ExceptT.lift inner.run
  modify fun registry => { registry with owners := registry.owners.tail }
  MonadExcept.ofExcept result

/-- The candidate names of a property: its own, then its own behind the name of its owner. -/
def propertyNames (owner : Option String) (name : String) : Candidates :=
  ⟨Text.capitalize name, (owner.map (· ++ Text.capitalize name)).toList⟩

def followReference (follow : String → Resolving Schema) (location : String) : Resolving Schema :=
  match componentName? location "schemas" with
  | some name => follow name
  | none => throw (.externalSchema location)

def fill (name : String) (body : Resolving Schema) : Resolving Schema := do
  modify (·.write name .unknown)
  let schema ← body
  modify (·.write name schema)
  return .reference name

/-- Gives an inline definition its entry: the one that it has, the one of an equal component, or a
new one with what `body` resolves to. -/
def enter (components : Table String SchemaNode) (follow : String → Resolving Schema)
    (names : Candidates) (definition : Value) (body : String → Resolving Schema) :
    Resolving Schema := do
  let registry ← get
  let name := names.choose components registry definition
  match holder components registry definition name with
  | .itself => return .reference name
  | .component => follow name
  | _ =>
    modify (·.record name definition)
    fill name (body name)

mutual

/-- Resolves a schema where it is used; `follow` resolves components. -/
def usage (components : Table String SchemaNode) (follow : String → Resolving Schema) :
    Shape → Candidates → Resolving Schema
  | .reference location, _ => followReference follow location
  | .enumeration definition literals, names =>
    enter components follow names definition fun name =>
      within name (pure (.enumeration literals))
  | .record definition fields, names =>
    enter components follow names definition fun name =>
      within name (Schema.object <$> properties components follow fields)
  | .member shape, names => usage components follow shape names
  | .array none, _ => return .array .unknown
  | .array (some items), names =>
    Schema.array <$> usage components follow items (names.suffixed "Item")
  | .map values, names => Schema.map <$> usage components follow values (names.suffixed "Value")
  | .scalar kind format, _ => return .primitive kind format
  | .unknown, _ => return .unknown

def properties (components : Table String SchemaNode) (follow : String → Resolving Schema) :
    List (String × Property Shape) → Resolving (List (String × Property Schema))
  | [] => return []
  | (name, ⟨shape, required, nullable, description⟩) :: rest => do
    let owner := (← get).owners.head?
    let schema ← usage components follow shape (propertyNames owner name)
    let others ← properties components follow rest
    return (name, ⟨schema, required, nullable, description⟩) :: others

end

/-- Resolves what the entry of a component holds. An object or an enumeration stays in place. -/
def entry (components : Table String SchemaNode) (follow : String → Resolving Schema)
    (name : String) : Shape → Resolving Schema
  | .reference location => followReference follow location
  | .enumeration _ literals => within name (pure (.enumeration literals))
  | .record _ fields => within name (Schema.object <$> properties components follow fields)
  | shape => within name (usage components follow shape ⟨name, []⟩)

/-- Resolves a component. `budget` bounds how many components are resolved inside one another; each
of them is written first, so that there are never more than there are components. -/
def followWithin (components : Table String SchemaNode) : Nat → String → Resolving Schema
  | budget, name => do
    if (← get).schemas.contains name then return .reference name
    match components.get? name, budget with
    | some node, budget + 1 =>
      fill name (entry components (followWithin components budget) name (Shape.ofNode node))
    | _, _ => throw (.undefinedSchema name)

def follow (components : Table String SchemaNode) (name : String) : Resolving Schema :=
  followWithin components components.size name

def resolveReference (components : Table String SchemaNode) (location : String) :
    Resolving Schema :=
  followReference (follow components) location

def resolveAt (components : Table String SchemaNode) (node : SchemaNode) (context : String) :
    Resolving Schema := do
  let owner := (← get).owners.head?
  usage components (follow components) (Shape.ofNode node) (propertyNames owner context)

/-- The candidate names of a schema with several owners: the context behind each of them. -/
def ownedNames (owners : List String) (context : String) : Candidates :=
  match distinct (owners.map (· ++ Text.capitalize context)) with
  | [] => ⟨Text.capitalize context, []⟩
  | first :: others => ⟨first, others⟩

/-- Resolves a schema that is named after its owners and its context. -/
def resolveOwned (components : Table String SchemaNode) (node : SchemaNode) (context : String)
    (owners : List String) : Resolving Schema :=
  usage components (follow components) (Shape.ofNode node) (ownedNames owners context)

end ClientForge.Resolve
