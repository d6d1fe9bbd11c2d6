import ClientForge.Failure
import ClientForge.Resolve.Shape

/-!
The names that schemas get. A component has its own name. An inline object or enumeration takes the
first of its candidate names that is free or already its own; behind the candidates come the last of
them with 2, 3, … A name is held by a component even before the component is resolved.
-/

namespace ClientForge.Resolve

open Api Document

/-- What resolving has found so far: the named schemas in the order of their discovery, the
definitions of those that stood inline, and the entries that are being resolved, innermost first. -/
structure Registry where
  schemas : Table String Schema
  origins : Table String Value
  owners : List String

namespace Registry

def empty : Registry := ⟨Table.empty, Table.empty, []⟩

def write (registry : Registry) (name : String) (schema : Schema) : Registry :=
  { registry with schemas := registry.schemas.insert name schema }

def record (registry : Registry) (name : String) (definition : Value) : Registry :=
  { registry with origins := registry.origins.insert name definition }

end Registry

inductive Holder where
  | nobody
  | itself
  | component
  | other
  deriving DecidableEq, Repr

/-- Who holds `name`, seen from `definition`. -/
def holder (components : Table String SchemaNode) (registry : Registry) (definition : Value)
    (name : String) : Holder :=
  match registry.origins.get? name with
  | some origin => if origin.same definition then .itself else .other
  | none =>
    match components.get? name with
    | some node =>
      match node.definition? with
      | some own => if own.same definition then .component else .other
      | none => .other
    | none => if registry.schemas.contains name then .other else .nobody

/-- The candidate names of an inline schema, in order; there is at least one. -/
structure Candidates where
  first : String
  others : List String
  deriving DecidableEq, Repr

namespace Candidates

def toList (names : Candidates) : List String := names.first :: names.others

/-- The last candidate, which is numbered if all are held. -/
def last (names : Candidates) : String := names.others.getLast?.getD names.first

def map (change : String → String) (names : Candidates) : Candidates :=
  ⟨change names.first, names.others.map change⟩

/-- The candidates of a schema inside a list or a map. -/
def suffixed (names : Candidates) (suffix : String) : Candidates := names.map (· ++ suffix)

def numbered (names : Candidates) (n : Nat) : String := names.last ++ toString n

def allows (components : Table String SchemaNode) (registry : Registry) (definition : Value)
    (name : String) : Bool :=
  holder components registry definition name ≠ .other

/-- The first allowed one among `count + 1` numbered candidates from `n` on; the last of them if all
but it are held by others. -/
def firstNumbered (names : Candidates) (isAllowed : String → Bool) : Nat → Nat → String
  | 0, n => names.numbered n
  | count + 1, n =>
    if isAllowed (names.numbered n) then names.numbered n
    else names.firstNumbered isAllowed count (n + 1)

/-- The name that a definition gets. Each name that is held by others is in one of the three tables,
so that of one more numbered names than the tables have entries, one is allowed. -/
def choose (names : Candidates) (components : Table String SchemaNode) (registry : Registry)
    (definition : Value) : String :=
  let isAllowed := allows components registry definition
  match names.toList.find? isAllowed with
  | some name => name
  | none =>
    names.firstNumbered isAllowed
      (registry.origins.size + components.size + registry.schemas.size) 2

end Candidates

end ClientForge.Resolve
