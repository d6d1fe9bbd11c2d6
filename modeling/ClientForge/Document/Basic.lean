import ClientForge.Api.Endpoint
import ClientForge.Table
import ClientForge.Value.Basic

/-!
Documents that describe an API, as far as a client needs them.
-/

namespace ClientForge.Document

structure Reference where
  location : String
  description : String
  summary : String
  deriving DecidableEq, Repr

/-- Something that stands in its place or is referred to. -/
inductive RefOr (α : Type) where
  | ref (target : Reference)
  | inline (item : α)
  deriving Repr

inductive TypeKeyword where
  | one (name : String)
  | several (names : List String)
  deriving DecidableEq, Repr

namespace TypeKeyword

def names : TypeKeyword → List String
  | one name => [name]
  | several names => names

/-- The first name but `null`. -/
def primary? (type : TypeKeyword) : Option String := type.names.find? (· ≠ "null")

def allowsNull (type : TypeKeyword) : Bool := type.names.any (· = "null")

end TypeKeyword

/-- The keywords of a schema that hold no other schema. -/
structure Keywords where
  type : Option TypeKeyword
  format : Option String
  literals : Option (List Value)
  required : List String
  nullable : Bool
  description : Option String
  deriving Repr

/-- The schema of additional properties: allowed or not, or with a schema of their values. -/
inductive Additional (σ : Type) where
  | flag (allowed : Bool)
  | schema (values : σ)
  deriving Repr

inductive SchemaNode where
  | ref (target : Reference)
  | inline (keywords : Keywords) (items : Option SchemaNode)
    (properties : List (String × SchemaNode)) (additional : Option (Additional SchemaNode))
    (allOf oneOf anyOf : List SchemaNode)
  deriving Repr

structure Parameter where
  name : String
  location : String
  required : Bool
  schema : Option SchemaNode
  description : Option String

structure MediaType where
  schema : Option SchemaNode

structure RequestBody where
  content : Table String MediaType
  required : Bool
  description : Option String

structure Response where
  description : Option String
  content : Table String MediaType

structure Operation where
  operationId : Option String
  summary : Option String
  description : Option String
  tags : List String
  parameters : List (RefOr Parameter)
  requestBody : Option (RefOr RequestBody)
  responses : Table String (RefOr Response)
  deprecated : Bool

/-- The operations at a path, with the parameters that they share. -/
structure PathItem where
  parameters : List (RefOr Parameter)
  operation? : Api.HttpMethod → Option Operation

/-- The operations at a path, in the order in which they are visited. -/
def PathItem.operations (item : PathItem) : List (Api.HttpMethod × Operation) :=
  Api.HttpMethod.all.filterMap fun method => (item.operation? method).map fun op => (method, op)

structure SecurityScheme where
  kind : String
  name : Option String
  location : Option String
  scheme : Option String
  deriving DecidableEq, Repr

structure Components where
  schemas : Table String SchemaNode
  parameters : Table String (RefOr Parameter)
  requestBodies : Table String (RefOr RequestBody)
  responses : Table String (RefOr Response)
  securitySchemes : Table String (RefOr SecurityScheme)

def Components.none : Components :=
  ⟨Table.empty, Table.empty, Table.empty, Table.empty, Table.empty⟩

/-- A server: a template of its URL, and the defaults of the template's variables. -/
structure Server where
  url : String
  defaults : Table String String

end Document

structure Document where
  version : String
  servers : List Document.Server
  paths : Table String Document.PathItem
  components : Option Document.Components

end ClientForge
